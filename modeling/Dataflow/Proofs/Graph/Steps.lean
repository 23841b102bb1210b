import Dataflow.Proofs.Graph.Branches
import Dataflow.Proofs.Parallel

/-!
# Steps of nodes

Nodes that have the same tag and settings and read equally many nodes have steps of the same shape
(`Node.Like.step`): identifiers play no part in it.
-/

namespace Dataflow

open List

variable {P C : Node → Node → Prop}

theorem Step.relAll_map {ns ns' : List Node} {Q : Node → Node → Prop} (h : Forall₂ Q ns ns')
    (hstep : ∀ n ∈ ns, ∀ n', Q n n' → Step.Rel P C n.step n'.step) :
    Step.RelAll P C (ns.map Node.step) (ns'.map Node.step) := by
  induction h with
  | nil => exact .nil
  | @cons n n' ns ns' hn _ ih =>
    exact .cons (hstep n mem_cons_self n' hn) (ih fun m hm => hstep m (mem_cons_of_mem n hm))

/-! ### The step of a node -/

namespace Node

variable {n n' : Node}

theorem step_single (h : n.isOperatorComposite = false) : n.step = .single n := by
  rw [step, h]
  rfl

theorem step_broken {s : Stop} (h : n.isOperatorComposite) (hb : n.branches = .error s) :
    n.step = .broken n s := by
  rw [step, if_pos h]
  split
  · next s' hs =>
    rw [hb] at hs
    cases hs
    rfl
  · next left right hs =>
    rw [hb] at hs
    cases hs

theorem step_composite {left right : List Node} (h : n.isOperatorComposite)
    (hb : n.branches = .ok (left, right)) :
    n.step = .composite n (left.map step) (right.map step) := by
  rw [step, if_pos h]
  split
  · next s hs =>
    rw [hb] at hs
    cases hs
  · next left' right' hs =>
    rw [hb] at hs
    cases hs
    rw [attach_map_val, attach_map_val]

/-- The same tag and settings, and equally many parents. -/
structure Like (n n' : Node) : Prop where
  op : n.op = n'.op
  config : n.config = n'.config
  parents : n.parents.length = n'.parents.length

theorem Like.refl (n : Node) : n.Like n := ⟨rfl, rfl, rfl⟩

theorem Like.exists_fields (h : n.Like n') : ∃ op config id parents id' parents',
    n = { id, op, config, parents } ∧ n' = { id := id', op, config, parents := parents' } := by
  refine ⟨n.op, n.config, n.id, n.parents, n'.id, n'.parents, rfl, ?_⟩
  rw [h.op, h.config]

theorem Like.of_part (h : n.part = n'.part)
    (hparents : n.parents.length = n'.parents.length) : n.Like n' :=
  ⟨congrArg Prod.fst h, congrArg Prod.snd h, hparents⟩

theorem Like.value? (h : n.Like n') (key : Text) : n.value? key = n'.value? key := by
  rw [Node.value?, Node.value?, h.config]

theorem Like.isOperatorComposite (h : n.Like n') :
    n.isOperatorComposite = n'.isOperatorComposite := by
  rw [Node.isOperatorComposite, Node.isOperatorComposite, h.op, h.config, h.parents]

end Node

/-! ### Descriptions and identifiers -/

mutual

/-- Identifiers play no part in what a description stands for. -/
theorem expand_like (id id' p p' : Text) (desc : Value) :
    Matches Eq (Forall₂ Node.Like) (expand id desc p) (expand id' desc p') := by
  rw [expand, expand]
  split
  · exact .error rfl
  · next d hrow =>
    refine (Matches.refl (fun _ => rfl) _).bind fun name name' hname => ?_
    subst hname
    refine (Matches.refl (fun _ => rfl) _).bind fun op op' hop => ?_
    split
    · exact .ok (.cons ⟨hop, rfl, rfl⟩ .nil)
    · next steps hsteps => exact expandAll_like id id' 0 p p' steps
termination_by sizeOf desc
decreasing_by exact sizeOf_lt_of_stepsOf?_subRow (by assumption) (by assumption)

theorem expandAll_like (id id' : Text) (k : Nat) (p p' : Text) (steps : List Value) :
    Matches Eq (Forall₂ Node.Like) (expandAll id k steps p) (expandAll id' k steps p') := by
  cases steps with
  | nil =>
    rw [expandAll, expandAll]
    exact .ok .nil
  | cons step steps =>
    rw [expandAll, expandAll]
    refine (expand_like _ _ p p' step).bind fun sub sub' hsub => ?_
    refine (expandAll_like id id' (k + 1) _ _ steps).bind fun more more' hmore => ?_
    exact .ok (rel_append hsub hmore)
termination_by sizeOf steps

end

namespace Node.Like

variable {n n' : Node}

theorem branches (h : n.Like n') : Matches Eq
    (fun b b' => Forall₂ Node.Like b.1 b'.1 ∧ Forall₂ Node.Like b.2 b'.2)
    n.branches n'.branches := by
  have hparents := h.parents
  unfold Node.branches
  rw [h.value?, h.value?]
  split
  · next p l r hp hl hr =>
    rw [hp] at hparents
    obtain ⟨p', hp'⟩ := length_eq_one_iff.mp hparents.symm
    rw [hp', hl, hr]
    refine (expand_like _ _ p p' l).bind fun left left' hleft => ?_
    exact (expand_like _ _ p p' r).bind fun right right' hright => .ok ⟨hleft, hright⟩
  · next hnone =>
    split
    · next p' l r hp' hl hr =>
      rw [hp'] at hparents
      obtain ⟨p, hp⟩ := length_eq_one_iff.mp hparents
      exact absurd hr (hnone p l r hp hl)
    · exact .ok ⟨.nil, .nil⟩

/-- Nodes that are alike have steps of the same shape. -/
theorem step (h : n.Like n') : Step.Rel Node.Like (fun m m' => m.op = m'.op) n.step n'.step := by
  induction hk : sizeOf n.config using Nat.strongRecOn generalizing n n' with
  | ind k ih =>
    cases hcomposite : n.isOperatorComposite with
    | false =>
      rw [Node.step_single hcomposite, Node.step_single (h.isOperatorComposite ▸ hcomposite)]
      exact .single h
    | true =>
      have hcomposite' : n'.isOperatorComposite := h.isOperatorComposite ▸ hcomposite
      have hbranches := h.branches
      cases hb : n.branches <;> cases hb' : n'.branches <;> rw [hb, hb'] at hbranches <;> cases hbranches
      · next s s' hs =>
        rw [Node.step_broken hcomposite hb, Node.step_broken hcomposite' hb', hs]
        exact .broken h.op s'
      · next hs =>
        rw [Node.step_composite hcomposite hb, Node.step_composite hcomposite' hb']
        refine .composite h.op (Step.relAll_map hs.1 fun m hm m' hlike => ?_)
          (Step.relAll_map hs.2 fun m hm m' hlike => ?_)
        · exact ih _ (hk ▸ Node.sizeOf_config_lt_of_branches hb (.inl hm)) hlike rfl
        · exact ih _ (hk ▸ Node.sizeOf_config_lt_of_branches hb (.inr hm)) hlike rfl

end Node.Like

/-! ### Lowering steps -/

namespace Backend

variable {α : Type} {lower : Node → List α → Effect α} {name : Text} {explain : Node → Stop → Stop}

theorem isOperatorComposite_joint (n : Node) : (joint n).isOperatorComposite = false := by
  simp [Node.isOperatorComposite, joint]

theorem lower_branching (n : Node) (xs : List α) : (branching name lower explain).lower n xs =
    match n.step, xs with
    | .single n, parents => lower n parents
    | s, input :: _ => lowerStep lower explain s input
    | _, [] => lower n [] := rfl

theorem lower_branching_one (n : Node) (x : α) :
    (branching name lower explain).lower n [x] = lowerStep lower explain n.step x := by
  rw [lower_branching]
  cases n.step <;> simp only [lowerStep]

theorem lowerSteps_map_step (name : Text) (ms : List Node) (x : α) :
    lowerSteps lower explain (ms.map Node.step) x =
      ms.foldlM (fun x m => (branching name lower explain).lower m [x]) x := by
  induction ms generalizing x with
  | nil => rfl
  | cons m ms ih =>
    rw [List.map_cons, lowerSteps, foldlM_cons, lower_branching_one]
    exact bind_congr ih

theorem lower_branching_plain {n : Node} (h : n.isOperatorComposite = false) (xs : List α) :
    (branching name lower explain).lower n xs = lower n xs := by
  rw [lower_branching, Node.step_single h]

theorem lower_branching_broken {n : Node} {s : Stop} (h : n.isOperatorComposite)
    (hb : n.branches = .error s) (x : α) :
    (branching name lower explain).lower n [x] = throw (explain n s) := by
  rw [lower_branching_one, Node.step_broken h hb, lowerStep]

/-- A composite node is lowered as its branches, one after the other, and a node that joins them. -/
theorem lower_branching_composite {n : Node} {left right : List Node} (h : n.isOperatorComposite)
    (hb : n.branches = .ok (left, right)) (x : α) : (branching name lower explain).lower n [x] = (do
      let l ← left.foldlM (fun x m => (branching name lower explain).lower m [x]) x
      let r ← right.foldlM (fun x m => (branching name lower explain).lower m [x]) x
      lower (joint n) [l, r]) := by
  rw [lower_branching_one, Node.step_composite h hb, lowerStep, lowerSteps_map_step name]
  refine bind_congr fun l => ?_
  rw [lowerSteps_map_step name]
  rfl

/-- The backend lowers a composite node as its branches, one after the other, and a node that joins them. -/
def Unfolds (b : Backend α) : Prop :=
  ∀ {n left right}, n.isOperatorComposite → n.branches = .ok (left, right) → ∀ x,
    b.lower n [x] = (do
      let l ← left.foldlM (fun x m => b.lower m [x]) x
      let r ← right.foldlM (fun x m => b.lower m [x]) x
      b.lower (joint n) [l, r])

theorem unfolds_branching : (branching name lower explain).Unfolds := by
  intro n left right hcomposite hbranches x
  rw [lower_branching_composite hcomposite hbranches]
  refine bind_congr fun l => bind_congr fun r => ?_
  rw [lower_branching_plain (isOperatorComposite_joint n)]

end Backend

end Dataflow
