import Dataflow.Outline
import Dataflow.Proofs.Compile.Composition

/-!
# Outlines of composed operators

The outline of a node does not depend on its identifier, and that of a composite node is the outline of
its branches under one call, so that the backend composes (`Outline.composing_backend`).  Operators on one
stream have an outline on top of every text (`Outline.exists_ofSteps`).
-/

namespace Dataflow

open List Effect Node

variable {n : Node} {o : Operator} {t : Text} {op : Op}

theorem Effect.ofOutcome_bind {α β : Type} (o : Outcome α) (f : α → Outcome β) :
    ofOutcome (o >>= f) = (do let a ← ofOutcome o; ofOutcome (f a)) := by
  cases o with
  | ok a => rfl
  | error s => rfl

theorem Node.exists_text {key : Text} (h : n.value? key = some (.text t)) (default : Text) :
    ∃ u, n.text key default = .ok u := by
  refine ⟨if t.isEmpty then default else t, ?_⟩
  unfold text setting?
  rw [h]
  rfl

namespace Outline

theorem ofNode_like {n' : Node} (h : n.Like n') (inputs : List Text) :
    ofNode n inputs = ofNode n' inputs := by
  obtain ⟨op, config, id, parents, id', parents', rfl, rfl⟩ := h.exists_fields
  rfl

section Steps

variable {P C : Node → Node → Prop}

mutual

/-- Steps of the same shape have the same outline, if their nodes have. -/
theorem ofStep_rel (hP : ∀ n n', P n n' → ∀ inputs, ofNode n inputs = ofNode n' inputs)
    (hC : ∀ n n', C n n' → n.op = n'.op) {s s' : Step} (h : Step.Rel P C s s') (t : Text) :
    ofStep s t = ofStep s' t := by
  cases h with
  | single h =>
    rw [ofStep, ofStep]
    exact hP _ _ h _
  | broken h s =>
    cases s with
    | failure f => rw [ofStep, ofStep, hC _ _ h]
    | crash => rw [ofStep, ofStep]
  | composite h hleft hright =>
    rw [ofStep, ofStep, ofSteps_rel hP hC hleft, ofSteps_rel hP hC hright, hC _ _ h]

theorem ofSteps_rel (hP : ∀ n n', P n n' → ∀ inputs, ofNode n inputs = ofNode n' inputs)
    (hC : ∀ n n', C n n' → n.op = n'.op) {ss ss' : List Step} (h : Step.RelAll P C ss ss') (t : Text) :
    ofSteps ss t = ofSteps ss' t := by
  cases h with
  | nil => rfl
  | cons h hrest =>
    rw [ofSteps, ofSteps, ofStep_rel hP hC h]
    exact bind_congr fun u => ofSteps_rel hP hC hrest u

end

theorem lower_backend (n : Node) (inputs : List Text) : backend.lower n inputs =
    ofOutcome (match n.step with
      | .single n => ofNode n inputs
      | s => ofStep s (input inputs 0)) := rfl

/-- Nodes whose steps have the same shape are lowered alike. -/
theorem lower_rel (hP : ∀ n n', P n n' → ∀ inputs, ofNode n inputs = ofNode n' inputs)
    (hC : ∀ n n', C n n' → n.op = n'.op) {n' : Node} (h : Step.Rel P C n.step n'.step)
    (inputs : List Text) : backend.lower n inputs = backend.lower n' inputs := by
  rw [lower_backend, lower_backend]
  generalize n.step = s at h
  generalize n'.step = s' at h
  have hrel := ofStep_rel hP hC h (input inputs 0)
  cases h with
  | single h => exact congrArg _ (hP _ _ h inputs)
  | broken h s | composite h hleft hright => exact congrArg _ hrel

end Steps

theorem lower_one (n : Node) (t : Text) : backend.lower n [t] = ofOutcome (ofStep n.step t) := by
  rw [lower_backend]
  cases n.step <;> rfl

theorem ofSteps_map_step (ms : List Node) (t : Text) :
    ofOutcome (ofSteps (ms.map step) t) = ms.foldlM (fun t m => backend.lower m [t]) t := by
  induction ms generalizing t with
  | nil => rfl
  | cons m ms ih =>
    rw [List.map_cons, ofSteps, ofOutcome_bind, foldlM_cons, lower_one]
    exact bind_congr ih

theorem op_of_isOperatorComposite (h : n.isOperatorComposite) :
    n.op = .choice ∨ n.op = .ensemble := by
  simp only [isOperatorComposite, Bool.and_eq_true, Bool.or_eq_true, decide_eq_true_eq] at h
  exact h.1.1

theorem lower_joint (h : n.isOperatorComposite) (l r : Text) :
    backend.lower (Backend.joint n) [l, r] = ofOutcome (.ok (call n.op.name [l, r])) := by
  rw [lower_backend, step_single (Backend.isOperatorComposite_joint n)]
  obtain ⟨id, op, config, parents⟩ := n
  rcases op_of_isOperatorComposite h with hop | hop <;> obtain rfl := hop <;> rfl

theorem composing_backend : backend.Composing Eq where
  refl := fun _ => rfl
  alike := by
    intro n n' xs ys hlike hxy
    obtain rfl : xs = ys := forall₂_eq_eq_eq ▸ hxy
    rw [lower_rel (fun m m' => ofNode_like) (fun m m' h => h) hlike.step]
    exact resembles_refl (settled_ofOutcome _)
  unfolds := by
    intro n left right hcomposite hbranches x
    rw [lower_one, step_composite hcomposite hbranches, ofStep, ofOutcome_bind,
      ofSteps_map_step]
    refine bind_congr fun l => ?_
    rw [ofOutcome_bind, ofSteps_map_step]
    exact bind_congr fun r => (lower_joint hcomposite l r).symm

/-! ### Operators on one stream have an outline -/

theorem exists_ofSteps {ms : List Node} (h : ∀ m ∈ ms, ∀ t, ∃ u, ofStep m.step t = .ok u) (t : Text) :
    ∃ u, ofSteps (ms.map step) t = .ok u := by
  induction ms generalizing t with
  | nil => exact ⟨t, rfl⟩
  | cons m ms ih =>
    obtain ⟨u, hu⟩ := h m mem_cons_self t
    obtain ⟨v, hv⟩ := ih (fun m hm => h m (mem_cons_of_mem _ hm)) u
    refine ⟨v, ?_⟩
    rw [List.map_cons, ofSteps, hu]
    exact hv

/-- The nodes of the operator have an outline on top of every text. -/
def Drawable (l : Operator) : Prop :=
  ∀ m : Node, m.part = l.part → m.parents.length = 1 → ∀ t, ∃ u, ofStep m.step t = .ok u

theorem Drawable.of_rebuilds (h : ∀ l ∈ o.leaves, Drawable l) {p : Text} {ms : List Node}
    (hms : o.Rebuilds p ms) : ∀ m ∈ ms, ∀ t, ∃ u, ofStep m.step t = .ok u := by
  intro m hm
  have hpart : m.part ∈ o.leaves.map Operator.part := hms.parts ▸ mem_map_of_mem hm
  obtain ⟨l, hl, heq⟩ := mem_map.mp hpart
  exact h l hl m heq.symm (hms.chained.parents_length hm)

/-- A node that names what it does has an outline. -/
theorem exists_ofNode (key : Text) (h : n.value? key = some (.text t))
    (hkey : (n.op, key) ∈ [(.source, ("uri" : Text)), (.map, "fn_name"), (.filter, "fn_name"),
      (.reduce, "fn_name"), (.custom, "kind"), (.sink, "uri")]) (inputs : List Text) :
    ∃ u, ofNode n inputs = .ok u := by
  have hof (default : Text) (f : Text → Text) : ∃ u, (do return f (← n.text key default)) = .ok u := by
    obtain ⟨u, hu⟩ := exists_text h default
    exact ⟨_, congrArg (· >>= _) hu⟩
  obtain ⟨id, op, config, parents⟩ := n
  simp only [mem_cons, Prod.mk.injEq, not_mem_nil, or_false] at hkey
  rcases hkey with ⟨rfl, rfl⟩ | ⟨rfl, rfl⟩ | ⟨rfl, rfl⟩ | ⟨rfl, rfl⟩ | ⟨rfl, rfl⟩ | ⟨rfl, rfl⟩
  exacts [hof "unknown" _, hof "fn" _, hof "pred" _, hof "fn" _, hof "Custom" _, hof "stdout" _]

theorem drawable_single {config : Row} (hplain : op ≠ .choice ∧ op ≠ .ensemble)
    (hnode : ∀ id p t, ∃ u, ofNode { id, op, config, parents := [p] } [t] = .ok u) :
    Drawable (.single op config) := by
  rintro ⟨id, op', config', parents⟩ hpart hparents t
  cases hpart
  obtain ⟨p, rfl⟩ := length_eq_one_iff.mp hparents
  have hcomposite : isOperatorComposite { id, op, config, parents := [p] } = false := by
    simp [isOperatorComposite, hplain]
  show ∃ u, ofStep (step { id, op, config, parents := [p] }) t = .ok u
  rw [step_single hcomposite, ofStep]
  exact hnode id p t

/-- A choice or an ensemble is drawn branch by branch. -/
theorem drawable_composite (hop : op = .choice ∨ op = .ensemble) {a b : Operator}
    (ha : a.Staged) (hb : b.Staged) (iha : ∀ l ∈ a.leaves, Drawable l) (ihb : ∀ l ∈ b.leaves, Drawable l) :
    Drawable (.single op (Operator.branchConfig a b)) := by
  rintro ⟨id, op', config', parents⟩ hpart hparents t
  cases hpart
  obtain ⟨p, rfl⟩ := length_eq_one_iff.mp hparents
  obtain ⟨left, right, hbranches, hrec⟩ :=
    Operator.recovers_of_stepless ha.declared hb.declared ha.stepless hb.stepless op id p
  obtain ⟨l, hl⟩ := exists_ofSteps (Drawable.of_rebuilds iha hrec.first) t
  obtain ⟨r, hr⟩ := exists_ofSteps (Drawable.of_rebuilds ihb hrec.second) t
  refine ⟨call op.name [l, r], ?_⟩
  show ofStep (Operator.composite op a b id p).step t = _
  rw [step_composite (Operator.isComposite hop a b id p) hbranches, ofStep, hl, hr]
  rfl

theorem drawable_stage (h : o.Stage) : Drawable o := by
  cases h with
  | map f | filter f | reduce f init =>
    refine drawable_single (by decide) fun id p t => exists_ofNode "fn_name" (t := f.text) ?_ (by simp) [t]
    exact Operator.get?_withExpr (by decide)
  | window size => exact drawable_single (by decide) fun id p t => ⟨_, rfl⟩
  | custom kind h =>
    refine drawable_single (by decide) fun id p t => exists_ofNode "kind" (t := kind) ?_ (by simp) [t]
    exact (Fields.get?_set ..).trans (if_pos rfl)

/-- Every operator on one stream can be drawn. -/
theorem drawable_of_staged (h : o.Staged) : ∀ l ∈ o.leaves, Drawable l := by
  refine h.forall_leaves (fun o ho => ?_) fun op a b hop ha hb iha ihb => drawable_composite hop ha hb iha ihb
  rw [ho.leaves_eq]
  exact forall_mem_singleton.mpr (drawable_stage ho)

theorem lower_plain (h : n.op ≠ .choice ∧ n.op ≠ .ensemble) (inputs : List Text) :
    backend.lower n inputs = ofOutcome (ofNode n inputs) := by
  have hcomposite : n.isOperatorComposite = false := by simp [isOperatorComposite, h]
  rw [lower_backend, step_single hcomposite]

theorem reported_ok {inputs : List Text}
    (h : backend.lower n inputs = ofOutcome (.ok t)) : backend.reported false n inputs = .ok t := by
  rw [Backend.reported_false, h]
  rfl

/-- The graph of two composed operators has an outline. -/
theorem exists_compile {origin : Session.Origin} (hop : op = .choice ∨ op = .ensemble)
    {a b : Operator} (ha : a.Staged) (hb : b.Staged) {uri : Text} {g : Graph} {src c k : Node}
    (hg : Session.Composed origin op a b uri g src c k) {w : Workspace} (hw : w.cancelled = false) :
    ∃ t, (Backend.compile backend g w).1 = .ok [(k.id, t)] := by
  have hsourceOp : src.op = .source := congrArg Prod.fst hg.source
  have hsinkOp : k.op = .sink := congrArg Prod.fst hg.sink
  have hsourceConfig : src.config = origin.config := congrArg Prod.snd hg.source
  have hsinkConfig : k.config = (Operator.sink uri).config := congrArg Prod.snd hg.sink
  obtain ⟨x, hx⟩ : ∃ t, ofNode src [] = .ok t := by
    obtain ⟨u, hu⟩ : ∃ u, src.value? "uri" = some (.text u) := by
      rw [value?, hsourceConfig]
      cases origin <;> exact ⟨_, rfl⟩
    exact exists_ofNode "uri" hu (by simp [hsourceOp]) []
  obtain ⟨z, hz⟩ : ∃ t, ofStep c.step x = .ok t := by
    refine drawable_composite hop ha hb (drawable_of_staged ha) (drawable_of_staged hb) c ?_ ?_ x
    · rw [hg.composite]
      rfl
    · rw [hg.composite]
      rfl
  obtain ⟨t, ht⟩ : ∃ t, ofNode k [z] = .ok t := by
    refine exists_ofNode "uri" (t := uri) ?_ (by simp [hsinkOp]) [z]
    rw [value?, hsinkConfig]
    rfl
  have hsource : backend.reported false src [] = .ok x :=
    reported_ok (by rw [lower_plain (by simp [hsourceOp]), hx])
  have hboth : backend.reported false c [x] = .ok z := reported_ok (by rw [lower_one, hz])
  have hlast : backend.reported false k [z] = .ok t :=
    reported_ok (by rw [lower_plain (by simp [hsinkOp]), ht])
  have htargets : g.targets = [k] := hg.targets (by rcases hop with rfl | rfl <;> simp)
  have hplain : g.plain (backend.reported w.cancelled) k.id = .ok t := by
    rw [hg.plain, hw, hsource]
    show (do let z ← backend.reported false c [x]; backend.reported false k [z]) = _
    rw [hboth]
    exact hlast
  refine ⟨t, ?_⟩
  rw [Backend.compile_target composing_backend.settled hg.ordered (by simp [hg.nodes]) htargets, hplain]
  rfl

end Outline

end Dataflow
