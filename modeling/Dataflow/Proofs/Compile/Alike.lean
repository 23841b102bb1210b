import Dataflow.Proofs.Compile.Plain
import Dataflow.Proofs.Graph.Steps

/-!
# Graphs that compile alike

Two graphs of one shape have nodes in the same places with the same identifiers and parents
(`Graph.Alongside`).  If backends lower the nodes in each place alike, the graphs compile alike
(`Graph.Alongside.matches_compile`): recursion on the parents takes the same way through both.

A node is `Node.shallow` to a depth if its branches are nested no deeper.  To that depth `Node.stepTo` is its
step, and a backend that uses it compiles alike, which serves to evaluate compilations.
-/

namespace Dataflow

open List

variable {α β : Type} {P : Node → Node → Prop} {g g' : Graph}

/-! ### Two graphs of one shape -/

/-- The nodes have the same identifier and parents, and are related. -/
structure Node.Alongside (P : Node → Node → Prop) (n n' : Node) : Prop where
  id : n.id = n'.id
  parents : n.parents = n'.parents
  related : P n n'

/-- The nodes of the two graphs go along with each other, place by place. -/
def Graph.Alongside (P : Node → Node → Prop) (g g' : Graph) : Prop :=
  Forall₂ (Node.Alongside P) g.nodes g'.nodes

namespace Graph.Alongside

variable (h : g.Alongside P g')

include h

theorem ids_eq : g.ids = g'.ids := by
  have hids : Forall₂ Eq (g.nodes.map Node.id) (g'.nodes.map Node.id) :=
    forall₂_map_left_iff.mpr (forall₂_map_right_iff.mpr (h.imp fun _ _ hn => hn.id))
  exact forall₂_eq_eq_eq ▸ hids

theorem size_eq : g.size = g'.size := h.length_eq

theorem edges_eq : g.edges = g'.edges := by
  rw [g.edges_eq, g'.edges_eq]
  unfold Graph.Alongside at h
  generalize g.nodes = ns at h
  generalize g'.nodes = ns' at h
  induction h with
  | nil => rfl
  | cons hn _ ih =>
    rw [flatMap_cons, flatMap_cons, ih, Node.edges, Node.edges, hn.id, hn.parents]

theorem node?_some {id : Text} {n : Node} (hn : g.node? id = some n) :
    ∃ n', g'.node? id = some n' ∧ Node.Alongside P n n' := by
  obtain ⟨hmem, rfl⟩ := Graph.node?_eq_some_iff.mp hn
  obtain ⟨n', hmem', hrel⟩ := exists_mem_of_forall₂ h hmem
  exact ⟨n', Graph.node?_eq_some_iff.mpr ⟨hmem', hrel.id.symm⟩, hrel⟩

theorem node?_none {id : Text} (hn : g.node? id = none) : g'.node? id = none := by
  rw [Graph.node?_eq_none_iff] at hn ⊢
  exact h.ids_eq ▸ hn

theorem schedule {ids : List Text} (hids : g.Schedule ids) : g'.Schedule ids := by
  induction hids with
  | nil => exact .nil
  | concat _ hn hnew hp ih =>
    obtain ⟨n', hn', hrel⟩ := exists_mem_of_forall₂ h hn
    rw [hrel.id] at hnew ⊢
    exact ih.concat hn' hnew (hrel.parents ▸ hp)

theorem ordered (hord : g.Ordered) : g'.Ordered := by
  have hschedule := h.schedule hord
  rwa [h.ids_eq] at hschedule

theorem targets (hsink : ∀ n n', P n n' → (n.op = .sink ↔ n'.op = .sink)) :
    Forall₂ (Node.Alongside P) g.targets g'.targets := by
  have hsinks : Forall₂ (Node.Alongside P) g.sinks g'.sinks :=
    rel_filter (fun n n' hn => by simpa using hsink n n' hn.related) h
  have hleaves : Forall₂ (Node.Alongside P) g.leaves g'.leaves :=
    rel_filter (fun n n' hn => by simp [h.edges_eq, hn.id]) h
  have hempty : g.sinks.isEmpty = g'.sinks.isEmpty := by
    rw [Bool.eq_iff_iff, isEmpty_iff_length_eq_zero, isEmpty_iff_length_eq_zero,
      hsinks.length_eq]
  unfold Graph.targets
  rw [hempty]
  split
  · exact hleaves
  · exact hsinks

end Graph.Alongside

/-! ### Compiling both -/

variable {E : Stop → Stop → Prop} {R : α → β → Prop} {f : Node → List α → Outcome α}
  {f' : Node → List β → Outcome β}

/-- Recursion on the parents gives related outcomes. -/
theorem Graph.Alongside.matches_outcome (h : g.Alongside P g') (hE : ∀ s, E s s)
    (hf : ∀ n n', P n n' → ∀ xs ys, Forall₂ R xs ys → Matches E R (f n xs) (f' n' ys))
    (depth : Nat) (id : Text) : Matches E R (g.outcome f depth id) (g'.outcome f' depth id) := by
  induction depth generalizing id with
  | zero => exact .error (hE _)
  | succ depth ih =>
    cases hn : g.node? id with
    | none =>
      rw [Graph.outcome, Graph.outcome, hn, h.node?_none hn]
      exact .error (hE _)
    | some n =>
      obtain ⟨n', hn', hrel⟩ := h.node?_some hn
      rw [Graph.outcome_succ hn, Graph.outcome_succ hn', ← hrel.parents]
      refine Matches.bind (R := Forall₂ R) ?_ fun xs ys hxy => hf n n' hrel.related xs ys hxy
      exact matches_mapM₂ (forall₂_same.mpr fun p _ => ih p)

/-- The artifacts of the same targets, related one by one. -/
def Targetwise (R : α → β → Prop) : List (Text × α) → List (Text × β) → Prop :=
  Forall₂ fun e e' => e.1 = e'.1 ∧ R e.2 e'.2

theorem Targetwise.eq {ts ts' : List (Text × α)} (h : Targetwise Eq ts ts') : ts = ts' := by
  have heq : Forall₂ Eq ts ts' := Forall₂.imp (fun _ _ he => Prod.ext he.1 he.2) h
  exact forall₂_eq_eq_eq ▸ heq

/-- **Graphs of one shape compile alike**, if related nodes are lowered alike. -/
theorem Graph.Alongside.matches_compile {b : Backend α} {b' : Backend β} (h : g.Alongside P g')
    (hE : ∀ s, E s s) (hb : b.Settled) (hb' : b'.Settled) (hord : g.Ordered)
    (hsink : ∀ n n', P n n' → (n.op = .sink ↔ n'.op = .sink)) (w : Workspace)
    (hlower : ∀ n n', P n n' → ∀ xs ys, Forall₂ R xs ys →
      Matches E R (b.reported w.cancelled n xs) (b'.reported w.cancelled n' ys)) :
    Matches E (Targetwise R) (b.compile g w).1 (b'.compile g' w).1 := by
  by_cases hne : g.nodes = []
  · have hne' : g'.nodes = [] := length_eq_zero_iff.mp (by rw [← h.length_eq, hne]; rfl)
    rw [Backend.compile_fst, Backend.compile_fst, Backend.artifacts, Backend.artifacts,
      if_pos (by simp [hne]), if_pos (by simp [hne'])]
    exact .error (hE _)
  · have hne' : g'.nodes ≠ [] := fun hnil =>
      hne (length_eq_zero_iff.mp (by rw [h.length_eq, hnil]; rfl))
    rw [Backend.compile_eq_plain hb hord hne, Backend.compile_eq_plain hb' (h.ordered hord) hne']
    refine matches_mapM₂ ((h.targets hsink).imp fun t t' ht => ?_)
    rw [← ht.id]
    refine Matches.bind (R := R) ?_ fun a a' ha => .ok ⟨rfl, ha⟩
    rw [Graph.plain, Graph.plain, ← h.size_eq]
    exact h.matches_outcome hE hlower g.size t.id

/-! ### Backends with branches -/

section Branching

variable {name : Text} {lower : Node → List α → Effect α} {explain : Node → Stop → Stop}

theorem Backend.settled_along (h : ∀ n xs, (lower n xs).Settled) (step : Node → Step) :
    (along step name lower explain).Settled := by
  have hcongruent : Congruent Eq Eq (fun _ _ => True) (fun x _ => x.Settled) lower lower explain :=
    { pure := fun {a _} _ => Effect.settled_pure a
      throw := fun _ _ => Effect.settled_throw _
      bind := fun hx hf => hx.bind fun a _ => hf a a trivial
      plain := fun _ _ => h _ _
      joint := congrArg joint }
  exact fun n xs => hcongruent.along rfl (Step.rel_eq (step n)) (forall₂_same.mpr fun x _ => trivial)

/-- The branches of the node are nested no deeper. -/
def Node.shallow : Nat → Node → Bool
  | 0, n => !n.isOperatorComposite
  | k + 1, n => !n.isOperatorComposite || match n.branches with
    | .error _ => true
    | .ok (left, right) => (left ++ right).all (shallow k)

/-- The step of a node whose branches are nested no deeper. -/
def Node.stepTo : Nat → Node → Step
  | 0, n => .single n
  | k + 1, n =>
    if n.isOperatorComposite then
      match n.branches with
      | .error s => .broken n s
      | .ok (left, right) => .composite n (left.map (stepTo k)) (right.map (stepTo k))
    else .single n

theorem Node.step_eq_stepTo {k : Nat} {n : Node} (h : n.shallow k) : n.step = n.stepTo k := by
  induction k generalizing n with
  | zero => exact step_single (by simpa [shallow] using h)
  | succ k ih =>
    cases hcomposite : n.isOperatorComposite with
    | false =>
      rw [step_single hcomposite, stepTo, hcomposite]
      rfl
    | true =>
      cases hb : n.branches with
      | error s =>
        rw [step_broken hcomposite hb, stepTo, if_pos hcomposite, hb]
      | ok sides =>
        obtain ⟨left, right⟩ := sides
        have hall : (∀ m ∈ left, m.shallow k) ∧ ∀ m ∈ right, m.shallow k := by
          simpa [shallow, hcomposite, hb] using h
        rw [step_composite hcomposite hb, stepTo, if_pos hcomposite, hb,
          map_congr_left fun m hm => ih (hall.1 m hm), map_congr_left fun m hm => ih (hall.2 m hm)]

/-- Compiling with steps to a depth that the graph keeps. -/
theorem Backend.compile_along (h : ∀ n xs, (lower n xs).Settled) (hord : g.Ordered) {k : Nat}
    (hg : g.nodes.all (Node.shallow k)) (w : Workspace) :
    ((branching name lower explain).compile g w).1 = ((along (Node.stepTo k) name lower explain).compile g w).1 := by
  have halong : g.Alongside (fun n n' => n = n' ∧ n.shallow k) g :=
    forall₂_same.mpr fun n hn => ⟨rfl, rfl, rfl, all_eq_true.mp hg n hn⟩
  have hmatches : Matches Eq (Targetwise Eq) ((branching name lower explain).compile g w).1
      ((along (Node.stepTo k) name lower explain).compile g w).1 := by
    rw [← along_step]
    refine halong.matches_compile (fun _ => rfl) (settled_along h _) (settled_along h _) hord
      (fun n n' hn => by rw [hn.1]) w fun n n' hn xs ys hxy => ?_
    obtain ⟨rfl, hshallow⟩ := hn
    obtain rfl : xs = ys := forall₂_eq_eq_eq ▸ hxy
    have hlower : (along Node.step name lower explain).lower n xs =
        (along (Node.stepTo k) name lower explain).lower n xs := by
      unfold along
      simp only [Node.step_eq_stepTo hshallow]
    unfold reported
    rw [hlower]
    exact .refl (fun _ => rfl) _
  exact (hmatches.mono fun ts ts' => Targetwise.eq).eq

end Branching

end Dataflow
