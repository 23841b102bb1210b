import Dataflow.Proofs.Compile.Classification

/-!
# Backends that implement a function

A backend implements a function of nodes and inputs, up to a relation between its artifacts and the
values of the function, if it lowers every node of a graph to an artifact of what the function gives.
Such a backend compiles every ordered graph, and the artifacts are those of the plain recursion: lowering
keeps the relation between the memo and `Graph.evaluate`, entry by entry (`Implements.succeeds`).
-/

namespace Dataflow

open List

namespace Backend

variable {α β : Type} {b : Backend α} {g : Graph} {f : Node → List β → Outcome β} {R : α → β → Prop}

/-- In a run that has not been called off, the backend lowers every node to an artifact of what the
function gives, and does not call the run off. -/
def Implements (b : Backend α) (g : Graph) (f : Node → List β → Outcome β) (R : α → β → Prop) : Prop :=
  ∀ n ∈ g.nodes, ∀ xs ys (w : Workspace), Forall₂ R xs ys → ys.length = n.parents.length →
    w.cancelled = false → ∃ x y w', (b.lower n xs).run.run w = (.ok x, w') ∧ w'.cancelled = false ∧
      f n ys = .ok y ∧ R x y

/-- The recursion gives the value of an artifact from some depth on. -/
def Evaluates (g : Graph) (f : Node → List β → Outcome β) (R : α → β → Prop) (depth : Nat) (id : Text)
    (x : α) : Prop :=
  ∃ y, (∀ d, depth ≤ d → g.evaluate f d id = some y) ∧ R x y

/-- All entries of a memo are artifacts of what the recursion gives, no deeper than the memo is long. -/
def Evaluated (g : Graph) (f : Node → List β → Outcome β) (R : α → β → Prop)
    (memo : List (Text × α)) : Prop :=
  ∀ e ∈ memo, Evaluates g f R memo.length e.1 e.2

theorem Evaluated.inputs {c : Compilation α} (hc : Evaluated g f R c.memo) {parents : List Text}
    {xs : List α} (h : Forall₂ (fun p x => c.artifact? p = some x) parents xs) :
    ∃ ys, Forall₂ R xs ys ∧ ys.length = parents.length ∧
      ∀ d, c.memo.length ≤ d → parents.mapM (g.evaluate f d) = some ys := by
  obtain ⟨ys, hys, hR⟩ := exists_forall₂_along (T := R)
    (S := fun p y => ∀ d, c.memo.length ≤ d → g.evaluate f d p = some y) h fun p _ x _ hp =>
      hc (p, x) (Compilation.mem_of_artifact? hp)
  exact ⟨ys, hR, hys.length_eq.symm, fun d hd => mapM_eq_some_iff.mpr (hys.imp fun _ _ h => h d hd)⟩

namespace Implements

variable (h : Implements b g f R)

include h

theorem succeeds : Succeeds b g fun c => Evaluated g f R c.memo ∧ Live c := by
  intro n inputs c hready hc
  obtain ⟨ys, hRs, hlength, hys⟩ := hc.1.inputs hready.inputs
  obtain ⟨x, y, w', hlower, hlive, hy, hR⟩ := h n hready.mem inputs ys c.workspace hRs hlength hc.2
  refine ⟨hc.2, x, w', hlower, fun e he => ?_, hlive⟩
  rw [length_append, length_singleton]
  rw [mem_append, mem_singleton] at he
  rcases he with he | rfl
  · obtain ⟨z, hz, hRz⟩ := hc.1 e he
    exact ⟨z, fun d hd => hz d (by omega), hRz⟩
  · refine ⟨y, fun d hd => ?_, hR⟩
    obtain ⟨d, rfl⟩ : ∃ k, d = k + 1 := ⟨d - 1, by omega⟩
    have hnode : g.node? n.id = some n := Graph.node?_eq_some_iff.mpr ⟨hready.mem, rfl⟩
    exact Graph.evaluate_succ_eq_some.mpr ⟨n, hnode, ys, hys d (by omega), hy⟩

/-- **Ordered graphs compile to the plain recursion**: to an artifact of what it gives for each target. -/
theorem compile (hord : g.Ordered) (hne : g.nodes ≠ []) {w : Workspace} (hw : w.cancelled = false) :
    ∃ ts, (b.compile g w).1 = .ok ts ∧ ts.map Prod.fst = g.targets.map Node.id ∧
      ∀ t ∈ ts, Evaluates g f R g.size t.1 t.2 := by
  rcases h.succeeds.compile_ends hne (w := w) ⟨by simp [Evaluated], hw⟩ with
    ⟨ts, c, hts, hentries, hlowered, hevaluated, -⟩ | ⟨s, hs, t, ht, hblocked⟩
  · refine ⟨ts, hts, map_fst_of_entries hentries, fun t ht => ?_⟩
    have hmem := Compilation.mem_of_artifact? (artifact?_of_mem_entries hentries ht)
    obtain ⟨y, hy, hR⟩ := hevaluated _ hmem
    exact ⟨y, fun d hd => hy d (Nat.le_trans hlowered.length_le hd), hR⟩
  · have hmem := Graph.mem_ids_of_mem (Graph.mem_of_mem_targets ht)
    exact absurd hblocked.defective (hord.not_defective hmem)

end Implements

end Backend

end Dataflow
