import Dataflow.Proofs.Compile.Walk

/-!
# Compiling with a pure function

`g.evaluate f` is the plain recursion that a compilation stands for: the function applied to a node
and to what its parents evaluate to, with no memo.  `recording name f` is the backend of a pure
function that also notes every node it is given.

Main statement (`compile_recording`): where such a compilation gives artifacts, they are those of
the plain recursion, for the sinks or else the leaves in their order; and the backend is given the
targets and their ancestors, each once and after its parents, and nothing else.
-/

namespace Dataflow

open List

variable {α : Type} {memo : List (Text × α)} {ts : List (Text × α)}

/-- The artifact of a node by recursion on its parents, as deep as `depth`. -/
def Graph.evaluate (g : Graph) (f : Node → List α → Outcome α) : Nat → Text → Option α
  | 0, _ => none
  | depth + 1, id => do
    let n ← g.node? id
    let inputs ← n.parents.mapM (g.evaluate f depth)
    (f n inputs).toOption

/-- One step of the recursion. -/
theorem Graph.evaluate_succ_eq_some {g : Graph} {f : Node → List α → Outcome α} {depth : Nat} {id : Text} {a : α} :
    g.evaluate f (depth + 1) id = some a ↔ ∃ n, g.node? id = some n ∧
      ∃ inputs, n.parents.mapM (g.evaluate f depth) = some inputs ∧ f n inputs = .ok a := by
  have hok (o : Outcome α) : o.toOption = some a ↔ o = .ok a := by
    cases o <;> simp [Except.toOption]
  simp only [Graph.evaluate, Option.bind_eq_bind, Option.bind_eq_some_iff, hok]

namespace Backend

/-- The backend of a pure function.  It notes the nodes it is given. -/
def recording (name : Text) (f : Node → List α → Outcome α) : Backend α where
  name := name
  lower n inputs := do
    Effect.note (.said n.id)
    Effect.ofOutcome (f n inputs)

variable {name : Text} {f : Node → List α → Outcome α} {g : Graph} {n : Node} {inputs : List α}

theorem run_recording {w : Workspace} : ((recording name f).lower n inputs).run.run w =
    (f n inputs, { w with notes := w.notes ++ [.said n.id] }) := by
  have hnote : (Effect.note (.said n.id)).run.run w =
      (.ok ⟨⟩, { w with notes := w.notes ++ [.said n.id] }) := rfl
  show (Effect.note (.said n.id) >>= fun _ => Effect.ofOutcome (f n inputs)).run.run w = _
  rw [run_bind_ok hnote]
  cases f n inputs <;> rfl

/-- The notes of a walk from `w` are the nodes in the memo. -/
def Noted (w : Workspace) (c : Compilation α) : Prop :=
  c.workspace.notes = w.notes ++ c.memo.map fun e => .said e.1

theorem keeps_noted {w : Workspace} : Keeps (recording name f) g (Noted w) := by
  intro n inputs c a c' _ hc hrun
  obtain ⟨-, hlower, hmemo⟩ := lowerAt_ok hrun
  rw [run_recording] at hlower
  have hnotes : c'.workspace.notes = c.workspace.notes ++ [.said n.id] := by
    rw [← (Prod.mk.inj hlower).2]
  unfold Noted at hc ⊢
  rw [hnotes, hc, hmemo]
  simp

/-- Entries of the memo hold what the plain recursion gives.  The parents of an entry stand before it,
so that the recursion is no deeper than the memo is long. -/
theorem Lowered.evaluate_eq (h : Lowered (recording name f) g memo) {id : Text}
    {a : α} (hmem : (id, a) ∈ memo) {depth : Nat} (hdepth : memo.length ≤ depth) :
    g.evaluate f depth id = some a := by
  induction h generalizing id a depth with
  | nil => simp at hmem
  | @concat memo n inputs b w w' _ hn _ hnew hinputs hb ih =>
    rw [length_append, length_singleton] at hdepth
    rcases mem_append.mp hmem with hmem | hmem
    · exact ih hmem (by omega)
    · obtain ⟨rfl, rfl⟩ : id = n.id ∧ a = b := by simpa using hmem
      obtain ⟨depth, rfl⟩ : ∃ d, depth = d + 1 := ⟨depth - 1, by omega⟩
      have hnode : g.node? n.id = some n := Graph.node?_eq_some_iff.mpr ⟨hn, rfl⟩
      have hparents : n.parents.mapM (g.evaluate f depth) = some inputs :=
        mapM_eq_some_iff.mpr (hinputs.imp fun p x hx => ih hx (by omega))
      have hf : f n inputs = .ok a := by
        rw [run_recording] at hb
        exact (Prod.mk.inj hb).1
      exact Graph.evaluate_succ_eq_some.mpr ⟨n, hnode, inputs, hparents, hf⟩

theorem Lowered.length_le {b : Backend α} (h : Lowered b g memo) :
    memo.length ≤ g.size := by
  have hle := h.schedule.nodup.length_le_of_subset h.schedule.subset_ids
  simpa [Graph.size, Graph.ids] using hle

/-- A memo with all targets holds exactly the needed nodes. -/
theorem Lowered.mem_iff {b : Backend α} (h : Lowered b g memo)
    (htargets : ∀ t ∈ g.targets, t.id ∈ memo.map Prod.fst) {id : Text} :
    id ∈ memo.map Prod.fst ↔ g.Needed id := by
  constructor
  · exact h.needed
  · rintro ⟨t, ht, hreach⟩
    exact h.schedule.mem_of_reaches (htargets t ht) hreach

theorem keeps_recorded (name : Text) (f : Node → List α → Outcome α) (g : Graph) (w : Workspace) :
    Keeps (recording name f) g fun c => Lowered (recording name f) g c.memo ∧ Noted w c := by
  intro n inputs c a c' hready hc hrun
  exact ⟨keeps_lowered hready hc.1 hrun, keeps_noted hready hc.2 hrun⟩

/-- **Compilation is plain recursion, once per node.**  The targets are the sinks, or the leaves where
there is no sink; each artifact is what the plain recursion gives, however deep it may go beyond the
number of nodes; and the nodes given to the backend are the targets and their ancestors, each once,
after its parents. -/
theorem compile_recording (name : Text) (f : Node → List α → Outcome α) (g : Graph) (w : Workspace)
    (ts : List (Text × α)) (h : ((recording name f).compile g w).1 = .ok ts) :
    ts.map Prod.fst = (if g.sinks.isEmpty then g.leaves else g.sinks).map Node.id ∧
    (∀ entry ∈ ts, ∀ depth, g.size ≤ depth → g.evaluate f depth entry.1 = some entry.2) ∧
    ∃ calls : List Text,
      ((recording name f).compile g w).2.workspace.notes = w.notes ++ calls.map .said ∧
      calls.Nodup ∧
      (∀ id, id ∈ calls ↔ ∃ t ∈ g.targets, Relation.ReflTransGen g.Reads t.id id) ∧
      ∀ before id after, calls = before ++ id :: after → ∀ p, g.Reads id p → p ∈ before := by
  rw [compile_fst] at h
  rw [compile_notes]
  rcases hrun : (artifacts (recording name f) g).run.run { workspace := w } with ⟨r, c⟩
  rw [hrun] at h
  obtain rfl : r = .ok ts := h
  obtain ⟨hentries, hlowered, hnoted⟩ :=
    (runs_artifacts (keeps_recorded name f g w) ⟨.nil, by simp [Noted]⟩).ok hrun
  have htargets : ∀ t ∈ g.targets, t.id ∈ c.memo.map Prod.fst := by
    intro t ht
    obtain ⟨entry, -, -, ha⟩ := exists_mem_of_forall₂ hentries ht
    exact List.mem_map_of_mem (Compilation.mem_of_artifact? ha)
  refine ⟨map_fst_of_entries hentries, ?_, c.memo.map Prod.fst, ?_, hlowered.schedule.nodup,
    fun id => hlowered.mem_iff htargets,
    fun before id after heq p => hlowered.schedule.parents_before heq⟩
  · intro entry hentry depth hdepth
    have hmem := Compilation.mem_of_artifact? (artifact?_of_mem_entries hentries hentry)
    exact hlowered.evaluate_eq hmem (Nat.le_trans hlowered.length_le hdepth)
  · rw [show c.workspace.notes = _ from hnoted, List.map_map]
    rfl

/-- The identifier of a node before what its parents give. -/
def joined (n : Node) (inputs : List Text) : Outcome Text := .ok (Text.concat (n.id :: inputs))

/-- A source that is read by two nodes, by one of them twice. -/
def diamond : Graph := .ofNodes "g"
  [{ id := "s", op := .source }, { id := "a", op := .map, parents := ["s"] },
   { id := "b", op := .union, parents := ["s", "a", "s"] },
   { id := "o", op := .sink, parents := ["b", "a"] }]

theorem compile_recording_diamond :
    ((recording "joined" joined).compile diamond {}).1 = .ok [("o", "obsassas")] ∧
      diamond.evaluate joined 4 "o" = some "obsassas" := by
  have h : ((recording "joined" joined).compile diamond {}).1 = .ok [("o", "obsassas")] := by with_unfolding_all rfl
  exact ⟨h, (compile_recording _ _ _ _ _ h).2.1 ("o", "obsassas") (by simp) 4 (by decide)⟩

end Backend

end Dataflow
