import Dataflow.Proofs.Compile.Classification
import Dataflow.Proofs.Graph.Depth
import Dataflow.Proofs.Session.Operation
import Mathlib.Data.List.GetD

/-!
# Graphs that streams build

However streams are made, extended and combined, each graph of the session takes every identifier
once, has the edges that its nodes name, and has each node after its parents; and the tip of each
stream is in its graph (`run_wellFormed`).  Such graphs can be grouped into levels, and a
compilation blames none of them.  This rests on identifiers being fresh, as the numbered ones are
(`identifier_injective`).
-/

namespace Dataflow

/-- The rules of a graph that was built node by node. -/
structure Graph.WellFormed (g : Graph) : Prop where
  nodup : (g.nodes.map Node.id).Nodup
  edges : g.edges = g.nodes.flatMap fun n => n.parents.map fun p => ⟨p, n.id⟩
  /-- Each node stands after its parents. -/
  parents : ∀ before n after, g.nodes = before ++ n :: after → ∀ p ∈ n.parents, ∃ m ∈ before, m.id = p

theorem Graph.Ordered.wellFormed {g : Graph} (h : g.Ordered) : g.WellFormed where
  nodup := g.nodup_ids
  edges := g.edges_eq
  parents := by
    intro before n after hnodes p hp
    have hids : g.ids = before.map Node.id ++ n.id :: after.map Node.id := by simp [ids, hnodes]
    have hn : n ∈ g.nodes := by simp [hnodes]
    exact List.mem_map.mp (h.parents_before hids ⟨n, hn, rfl, hp⟩)

/-- A compilation blames the backend only: where it reports a malformed graph, it passes on what the
backend said of a node. -/
def Graph.Blameless (g : Graph) : Prop :=
  ∀ (α : Type) (b : Backend α) (w : Workspace) (f : Failure),
    (b.compile g w).1 = .error (.failure f) → f.code? = some .malformedGraph →
      ∃ n ∈ g.nodes, ∃ inputs v v' f', (b.lower n inputs).run.run v = (.error (.failure f'), v') ∧
        f'.code? = some .malformedGraph ∧ f = f'.atNode b.name n.id

namespace Session

variable {s : Session}

theorem exists_graphAt {g : Graph} (h : g ∈ s.graphs) : ∃ k, s.graphAt k = g := by
  obtain ⟨k, hk, rfl⟩ := List.mem_iff_getElem.mp h
  exact ⟨k, by simp [graphAt, hk]⟩

theorem mem_graphs_of_length (h : s.graphs.length = 1) : s.graphAt 0 ∈ s.graphs := by
  rw [graphAt, List.getD_eq_getElem _ _ (by omega)]
  exact List.getElem_mem _

theorem exists_id_eq {supply : Nat → List Text} (hfresh : Function.Injective fun k => Text.concat (supply k))
    {actions : List Action} {k : Nat} {n : Node} (hn : n ∈ ((run { supply } actions).graphAt k).nodes) :
    ∃ i, n.id = Text.concat (supply i) := by
  obtain ⟨i, -, hid⟩ := (sound_run hfresh actions).drawn k n hn
  exact ⟨i, hid.trans (congrFun (reaches_run actions (sound_empty hfresh)).nodeId_eq i)⟩

theorem Sound.wellFormed (hs : Sound s) {g : Graph} (h : g ∈ s.graphs) : g.WellFormed := by
  obtain ⟨k, rfl⟩ := exists_graphAt h
  exact (hs.ordered k).wellFormed

theorem Sound.tip_mem_graphAt (hs : Sound s) {st : Stream} (h : st ∈ s.streams) :
    st.tip ∈ (s.graphAt st.graph).nodes := by
  obtain ⟨i, hi⟩ := List.mem_iff_getElem?.mp h
  exact hs.tip_mem_graph hi

/-- **Streams build ordered graphs.**  After any operations, every graph is well formed, and every
stream has its tip in its graph, which has levels and is never to blame for a failed compilation. -/
theorem run_wellFormed (supply : Nat → List Text)
    (hfresh : Function.Injective fun k => Text.concat (supply k)) (actions : List Action) :
    (∀ g ∈ (run { supply } actions).graphs, g.WellFormed) ∧
    ∀ st ∈ (run { supply } actions).streams,
      (∃ g, (run { supply } actions).graphs[st.graph]? = some g ∧ st.tip ∈ g.nodes ∧
        (∃ ls, g.levels = .ok ls) ∧ g.Blameless) := by
  have hs := sound_run hfresh actions
  refine ⟨fun g hg => hs.wellFormed hg, fun st hst => ?_⟩
  have htip := hs.tip_mem_graphAt hst
  have hget : (run { supply } actions).graphs[st.graph]? =
      some ((run { supply } actions).graphAt st.graph) := by
    rw [graphAt, List.getD_eq_getElem?_getD, List.getElem?_eq_getElem (lt_of_mem_graphAt htip)]
    rfl
  refine ⟨_, hget, htip, (hs.ordered _).levels, fun α b w f herror hcode => ?_⟩
  exact Backend.lower_malformed_of_compile (hs.ordered _) (List.ne_nil_of_mem htip) herror hcode

/-- Two sources; the second stream is added to an extension of the first, and all are united. -/
def braid : List Action :=
  [.fromUri "a", .bind (.single .map []) 0, .fromPayload .null, .combineWith .merge 2 1,
   .bind (.chain (.union [some 0, some 2]) [.sink "out"]) 3]

theorem run_wellFormed_braid :
    Function.Injective (fun k => Text.concat (identifier k)) ∧
      ((run {} braid).graphs.map Graph.size, (run {} braid).streams.map Stream.graph) =
        ([6, 1], [0, 0, 0, 0, 0, 0]) ∧
      (∀ g ∈ (run {} braid).graphs, g.WellFormed) ∧
      ∀ st ∈ (run {} braid).streams, ∃ g, (run {} braid).graphs[st.graph]? = some g ∧ st.tip ∈ g.nodes ∧
        (∃ ls, g.levels = .ok ls) ∧ g.Blameless :=
  ⟨identifier_injective, rfl, run_wellFormed identifier identifier_injective braid⟩

end Session

end Dataflow
