import Dataflow.Proofs.Compile.Classification

/-!
# Compilations without a target

A walk starts at the targets, so that it notices a cycle only where a target leads to it.  A graph
without a sink in which every node is read has no target at all: nothing is lowered, and compiling it
gives an empty list of artifacts.  Such a graph always has a cycle (`Graph.exists_cycle`).

Main statement (`compile_unnoticed_iff`): this is the one way in which a graph that has nodes, lowered
by a backend that never fails, is neither refused as malformed nor compiled to some artifact.
-/

namespace Dataflow

open Relation

namespace Graph

variable {g : Graph} {n : Node}

theorem mem_sinks_iff : n ∈ g.sinks ↔ n ∈ g.nodes ∧ n.op = .sink := by
  simp [sinks]

theorem mem_leaves_iff : n ∈ g.leaves ↔ n ∈ g.nodes ∧ ∀ m ∈ g.nodes, n.id ∉ m.parents := by
  have hread : (∃ e ∈ g.edges, e.parent = n.id) ↔ ∃ m ∈ g.nodes, n.id ∈ m.parents := by
    constructor
    · rintro ⟨e, he, hid⟩
      obtain ⟨m, hm, -, hp⟩ := mem_edges_iff.mp he
      exact ⟨m, hm, hid ▸ hp⟩
    · rintro ⟨m, hm, hp⟩
      exact ⟨⟨n.id, m.id⟩, mem_edges_iff.mpr ⟨m, hm, rfl, hp⟩, rfl⟩
  have hnot : (∀ m ∈ g.nodes, n.id ∉ m.parents) ↔ ¬ ∃ e ∈ g.edges, e.parent = n.id := by
    rw [hread]
    simp
  rw [hnot]
  simp [leaves]

theorem targets_eq_nil : g.targets = [] ↔ g.sinks = [] ∧ g.leaves = [] := by
  unfold targets
  cases hsinks : g.sinks with
  | nil => simp
  | cons n ns => simp

/-- The targets are missing where every node is read and none is a sink. -/
theorem targets_eq_nil_iff :
    g.targets = [] ↔ ¬ ∃ n ∈ g.nodes, n.op = .sink ∨ ∀ m ∈ g.nodes, n.id ∉ m.parents := by
  rw [targets_eq_nil, List.eq_nil_iff_forall_not_mem, List.eq_nil_iff_forall_not_mem]
  constructor
  · rintro ⟨hsinks, hleaves⟩ ⟨n, hn, hsink | hleaf⟩
    · exact hsinks n (mem_sinks_iff.mpr ⟨hn, hsink⟩)
    · exact hleaves n (mem_leaves_iff.mpr ⟨hn, hleaf⟩)
  · intro hnone
    refine ⟨fun n hn => hnone ?_, fun n hn => hnone ?_⟩
    · obtain ⟨hmem, hsink⟩ := mem_sinks_iff.mp hn
      exact ⟨n, hmem, .inl hsink⟩
    · obtain ⟨hmem, hleaf⟩ := mem_leaves_iff.mp hn
      exact ⟨n, hmem, .inr hleaf⟩

/-- Where every node is read, some chain of parents comes back to its start. -/
theorem exists_cycle (hne : g.nodes ≠ []) (hread : ∀ n ∈ g.nodes, ∃ m ∈ g.nodes, n.id ∈ m.parents) :
    ∃ id ∈ g.ids, TransGen g.Reads id id := by
  have hreader : ∀ id ∈ g.ids, ∃ m ∈ g.ids, Function.swap g.Reads id m := fun id hid => by
    obtain ⟨n, hn, rfl⟩ := exists_node_of_mem_ids hid
    obtain ⟨m, hm, hp⟩ := hread n hn
    exact ⟨m.id, mem_ids_of_mem hm, m, hm, rfl, hp⟩
  obtain ⟨id, hid, hcycle⟩ := exists_transGen_self (by simpa [ids] using hne) hreader
  exact ⟨id, hid, transGen_swap.mp hcycle⟩

end Graph

namespace Backend

variable {α : Type} {b : Backend α} {g : Graph}

/-- A walk without targets goes nowhere. -/
theorem compile_of_targets_eq_nil (hne : g.nodes ≠ []) (h : g.targets = []) (w : Workspace) :
    (compile b g w).1 = .ok [] := by
  rw [compile_fst]
  unfold artifacts
  rw [if_neg (by simpa using hne), h]
  rfl

/-- **A malformed graph goes unnoticed exactly where it has no target.**  A graph with nodes, lowered
by a backend that never fails, is refused as malformed or gives an artifact if and only if it has a sink
or a node that is not read.  Otherwise it has a cycle, and compiling it gives nothing. -/
theorem compile_unnoticed_iff (b : Backend α) (g : Graph) (hb : b.Unfailing) (hne : g.nodes ≠ [])
    (w : Workspace) (hlive : w.cancelled = false) :
    (((∃ f : Failure, (compile b g w).1 = .error (.failure f) ∧ f.code? = some .malformedGraph) ∨
        ∃ ts, (compile b g w).1 = .ok ts ∧ ts ≠ []) ↔
      ∃ n ∈ g.nodes, n.op = .sink ∨ ∀ m ∈ g.nodes, n.id ∉ m.parents) ∧
    ((¬ ∃ n ∈ g.nodes, n.op = .sink ∨ ∀ m ∈ g.nodes, n.id ∉ m.parents) →
      (compile b g w).1 = .ok [] ∧ ∃ id ∈ g.ids, TransGen g.Reads id id) := by
  refine ⟨⟨?_, fun htarget => ?_⟩, fun hnone => ?_⟩
  · intro hnoticed
    by_contra hnone
    have hempty := compile_of_targets_eq_nil (b := b) hne (Graph.targets_eq_nil_iff.mpr hnone) w
    rcases hnoticed with ⟨f, herror, -⟩ | ⟨ts, hok, hts⟩
    · rw [hempty] at herror
      cases herror
    · rw [hempty] at hok
      cases hok
      exact hts rfl
  · rcases hb.lowers.compile_cases hne hlive with ⟨ts, hok, hids, -⟩ | ⟨f, herror, hcode, -⟩
    · refine .inr ⟨ts, hok, ?_⟩
      rintro rfl
      have htargets : g.targets = [] := by simpa using hids
      exact Graph.targets_eq_nil_iff.mp htargets htarget
    · exact .inl ⟨f, herror, hcode⟩
  · refine ⟨compile_of_targets_eq_nil hne (Graph.targets_eq_nil_iff.mpr hnone) w, ?_⟩
    refine Graph.exists_cycle hne fun n hn => ?_
    by_contra hunread
    exact hnone ⟨n, hn, .inr fun m hm hp => hunread ⟨m, hm, hp⟩⟩

/-- Two nodes that read each other, and nothing else. -/
def ring : Graph := .ofNodes "g"
  [{ id := "a", op := .map, parents := ["b"] }, { id := "b", op := .map, parents := ["a"] }]

theorem ring_nodes_ne_nil : ring.nodes ≠ [] := List.ne_nil_of_length_pos (by decide)

theorem compile_unnoticed_iff_knotted :
    (recording "joined" joined).Unfailing ∧ knotted.nodes ≠ [] ∧
      ((∃ f : Failure, ((recording "joined" joined).compile knotted {}).1 = .error (.failure f) ∧
          f.code? = some .malformedGraph) ∨
        ∃ ts, ((recording "joined" joined).compile knotted {}).1 = .ok ts ∧ ts ≠ []) := by
  obtain ⟨n, hn, hop⟩ : ∃ n ∈ knotted.nodes, n.op = .sink := by decide
  exact ⟨unfailing_joined, nodes_knotted,
    (compile_unnoticed_iff _ _ unfailing_joined nodes_knotted {} rfl).1.mpr ⟨n, hn, .inl hop⟩⟩

/-- The ring has nodes and a cycle, and yet it is neither refused nor compiled to an artifact. -/
theorem ring_unnoticed :
    (recording "joined" joined).Unfailing ∧ ring.nodes ≠ [] ∧ TransGen ring.Reads "a" "a" ∧
      ((recording "joined" joined).compile ring {}).1 = .ok [] ∧
      ¬ ((∃ f : Failure, ((recording "joined" joined).compile ring {}).1 = .error (.failure f) ∧
          f.code? = some .malformedGraph) ∨
        ∃ ts, ((recording "joined" joined).compile ring {}).1 = .ok ts ∧ ts ≠ []) := by
  have hab : ring.Reads "a" "b" := by decide
  have hba : ring.Reads "b" "a" := by decide
  have htargets : ring.targets = [] := Graph.targets_eq_nil_iff.mpr (by decide)
  have hempty := compile_of_targets_eq_nil (b := recording "joined" joined) ring_nodes_ne_nil htargets {}
  refine ⟨unfailing_joined, ring_nodes_ne_nil, .tail (.single hab) hba, hempty, ?_⟩
  rw [hempty]
  simp

end Backend

end Dataflow
