import Dataflow.Proofs.Compile.Safety
import Dataflow.Proofs.Compile.Settings
import Dataflow.Proofs.Composition

/-!
# Which graphs make compiling crash

`probe k op config` is a source and a node that reads it `k` times; a backend that crashes at the node crashes
on the graph.  Each setting of `Target.reads` makes the target crash when it alone cannot be read, and so does a
description of a branch that names its operator by a reference to nothing.  Hence the conditions of
`Target.Clear`, under which compiling does not crash, are all needed (`Target.compile_without_crash`).
-/

namespace Dataflow

open List Dataflow.Graph

def feed : Node := { id := "s", op := .source, config := [("uri", .text "x")] }

def reader (k : Nat) (op : Op) (config : Row) : Node :=
  { id := "m", op, config, parents := List.replicate k "s" }

def probe (k : Nat) (op : Op) (config : Row) : Graph := .ofNodes "g" [feed, reader k op config]

section Probe

variable {k : Nat} {op : Op} {config : Row}

theorem nodes_probe : (probe k op config).nodes = [feed, reader k op config] := rfl

theorem ordered_probe : (probe k op config).Ordered := by
  have hfeed : (add { id := "g" } feed).Ordered := Graph.Ordered.add .nil nofun
  show ((add { id := "g" } feed).add (reader k op config)).Ordered
  refine hfeed.add fun p hp => ?_
  cases eq_of_mem_replicate hp
  exact mem_cons_self

theorem leaves_probe (hk : 0 < k) : (probe k op config).leaves = [reader k op config] := by
  have hread : (probe k op config).edges.any (·.parent = feed.id) = true := by
    refine any_eq_true.mpr ⟨⟨feed.id, (reader k op config).id⟩, ?_, decide_eq_true rfl⟩
    exact mem_edges_iff.mpr
      ⟨reader k op config, by simp [nodes_probe], rfl, mem_replicate.mpr ⟨hk.ne', rfl⟩⟩
  have hunread : (probe k op config).edges.any (·.parent = (reader k op config).id) = false := by
    refine any_eq_false.mpr fun e he hparent => ?_
    obtain ⟨m, hm, -, hp⟩ := mem_edges_iff.mp he
    rw [of_decide_eq_true hparent] at hp
    rw [nodes_probe] at hm
    rcases mem_pair.mp hm with rfl | rfl
    · cases hp
    · exact absurd (eq_of_mem_replicate hp : ("m" : Text) = "s") (by decide)
  rw [leaves, nodes_probe, filter_cons_of_neg (by rw [hread]; decide),
    filter_cons_of_pos (by rw [hunread]; rfl), filter_nil]

theorem targets_probe (hk : 0 < k) : (probe k op config).targets = [reader k op config] := by
  have hsinks : (probe k op config).sinks = if op = .sink then [reader k op config] else [] := by
    rw [sinks, nodes_probe]
    by_cases hop : op = .sink <;> simp [hop, feed, reader]
  rw [targets, hsinks, leaves_probe hk]
  by_cases hop : op = .sink <;> simp [hop]

/-- The backend is settled and lowers the source. -/
structure Backend.Steady {α : Type} (b : Backend α) : Prop where
  settled : b.Settled
  source : ∃ a, b.lower feed [] = pure a

/-- A backend that gets through the source and crashes at the reader crashes on the graph. -/
theorem Backend.Steady.crash_probe {α : Type} {b : Backend α} (hb : b.Steady) (hk : 0 < k)
    (h : ∀ a, b.lower (reader k op config) (List.replicate k a) = throw .crash) (wrap : α → Artifact) :
    (b.compiled wrap (probe k op config) {}).outcome = .error .crash := by
  obtain ⟨a, ha⟩ := hb.source
  have hmem : feed ∈ (probe k op config).nodes ∧ reader k op config ∈ (probe k op config).nodes := by
    simp [nodes_probe]
  have hfeed : (probe k op config).plain (b.reported false) feed.id = .ok a := by
    rw [ordered_probe.plain_source hmem.1 rfl, reported, ha]
    rfl
  have hinputs : ∀ j, (List.replicate j feed.id).mapM ((probe k op config).plain (b.reported false)) =
      .ok (List.replicate j a) := by
    intro j
    induction j with
    | zero => rfl
    | succ j ih =>
      rw [replicate_succ, mapM_cons, hfeed, ih]
      rfl
  have hreader : (probe k op config).plain (b.reported false) (reader k op config).id = .error .crash := by
    rw [ordered_probe.plain_eq hmem.2]
    show ((List.replicate k feed.id).mapM _ >>= _) = _
    rw [hinputs k]
    show b.reported false (reader k op config) (List.replicate k a) = _
    rw [reported, h]
    rfl
  have hcompile : (b.compile (probe k op config) {}).1 = .error .crash := by
    rw [compile_target hb.settled ordered_probe hmem.2 (targets_probe hk)]
    show ((probe k op config).plain (b.reported false) (reader k op config).id >>= _) = _
    rw [hreader]
    rfl
  show (b.compile (probe k op config) {}).1.map _ = _
  rw [hcompile]
  rfl

end Probe

theorem Outline.steady_backend : Outline.backend.Steady where
  settled := composing_backend.settled
  source := ⟨_, by rw [lower_backend, Node.step_single rfl]; rfl⟩

theorem Streaming.steady_backend (lib : Library) (o : Options) : (Streaming.backend lib o).Steady where
  settled := (composing_backend lib o).settled
  source := ⟨_, Backend.lower_branching_plain rfl []⟩

theorem Columnar.steady_backend (lib : Library) (chunk : Int) : (Columnar.backend lib chunk).Steady where
  settled := (composing_backend lib chunk).settled
  source := ⟨_, Backend.lower_branching_plain rfl []⟩

theorem Script.steady_backend (d : Dialect) : (Script.backend d).Steady where
  settled := Backend.settled_along (fun _ _ => Effect.settled_ofOutcome _) Node.step
  source := ⟨_, Backend.lower_branching_plain rfl []⟩

theorem Kernel.steady_backend (d : KernelDialect) : (Kernel.backend d).Steady where
  settled := fun _ _ => Effect.settled_ofOutcome _
  source := ⟨_, rfl⟩

theorem Drawing.steady_backend : Drawing.backend.Steady where
  settled := fun _ _ => Effect.settled_ofOutcome _
  source := ⟨_, rfl⟩

namespace Target

/-- The target crashes at the node over `k` inputs that are the same. -/
def CrashesAt (lib : Library) (n : Node) (k : Nat) : Target → Prop
  | outline => ∀ a, Outline.backend.lower n (List.replicate k a) = throw .crash
  | streaming o => ∀ a, (Streaming.backend lib o).lower n (List.replicate k a) = throw .crash
  | columnar chunk => ∀ a, (Columnar.backend lib chunk).lower n (List.replicate k a) = throw .crash
  | script d => ∀ a, (Script.backend d).lower n (List.replicate k a) = throw .crash
  | kernel d => ∀ a, (Kernel.backend d).lower n (List.replicate k a) = throw .crash
  | drawing => ∀ a, Drawing.backend.lower n (List.replicate k a) = throw .crash

theorem CrashesAt.compile {lib : Library} {t : Target} {k : Nat} {op : Op} {config : Row}
    (h : t.CrashesAt lib (reader k op config) k) (hk : 0 < k) :
    (t.compile lib (probe k op config) {}).outcome = .error .crash := by
  cases t with
  | outline => exact Outline.steady_backend.crash_probe hk h _
  | streaming o => exact (Streaming.steady_backend lib o).crash_probe hk h _
  | columnar chunk => exact (Columnar.steady_backend lib chunk).crash_probe hk h _
  | script d => exact (Script.steady_backend d).crash_probe hk h _
  | kernel d => exact (Kernel.steady_backend d).crash_probe hk h _
  | drawing => exact Drawing.steady_backend.crash_probe hk h _

/-- Settings that make a target ask for more. -/
def leading : Op → Row
  | .map => [("fn", .func {})]
  | .filter => [("fn", .func {}), ("predicate", .func {})]
  | .reduce => [("fn", .foldClosure .sumClose {})]
  | .custom => [("kind", .text "SMA")]
  | _ => []

/-- Each setting that a target reads can make it crash. -/
theorem crashesAt_reads (lib : Library) {t : Target} {op : Op} {k : Text × Use} (h : k ∈ t.reads op) {v : Value}
    (hv : v.serves k.2 = false) : t.CrashesAt lib (reader 2 op (Fields.set k.1 v (leading op))) 2 := by
  have hplain : (reader 2 op (Fields.set k.1 v (leading op))).isOperatorComposite = false := by
    simp [Node.isOperatorComposite, reader]
  rcases Value.serves_eq_false hv with ⟨hk, type, rfl⟩ | ⟨hk, writing, rfl⟩ <;> cases t with
  | outline =>
    intro a
    rw [Outline.lower_backend, Node.step_single hplain]
    cases op <;> simp only [reads, mem_cons, not_mem_nil, or_false] at h <;> subst h <;> cases hk <;> rfl
  | drawing =>
    intro a
    cases op <;> simp only [reads, mem_cons, not_mem_nil, or_false] at h <;> subst h <;> cases hk <;> rfl
  | kernel d =>
    intro a
    cases op <;> simp only [reads, Node.symbolic, mem_cons, not_mem_nil, or_false] at h <;>
      rcases h with rfl | rfl | rfl | rfl <;> cases hk <;> rfl
  | script d =>
    intro a
    refine (Backend.lower_branching_plain hplain _).trans ?_
    cases op <;> simp only [reads, Node.symbolic, measured, Indicator.texts, map_cons, map_nil, mem_cons,
      not_mem_nil, or_false] at h <;> rcases h with rfl | rfl | rfl | rfl | rfl | rfl | rfl <;> cases hk <;> rfl
  | streaming o | columnar chunk =>
    intro a
    refine (Backend.lower_branching_plain hplain _).trans ?_
    cases op <;> simp only [reads, measured, Indicator.texts, map_cons, map_nil, mem_cons, not_mem_nil,
      or_false] at h <;> rcases h with rfl | rfl | rfl | rfl | rfl | rfl | rfl <;> cases hk <;> rfl

/-- A reference to no function. -/
abbrev noFunction : Value := .noReference Value.funcType (some .text)

/-- Two descriptions of branches, of which the first names its operator by a reference to nothing. -/
def unnamed : Row := [("left", .row [("type", noFunction)]), ("right", .row [])]

theorem crashesAt_branches (lib : Library) {t : Target} (ht : t.branches) :
    t.CrashesAt lib (reader 1 .choice unnamed) 1 := by
  have hcomposite : (reader 1 .choice unnamed).isOperatorComposite := rfl
  have hbranches : (reader 1 .choice unnamed).branches = .error .crash := by
    show (expand _ (.row [("type", noFunction)]) _ >>= _) = _
    rw [expand]
    rfl
  cases t with
  | outline =>
    intro a
    show Outline.backend.lower _ [a] = _
    rw [Outline.lower_one, Node.step_broken hcomposite hbranches]
    rfl
  | script d | streaming o | columnar chunk =>
    exact fun a => Backend.lower_branching_broken hcomposite hbranches a
  | kernel d | drawing => cases ht

/-- **Compiling without a crash.**  A graph compiles to a result or a failure, if no node that its targets lead
to has a reference to nothing where the backend looks for what it refers to; this is so for every graph that is
read from a text.  Otherwise, each setting that the backend reads makes it crash on its own with any value that
cannot be read, on some graph, and so can a description of a branch. -/
theorem compile_without_crash (lib : Library) (t : Target) :
    (∀ g w, (∀ n ∈ g.nodes, g.Needed n.id → t.Clear n) →
      (∃ ts, (t.compile lib g w).outcome = .ok ts) ∨ ∃ f, (t.compile lib g w).outcome = .error (.failure f)) ∧
    (∀ text g, Graph.ofText text = .ok g → ∀ n ∈ g.nodes, t.Clear n) ∧
    (∀ op, ∀ k ∈ t.reads op, ∀ v : Value, v.serves k.2 = false → ∃ config : Row,
      Fields.get? config k.1 = some v ∧ (∀ key ≠ k.1, ∀ u ∈ Fields.get? config key, u.whole) ∧
      (t.compile lib (probe 2 op config) {}).outcome = .error .crash) ∧
    (t.branches → (t.compile lib (probe 1 .choice unnamed) {}).outcome = .error .crash) := by
  refine ⟨fun g w hg => (safe_compile lib t hg w).cases, fun text g hg n hn => ?_, fun op k hk v hv => ?_,
    fun ht => (crashesAt_branches lib ht).compile Nat.zero_lt_one⟩
  · exact t.clear_of_whole ((isData_of_ofText hg).1.node n hn).config.whole
  · have hwhole : Value.wholeFields (leading op) := by cases op <;> rfl
    refine ⟨_, ?_, fun key hne u hu => ?_, (crashesAt_reads lib hk hv).compile Nat.zero_lt_two⟩
    · rw [Fields.get?_set, if_pos rfl]
    · rw [Fields.get?_set, if_neg hne.symm] at hu
      exact Value.whole_of_get? hwhole hu

/-- Nodes that miss inputs or have too many, with settings of the wrong types, a function without code, and
references to nothing where no target looks or for which no text is written. -/
def motley : Graph := .ofNodes "g"
  [{ id := "s", op := .source, config := [("fn", noFunction), ("uri", .int 7)], parents := ["c", "c"] },
   { id := "m", op := .map, config := [("expr", .noRow), ("fn", .func {}), ("fn_name", .noReference "int" none)] },
   { id := "c", op := .choice, config := [("left", .int 3), ("right", .row [("type", .list [])])],
     parents := ["m"] },
   { id := "j", op := .join, config := [("on", .complex 1 2)], parents := ["s"] },
   { id := "o", op := .sink, config := [("kind", noFunction)], parents := ["j", "c", "z"] }]

theorem compile_without_crash_motley :
    (∀ t ∈ streaming {} :: columnar 0 :: textual, (∀ n ∈ motley.nodes, t.Clear n) ∧
      ((∃ ts, (t.compile .empty motley {}).outcome = .ok ts) ∨
        ∃ f, (t.compile .empty motley {}).outcome = .error (.failure f))) ∧
    (∃ g, Graph.ofText Graph.repeated = .ok g ∧ ∀ n ∈ g.nodes, (script .sql).Clear n) ∧
    (∃ config : Row, Fields.get? config "predicate_sql" = some (.noReference "time.Time" (some .text)) ∧
      (∀ key ≠ ("predicate_sql" : Text), ∀ u ∈ Fields.get? config key, u.whole) ∧
      ((script .sql).compile .empty (probe 2 .filter config) {}).outcome = .error .crash) ∧
    (script .sql).branches ∧
      ((script .sql).compile .empty (probe 1 .choice unnamed) {}).outcome = .error .crash := by
  have hclear : ∀ t ∈ streaming {} :: columnar 0 :: textual, ∀ n ∈ motley.nodes, t.Clear n := by decide
  obtain ⟨-, hread, hcrash, hbranch⟩ := compile_without_crash .empty (script .sql)
  have hsafe := fun t ht => (compile_without_crash .empty t).1 motley {} fun n hn _ => hclear t ht n hn
  refine ⟨fun t ht => ⟨hclear t ht, hsafe t ht⟩, ?_, hcrash .filter _ mem_cons_self _ rfl, rfl, hbranch rfl⟩
  have hread? : (ofText repeated).toOption.isSome := by cbv
  cases hg : ofText repeated with
  | error f =>
    rw [hg] at hread?
    cases hread?
  | ok g => exact ⟨g, rfl, hread _ g hg⟩

theorem crashesAt_nothing (lib : Library) (t : Target) :
    t.CrashesAt lib (reader 1 .map [("fn", noFunction), ("fn_name", noFunction)]) 1 := by
  cases t with
  | outline =>
    intro a
    rw [Outline.lower_backend, Node.step_single rfl]
    rfl
  | drawing | kernel d => exact fun a => rfl
  | script d | streaming o | columnar chunk =>
    exact fun a => (Backend.lower_branching_plain rfl _).trans rfl

/-- References to nothing in the place of a function and of its name make every target crash. -/
theorem compile_crash_nothing :
    (streaming {} :: columnar 0 :: textual).map (fun t =>
      (t.compile .empty (probe 1 .map [("fn", noFunction), ("fn_name", noFunction)]) {}).outcome) =
      List.replicate 8 (.error .crash) :=
  (List.map_congr_left fun t _ => (crashesAt_nothing .empty t).compile Nat.zero_lt_one).trans rfl

end Target

end Dataflow
