import Dataflow.Proofs.Session.Binding
import Dataflow.Proofs.Session.Nodes

/-!
# Two ways to build a choice

Two operators can be composed first and bound to a source then, which gives the graph of `Composed`: a
source, one node that describes both operators, and a sink.  Or both are bound to the source and the two
streams combined, which gives the graph of `Combined`: a source, a chain of nodes for each operator, a
node that reads the ends of both chains, and a sink.
-/

namespace Dataflow

/-! ### Operators on one stream -/

namespace Operator

/-- A map, a filter, a reduction, a window or a custom operator.  A list under the setting `steps` is
reserved for chains. -/
inductive Stage : Operator → Prop
  | map (f : Func) : Stage (map f)
  | filter (f : Func) : Stage (filter f)
  | reduce (f : FoldFunc) (init : Value) : Stage (reduce f init)
  | window (size : Int64) : Stage (window size)
  | custom (kind : Text) {params : Row} (h : stepsOf? params = none) : Stage (custom kind params)

/-- The operator is made of stages, nested in any way. -/
abbrev Staged (o : Operator) : Prop := Formed Stage o

theorem stepsOf?_withExpr (config : Row) (expr : Text) :
    stepsOf? (withExpr config expr) = stepsOf? config := by
  rw [stepsOf?, stepsOf?, get?_withExpr (by decide)]

theorem stepsOf?_custom {kind : Text} {params : Row} (h : stepsOf? params = none) :
    stepsOf? (custom kind params).config = none := by
  rw [custom, config, stepsOf?, Fields.get?_set, if_neg (by decide)]
  exact h

/-- The operator binds one node to one stream, which is no sink, and is not taken for a chain. -/
def Simple (o : Operator) : Prop :=
  ∃ op config, o = single op config ∧ op.isDeclared ∧ stepsOf? config = none ∧ op ≠ .sink

theorem Stage.simple {o : Operator} (h : Stage o) : o.Simple := by
  cases h with
  | map f | filter f | reduce f init => exact ⟨_, _, rfl, rfl, stepsOf?_withExpr _ _, by decide⟩
  | window size => exact ⟨_, _, rfl, rfl, rfl, by decide⟩
  | custom kind h => exact ⟨_, _, rfl, rfl, stepsOf?_custom h, by decide⟩

theorem Stage.leaves_eq {o : Operator} (h : Stage o) : o.leaves = [o] := by
  obtain ⟨op, config, rfl, -⟩ := h.simple
  rfl

namespace Staged

variable {o : Operator} (h : o.Staged)

include h

theorem forall_simple : ∀ l ∈ o.leaves, l.Simple := by
  refine h.forall_leaves (fun o ho => ?_) fun op a b hop _ _ _ _ => ?_
  · rw [ho.leaves_eq]
    exact List.forall_mem_singleton.mpr ho.simple
  · rcases hop with rfl | rfl
    · exact ⟨_, _, rfl, rfl, rfl, by decide⟩
    · exact ⟨_, _, rfl, rfl, rfl, by decide⟩

theorem declared : o.Declared := by
  intro l hl
  obtain ⟨op, config, rfl, hdeclared, -⟩ := forall_simple h l hl
  exact hdeclared

theorem stepless : o.Stepless := by
  intro l hl
  obtain ⟨op, config, rfl, -, hsteps, -⟩ := forall_simple h l hl
  exact hsteps

theorem exists_single : ∀ l ∈ o.leaves, ∃ op config, l = single op config := by
  intro l hl
  obtain ⟨op, config, rfl, -⟩ := forall_simple h l hl
  exact ⟨op, config, rfl⟩

theorem leaf_ne_sink : ∀ l ∈ o.leaves, l.op ≠ .sink := by
  intro l hl
  obtain ⟨op, config, rfl, -, -, hsink⟩ := forall_simple h l hl
  exact hsink

end Staged

/-- The nodes that stand for an operator without sinks are no sinks. -/
theorem Rebuilds.ne_sink {p : Text} {o : Operator} {ns : List Node} (h : Rebuilds p o ns)
    (ho : ∀ l ∈ o.leaves, l.op ≠ .sink) : ∀ n ∈ ns, n.op ≠ .sink := by
  intro n hn
  obtain ⟨l, hl, q, heq⟩ := h.exists_leaf hn
  rw [heq]
  exact ho l hl

end Operator

namespace Session

open Operator (branchConfig Rebuilds)

/-! ### The two programs -/

/-- The ways to start a stream. -/
inductive Origin where
  | uri (u : Text)
  | payload (v : Value)
  | items (vs : List Value)

def Origin.start : Origin → Building Nat
  | uri u => fromUri u
  | payload v => fromPayload v
  | items vs => fromItems vs

def Origin.config : Origin → Row
  | uri u => [("uri", .text u)]
  | payload v => [("payload", v), ("uri", .text "payload://")]
  | items vs => [("data", .list vs), ("uri", .text "memory://")]

theorem Origin.start_eq (origin : Origin) : origin.start = source origin.config := by
  cases origin <;> rfl

/-- Binds a choice or an ensemble of two operators to a new stream, and a sink to the result. -/
def compose (origin : Origin) (op : Op) (a b : Operator) (uri : Text) : Building Nat := do
  let src ← origin.start
  let both ← Session.bind (.single op (branchConfig a b)) src
  Session.bind (.sink uri) both

/-- Binds two operators to one new stream and combines the results, and binds a sink to that. -/
def fork (origin : Origin) (op : Op) (a b : Operator) (uri : Text) : Building Nat := do
  let src ← origin.start
  let left ← Session.bind a src
  let right ← Session.bind b src
  let both ← combineWith op left right
  Session.bind (.sink uri) both

/-! ### The two graphs -/

/-- A source, the node of two operators, and a sink. -/
structure Composed (origin : Origin) (op : Op) (a b : Operator) (uri : Text) (g : Graph)
    (src c k : Node) : Prop where
  ordered : g.Ordered
  nodes : g.nodes = [src, c, k]
  source : src.part = (.source, origin.config)
  start : src.parents = []
  composite : c = Operator.composite op a b c.id src.id
  sink : k.part = (Operator.sink uri).part
  last : k.parents = [c.id]

/-- A source, the nodes of two operators, a node on top of both, and a sink. -/
structure Combined (origin : Origin) (op : Op) (a b : Operator) (uri : Text) (g : Graph)
    (src c k : Node) (as bs : List Node) : Prop where
  ordered : g.Ordered
  nodes : g.nodes = src :: (as ++ bs ++ [c, k])
  source : src.part = (.source, origin.config)
  start : src.parents = []
  first : Rebuilds src.id a as
  second : Rebuilds src.id b bs
  joint : c.part = (op, [])
  ends : c.parents = [(lastOf src as).id, (lastOf src bs).id]
  sink : k.part = (Operator.sink uri).part
  last : k.parents = [c.id]

variable {s : Session}

theorem exists_start (hs : Sound s) (origin : Origin) :
    ∃ n r t k, origin.start.run.run s = (.ok r, t) ∧ n.part = (.source, origin.config) ∧ n.parents = [] ∧
      Sound t ∧ (t.graphAt k).nodes = [n] ∧ t.streams[r]? = some ⟨n, k⟩ := by
  let n : Node := { id := s.nodeId (s.drawn + 1), op := .source, config := origin.config }
  refine ⟨n, s.streams.length, s.started n, s.graphs.length, ?_, rfl, rfl, ?_, ?_, ?_⟩
  · rw [origin.start_eq]
    exact run_source origin.config
  · exact Step.sound hs (.start rfl rfl)
  · rw [graphAt_started, if_pos rfl]
    exact Graph.nodes_add (by simp [Graph.has])
  · show (s.streams ++ [_])[_]? = _
    simp

theorem exists_composed (hs : Sound s) (origin : Origin) (op : Op) (a b : Operator) (uri : Text) :
    ∃ r t src c k, (compose origin op a b uri).run.run s = (.ok r, t) ∧
      Composed origin op a b uri (t.view r) src c k := by
  obtain ⟨src, r₀, t₀, i, hrun₀, hsource, hstart, hs₀, hnodes₀, hr₀⟩ := exists_start hs origin
  obtain ⟨c, r₁, t₁, hrun₁, hpart, hparents, hgrown₁, hr₁⟩ :=
    exists_extend hs₀ hr₀ op (branchConfig a b)
  obtain ⟨k, r, t, hrun, hsink, hlast, hgrown, hr⟩ :=
    exists_extend hgrown₁.sound hr₁ .sink [("uri", .text uri)]
  refine ⟨r, t, src, c, k, ?_, ?_⟩
  · unfold compose
    rw [run_bind_ok hrun₀, Session.bind, run_bind_ok hrun₁]
    exact hrun
  · rw [view_eq hr]
    refine ⟨hgrown.sound.ordered i, ?_, hsource, hstart, ?_, hsink, hlast⟩
    · rw [hgrown.nodes, hgrown₁.nodes, hnodes₀]
      rfl
    · obtain ⟨id, op', config, parents⟩ := c
      cases hpart
      cases hparents
      rfl

theorem exists_combined (hs : Sound s) (origin : Origin) {op : Op} (hop : op = .choice ∨ op = .ensemble)
    {a b : Operator} (ha : ∀ l ∈ a.leaves, ∃ op config, l = .single op config)
    (hb : ∀ l ∈ b.leaves, ∃ op config, l = .single op config) (uri : Text) :
    ∃ r t src c k as bs, (fork origin op a b uri).run.run s = (.ok r, t) ∧
      Combined origin op a b uri (t.view r) src c k as bs := by
  obtain ⟨src, r₀, t₀, i, hrun₀, hsource, hstart, hs₀, hnodes₀, hr₀⟩ := exists_start hs origin
  obtain ⟨as, r₁, t₁, hrun₁, hparts₁, hchain₁, hgrown₁, hr₁⟩ := exists_bindAll hs₀ hr₀ ha
  have hsrc := hgrown₁.streams r₀ _ hr₀
  obtain ⟨bs, r₂, t₂, hrun₂, hparts₂, hchain₂, hgrown₂, hr₂⟩ := exists_bindAll hgrown₁.sound hsrc hb
  have hleft := hgrown₂.streams r₁ _ hr₁
  obtain ⟨c, r₃, t₃, hrun₃, hjoint, hends, hgrown₃, hr₃⟩ :=
    exists_combineWith hgrown₂.sound hleft hr₂ hop
  obtain ⟨k, r, t, hrun, hsink, hlast, hgrown, hr⟩ :=
    exists_extend hgrown₃.sound hr₃ .sink [("uri", .text uri)]
  refine ⟨r, t, src, c, k, as, bs, ?_, ?_⟩
  · unfold fork
    rw [run_bind_ok hrun₀, bind_eq_bindAll, run_bind_ok hrun₁, bind_eq_bindAll, run_bind_ok hrun₂,
      run_bind_ok hrun₃]
    exact hrun
  · rw [view_eq hr]
    refine ⟨hgrown.sound.ordered i, ?_, hsource, hstart, ⟨hparts₁, hchain₁⟩, ⟨hparts₂, hchain₂⟩,
      hjoint, hends, hsink, hlast⟩
    rw [hgrown.nodes, hgrown₃.nodes, hgrown₂.nodes, hgrown₁.nodes, hnodes₀]
    simp

end Session

end Dataflow
