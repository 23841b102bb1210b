import Dataflow.Proofs.Session.Nodes
import Dataflow.Proofs.Streaming.Copies

/-!
# Programs over values in memory

A program starts streams of values in memory, binds operators to them and combines them, with functions
that may fail.  Whatever is built so has nodes in memory only (`keepsNodes_perform`), and its graphs are
ordered, so that they compile to what they denote.

Main statement (`run_denotes`): every run of what the streaming backend makes of a target, with one
worker, gives what the recursion on the graph gives for it, the first time and every other time.  In the
graph of another program that has a copy of a node for each of its readers the copies of the target give
the same.
-/

namespace Dataflow

open Session

variable {n : Node} {key : Text}

/-- The operator works on values in memory.  A map, filter or reduction may be without its function. -/
inductive Operator.InMemory : Operator → Prop
  | map (f : Func) : InMemory (.map f)
  | filter (f : Func) : InMemory (.filter f)
  | window {size : Int64} (hsize : 1 ≤ size) : InMemory (.window size)
  | reduce (f : FoldFunc) (init : Value) : InMemory (.reduce f init)
  | unset {op : Op} {key : Text} {config : Row}
      (hop : (op, key) ∈ [(.map, ("fn" : Text)), (.filter, "predicate"), (.reduce, "fn")])
      (hkey : Fields.get? config key = none) : InMemory (.single op config)
  | custom {kind : Text} (hkind : Indicator.lookup? kind = none) (params : Row) :
      InMemory (.custom kind params)
  | sink {uri : Text} (huri : uri ∈ [("" : Text), "memory", "collect"]) : InMemory (.sink uri)
  | join (other : Option Nat) (on : Text) : InMemory (.join other on)
  | union (others : List (Option Nat)) : InMemory (.union others)
  | chain {first : Operator} {more : List Operator} (hfirst : InMemory first)
      (hmore : ∀ o ∈ more, InMemory o) : InMemory (.chain first more)

/-- The operation starts a stream of values in memory, binds such an operator or combines streams. -/
def Session.Action.InMemory : Action → Prop
  | .fromUri uri => (Location.parse uri).InMemory
  | .fromPayload _ | .fromItems _ | .combineWith _ _ _ => True
  | .bind o _ => o.InMemory

/-- The graph of a stream that a program over values in memory has made. -/
def Graph.InMemory (g : Graph) : Prop :=
  ∃ (supply : Nat → List Text) (actions : List Session.Action) (i : Nat),
    (Function.Injective fun k => Text.concat (supply k)) ∧ (∀ a ∈ actions, a.InMemory) ∧
    (run { supply } actions).Live i ∧ g = (run { supply } actions).view i

/-! ### The nodes of a program -/

theorem Node.text_eq {t : Text} (h : n.value? key = some (.text t)) : n.text key "" = .ok t := by
  have hdefault : (if t.isEmpty then ("" : Text) else t) = t := by
    split
    · next hempty => exact Text.ext (List.isEmpty_iff.mp hempty).symm
    · rfl
  unfold text setting?
  simp only [h]
  exact congrArg Except.ok hdefault

theorem Node.func?_eq {name : Text} {f : Func} (hf : n.value? key = some (.func f))
    (hname : n.value? "fn_name" = some (.text name)) : n.func? key = .ok (some f) := by
  unfold func? setting?
  simp only [hf, text_eq hname]
  rfl

theorem Node.func?_eq_none (h : n.value? key = none) : n.func? key = .ok none := by
  unfold func? setting?
  simp only [h]

theorem Node.fold?_eq {f : FoldFunc} (h : n.value? key = some (.fold f)) :
    n.fold? key = .ok (some f) := by
  unfold fold? setting?
  simp only [h]

theorem Node.fold?_eq_none (h : n.value? key = none) : n.fold? key = .ok none := by
  unfold fold? setting?
  simp only [h]

namespace Session

/-- Operators in memory add nodes that can be read back as they were set. -/
theorem keepsNodes_bind {o : Operator} (h : o.InMemory) (ref : Nat) :
    KeepsNodes Node.InMemory (bind o ref) := by
  induction h generalizing ref with
  | map f | filter f =>
    exact keepsNodes_extend (fun id p => ⟨rfl, some f, Node.func?_eq
      (Operator.get?_withExpr (by decide)) (Operator.get?_withExpr (by decide))⟩) ref
  | window hsize => exact keepsNodes_extend (fun id p => ⟨rfl, hsize⟩) ref
  | reduce f init =>
    exact keepsNodes_extend (fun id p => ⟨rfl, some f, Node.fold?_eq
      (Operator.get?_withExpr (by decide))⟩) ref
  | @unset op key config hop hkey =>
    refine keepsNodes_extend (fun id p => ?_) ref
    simp only [List.mem_cons, Prod.mk.injEq, List.not_mem_nil, or_false] at hop
    rcases hop with ⟨rfl, rfl⟩ | ⟨rfl, rfl⟩ | ⟨rfl, rfl⟩
    · exact ⟨rfl, none, Node.func?_eq_none hkey⟩
    · exact ⟨rfl, none, Node.func?_eq_none hkey⟩
    · exact ⟨rfl, none, Node.fold?_eq_none hkey⟩
  | @custom kind hkind params =>
    refine keepsNodes_extend (fun id p => ⟨rfl, kind, Node.text_eq ?_, hkind⟩) ref
    exact (Fields.get?_set params "kind" "kind" _).trans (if_pos rfl)
  | sink huri => exact keepsNodes_extend (fun id p => ⟨rfl, _, Node.text_eq rfl, huri⟩) ref
  | join other on =>
    exact keepsNodes_combine (fun id p ps hps => ⟨congrArg Nat.succ hps, on, Node.text_eq rfl⟩) ref
  | union others => exact keepsNodes_combine (fun id p ps _ => List.cons_ne_nil p ps) ref
  | chain _ _ ihfirst ihmore => exact (ihfirst ref).bind (keepsNodes_bindAll ihmore)

theorem keepsNodes_perform {a : Action} (h : a.InMemory) : KeepsNodes Node.InMemory (perform a) := by
  cases a with
  | fromUri uri => exact keepsNodes_source fun id => ⟨rfl, uri, Node.text_eq rfl, h⟩
  | fromPayload v =>
    exact keepsNodes_source fun id => ⟨rfl, _, Node.text_eq rfl, by decide, .inr (by decide)⟩
  | fromItems vs =>
    exact keepsNodes_source fun id => ⟨rfl, _, Node.text_eq rfl, by decide, .inl (by decide)⟩
  | bind o ref => exact keepsNodes_bind h ref
  | combineWith op a b =>
    refine keepsNodes_combineWith (fun hop id p q => ?_) a b
    rcases hop with rfl | rfl | rfl <;> rfl

end Session

/-- The graphs of programs are ordered, and have nodes, all in memory. -/
theorem Graph.InMemory.ordered_nodes {g : Graph} (h : g.InMemory) :
    g.Ordered ∧ g.nodes ≠ [] ∧ ∀ n ∈ g.nodes, n.InMemory := by
  obtain ⟨supply, actions, i, hfresh, hactions, hlive, rfl⟩ := h
  have hs := sound_run hfresh actions
  have hnodes : (run { supply } actions).AllNodes Node.InMemory :=
    Session.AllNodes.run (s := { supply }) (by intro g hg; cases hg)
      fun a ha => keepsNodes_perform (hactions a ha)
  obtain ⟨st, hst⟩ : ∃ st, (run { supply } actions).streams[i]? = some st :=
    ⟨_, List.getElem?_eq_getElem hlive⟩
  have htip := hs.tip_mem i st.tip (tip?_of_getElem? hst)
  refine ⟨?_, List.ne_nil_of_mem htip, ?_⟩
  · rw [view_eq hst]
    exact hs.ordered st.graph
  · rw [view_eq hst]
    exact hnodes.graphAt st.graph

namespace Streaming

/-- Programs compile, to flows of what their targets denote. -/
theorem compile_means (lib : Library) (echo : Bool) {g : Graph} (hg : g.InMemory) {w : Workspace}
    (hw : w.cancelled = false) :
    ∃ ts, ((backend lib { workers := 1, echo }).compile g w).1 = .ok ts ∧
      ts.map Prod.fst = g.targets.map Node.id ∧
      ∀ t ∈ ts, Backend.Evaluates g (denote lib) Flow.Means g.size t.1 t.2 := by
  obtain ⟨hordered, hne, hnodes⟩ := hg.ordered_nodes
  exact (implements_denote lib echo hnodes).compile hordered hne hw

/-- **Programs run to what they denote.**  With one worker, a program over values in memory compiles to
one flow for each target, and every run of it that is not called off, the first or a later one, gives the
outcome of what the recursion on the graph gives for the target.  In the graph of a program with private
copies of nodes, the copies of the target give the same. -/
theorem run_denotes (lib : Library) (echo : Bool) {g : Graph} (hg : g.InMemory) {w : Workspace}
    (hw : w.cancelled = false) :
    ∃ ts, ((backend lib { workers := 1, echo }).compile g w).1 = .ok ts ∧
      ts.map Prod.fst = g.targets.map Node.id ∧
      ∀ t ∈ ts, ∃ m, (∀ depth, g.size ≤ depth → g.evaluate (denote lib) depth t.1 = some m) ∧
        t.2.Computes m ∧
        ∀ (g' : Graph) (orig : Text → Text), g'.InMemory → g'.Copies g orig →
          ∃ ts', ((backend lib { workers := 1, echo }).compile g' w).1 = .ok ts' ∧
            ts'.map Prod.fst = g'.targets.map Node.id ∧
            ∀ t' ∈ ts', orig t'.1 = t.1 → ∃ m', t'.2.Computes m' ∧ m'.Agree m := by
  obtain ⟨ts, hts, hids, hmeans⟩ := compile_means lib echo hg hw
  refine ⟨ts, hts, hids, fun t ht => ?_⟩
  obtain ⟨m, hm, hcomputes⟩ := hmeans t ht
  refine ⟨m, hm, hcomputes.computes, fun g' orig hg' hcopies => ?_⟩
  obtain ⟨ts', hts', hids', hmeans'⟩ := compile_means lib echo hg' hw
  refine ⟨ts', hts', hids', fun t' ht' horig => ?_⟩
  obtain ⟨m', hm', hcomputes'⟩ := hmeans' t' ht'
  -- both recursions are deep enough at the larger of the two sizes
  obtain ⟨k, hk, hagree⟩ := hcopies.evaluate lib (hm' (max g.size g'.size) (Nat.le_max_right _ _))
  rw [horig, hm _ (Nat.le_max_left _ _)] at hk
  exact ⟨m', hcomputes'.computes, Option.some.inj hk ▸ hagree⟩

/-- A predicate that fails on what is no truth value. -/
def truth : Func := { name := "identity", code := some (.standard .identity) }

def entries : List Value := [.bool true, .int 3]

/-- Two nodes are read twice: the source by the filter and the choice, and the filter, which fails, by the
window and the merge. -/
def shared : Graph :=
  (run {} [.fromItems entries, .bind (.filter truth) 0, .bind (.window 2) 1,
    .combineWith .choice 2 0, .combineWith .merge 3 1]).view 4

/-- The same with a source and a filter for each of their readers. -/
def unshared : Graph :=
  (run {} [.fromItems entries, .bind (.filter truth) 0, .bind (.window 2) 1,
    .fromItems entries, .combineWith .choice 2 3, .fromItems entries, .bind (.filter truth) 5,
    .combineWith .merge 4 6]).view 7

def numbered (k : Nat) : Text := Text.concat (identifier k)

/-- The node of `shared` that a node of `unshared` is a copy of. -/
def original (id : Text) : Text :=
  (Fields.get? [(numbered 5, numbered 1), (numbered 7, numbered 5), (numbered 8, numbered 1),
    (numbered 10, numbered 3), (numbered 11, numbered 6)] id).getD id

/-- The choice gives the entries, as the window fails before its first value; then the filter fails after
one. -/
def sharedMeaning : Meaning where
  values := [.bool true, .int 3, .bool true]
  stop := some (.failure
    ((Failure.plain "predicate identity returned int, want bool").atNode name (numbered 3)))

theorem run_denotes_shared :
    shared.InMemory ∧ unshared.InMemory ∧ unshared.Copies shared original ∧
      ∃ x x' m', ((backend .empty {}).compile shared {}).1 = .ok [(numbered 6, x)] ∧
        ((backend .empty {}).compile unshared {}).1 = .ok [(numbered 11, x')] ∧
        x.Computes sharedMeaning ∧ x'.Computes m' ∧ m'.Agree sharedMeaning := by
  have hshared : shared.InMemory := by
    refine ⟨identifier, _, 4, identifier_injective, ?_, ?_, rfl⟩
    · simp only [List.forall_mem_cons]
      exact ⟨trivial, .filter truth, .window (by decide), trivial, trivial, by simp⟩
    · unfold Session.Live
      decide
  have hunshared : unshared.InMemory := by
    refine ⟨identifier, _, 7, identifier_injective, ?_, ?_, rfl⟩
    · simp only [List.forall_mem_cons]
      exact ⟨trivial, .filter truth, .window (by decide), trivial, trivial, trivial, .filter truth,
        trivial, by simp⟩
    · unfold Session.Live
      decide
  have hcopies : unshared.Copies shared original := List.map_inj_left.mp rfl
  have htargets : shared.targets.map Node.id = [numbered 6] := rfl
  have htargets' : unshared.targets.map Node.id = [numbered 11] := rfl
  have hmeaning : shared.evaluate (denote .empty) shared.size (numbered 6) = some sharedMeaning := rfl
  obtain ⟨ts, hts, hids, hall⟩ := run_denotes .empty false hshared (w := {}) rfl
  obtain ⟨⟨_, x⟩, rfl, rfl⟩ := List.map_eq_singleton_iff.mp (hids.trans htargets)
  obtain ⟨m, hm, hx, hprivate⟩ := hall _ List.mem_cons_self
  obtain rfl : m = sharedMeaning := Option.some.inj ((hm _ (Nat.le_refl _)).symm.trans hmeaning)
  obtain ⟨ts', hts', hids', hall'⟩ := hprivate unshared original hunshared hcopies
  obtain ⟨⟨_, x'⟩, rfl, rfl⟩ := List.map_eq_singleton_iff.mp (hids'.trans htargets')
  obtain ⟨m', hx', hagree⟩ := hall' _ List.mem_cons_self rfl
  exact ⟨hshared, hunshared, hcopies, x, x', m', hts, hts', hx, hx', hagree⟩

end Streaming

end Dataflow
