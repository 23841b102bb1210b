import Dataflow.Proofs.Session.Operation
import Mathlib.Data.List.GetD

/-!
# What holds of all nodes

A property of nodes that all new nodes have holds of every node of the session: graphs only gain nodes
that are appended to them and nodes of the graphs that they absorb.

An operator binds one node (`Basic`), or is a chain, a choice or an ensemble of operators.  The operators
inside choices and ensembles are described and not bound, so that other rules may hold for them than for those
at the top (`Nested`).
-/

namespace Dataflow

open List

variable {config : Row} {s : Session}

/-! ### Operators -/

namespace Operator

theorem get?_withExpr {expr key : Text} (h : key ≠ "expr") :
    Fields.get? (withExpr config expr) key = Fields.get? config key := by
  unfold withExpr
  split
  · rfl
  · rw [Fields.get?_set, if_neg h.symm]

/-- The operators that bind one node. -/
inductive Basic : Operator → Prop
  | map (f : Func) : Basic (map f)
  | filter (f : Func) : Basic (filter f)
  | reduce (f : FoldFunc) (init : Value) : Basic (reduce f init)
  | window (size : Int64) : Basic (window size)
  | sink (uri : Text) : Basic (sink uri)
  | custom (kind : Text) (params : Row) : Basic (custom kind params)
  | join (other : Option Nat) (on : Text) : Basic (join other on)
  | union (others : List (Option Nat)) : Basic (union others)

/-- The operator is a chain of operators with the property `P`, and of choices and ensembles of operators
that are made of ones with the property `Q`. -/
inductive Nested (P Q : Operator → Prop) : Operator → Prop
  | leaf {o : Operator} (h : P o) : Nested P Q o
  | chain {first : Operator} {more : List Operator} (hfirst : Nested P Q first)
      (hmore : ∀ o ∈ more, Nested P Q o) : Nested P Q (chain first more)
  | choice {a b : Operator} (ha : Formed Q a) (hb : Formed Q b) : Nested P Q (choice a b)
  | ensemble {a b : Operator} (ha : Formed Q a) (hb : Formed Q b) : Nested P Q (ensemble a b)

/-- A node that stands for an operator has the tag and the settings of one that the operator binds. -/
theorem Rebuilds.exists_leaf {p : Text} {o : Operator} {nodes : List Node} (h : Rebuilds p o nodes) {n : Node}
    (hn : n ∈ nodes) :
    ∃ l ∈ o.leaves, ∃ q, n = { id := n.id, op := l.op, config := l.config, parents := [q] } := by
  have hpart : n.part ∈ o.leaves.map part := h.parts ▸ mem_map_of_mem hn
  obtain ⟨l, hl, heq⟩ := mem_map.mp hpart
  obtain ⟨q, hq⟩ := length_eq_one_iff.mp (h.chained.parents_length hn)
  obtain ⟨id, op, config, parents⟩ := n
  cases heq
  cases hq
  exact ⟨l, hl, q, rfl⟩

end Operator

/-! ### Sessions -/

namespace Session

open Operator (Formed Nested)

variable {P : Node → Prop} {α β : Type} {others : List (Option Nat)} {op : Op}

/-- Every node of every graph has the property. -/
def AllNodes (P : Node → Prop) (s : Session) : Prop := ∀ g ∈ s.graphs, ∀ n ∈ g.nodes, P n

theorem AllNodes.graphAt (h : s.AllNodes P) (k : Nat) : ∀ n ∈ (s.graphAt k).nodes, P n := by
  intro n hn
  refine h _ ?_ n hn
  rw [Session.graphAt, getD_eq_getElem _ _ (lt_of_mem_graphAt hn)]
  exact getElem_mem _

/-- Whether it succeeds or fails, the step leaves the property with all nodes. -/
def KeepsNodes (P : Node → Prop) (x : Building α) : Prop :=
  ∀ s, AllNodes P s → Runs x s (fun _ t => t.AllNodes P) fun _ t => t.AllNodes P

theorem KeepsNodes.bind {x : Building α} {f : α → Building β} (hx : KeepsNodes P x)
    (hf : ∀ a, KeepsNodes P (f a)) : KeepsNodes P (x >>= f) := fun s hs =>
  (hx s hs).bind hf

theorem keepsNodes_pure (a : α) : KeepsNodes P (pure a : Building α) := fun _ hs => runs_pure hs

theorem keepsNodes_throw (e : Stop) : KeepsNodes P (throw e : Building α) := fun _ hs => runs_throw hs

theorem keepsNodes_newNodeId : KeepsNodes P newNodeId := fun _ hs => hs

theorem keepsNodes_stream (ref : Nat) : KeepsNodes P (stream ref) := fun _ hs =>
  runs_stream (fun _ _ => hs) fun _ => hs

theorem keepsNodes_newStream {n : Node} (hn : P n) (k : Nat) : KeepsNodes P (newStream n k) := by
  intro s hs g hg m hm
  obtain ⟨j, hj⟩ := mem_iff_getElem?.mp (show g ∈ s.graphs.modify k (·.add n) from hg)
  rw [List.getElem?_modify] at hj
  obtain ⟨g', hg', heq⟩ := Option.map_eq_some_iff.mp hj
  have hold := hs g' (mem_of_getElem? hg')
  split at heq
  · subst heq
    rcases Graph.mem_add hm with hm | rfl
    · exact hold m hm
    · exact hn
  · exact hold m (heq ▸ hm)

theorem keepsNodes_unify (a b : Nat) : KeepsNodes P (unify a b) := by
  have hmerge (s : Session) (hs : s.AllNodes P) (into gone : Nat) : (s.merge into gone a b).AllNodes P := by
    intro g hg n hn
    rcases mem_or_eq_of_mem_set hg with hg | rfl
    · exact hs g hg n hn
    · exact (Graph.mem_absorb hn).elim (hs.graphAt into n) (hs.graphAt gone n)
  refine (keepsNodes_stream a).bind fun sa => (keepsNodes_stream b).bind fun sb => ?_
  split
  · refine fun s hs => runs_modify ?_
    split
    · exact hmerge s hs _ _
    · exact hmerge s hs _ _
  · exact keepsNodes_pure _

/-- The other streams give one tip each. -/
theorem runs_unifyAll_length {ref : Nat} (hs : s.AllNodes P) :
    Runs (unifyAll ref others) s (fun tips t => tips.length = others.length ∧ t.AllNodes P)
      fun _ t => t.AllNodes P := by
  induction others generalizing s with
  | nil => exact runs_pure ⟨rfl, hs⟩
  | cons o others ih =>
    cases o with
    | none => exact runs_throw hs
    | some o =>
      refine (keepsNodes_unify ref o s hs).bind fun _ t ht => ?_
      refine (keepsNodes_stream o t ht).bind fun st t ht => ?_
      refine (ih ht).bind fun tips u hu => runs_pure ?_
      exact ⟨by rw [length_cons, hu.1, length_cons], hu.2⟩

theorem keepsNodes_extend
    (h : ∀ id p, P { id, op, config, parents := [p] }) (ref : Nat) :
    KeepsNodes P (extend op config ref) :=
  keepsNodes_newNodeId.bind fun _ => (keepsNodes_stream ref).bind fun _ =>
    keepsNodes_newStream (h _ _) _

theorem keepsNodes_combine
    (h : ∀ id p ps, ps.length = others.length → P { id, op, config, parents := p :: ps }) (ref : Nat) :
    KeepsNodes P (combine op config ref others) := by
  refine (keepsNodes_stream ref).bind fun first s hs => ?_
  refine (runs_unifyAll_length hs).bind fun tips t ht => ?_
  refine (keepsNodes_newNodeId.bind fun id => (keepsNodes_stream ref).bind fun st => ?_) t ht.2
  exact keepsNodes_newStream (h id _ tips ht.1) st.graph

theorem keepsNodes_combineWith
    (h : op = .choice ∨ op = .ensemble ∨ op = .merge → ∀ id p q, P { id, op, config := [], parents := [p, q] })
    (a b : Nat) : KeepsNodes P (combineWith op a b) := by
  have hcombine (hop : op = .choice ∨ op = .ensemble ∨ op = .merge) :
      KeepsNodes P (combine op [] a [some b]) := by
    refine keepsNodes_combine (fun id p ps hps => ?_) a
    obtain ⟨q, rfl⟩ := length_eq_one_iff.mp hps
    exact h hop id p q
  unfold combineWith
  split
  · exact hcombine (.inl rfl)
  · exact hcombine (.inr (.inl rfl))
  · exact hcombine (.inr (.inr rfl))
  · exact keepsNodes_throw _

theorem keepsNodes_source (h : ∀ id, P { id, op := .source, config }) :
    KeepsNodes P (source config) := by
  intro s hs
  unfold Runs
  rw [run_source]
  intro g hg n hn
  rcases mem_append.mp hg with hg | hg
  · exact hs g hg n hn
  · rw [mem_singleton.mp hg] at hn
    rcases Graph.mem_add hn with hn | rfl
    · cases hn
    · exact h _

theorem keepsNodes_bindAll {os : List Operator}
    (h : ∀ o ∈ os, ∀ ref, KeepsNodes P (Session.bind o ref)) (ref : Nat) :
    KeepsNodes P (bindAll os ref) := by
  induction os generalizing ref with
  | nil => exact keepsNodes_pure ref
  | cons o os ih =>
    exact (h o mem_cons_self ref).bind (ih fun o ho => h o (mem_cons_of_mem _ ho))

theorem keepsNodes_nested {P Q : Operator → Prop} {R : Node → Prop} {o : Operator} (h : o.Nested P Q)
    (hleaf : ∀ o, P o → ∀ ref, KeepsNodes R (Session.bind o ref))
    (hcomposite : ∀ op a b, op = .choice ∨ op = .ensemble → Formed Q a → Formed Q b →
      ∀ id p, R (Operator.composite op a b id p)) (ref : Nat) : KeepsNodes R (Session.bind o ref) := by
  induction h generalizing ref with
  | leaf h => exact hleaf _ h ref
  | chain _ _ ihfirst ihmore => exact (ihfirst ref).bind (keepsNodes_bindAll ihmore)
  | choice ha hb => exact keepsNodes_extend (hcomposite .choice _ _ (.inl rfl) ha hb) ref
  | ensemble ha hb => exact keepsNodes_extend (hcomposite .ensemble _ _ (.inr rfl) ha hb) ref

/-- Operations that add nodes with the property only leave it with all nodes. -/
theorem AllNodes.run (hs : s.AllNodes P) {actions : List Action}
    (h : ∀ a ∈ actions, KeepsNodes P (perform a)) : (s.run actions).AllNodes P :=
  foldlRecOn actions _ (motive := AllNodes P) hs fun s hs a ha => (h a ha s hs).state

/-- The operators that the operation binds have the property. -/
def Action.Binds (P : Operator → Prop) : Action → Prop
  | .bind o _ => P o
  | _ => True

end Session

end Dataflow
