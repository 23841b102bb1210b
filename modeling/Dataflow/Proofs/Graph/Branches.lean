import Dataflow.Proofs.Session.Identifier
import Dataflow.Proofs.Text.Colon
import Mathlib.Data.List.Forall2

/-!
# Operators rebuilt from their descriptions

A choice or an ensemble of operators keeps descriptions of the two, and `Node.branches` makes nodes of
them.  `Rebuilds p o nodes` says when nodes stand for the operator `o` on top of the node `p`: there is
one for each operator that `o` binds (`Operator.leaves`), with its tag and settings, and each hangs off
the one before.

The nodes of a branch take identifiers `Under` that of the branch, so that no two of them clash
(`expand_laid`).  A description keeps its operator just as long as no setting `steps` of a bound operator
holds a list, which is taken for a chain, and no bound operator reads other streams
(`branches_lossless_iff`).
-/

namespace Dataflow

open List Outcome

/-! ### Identifiers in a tree -/

namespace Text

/-- The identifier is `root`, or was made from it by appending parts after a colon. -/
def Under (root t : Text) : Prop := t = root ∨ ∃ u, t = root ++ ":" ++ u

/-- No identifier is under both. -/
def Apart (a b : Text) : Prop := ∀ t, Under a t → ¬ Under b t

variable {a b r t u : Text}

theorem under_refl (t : Text) : Under t t := .inl rfl

theorem under_part (r a : Text) : Under r (r ++ ":" ++ a) := .inr ⟨a, rfl⟩

theorem Under.trans (h : Under a b) (h' : Under b t) : Under a t := by
  rcases h with rfl | ⟨u, rfl⟩
  · exact h'
  · rcases h' with rfl | ⟨v, rfl⟩
    · exact .inr ⟨u, rfl⟩
    · exact .inr ⟨u ++ ":" ++ v, by simp only [append_assoc]⟩

/-- A colonless root is what stands before the first colon. -/
theorem takeWhile_of_under (ha : Colonless a) (h : Under a t) :
    t.bytes.takeWhile (· ≠ byte ':') = a.bytes := by
  have hpos : ∀ x ∈ a.bytes, decide (x ≠ byte ':') = true := by
    intro x hx
    rw [decide_eq_true_eq]
    rintro rfl
    exact ha hx
  rcases h with rfl | ⟨u, rfl⟩
  · have happend : (t.bytes ++ []).takeWhile (· ≠ byte ':') = t.bytes ++ [].takeWhile (· ≠ byte ':') :=
      takeWhile_append_of_pos hpos
    simpa using happend
  · rw [append_assoc, bytes_append, takeWhile_append_of_pos hpos, bytes_append, bytes_colon]
    simp

theorem eq_of_under (ha : Colonless a) (hb : Colonless b) (h : Under a t) (h' : Under b t) : a = b :=
  ext (by rw [← takeWhile_of_under ha h, takeWhile_of_under hb h'])

theorem under_of_append (h : Under (r ++ ":" ++ a) t) : ∃ u, t = r ++ ":" ++ u ∧ Under a u := by
  rcases h with rfl | ⟨u, rfl⟩
  · exact ⟨a, rfl, under_refl a⟩
  · exact ⟨a ++ ":" ++ u, by simp only [append_assoc], under_part a u⟩

/-- Different parts after the same root are apart. -/
theorem apart_parts (ha : Colonless a) (hb : Colonless b) (hne : a ≠ b) :
    Apart (r ++ ":" ++ a) (r ++ ":" ++ b) := by
  intro t h h'
  obtain ⟨u, rfl, hu⟩ := under_of_append h
  obtain ⟨v, hv, hv'⟩ := under_of_append h'
  obtain rfl := append_cancel hv
  exact hne (eq_of_under ha hb hu hv')

theorem append_left (r : Text) : r ++ ":left" = r ++ ":" ++ "left" := by
  rw [append_assoc]
  exact congrArg (r ++ ·) (by decide)

theorem append_right (r : Text) : r ++ ":right" = r ++ ":" ++ "right" := by
  rw [append_assoc]
  exact congrArg (r ++ ·) (by decide)

theorem apart_sides (r : Text) : Apart (r ++ ":left") (r ++ ":right") := by
  rw [append_left, append_right]
  exact apart_parts (by decide) (by decide) (by decide)

theorem Apart.ne (h : Apart a b) : a ≠ b := by
  rintro rfl
  exact h a (under_refl a) (under_refl a)

theorem Apart.under (h : Apart a b) (ht : Under a t) (hu : Under b u) : Apart t u :=
  fun v hv hv' => h v (ht.trans hv) (hu.trans hv')

theorem ne_part (r a : Text) : r ++ ":" ++ a ≠ r := by
  intro h
  have hlength := congrArg (fun t => t.bytes.length) h
  simp only [bytes_append, bytes_colon, length_append, length_singleton] at hlength
  omega

theorem ne_of_under_part (h : Under (r ++ ":" ++ a) t) : t ≠ r := by
  obtain ⟨u, rfl, -⟩ := under_of_append h
  exact ne_part r u

theorem colonless_ofNat (k : Nat) : Colonless (ofNat k) := by
  have hdigits : toString k = String.ofList (Nat.toDigits 10 k) := Nat.repr_eq_ofList_toDigits
  rw [Colonless, ofNat, hdigits, ofString_ofList, ofChars]
  intro hmem
  obtain ⟨c, hc, hb⟩ := mem_flatMap.mp hmem
  have hdigit := Nat.isDigit_of_mem_toDigits (by omega) (by omega) hc
  obtain ⟨hlow, hhigh⟩ : 48 ≤ c.toNat ∧ c.toNat ≤ 57 := by
    simpa [Char.isDigit, UInt32.le_iff_toNat_le] using hdigit
  rw [utf8EncodeChar_of_le (by omega), mem_singleton] at hb
  have hcolon : 58 = c.toNat % 256 := congrArg UInt8.toNat hb
  omega

theorem ofNat_injective : Function.Injective ofNat := by
  intro n m h
  have hdigits : Nat.toDigits 10 n = Nat.toDigits 10 m := by
    have hrepr : n.repr = m.repr := ofString_injective h
    rw [Nat.repr_eq_ofList_toDigits, Nat.repr_eq_ofList_toDigits] at hrepr
    exact String.ofList_injective hrepr
  rw [← Nat.ofDigitChars_ten_toDigits (n := n), hdigits, Nat.ofDigitChars_ten_toDigits]

end Text

/-! ### Bound operators -/

namespace Operator

mutual

/-- The operators that bind one node each, in order. -/
def leaves : Operator → List Operator
  | o@(single _ _) | o@(multi _ _ _) => [o]
  | chain first more => leaves first ++ leavesAll more

def leavesAll : List Operator → List Operator
  | [] => []
  | o :: os => leaves o ++ leavesAll os

end

def part (o : Operator) : Op × Row := (o.op, o.config)

/-- The streams that the operator reads beside the one it is bound to. -/
def others : Operator → List (Option Nat)
  | multi _ _ os => os
  | single _ _ | chain _ _ => []

/-- Every bound operator has a declared tag. -/
def Declared (o : Operator) : Prop := ∀ l ∈ o.leaves, l.op.isDeclared

/-- The settings of no bound operator can be taken for a chain. -/
def Stepless (o : Operator) : Prop := ∀ l ∈ o.leaves, stepsOf? l.config = none

/-- The operator is made of operators with the property by chains, choices and ensembles. -/
inductive Formed (P : Operator → Prop) : Operator → Prop
  | leaf {o : Operator} (h : P o) : Formed P o
  | chain {first : Operator} {more : List Operator} (hfirst : Formed P first)
      (hmore : ∀ o ∈ more, Formed P o) : Formed P (chain first more)
  | choice {a b : Operator} (ha : Formed P a) (hb : Formed P b) : Formed P (choice a b)
  | ensemble {a b : Operator} (ha : Formed P a) (hb : Formed P b) : Formed P (ensemble a b)

theorem forall_mem_leavesAll {Q : Operator → Prop} {os : List Operator}
    (h : ∀ o ∈ os, ∀ l ∈ o.leaves, Q l) : ∀ l ∈ leavesAll os, Q l := by
  induction os with
  | nil => exact fun l hl => by cases hl
  | cons o os ih =>
    rw [leavesAll, forall_mem_append]
    exact ⟨h o mem_cons_self, ih fun x hx => h x (mem_cons_of_mem o hx)⟩

/-- The bound operators of a formed one: those of its leaves, and choices and ensembles of formed
operators, by induction on how it is formed. -/
theorem Formed.forall_leaves {P Q : Operator → Prop} {o : Operator} (h : Formed P o)
    (hleaf : ∀ o, P o → ∀ l ∈ o.leaves, Q l)
    (hcomposite : ∀ op a b, op = .choice ∨ op = .ensemble → Formed P a → Formed P b →
      (∀ l ∈ a.leaves, Q l) → (∀ l ∈ b.leaves, Q l) → Q (single op (branchConfig a b))) :
    ∀ l ∈ o.leaves, Q l := by
  induction h with
  | leaf h => exact hleaf _ h
  | chain _ _ ihfirst ihmore =>
    rw [leaves, forall_mem_append]
    exact ⟨ihfirst, forall_mem_leavesAll ihmore⟩
  | choice ha hb iha ihb =>
    exact forall_mem_singleton.mpr (hcomposite .choice _ _ (.inl rfl) ha hb iha ihb)
  | ensemble ha hb iha ihb =>
    exact forall_mem_singleton.mpr (hcomposite .ensemble _ _ (.inr rfl) ha hb iha ihb)

end Operator

variable {id p : Text} {ns ms : List Node} {desc : Value}

theorem Op.parse_name {op : Op} (h : op.isDeclared) : Op.parse op.name = .ok op := by
  cases op with
  | other => cases h
  | _ => rfl

/-! ### Nodes of a branch -/

def Node.part (n : Node) : Op × Row := (n.op, n.config)

/-- Each node reads the one before it, and the first one `p`. -/
inductive Chained : Text → List Node → Prop
  | nil {p : Text} : Chained p []
  | cons {p : Text} {n : Node} {ns : List Node} (hp : n.parents = [p]) (h : Chained n.id ns) :
      Chained p (n :: ns)

theorem Chained.append (h : Chained p ns)
    (h' : Chained ((ns.getLast?.map Node.id).getD p) ms) : Chained p (ns ++ ms) := by
  induction h with
  | nil => exact h'
  | @cons p n ns hp _ ih =>
    refine .cons hp (ih ?_)
    cases ns with
    | nil => exact h'
    | cons m ns => rwa [List.getLast?_cons_cons, List.getLast?_cons] at *

theorem Chained.parents_length (h : Chained p ns) {n : Node} (hn : n ∈ ns) : n.parents.length = 1 := by
  induction h with
  | nil => cases hn
  | cons hp _ ih =>
    rcases mem_cons.mp hn with rfl | hn
    · rw [hp]
      rfl
    · exact ih hn

/-- What holds of all nodes that are made from a description. -/
structure Laid (p : Text) (nodes : List Node) : Prop where
  chained : Chained p nodes
  apart : nodes.Pairwise fun n m => n.id.Apart m.id
  plain : ∀ n ∈ nodes, stepsOf? n.config = none

theorem Laid.nil : Laid p [] := ⟨.nil, .nil, by simp⟩

theorem Laid.append (h : Laid p ns)
    (h' : Laid ((ns.getLast?.map Node.id).getD p) ms) (hapart : ∀ n ∈ ns, ∀ m ∈ ms, n.id.Apart m.id) :
    Laid p (ns ++ ms) where
  chained := h.chained.append h'.chained
  apart := pairwise_append.mpr ⟨h.apart, h'.apart, hapart⟩
  plain := by
    intro n hn
    rcases mem_append.mp hn with hn | hn
    · exact h.plain n hn
    · exact h'.plain n hn

mutual

theorem expand_laid {id p : Text} {desc : Value} {nodes : List Node} (h : expand id desc p = .ok nodes) :
    Laid p nodes ∧ ∀ n ∈ nodes, id.Under n.id := by
  rw [expand] at h
  split at h
  · cases h
  · next d hrow =>
    obtain ⟨name, -, h⟩ := bind_eq_ok h
    obtain ⟨op, -, h⟩ := bind_eq_ok h
    split at h
    · next hsteps =>
      cases h
      exact ⟨⟨.cons rfl .nil, pairwise_singleton _ _, by simpa using hsteps⟩,
        by simpa using Text.under_refl id⟩
    · next steps hsteps =>
      obtain ⟨hlaid, hunder⟩ := expandAll_laid h
      refine ⟨hlaid, fun n hn => ?_⟩
      obtain ⟨j, -, hj⟩ := hunder n hn
      exact (Text.under_part _ _).trans hj
termination_by sizeOf desc
decreasing_by
  exact sizeOf_lt_of_stepsOf?_subRow (by assumption) (by assumption)

theorem expandAll_laid {id p : Text} {k : Nat} {steps : List Value} {nodes : List Node}
    (h : expandAll id k steps p = .ok nodes) :
    Laid p nodes ∧ ∀ n ∈ nodes, ∃ j, k ≤ j ∧ (id ++ ":" ++ Text.ofNat j).Under n.id := by
  cases steps with
  | nil =>
    rw [expandAll] at h
    cases h
    exact ⟨.nil, by simp⟩
  | cons step steps =>
    rw [expandAll] at h
    obtain ⟨sub, hsub, h⟩ := bind_eq_ok h
    obtain ⟨more, hmore, h⟩ := bind_eq_ok h
    cases h
    obtain ⟨hlaid, hunder⟩ := expand_laid hsub
    obtain ⟨hlaid', hunder'⟩ := expandAll_laid hmore
    refine ⟨hlaid.append hlaid' fun n hn m hm => ?_, fun n hn => ?_⟩
    · -- the part of this step is none of the later ones
      obtain ⟨j, hj, hm⟩ := hunder' m hm
      refine Text.Apart.under (Text.apart_parts ?_ ?_ fun heq => ?_) (hunder n hn) hm
      · exact Text.colonless_ofNat k
      · exact Text.colonless_ofNat j
      · have := Text.ofNat_injective heq
        omega
    · rcases mem_append.mp hn with hn | hn
      · exact ⟨k, Nat.le_refl k, hunder n hn⟩
      · obtain ⟨j, hj, hn⟩ := hunder' n hn
        exact ⟨j, by omega, hn⟩
termination_by sizeOf steps

end

/-- Nodes under an identifier, apart from each other, that read one node each. -/
structure Grouped (root : Text) (nodes : List Node) : Prop where
  apart : nodes.Pairwise fun n m => n.id.Apart m.id
  under : ∀ n ∈ nodes, root.Under n.id
  parents : ∀ n ∈ nodes, n.parents.length = 1

theorem Node.grouped_branches {n : Node} {left right : List Node} (h : n.branches = .ok (left, right)) :
    Grouped (n.id ++ ":left") left ∧ Grouped (n.id ++ ":right") right := by
  have hgrouped {id p : Text} {desc : Value} {nodes : List Node} (h : expand id desc p = .ok nodes) :
      Grouped id nodes := by
    obtain ⟨hlaid, hunder⟩ := expand_laid h
    exact ⟨hlaid.apart, hunder, fun n hn => hlaid.chained.parents_length hn⟩
  unfold branches at h
  split at h
  · obtain ⟨l, hl, h⟩ := bind_eq_ok h
    obtain ⟨r, hr, h⟩ := bind_eq_ok h
    cases h
    exact ⟨hgrouped hl, hgrouped hr⟩
  · cases h
    exact ⟨⟨.nil, by simp, by simp⟩, ⟨.nil, by simp, by simp⟩⟩

/-! ### Descriptions -/

/-- What a description stands for is told by its tag and its settings. -/
theorem expand_of_fields {desc : Value} {d config : Row} {op : Op} (hop : op.isDeclared)
    (hrow : desc.asRow? = some d) (htype : Fields.get? d "type" = some (.text op.name))
    (hconfig : Fields.get? d "config" = some (.row config)) (id p : Text) :
    expand id desc p =
      match stepsOf? config with
      | none => .ok [{ id, op, config, parents := [p] }]
      | some steps => expandAll id 0 steps p := by
  have hsub : subRow d "config" = config := by
    rw [subRow, hconfig]
    rfl
  rw [expand]
  split
  · next hnone =>
    rw [hrow] at hnone
    cases hnone
  · next d' hrow' =>
    obtain rfl : d = d' := Option.some.inj (hrow.symm.trans hrow')
    rw [htype]
    show (Outcome.ofExcept (Op.parse op.name) >>= _) = _
    rw [Op.parse_name hop, show (Outcome.ofExcept (.ok op) : Outcome Op) = pure op from rfl, pure_bind]
    split
    · next hsteps =>
      rw [hsub] at hsteps ⊢
      rw [hsteps]
      rfl
    · next steps hsteps =>
      rw [hsub] at hsteps
      rw [hsteps]

theorem expand_described {id p : Text} {op : Op} (hop : op.isDeclared) (config : Row) :
    expand id (.row [("config", .row config), ("type", .text op.name)]) p =
      match stepsOf? config with
      | none => .ok [{ id, op, config, parents := [p] }]
      | some steps => expandAll id 0 steps p := expand_of_fields hop rfl rfl rfl id p

theorem expandAll_cons {id p : Text} {k : Nat} {step : Value} {steps : List Value} {sub more : List Node}
    (hsub : expand (id ++ ":" ++ Text.ofNat k) step p = .ok sub)
    (hmore : expandAll id (k + 1) steps ((sub.getLast?.map Node.id).getD p) = .ok more) :
    expandAll id k (step :: steps) p = .ok (sub ++ more) := by
  rw [expandAll, hsub]
  show (expandAll _ _ _ _ >>= _) = _
  rw [hmore]
  rfl

namespace Operator

mutual

/-- The tag of an operator is that of one that it binds. -/
theorem op_eq_leaf (o : Operator) : ∃ l ∈ o.leaves, o.op = l.op := by
  cases o with
  | single op config | multi op config others => exact ⟨_, mem_singleton.mpr rfl, rfl⟩
  | chain first more =>
    rw [op, leaves]
    rcases lastOp_eq_leaf more first.op with hop | ⟨l, hl, hop⟩
    · obtain ⟨l, hl, hfirst⟩ := op_eq_leaf first
      exact ⟨l, mem_append_left _ hl, hop.trans hfirst⟩
    · exact ⟨l, mem_append_right _ hl, hop⟩

theorem lastOp_eq_leaf (os : List Operator) (last : Op) :
    lastOp last os = last ∨ ∃ l ∈ leavesAll os, lastOp last os = l.op := by
  cases os with
  | nil => exact .inl rfl
  | cons o os =>
    rw [lastOp, leavesAll]
    rcases lastOp_eq_leaf os o.op with hop | ⟨l, hl, hop⟩
    · obtain ⟨l, hl, ho⟩ := op_eq_leaf o
      exact .inr ⟨l, mem_append_left _ hl, hop.trans ho⟩
    · exact .inr ⟨l, mem_append_right _ hl, hop⟩

end

theorem Declared.op {o : Operator} (h : o.Declared) : o.op.isDeclared := by
  obtain ⟨l, hl, hop⟩ := op_eq_leaf o
  rw [hop]
  exact h l hl

mutual

/-- A description stands for the operators that its operator binds. -/
theorem exists_expand (o : Operator) (hd : o.Declared) (hs : o.Stepless) (id p : Text) :
    ∃ nodes, expand id o.describe p = .ok nodes ∧ nodes.map Node.part = o.leaves.map part := by
  cases o with
  | single op config | multi op config others =>
    have hconfig : stepsOf? config = none := hs _ (mem_singleton.mpr rfl)
    refine ⟨[{ id, op, config, parents := [p] }], ?_, rfl⟩
    rw [describe]
    exact (expand_described hd.op config).trans (by rw [hconfig]; rfl)
  | chain first more =>
    rw [describe, expand_described hd.op]
    exact exists_expandAll (first :: more) hd hs id p 0
termination_by (sizeOf o, 1)
decreasing_by
  subst_vars
  decreasing_tactic

theorem exists_expandAll (os : List Operator) (hd : ∀ l ∈ leavesAll os, l.op.isDeclared)
    (hs : ∀ l ∈ leavesAll os, stepsOf? l.config = none) (id p : Text) (k : Nat) :
    ∃ nodes, expandAll id k (describeAll os) p = .ok nodes ∧
      nodes.map Node.part = (leavesAll os).map part := by
  cases os with
  | nil => exact ⟨[], by rw [describeAll, expandAll]; rfl, rfl⟩
  | cons o os =>
    rw [leavesAll, forall_mem_append] at hd hs
    obtain ⟨sub, hsub, hparts⟩ := exists_expand o hd.1 hs.1 (id ++ ":" ++ Text.ofNat k) p
    obtain ⟨rest, hrest, hparts'⟩ := exists_expandAll os hd.2 hs.2 id
      ((sub.getLast?.map Node.id).getD p) (k + 1)
    refine ⟨sub ++ rest, ?_, ?_⟩
    · rw [describeAll]
      exact expandAll_cons hsub hrest
    · rw [leavesAll, map_append, map_append, hparts, hparts']
termination_by (sizeOf os, 0)

end

/-! ### What the branches of a node keep -/

/-- The node of a choice or an ensemble of two operators on top of a node. -/
def composite (op : Op) (a b : Operator) (id p : Text) : Node :=
  { id, op, config := branchConfig a b, parents := [p] }

/-- The nodes stand for the operator on top of the node `p`: one for each operator it binds, in order,
with its tag and settings, each on top of the one before. -/
structure Rebuilds (p : Text) (o : Operator) (nodes : List Node) : Prop where
  parts : nodes.map Node.part = o.leaves.map part
  chained : Chained p nodes

/-- Both operators are rebuilt, and no two nodes have one identifier. -/
structure Recovers (p : Text) (a b : Operator) (left right : List Node) : Prop where
  first : Rebuilds p a left
  second : Rebuilds p b right
  distinct : ((left ++ right).map Node.id).Nodup

/-- Each node reads the node before it and one for every stream that its operator reads. -/
def KeepsStreams (o : Operator) (nodes : List Node) : Prop :=
  Forall₂ (fun n l => n.parents.length = l.others.length + 1) nodes o.leaves

/-- No bound operator reads other streams. -/
def Alone (o : Operator) : Prop := ∀ l ∈ o.leaves, l.others = []

variable {o a b : Operator} {left right nodes : List Node}

/-- The nodes of a branch read one node each, so that they keep the streams only where there are none. -/
theorem Rebuilds.keepsStreams_iff (h : Rebuilds p o nodes) : o.KeepsStreams nodes ↔ o.Alone := by
  have hlength : nodes.length = o.leaves.length := by
    simpa using congrArg List.length h.parts
  have hone : ∀ n ∈ nodes, n.parents.length = 1 := fun n hn => h.chained.parents_length hn
  unfold KeepsStreams Alone
  generalize o.leaves = leaves at hlength
  clear h
  induction nodes generalizing leaves with
  | nil =>
    obtain rfl := length_eq_zero_iff.mp hlength.symm
    simp
  | cons n nodes ih =>
    cases leaves with
    | nil => cases hlength
    | cons l leaves =>
      have htail := ih (fun m hm => hone m (mem_cons_of_mem n hm)) leaves (by simpa using hlength)
      simp [htail, hone n mem_cons_self]

theorem isComposite {op : Op} (hop : op = .choice ∨ op = .ensemble) (a b : Operator) (id p : Text) :
    (composite op a b id p).isOperatorComposite := by
  rcases hop with rfl | rfl <;> rfl

theorem branches_composite (op : Op) (a b : Operator) (id p : Text) :
    (composite op a b id p).branches = (do
      let left ← expand (id ++ ":left") a.describe p
      let right ← expand (id ++ ":right") b.describe p
      return (left, right)) := rfl

/-- The nodes of the two branches have identifiers of their own. -/
theorem nodup_ids_branches {l r : Value} (hl : expand (id ++ ":left") l p = .ok left)
    (hr : expand (id ++ ":right") r p = .ok right) : ((left ++ right).map Node.id).Nodup := by
  obtain ⟨hleft, hunder⟩ := expand_laid hl
  obtain ⟨hright, hunder'⟩ := expand_laid hr
  have hsides := Text.apart_sides id
  refine pairwise_map.mpr (pairwise_append.mpr ⟨?_, ?_, fun n hn m hm => ?_⟩)
  · exact hleft.apart.imp Text.Apart.ne
  · exact hright.apart.imp Text.Apart.ne
  · exact (hsides.under (hunder n hn) (hunder' m hm)).ne

theorem recovers_of_stepless (hda : a.Declared) (hdb : b.Declared) (ha : a.Stepless) (hb : b.Stepless)
    (op : Op) (id p : Text) : ∃ left right, (composite op a b id p).branches = .ok (left, right) ∧
      Recovers p a b left right := by
  obtain ⟨left, hl, hpartsl⟩ := exists_expand a hda ha (id ++ ":left") p
  obtain ⟨right, hr, hpartsr⟩ := exists_expand b hdb hb (id ++ ":right") p
  refine ⟨left, right, ?_, ⟨hpartsl, (expand_laid hl).1.chained⟩, ⟨hpartsr, (expand_laid hr).1.chained⟩,
    nodup_ids_branches hl hr⟩
  rw [branches_composite, hl, hr]
  rfl

/-- What a description is taken for is no chain any more. -/
theorem Rebuilds.stepless (h : Rebuilds p o nodes) (hexpand : expand id desc p = .ok nodes) : o.Stepless := by
  intro l hl
  have hpart : l.part ∈ nodes.map Node.part := h.parts ▸ mem_map_of_mem hl
  obtain ⟨n, hn, heq⟩ := mem_map.mp hpart
  have hconfig : n.config = l.config := congrArg Prod.snd heq
  exact hconfig ▸ (expand_laid hexpand).1.plain n hn

theorem stepless_of_recovers {op : Op} (h : (composite op a b id p).branches = .ok (left, right))
    (hrec : Recovers p a b left right) :
    a.Stepless ∧ b.Stepless := by
  rw [branches_composite] at h
  obtain ⟨l, hl, h⟩ := bind_eq_ok h
  obtain ⟨r, hr, h⟩ := bind_eq_ok h
  cases h
  exact ⟨hrec.first.stepless hl, hrec.second.stepless hr⟩

/-- **What descriptions keep.**  The branches of a choice or an ensemble are the operators that its two
sides bind, in order and with nodes of their own, just where no bound operator has a list as its
setting `steps`.  They keep every input just where, besides, no bound operator reads another stream. -/
theorem branches_lossless_iff (op : Op) (a b : Operator) (ha : a.Declared) (hb : b.Declared)
    (id p : Text) :
    ((∃ left right, (composite op a b id p).branches = .ok (left, right) ∧ Recovers p a b left right) ↔
      a.Stepless ∧ b.Stepless) ∧
    ((∃ left right, (composite op a b id p).branches = .ok (left, right) ∧ Recovers p a b left right ∧
        a.KeepsStreams left ∧ b.KeepsStreams right) ↔
      (a.Stepless ∧ b.Stepless) ∧ a.Alone ∧ b.Alone) := by
  have hrecovers := fun hs : a.Stepless ∧ b.Stepless => recovers_of_stepless ha hb hs.1 hs.2 op id p
  constructor
  · exact ⟨fun ⟨_, _, h, hrec⟩ => stepless_of_recovers h hrec, hrecovers⟩
  · constructor
    · rintro ⟨left, right, h, hrec, hleft, hright⟩
      exact ⟨stepless_of_recovers h hrec, hrec.first.keepsStreams_iff.mp hleft,
        hrec.second.keepsStreams_iff.mp hright⟩
    · rintro ⟨hs, halone, halone'⟩
      obtain ⟨left, right, h, hrec⟩ := hrecovers hs
      exact ⟨left, right, h, hrec, hrec.first.keepsStreams_iff.mpr halone,
        hrec.second.keepsStreams_iff.mpr halone'⟩

/-- A chain with a choice in it. -/
def nested : Operator := chain (window 2) [choice (window 3) (sink "out"), window 4]

/-- A custom operator whose setting `steps` is no list. -/
def counted : Operator := custom "k" [("steps", .text "two")]

theorem branches_lossless_nested :
    nested.Declared ∧ counted.Declared ∧
      ∃ left right, (composite .choice nested counted "c" "p").branches = .ok (left, right) ∧
        Recovers "p" nested counted left right ∧ nested.KeepsStreams left ∧
        counted.KeepsStreams right := by
  have hnested (P : Operator → Prop) (h : P (window 2) ∧ P (choice (window 3) (sink "out")) ∧ P (window 4)) :
      ∀ l ∈ nested.leaves, P l :=
    List.forall_mem_cons.mpr ⟨h.1, List.forall_mem_cons.mpr ⟨h.2.1, List.forall_mem_singleton.mpr h.2.2⟩⟩
  have hcounted (P : Operator → Prop) (h : P counted) : ∀ l ∈ counted.leaves, P l :=
    List.forall_mem_singleton.mpr h
  have ha : nested.Declared := hnested _ ⟨rfl, rfl, rfl⟩
  have hb : counted.Declared := hcounted _ rfl
  exact ⟨ha, hb, (branches_lossless_iff .choice nested counted ha hb "c" "p").2.mpr
    ⟨⟨hnested _ ⟨rfl, rfl, rfl⟩, hcounted _ rfl⟩, hnested _ ⟨rfl, rfl, rfl⟩, hcounted _ rfl⟩⟩

/-- A custom operator with a list under `steps` leaves no node behind, and the other stream of a join is
no input of its node. -/
theorem branches_lose :
    (composite .choice (custom "k" [("steps", .list [])]) (join (some 1) "on") "c" "p").branches =
      .ok ([], [{ id := "c:right", op := .join, config := [("on", .text "on")], parents := ["p"] }]) ∧
    (custom "k" [("steps", .list [])]).leaves.length = 1 ∧ (join (some 1) "on").others.length = 1 := by
  refine ⟨?_, rfl, rfl⟩
  with_unfolding_all rfl

end Operator

end Dataflow
