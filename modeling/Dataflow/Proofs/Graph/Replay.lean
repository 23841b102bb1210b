import Dataflow.Proofs.Compile.Settings
import Dataflow.Proofs.Graph.Document

/-!
# Branches read back

A choice or an ensemble keeps descriptions of its operators among its settings, and these come back with
the rest.  What is read back stands for nodes in the same places (`Operator.exists_expand_replayed`), as long
as no bound operator has a setting `steps` that is written as a list: such a list is taken for a chain once
it is read back.  So the steps of a node and of what is read back of it agree, if those of the
operators in its branches do (`Operator.lasting_composite`).
-/

namespace Dataflow

open List

/-- What is read back of the node resembles it. -/
def Node.Lasting (n : Node) : Prop := ∀ n', Node.Alongside Node.Follows n n' → n.Resembles n'

/-- Nothing under `steps` can be taken for a chain, even when it is read back. -/
structure Row.Stepless (r : Row) : Prop where
  distinct : r.Distinct
  unlisted : ∀ v, Fields.get? r "steps" = some v → ¬ v.Listed

namespace Row

variable {r r' : Row}

theorem Replays.exists_replay? (h : r.Replays r') {key : Text} {v : Value}
    (hv : Fields.get? r key = some v) : ∃ v', v.replay? = some v' := by
  obtain ⟨fs, hfs, -⟩ := h
  obtain ⟨e, -, he⟩ := exists_mem_of_forall₂ hfs (Fields.mem_of_get? hv)
  exact ⟨e.2, he.2⟩

theorem stepsOf?_eq_none (h : ∀ v, Fields.get? r "steps" = some v → ¬ v.IsList) : stepsOf? r = none := by
  unfold stepsOf?
  split
  · next xs hxs => exact absurd (.list xs) (h _ hxs)
  · next hxs => exact absurd .noList (h _ hxs)
  · rfl

theorem Stepless.none (h : r.Stepless) (hr : r.Replays r') : stepsOf? r = none ∧ stepsOf? r' = none := by
  have hback := hr.get? h.distinct (by decide : Text.Ascii "steps")
  refine ⟨stepsOf?_eq_none fun v hv hlist => ?_, stepsOf?_eq_none fun v' hv' hlist => ?_⟩
  · obtain ⟨v', hv'⟩ := hr.exists_replay? hv
    exact h.unlisted v hv (hlist.listed hv')
  · rw [hback] at hv'
    obtain ⟨v, hv, hreplay⟩ := Option.bind_eq_some_iff.mp hv'
    exact h.unlisted v hv (Value.listed_of_replay? hreplay hlist)

/-- A description comes back with its tag and what comes back of its settings. -/
theorem exists_replayed_description {op : Op} (hop : op.isDeclared) {config : Row} {desc : Value}
    (h : (Value.row [("config", .row config), ("type", .text op.name)]).replay? = some desc) :
    ∃ d config', desc.asRow? = some d ∧ Fields.get? d "type" = some (.text op.name) ∧
      Fields.get? d "config" = some (.row config') ∧ config.Replays config' := by
  obtain ⟨d, rfl, hd⟩ := exists_replays h
  have hdistinct : Row.Distinct [("config", .row config), ("type", .text op.name)] :=
    show List.Nodup [("config" : Text), "type"] by decide
  obtain ⟨v, hv⟩ := hd.exists_replay? (rfl : Fields.get? _ "config" = some (.row config))
  obtain ⟨config', rfl, hconfig⟩ := exists_replays hv
  refine ⟨d, config', rfl, ?_, ?_, hconfig⟩
  · rw [hd.get? hdistinct (by decide)]
    exact (Value.replay?_text _).trans (by rw [op.shown_name hop])
  · rw [hd.get? hdistinct (by decide)]
    exact hv

end Row

namespace Operator

/-- Nothing that the operator binds can be taken for a chain, even when it is read back. -/
def Unlisted (o : Operator) : Prop := ∀ l ∈ o.leaves, l.config.Stepless

/-- The two descriptions stand for nodes in the same places, the second for what is read back of the
first. -/
def Expands (leaves : List Operator) (x x' : Outcome (List Node)) : Prop :=
  ∃ nodes nodes', x = .ok nodes ∧ x' = .ok nodes' ∧ nodes.map Node.part = leaves.map part ∧
    Forall₂ (Node.Alongside Node.Follows) nodes nodes'

theorem expands_described {op : Op} (hop : op.isDeclared) {config : Row} (hs : config.Stepless)
    {desc : Value} (h : (Value.row [("config", .row config), ("type", .text op.name)]).replay? = some desc)
    (id p : Text) : ∃ config', config.Replays config' ∧
      expand id (.row [("config", .row config), ("type", .text op.name)]) p =
        .ok [{ id, op, config, parents := [p] }] ∧
      expand id desc p = .ok [{ id, op, config := config', parents := [p] }] := by
  obtain ⟨d, config', hrow, htype, hconfig, hreplays⟩ := Row.exists_replayed_description hop h
  obtain ⟨hsteps, hsteps'⟩ := hs.none hreplays
  refine ⟨config', hreplays, ?_, ?_⟩
  · rw [expand_described hop, hsteps]
  · rw [expand_of_fields hop hrow htype hconfig, hsteps']

mutual

/-- What is read back of a description stands for nodes in the same places. -/
theorem exists_expand_replayed (o : Operator) (hd : o.Declared) (hs : o.Unlisted) {desc : Value}
    (h : o.describe.replay? = some desc) (id p : Text) :
    Expands o.leaves (expand id o.describe p) (expand id desc p) := by
  cases o with
  | single op config | multi op config others =>
    rw [describe] at h ⊢
    obtain ⟨config', hreplays, hnodes, hnodes'⟩ :=
      expands_described hd.op (hs _ (mem_singleton.mpr rfl)) h id p
    exact ⟨_, _, hnodes, hnodes', rfl, .cons ⟨rfl, rfl, rfl, hreplays⟩ .nil⟩
  | chain first more =>
    rw [describe] at h ⊢
    obtain ⟨d, config', hrow, htype, hconfig, hreplays⟩ := Row.exists_replayed_description hd.op h
    have hdistinct : Row.Distinct [("steps", .list (describeAll (first :: more)))] :=
      show List.Nodup [("steps" : Text)] by decide
    obtain ⟨v, hv⟩ := hreplays.exists_replay?
      (rfl : Fields.get? _ "steps" = some (.list (describeAll (first :: more))))
    obtain ⟨ys, rfl, hys⟩ := Value.exists_forall₂_replay? hv
    have hsteps : Fields.get? config' "steps" = some (.list ys) :=
      (hreplays.get? hdistinct (by decide)).trans hv
    rw [expand_described hd.op, expand_of_fields hd.op hrow htype hconfig, stepsOf?, stepsOf?, hsteps]
    exact exists_expandAll_replayed (first :: more) hd hs hys id p 0
termination_by (sizeOf o, 1)
decreasing_by
  subst_vars
  decreasing_tactic

theorem exists_expandAll_replayed (os : List Operator) (hd : ∀ l ∈ leavesAll os, l.op.isDeclared)
    (hs : ∀ l ∈ leavesAll os, l.config.Stepless) {descs : List Value}
    (h : Forall₂ (fun x y => x.replay? = some y) (describeAll os) descs) (id p : Text) (k : Nat) :
    Expands (leavesAll os) (expandAll id k (describeAll os) p) (expandAll id k descs p) := by
  cases os with
  | nil =>
    rw [describeAll] at h ⊢
    obtain rfl := forall₂_nil_left_iff.mp h
    exact ⟨[], [], by rw [expandAll]; rfl, by rw [expandAll]; rfl, rfl, .nil⟩
  | cons o os =>
    rw [leavesAll, forall_mem_append] at hd hs
    rw [describeAll] at h ⊢
    obtain ⟨y, ys, hy, hmore, rfl⟩ := forall₂_cons_left_iff.mp h
    obtain ⟨sub, sub', hsub, hsub', hparts, hrel⟩ :=
      exists_expand_replayed o hd.1 hs.1 hy (id ++ ":" ++ Text.ofNat k) p
    obtain ⟨rest, rest', hrest, hrest', hparts', hrel'⟩ :=
      exists_expandAll_replayed os hd.2 hs.2 hmore id ((sub.getLast?.map Node.id).getD p) (k + 1)
    have hlast : sub.getLast?.map Node.id = sub'.getLast?.map Node.id := by
      rw [← List.getLast?_map, ← List.getLast?_map, map_id_of_alongside hrel]
    refine ⟨sub ++ rest, sub' ++ rest', expandAll_cons hsub hrest, ?_, ?_, rel_append hrel hrel'⟩
    · exact expandAll_cons hsub' (hlast ▸ hrest')
    · rw [leavesAll, map_append, map_append, hparts, hparts']
termination_by (sizeOf os, 0)

end

/-- The operator can stand in a branch: it is told from a chain, and what is read back of its node resembles
it. -/
structure Enduring (o : Operator) : Prop where
  declared : o.op.isDeclared
  stepless : o.config.Stepless
  lasting : ∀ id p, Node.Lasting { id, op := o.op, config := o.config, parents := [p] }

theorem relAll_steps {o : Operator} (ho : ∀ l ∈ o.leaves, l.Enduring) {id p : Text} {nodes nodes' : List Node}
    (h : expand id o.describe p = .ok nodes) (hparts : nodes.map Node.part = o.leaves.map part)
    (hrel : Forall₂ (Node.Alongside Node.Follows) nodes nodes') :
    Step.RelAll Node.Agrees Node.Named (nodes.map Node.step) (nodes'.map Node.step) := by
  have hrebuilds : o.Rebuilds p nodes := ⟨hparts, (expand_laid h).1.chained⟩
  refine Step.relAll_map hrel fun m hm m' hfollows => ?_
  obtain ⟨l, hl, q, heq⟩ := hrebuilds.exists_leaf hm
  have hlasting := (ho l hl).lasting m.id q
  rw [← heq] at hlasting
  exact (hlasting m' hfollows).step

/-- What is read back of a choice or an ensemble of enduring operators resembles it. -/
theorem lasting_composite {op : Op} (hop : op = .choice ∨ op = .ensemble) {a b : Operator}
    (ha : ∀ l ∈ a.leaves, l.Enduring) (hb : ∀ l ∈ b.leaves, l.Enduring) (id p : Text) :
    Node.Lasting (composite op a b id p) := by
  rintro ⟨id', op', config', parents'⟩ ⟨hid, hparents, hop', hconfig⟩
  obtain rfl : id = id' := hid
  obtain rfl : [p] = parents' := hparents
  obtain rfl : op = op' := hop'
  have hdistinct : Row.Distinct (branchConfig a b) := show List.Nodup [("left" : Text), "right"] by decide
  obtain ⟨l, hl⟩ := hconfig.exists_replay? (rfl : Fields.get? (branchConfig a b) "left" = some a.describe)
  obtain ⟨r, hr⟩ := hconfig.exists_replay? (rfl : Fields.get? (branchConfig a b) "right" = some b.describe)
  have hleft : Fields.get? config' "left" = some l := (hconfig.get? hdistinct (by decide)).trans hl
  have hright : Fields.get? config' "right" = some r := (hconfig.get? hdistinct (by decide)).trans hr
  obtain ⟨left, left', hexpand, hexpand', hparts, hrel⟩ := exists_expand_replayed a
    (fun l hl => (ha l hl).declared) (fun l hl => (ha l hl).stepless) hl (id ++ ":left") p
  obtain ⟨right, right', hexpandr, hexpandr', hpartsr, hrelr⟩ := exists_expand_replayed b
    (fun l hl => (hb l hl).declared) (fun l hl => (hb l hl).stepless) hr (id ++ ":right") p
  have hcomposite' : Node.isOperatorComposite ⟨id, op, config', [p]⟩ := by
    have hhas : Fields.has config' "left" = true := by rw [Fields.has_eq_isSome, hleft]; rfl
    rcases hop with rfl | rfl <;> simp [Node.isOperatorComposite, hhas]
  have hbranches : (composite op a b id p).branches = .ok (left, right) := by
    rw [branches_composite, hexpand, hexpandr]
    rfl
  have hbranches' : Node.branches ⟨id, op, config', [p]⟩ = .ok (left', right') := by
    simp only [Node.branches, Node.value?, hleft, hright, hexpand', hexpandr']
    rfl
  constructor
  · refine ⟨rfl, rfl, rfl, ?_, ?_, ?_, ?_⟩
    all_goals rcases hop with rfl | rfl <;> simp [composite, Op.settings]
  · rw [Node.step_composite (isComposite hop a b id p) hbranches, Node.step_composite hcomposite' hbranches']
    exact .composite ⟨rfl, rfl⟩ (relAll_steps ha hexpand hparts hrel) (relAll_steps hb hexpandr hpartsr hrelr)

end Operator

/-- A node that is no choice or ensemble of operators, and is read back as none, lasts if it agrees with
what is read back. -/
theorem Node.lasting_of_agrees {n : Node} (hop : n.op ≠ .choice ∧ n.op ≠ .ensemble)
    (h : ∀ n', Node.Alongside Node.Follows n n' → n.Agrees n') : n.Lasting := by
  intro n' hn'
  have hplain {m : Node} (hm : m.op ≠ .choice ∧ m.op ≠ .ensemble) : m.isOperatorComposite = false := by
    simp [Node.isOperatorComposite, hm]
  refine ⟨h n' hn', ?_⟩
  rw [Node.step_single (hplain hop), Node.step_single (hplain (hn'.related.op ▸ hop))]
  exact .single (h n' hn')

end Dataflow
