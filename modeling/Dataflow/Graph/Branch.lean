import Dataflow.Graph.Basic

/-!
# Branches

A choice or an ensemble of two operators is one node whose settings describe both.  `Node.branches`
turns the descriptions back into nodes: each branch hangs off the node's parent, and a chain becomes
consecutive nodes.  `Node.step` does so for the branches of the branches too.
-/

namespace Dataflow

open Fields Outcome

theorem Fields.sizeOf_get?_lt {fields : List (Text × Value)} {key : Text} {v : Value}
    (h : get? fields key = some v) : sizeOf v < sizeOf fields := by
  unfold get? at h
  obtain ⟨⟨k, w⟩, hfind, rfl⟩ := Option.map_eq_some_iff.1 h
  have hmem := List.sizeOf_lt_of_mem (List.mem_of_find?_eq_some hfind)
  simp only [Prod.mk.sizeOf_spec] at hmem
  show sizeOf w < sizeOf fields
  omega

theorem Value.sizeOf_asRow?_lt {v : Value} {r : Row} (h : v.asRow? = some r) (hr : r ≠ []) :
    sizeOf r < sizeOf v := by
  cases v <;> simp_all [Value.asRow?]

def stepsOf? (config : Row) : Option (List Value) :=
  match get? config "steps" with
  | some (.list xs) => some xs
  | some .noList => some []
  | _ => none

def subRow (fields : Row) (key : Text) : Row := ((get? fields key).bind Value.asRow?).getD []

theorem sizeOf_subRow_lt {fields : Row} {key : Text} (h : subRow fields key ≠ []) :
    sizeOf (subRow fields key) < sizeOf fields := by
  unfold subRow at h ⊢
  cases hv : get? fields key with
  | none => simp [hv] at h
  | some v =>
    cases hr : v.asRow? with
    | none => simp [hv, hr] at h
    | some r =>
      simp only [hv, hr, Option.bind_some, Option.getD_some] at h ⊢
      exact Nat.lt_trans (Value.sizeOf_asRow?_lt hr h) (sizeOf_get?_lt hv)

theorem sizeOf_lt_of_stepsOf?_eq {config : Row} {steps : List Value}
    (h : stepsOf? config = some steps) : sizeOf steps < sizeOf config := by
  unfold stepsOf? at h
  split at h
  · next xs hxs =>
    cases h
    have h1 := sizeOf_get?_lt hxs
    simp only [Value.list.sizeOf_spec] at h1
    omega
  · next hxs =>
    cases h
    have h1 := sizeOf_get?_lt hxs
    simp only [Value.noList.sizeOf_spec] at h1
    simpa using h1
  · simp at h

theorem sizeOf_lt_of_stepsOf?_subRow {desc : Value} {d : Row} {steps : List Value}
    (hrow : desc.asRow? = some d) (hsteps : stepsOf? (subRow d "config") = some steps) :
    sizeOf steps < sizeOf desc := by
  have h1 := sizeOf_lt_of_stepsOf?_eq hsteps
  have hne : subRow d "config" ≠ [] := by
    intro h
    rw [h] at hsteps
    simp [stepsOf?, get?] at hsteps
  have h2 := sizeOf_subRow_lt hne
  have hd : d ≠ [] := by
    intro h
    apply hne
    simp [h, subRow, get?]
  have h3 := Value.sizeOf_asRow?_lt hrow hd
  omega

mutual

/-- The nodes an operator description stands for, on top of a parent.  A chain stands for those of
its steps. -/
def expand (id : Text) (desc : Value) (parent : Text) : Outcome (List Node) :=
  match _hrow : desc.asRow? with
  | none => fail (Failure.invalidInput "branch" "operator descriptor must be an object")
  | some d => do
    let name ← ofOption ((get? d "type").getD .null).toText?
    let op ← ofExcept (Op.parse name)
    match _hsteps : stepsOf? (subRow d "config") with
    | none => return [{ id, op, config := subRow d "config", parents := [parent] }]
    | some steps => expandAll id 0 steps parent
termination_by sizeOf desc
decreasing_by
  exact sizeOf_lt_of_stepsOf?_subRow _hrow _hsteps

def expandAll (id : Text) (k : Nat) (steps : List Value) (parent : Text) : Outcome (List Node) :=
  match steps with
  | [] => return []
  | step :: steps => do
    let sub ← expand (id ++ ":" ++ Text.ofNat k) step parent
    let more ← expandAll id (k + 1) steps ((sub.getLast?.map Node.id).getD parent)
    return sub ++ more
termination_by sizeOf steps

end

theorem sizeOf_subRow_lt_of_asRow? {desc : Value} {d : Row} (hrow : desc.asRow? = some d)
    (hd : d ≠ []) : sizeOf (subRow d "config") < sizeOf desc := by
  have h1 := Value.sizeOf_asRow?_lt hrow hd
  by_cases h : subRow d "config" = []
  · rw [h]
    cases d with
    | nil => exact absurd rfl hd
    | cons x xs =>
      simp only [List.cons.sizeOf_spec, List.nil.sizeOf_spec] at h1 ⊢
      omega
  · have h2 := sizeOf_subRow_lt h
    omega

/-- The settings of a node that a description stands for are part of the description. -/
theorem sizeOf_config_lt_of_expand (m : Nat) :
    (∀ id desc parent nodes, sizeOf desc ≤ m → expand id desc parent = .ok nodes →
      ∀ n ∈ nodes, sizeOf n.config < sizeOf desc) ∧
    (∀ id k steps parent nodes, sizeOf steps ≤ m → expandAll id k steps parent = .ok nodes →
      ∀ n ∈ nodes, sizeOf n.config < sizeOf steps) := by
  induction m using Nat.strongRecOn with
  | ind m ih =>
    constructor
    · intro id desc parent nodes hm h n hn
      rw [expand] at h
      split at h
      · cases h
      · next d hrow =>
        obtain ⟨name, hname, h⟩ := bind_eq_ok h
        obtain ⟨op, hop, h⟩ := bind_eq_ok h
        split at h
        · next hsteps =>
          cases h
          obtain rfl := List.mem_singleton.1 hn
          refine sizeOf_subRow_lt_of_asRow? hrow ?_
          rintro rfl
          simp only [get?, List.find?_nil, Option.map_none, Option.getD_none, Value.toText?,
            ofOption] at hname
          cases hname
          cases hop
        · next steps hsteps =>
          have hlt := sizeOf_lt_of_stepsOf?_subRow hrow hsteps
          have := (ih (sizeOf steps) (by omega)).2 id 0 steps parent nodes (Nat.le_refl _) h n hn
          omega
    · intro id k steps parent nodes hm h n hn
      cases steps with
      | nil => rw [expandAll] at h; cases h; cases hn
      | cons step steps =>
        rw [expandAll] at h
        obtain ⟨sub, hsub, h⟩ := bind_eq_ok h
        obtain ⟨more, hmore, h⟩ := bind_eq_ok h
        cases h
        simp only [List.cons.sizeOf_spec] at hm ⊢
        rcases List.mem_append.1 hn with hn | hn
        · have := (ih (sizeOf step) (by omega)).1 _ _ _ _ (Nat.le_refl _) hsub n hn
          omega
        · have := (ih (sizeOf steps) (by omega)).2 _ _ _ _ _ (Nat.le_refl _) hmore n hn
          omega

namespace Node

/-- Whether the node is a choice or an ensemble of two operators, and not of two streams. -/
def isOperatorComposite (n : Node) : Bool :=
  (n.op = .choice || n.op = .ensemble) && has n.config "left" && n.parents.length = 1

/-- The two branches of a node, empty where it records none. -/
def branches (n : Node) : Outcome (List Node × List Node) :=
  match n.parents, n.value? "left", n.value? "right" with
  | [parent], some l, some r => do
    let left ← expand (n.id ++ ":left") l parent
    let right ← expand (n.id ++ ":right") r parent
    return (left, right)
  | _, _, _ => return ([], [])

/-- The settings of a node of a branch are part of the settings of the node with the branches. -/
theorem sizeOf_config_lt_of_branches {n m : Node} {l r : List Node} (h : n.branches = .ok (l, r))
    (hm : m ∈ l ∨ m ∈ r) : sizeOf m.config < sizeOf n.config := by
  unfold branches at h
  split at h
  · next parent lv rv _ hl hr =>
    obtain ⟨left, hleft, h⟩ := bind_eq_ok h
    obtain ⟨right, hright, h⟩ := bind_eq_ok h
    cases h
    have h1 := sizeOf_get?_lt hl
    have h2 := sizeOf_get?_lt hr
    rcases hm with hm | hm
    · have := (sizeOf_config_lt_of_expand _).1 _ _ _ _ (Nat.le_refl _) hleft m hm
      omega
    · have := (sizeOf_config_lt_of_expand _).1 _ _ _ _ (Nat.le_refl _) hright m hm
      omega
  · cases h
    simp at hm

end Node

/-- A node with the steps of its branches, and those of theirs. -/
inductive Step where
  | single (n : Node)
  | composite (n : Node) (left right : List Step)
  | broken (n : Node) (s : Stop)

def Node.step (n : Node) : Step :=
  if n.isOperatorComposite then
    match _h : n.branches with
    | .error s => .broken n s
    | .ok (left, right) =>
      .composite n (left.attach.map fun m => m.1.step) (right.attach.map fun m => m.1.step)
  else .single n
termination_by sizeOf n.config
decreasing_by
  · exact Node.sizeOf_config_lt_of_branches _h (.inl m.2)
  · exact Node.sizeOf_config_lt_of_branches _h (.inr m.2)

end Dataflow
