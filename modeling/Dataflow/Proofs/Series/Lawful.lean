import Dataflow.Series.Arithmetic
import Mathlib.Data.Rat.Defs
import Mathlib.Tactic.Common
import Mathlib.Tactic.Ring

/-!
# Laws of the numbers of series

`LawfulArithmetic` lists the laws by which a series may be computed in two ways: null is one number and
absorbs, a difference taken the other way round has the opposite sign, and sums may differ in the sign
of zero only (`Coincide`).

`Exact` are the numbers with null and exact operations.  Roots and quotients by zero are left open, so
that what holds of exact numbers does not depend on them.  Numbers that coincide are equal there.
-/

namespace Dataflow

open Arithmetic

/-- The same number, up to the sign of zero. -/
def Coincide {α : Type} [Arithmetic α] (x y : α) : Prop :=
  x = y ∨ (same x (ofInt 0) = true ∧ same y (ofInt 0) = true)

class LawfulArithmetic (α : Type) [Arithmetic α] : Prop where
  isNull_iff {x : α} : isNull x = true ↔ x = null
  isNull_zero : isNull (ofInt 0 : α) = false
  isNull_of_same_zero {x : α} : same x (ofInt 0) = true → isNull x = false
  isNull_neg (x : α) : isNull (-x) = isNull x
  null_add (x : α) : null + x = null
  null_sub (x : α) : null - x = null
  null_mul (x : α) : null * x = null
  mul_null (x : α) : x * null = null
  null_div (x : α) : null / x = null
  /-- Differences taken the other way round compare as their opposites do. -/
  lt_neg_sub (x y z : α) : lt z (-(x - y)) = lt z (y - x)
  neg_sub_lt (x y z : α) : lt (-(x - y)) z = lt (y - x) z
  neg_sub_of_pos {x y : α} : lt (ofInt 0) (y - x) = true → -(x - y) = y - x
  /-- Sums are the same up to the sign of zero. -/
  zero_add_coincide (x : α) : Coincide x (ofInt 0 + x)
  add_zero_coincide (x : α) : Coincide x (x + ofInt 0)
  sub_coincide (x y : α) : Coincide (x - y) (x + -y)
  add_coincide {x y : α} (z : α) : same x (ofInt 0) = true → same y (ofInt 0) = true →
    Coincide (x + z) (y + z)

namespace Coincide

variable {α : Type} [Arithmetic α] {x y z : α}

theorem refl (x : α) : Coincide x x := Or.inl rfl

theorem symm (h : Coincide x y) : Coincide y x := h.imp Eq.symm And.symm

theorem trans (h : Coincide x y) (h' : Coincide y z) : Coincide x z := by
  rcases h with rfl | ⟨hx, hy⟩
  · exact h'
  · rcases h' with rfl | ⟨-, hz⟩
    · exact Or.inr ⟨hx, hy⟩
    · exact Or.inr ⟨hx, hz⟩

variable [LawfulArithmetic α]

theorem isNull_eq (h : Coincide x y) : isNull x = isNull y := by
  rcases h with rfl | ⟨hx, hy⟩
  · rfl
  · rw [LawfulArithmetic.isNull_of_same_zero hx, LawfulArithmetic.isNull_of_same_zero hy]

theorem add (h : Coincide x y) (z : α) : Coincide (x + z) (y + z) := by
  rcases h with rfl | ⟨hx, hy⟩
  · exact refl _
  · exact LawfulArithmetic.add_coincide z hx hy

end Coincide

/-! ### Exact numbers -/

/-- A cell of a table of exact numbers: null or a rational number.  `root` are the square roots, and
`overZero` the quotients by zero. -/
def Exact (_root : Option ℚ → Option ℚ) (_overZero : ℚ → Option ℚ) : Type := Option ℚ

namespace Exact

variable {root : Option ℚ → Option ℚ} {overZero : ℚ → Option ℚ}

/-- A relation of numbers that is never true of null. -/
def compare (r : ℚ → ℚ → Bool) : Option ℚ → Option ℚ → Bool
  | some x, some y => r x y
  | _, _ => false

instance : Arithmetic (Exact root overZero) where
  add x y := Option.map₂ (· + ·) x y
  sub x y := Option.map₂ (· - ·) x y
  mul x y := Option.map₂ (· * ·) x y
  div x y := Option.bind x fun a => Option.bind y fun b => if b = 0 then overZero a else some (a / b)
  neg x := Option.map (fun a : ℚ => -a) x
  null := none
  isNull x := Option.isNone x
  ofInt n := some (n : ℚ)
  sqrt := root
  abs x := Option.map (fun a : ℚ => if a < 0 then -a else a) x
  min x y := Option.map₂ (fun a b : ℚ => if b < a then b else a) x y
  max x y := Option.map₂ (fun a b : ℚ => if a < b then b else a) x y
  lt := compare fun a b => a < b
  same := compare fun a b => a = b
  channelScale := some (3 / 200)

theorem eq_of_coincide {x y : Exact root overZero} (h : Coincide x y) : x = y := by
  have hzero {z : Exact root overZero} (hz : same z (ofInt 0) = true) : z = some 0 := by
    cases z with
    | none => cases hz
    | some a =>
      have ha : a = ((0 : Int) : ℚ) := of_decide_eq_true hz
      rw [ha]
      rfl
  rcases h with rfl | ⟨hx, hy⟩
  · rfl
  · rw [hzero hx, hzero hy]

private theorem neg_sub_eq (x y : Exact root overZero) : -(x - y) = y - x := by
  cases x with
  | none => cases y <;> rfl
  | some a =>
    cases y with
    | none => rfl
    | some b => exact congrArg some (neg_sub a b)

instance : LawfulArithmetic (Exact root overZero) where
  isNull_iff {x} := Option.isNone_iff_eq_none
  isNull_zero := rfl
  isNull_of_same_zero {x} h := by
    cases x with
    | none => cases h
    | some a => rfl
  isNull_neg x := by cases x <;> rfl
  null_add x := by cases x <;> rfl
  null_sub x := by cases x <;> rfl
  null_mul x := by cases x <;> rfl
  mul_null x := by cases x <;> rfl
  null_div x := by cases x <;> rfl
  lt_neg_sub x y z := by rw [neg_sub_eq]
  neg_sub_lt x y z := by rw [neg_sub_eq]
  neg_sub_of_pos _ := neg_sub_eq _ _
  zero_add_coincide x := by
    refine Or.inl ?_
    cases x with
    | none => rfl
    | some a => exact congrArg some (by simp)
  add_zero_coincide x := by
    refine Or.inl ?_
    cases x with
    | none => rfl
    | some a => exact congrArg some (by simp)
  sub_coincide x y := by
    refine Or.inl ?_
    cases x with
    | none => cases y <;> rfl
    | some a =>
      cases y with
      | none => rfl
      | some b => exact congrArg some (sub_eq_add_neg a b)
  add_coincide z hx hy := Or.inl (by rw [eq_of_coincide (Or.inr ⟨hx, hy⟩)])

end Exact

end Dataflow
