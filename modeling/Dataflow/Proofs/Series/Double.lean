import Dataflow.Proofs.Series.Lawful
import Mathlib

/-!
# Doubles obey the laws

A double is packed from a sign, a mantissa and an exponent, and an operation unpacks its operands and
packs the rounded result.  Packing keeps the sign apart from the rest (`parts_ofParts_neg`), so that a
difference taken the other way round is the opposite one, but for zero, which is positive either way
(`neg_sub_cases`).  With that doubles are a `LawfulArithmetic`.  No smaller import than the whole library has
the lemmas on packing.
-/

namespace Dataflow.Double

open Float.Model Float.Model.UnpackedFloat

def parts (x : Float) : UnpackedFloat := x.toModel.unpack

def ofParts (u : UnpackedFloat) : Float := ⟨Float.Model.pack u⟩

@[simp] theorem ofParts_parts (x : Float) : ofParts (parts x) = x := by
  obtain ⟨⟨bits, valid⟩⟩ := x
  simp only [ofParts, parts, Float.Model.pack, Float.Model.unpack, pack_unpack_of_valid valid]

theorem parts_inj {x y : Float} (h : parts x = parts y) : x = y := by
  rw [← ofParts_parts x, ← ofParts_parts y, h]

section Operations

variable (x y : Float)

theorem add_eq : x + y = ofParts (add Format.binary64 (parts x) (parts y)) := rfl

theorem sub_eq : x - y = ofParts (sub Format.binary64 (parts x) (parts y)) := rfl

theorem mul_eq : x * y = ofParts (mul Format.binary64 (parts x) (parts y)) := rfl

theorem div_eq : x / y = ofParts (div Format.binary64 (parts x) (parts y)) := rfl

theorem neg_eq : -x = ofParts (parts x).neg := rfl

theorem isNaN_eq : x.isNaN = (parts x).isNaN := rfl

theorem lt_eq : decide (x < y) = (parts x).lt (parts y) := by
  rw [Bool.eq_iff_iff, decide_eq_true_iff]
  exact decide_eq_true_iff

theorem beq_eq : (x == y) = (parts x).beq (parts y) := rfl

end Operations

/-! ### Packing and the sign -/

theorem unpack_packComponents_neg (s : Sign) (e : BitVec Format.binary64.exponentBits)
    (m : BitVec Format.binary64.mantissaBitsWithoutImplicit) :
    UnpackedFloat.unpack Format.binary64 (packComponents Format.binary64 (-s) e m) =
      (UnpackedFloat.unpack Format.binary64 (packComponents Format.binary64 s e m)).neg := by
  simp only [UnpackedFloat.unpack, unpackSign_packComponents, unpackExponent_packComponents,
    unpackMantissa_packComponents, Sign.ofBitVec_toBitVec]
  split
  · split <;> rfl
  · split
    · split <;> rfl
    · rfl

theorem parts_ofParts_neg (u : UnpackedFloat) : parts (ofParts u.neg) = (parts (ofParts u)).neg := by
  cases u with
  | notANumber => rfl
  | infinity s | zero s => exact unpack_packComponents_neg s _ _
  | finite s m e hm =>
    simp only [parts, ofParts, Float.Model.pack, Float.Model.unpack, UnpackedFloat.neg,
      UnpackedFloat.pack]
    split
    · exact unpack_packComponents_neg s _ _
    · split <;> exact unpack_packComponents_neg s _ _

theorem parts_neg (x : Float) : parts (-x) = (parts x).neg := by
  rw [neg_eq, parts_ofParts_neg, ofParts_parts]

theorem neg_ofParts (u : UnpackedFloat) : -ofParts u = ofParts u.neg :=
  parts_inj (by rw [parts_neg, parts_ofParts_neg])

@[simp] theorem parts_ofParts_zero (s : Sign) : parts (ofParts (.zero s)) = .zero s := by
  cases s <;> rfl

@[simp] theorem parts_nan : parts Float64.nan = .notANumber := rfl

@[simp] theorem ofParts_notANumber : ofParts .notANumber = Float64.nan :=
  parts_inj (by rw [parts_nan]; rfl)

theorem isNaN_iff_eq (x : Float) : x.isNaN = true ↔ x = Float64.nan := by
  rw [isNaN_eq, isNaN_iff]
  exact ⟨fun h => parts_inj h, fun h => by rw [h, parts_nan]⟩

/-! ### Differences -/

theorem round_neg (s : Sign) (m : Nat) (e : Int) :
    round Format.binary64 (-s) m e = (round Format.binary64 s m e).neg := by
  simp only [UnpackedFloat.round, roundWithAccuracy]
  split <;> rfl

theorem normalize_neg {m : Int} (hm : m ≠ 0) (e : Int) (s : Sign) :
    UnpackedFloat.normalize Format.binary64 (-m) e s =
      (UnpackedFloat.normalize Format.binary64 m e s).neg := by
  unfold UnpackedFloat.normalize
  rcases Int.lt_or_gt_of_ne hm with hneg | hpos
  · rw [Int.compare_eq_gt.mpr (by omega), Int.compare_eq_lt.mpr hneg]
    exact round_neg .negative _ _
  · rw [Int.compare_eq_lt.mpr (by omega), Int.compare_eq_gt.mpr hpos, neg_neg]
    exact round_neg .positive _ _

/-- A difference taken the other way round is the opposite one, or both are zero. -/
theorem neg_sub_cases (u v : UnpackedFloat) :
    (sub Format.binary64 u v).neg = sub Format.binary64 v u ∨
      ∃ s t, sub Format.binary64 u v = .zero s ∧ sub Format.binary64 v u = .zero t := by
  cases u with
  | notANumber => cases v <;> exact Or.inl rfl
  | infinity s =>
    cases v with
    | infinity t => cases s <;> cases t <;> exact Or.inl rfl
    | _ => exact Or.inl rfl
  | zero s =>
    cases v with
    | zero t =>
      refine Or.inr ?_
      cases s <;> cases t <;> exact ⟨_, _, rfl, rfl⟩
    | infinity t | finite t m e hm => cases t <;> exact Or.inl rfl
    | notANumber => exact Or.inl rfl
  | finite s m e hm =>
    cases v with
    | finite t k f hk =>
      simp only [UnpackedFloat.sub, min_comm f e]
      generalize s.apply _ = a, t.apply _ = b
      by_cases heq : a - b = 0
      · have hback : b - a = 0 := by omega
        rw [heq, hback]
        exact Or.inr ⟨_, _, rfl, rfl⟩
      · have hback : b - a = -(a - b) := by omega
        rw [hback, normalize_neg heq]
        exact Or.inl rfl
    | infinity t => cases t <;> exact Or.inl rfl
    | zero t => cases s <;> exact Or.inl rfl
    | notANumber => exact Or.inl rfl

theorem sign_apply_neg (s : Sign) (n : Int) : (-s).apply n = -s.apply n := by
  cases s with
  | negative => exact (Int.neg_neg n).symm
  | positive => rfl

theorem sub_eq_add_neg (u v : UnpackedFloat) :
    sub Format.binary64 u v = add Format.binary64 u v.neg := by
  cases u with
  | notANumber | infinity s | zero s => cases v <;> rfl
  | finite s m e hm =>
    cases v with
    | finite t k f hk =>
      simp only [UnpackedFloat.sub, UnpackedFloat.add, UnpackedFloat.neg, sign_apply_neg]
      rfl
    | _ => rfl

/-! ### Zeros -/

theorem parts_zero : parts (Float64.ofInt 0) = .zero .positive := by cbv

/-- Comparisons do not see the sign of zero. -/
theorem lt_zero_right (u : UnpackedFloat) (s t : Sign) : u.lt (.zero s) = u.lt (.zero t) := by
  cases u with
  | finite r m e hm | infinity r => cases r <;> rfl
  | _ => rfl

theorem lt_zero_left (u : UnpackedFloat) (s t : Sign) :
    UnpackedFloat.lt (.zero s) u = UnpackedFloat.lt (.zero t) u := by
  cases u with
  | finite r m e hm | infinity r => cases r <;> rfl
  | _ => rfl

theorem same_zero_iff (x : Float) : (x == Float64.ofInt 0) = true ↔ ∃ s, parts x = .zero s := by
  rw [beq_eq, parts_zero, beq_iff_ne_notANumber_and_eq]
  constructor
  · rintro ⟨-, -, h | ⟨h, -⟩ | ⟨h, -⟩⟩ <;> exact ⟨_, h⟩
  · rintro ⟨s, h⟩
    cases s <;> simp [h]

/-- Doubles packed from zeros coincide. -/
theorem coincide_of_zero {x y : Float} {s t : Sign} (hx : parts x = .zero s) (hy : parts y = .zero t) :
    Coincide x y :=
  Or.inr ⟨(same_zero_iff x).mpr ⟨s, hx⟩, (same_zero_iff y).mpr ⟨t, hy⟩⟩

/-- Adding zero, on either side, changes at most the sign of a zero. -/
theorem coincide_add_zero (x : Float) (s : Sign) :
    Coincide x (ofParts (add Format.binary64 (.zero s) (parts x))) ∧
      Coincide x (ofParts (add Format.binary64 (parts x) (.zero s))) := by
  cases hx : parts x with
  | zero t => cases s <;> cases t <;> exact ⟨coincide_of_zero hx rfl, coincide_of_zero hx rfl⟩
  | _ =>
    have hself := (ofParts_parts x).symm
    rw [hx] at hself
    exact ⟨.inl hself, .inl hself⟩

end Dataflow.Double

namespace Dataflow

open Double Float.Model Float.Model.UnpackedFloat

instance : LawfulArithmetic Float where
  isNull_iff {x} := isNaN_iff_eq x
  isNull_zero := by
    show (Float64.ofInt 0).isNaN = false
    rw [isNaN_eq, parts_zero]
    rfl
  isNull_of_same_zero {x} h := by
    obtain ⟨s, hs⟩ := (same_zero_iff x).mp h
    exact (isNaN_eq x).trans (by rw [hs]; rfl)
  isNull_neg x := by
    show (-x).isNaN = x.isNaN
    rw [isNaN_eq, isNaN_eq, parts_neg]
    cases parts x <;> rfl
  null_add x := by
    show Float64.nan + x = Float64.nan
    rw [add_eq, parts_nan, UnpackedFloat.add, ofParts_notANumber]
  null_sub x := by
    show Float64.nan - x = Float64.nan
    rw [sub_eq, parts_nan, UnpackedFloat.sub, ofParts_notANumber]
  null_mul x := by
    show Float64.nan * x = Float64.nan
    rw [mul_eq, parts_nan, UnpackedFloat.mul, ofParts_notANumber]
  mul_null x := by
    show x * Float64.nan = Float64.nan
    rw [mul_eq, parts_nan]
    cases parts x <;> simp only [UnpackedFloat.mul, ofParts_notANumber]
  null_div x := by
    show Float64.nan / x = Float64.nan
    rw [div_eq, parts_nan, UnpackedFloat.div, ofParts_notANumber]
  lt_neg_sub x y z := by
    show decide (z < -(x - y)) = decide (z < y - x)
    rw [lt_eq, lt_eq, sub_eq, sub_eq, neg_ofParts]
    rcases neg_sub_cases (parts x) (parts y) with h | ⟨s, t, hs, ht⟩
    · rw [h]
    · rw [hs, ht, UnpackedFloat.neg, parts_ofParts_zero, parts_ofParts_zero]
      exact lt_zero_right _ _ _
  neg_sub_lt x y z := by
    show decide (-(x - y) < z) = decide (y - x < z)
    rw [lt_eq, lt_eq, sub_eq, sub_eq, neg_ofParts]
    rcases neg_sub_cases (parts x) (parts y) with h | ⟨s, t, hs, ht⟩
    · rw [h]
    · rw [hs, ht, UnpackedFloat.neg, parts_ofParts_zero, parts_ofParts_zero]
      exact lt_zero_left _ _ _
  neg_sub_of_pos {x y} hpos := by
    show -(x - y) = y - x
    rw [sub_eq, sub_eq, neg_ofParts]
    rcases neg_sub_cases (parts x) (parts y) with h | ⟨s, t, -, ht⟩
    · rw [h]
    · -- a difference of zero is not above zero
      have hlt : (parts (Float64.ofInt 0)).lt (parts (y - x)) = true := (lt_eq _ _).symm.trans hpos
      rw [parts_zero, sub_eq, ht, parts_ofParts_zero] at hlt
      cases t <;> cases hlt
  zero_add_coincide x := by
    show Coincide x (Float64.ofInt 0 + x)
    rw [add_eq, parts_zero]
    exact (coincide_add_zero x .positive).1
  add_zero_coincide x := by
    show Coincide x (x + Float64.ofInt 0)
    rw [add_eq, parts_zero]
    exact (coincide_add_zero x .positive).2
  sub_coincide x y := by
    show Coincide (x - y) (x + -y)
    rw [sub_eq, add_eq, parts_neg, Double.sub_eq_add_neg]
    exact Coincide.refl _
  add_coincide {x y} z hx hy := by
    obtain ⟨s, hs⟩ := (same_zero_iff x).mp hx
    obtain ⟨t, ht⟩ := (same_zero_iff y).mp hy
    show Coincide (x + z) (y + z)
    rw [add_eq, add_eq, hs, ht]
    exact (coincide_add_zero z s).1.symm.trans (coincide_add_zero z t).1

namespace Double

/-! ### Finite doubles -/

theorem isNaN_unpack_packComponents (s : Sign) {e : BitVec Format.binary64.exponentBits}
    {m : BitVec Format.binary64.mantissaBitsWithoutImplicit} (h : e = -1#_ → m = 0#_) :
    (UnpackedFloat.unpack Format.binary64 (packComponents Format.binary64 s e m)).isNaN = false := by
  simp only [UnpackedFloat.unpack, unpackExponent_packComponents, unpackMantissa_packComponents]
  split
  · next he =>
    rw [if_pos (h he)]
    rfl
  · split
    · split <;> rfl
    · rfl

/-- What is a number stays one when it is packed, if only as infinity. -/
theorem isNaN_ofParts {u : UnpackedFloat} (h : u ≠ .notANumber) : (ofParts u).isNaN = false := by
  cases u with
  | notANumber => exact absurd rfl h
  | infinity s | zero s => exact isNaN_unpack_packComponents s fun _ => rfl
  | finite s m e hm =>
    simp only [isNaN_eq, parts, ofParts, Float.Model.pack, Float.Model.unpack, UnpackedFloat.pack]
    split
    · exact isNaN_unpack_packComponents s fun _ => rfl
    · next hroom =>
      split
      · refine isNaN_unpack_packComponents s fun hones => ?_
        -- the greatest exponent is kept for infinity
        have hbits := congrArg BitVec.toNat hones
        rw [BitVec.toNat_ofNat, Nat.mod_eq_of_lt (by omega)] at hbits
        rw [hbits] at hroom
        exact absurd hroom (by decide)
      · exact isNaN_unpack_packComponents s fun hones => absurd hones (by decide)

/-- Products of finite numbers are numbers. -/
theorem isNaN_mul {x y : Float} (hx : x.isFinite = true) (hy : y.isFinite = true) :
    (x * y).isNaN = false := by
  have hx : (parts x).isFinite = true := hx
  have hy : (parts y).isFinite = true := hy
  rw [mul_eq]
  refine isNaN_ofParts ?_
  generalize parts x = u, parts y = v at hx hy
  cases u with
  | notANumber | infinity s => cases hx
  | zero s =>
    cases v with
    | notANumber | infinity t => cases hy
    | _ => exact UnpackedFloat.noConfusion
  | finite s m e hm =>
    cases v with
    | notANumber | infinity t => cases hy
    | zero t => exact UnpackedFloat.noConfusion
    | finite t k f hk =>
      simp only [UnpackedFloat.mul, roundWithAccuracy]
      split <;> exact UnpackedFloat.noConfusion

end Double

end Dataflow
