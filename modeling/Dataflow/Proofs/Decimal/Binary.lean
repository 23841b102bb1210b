import Dataflow.Decimal.Binary
import Mathlib

/-!
# Doubles as binary fractions

A finite double is told by its parts (`Binary.ofFloat`), which are canonical: the mantissa has fifty-three
bits, unless the exponent is the least one.  `Binary.code` packs canonical parts into bits again
(`Binary.toDouble_ofFloat`).  No smaller import than the whole library has the lemmas on packing.
-/

namespace Dataflow

open Float.Model Float.Model.UnpackedFloat

variable {b : Binary} {x : Float}

namespace Binary

/-- The parts of a finite double: an exponent in range, and a mantissa with its leading bit in place, or of
any size below that at the least exponent. -/
structure Canonical (b : Binary) : Prop where
  mantissa : b.mantissa < 2 ^ 53
  least : -1074 ≤ b.exponent
  greatest : b.exponent ≤ 971
  normal : 2 ^ 52 ≤ b.mantissa ∨ b.exponent = -1074

def code (b : Binary) : Nat := (b.exponent + 1074).toNat * 2 ^ 52 + b.mantissa

def signBit (negative : Bool) : Nat := if negative then 2 ^ 63 else 0

def toDouble (b : Binary) : Float := Float.ofBits (signBit b.negative + b.code).toUInt64

theorem Canonical.code_lt (h : b.Canonical) : b.code < 2047 * 2 ^ 52 := by
  obtain ⟨hm, hl, hg, -⟩ := h
  unfold code
  omega

/-! ### Bits -/

theorem toNat_unpackExponent (b : UInt64) :
    (@unpackExponent Format.binary64 b.toBitVec).toNat = b.toNat / 2 ^ 52 % 2048 := by
  show (b.toNat >>> 52) % 2 ^ 11 = _
  rw [Nat.shiftRight_eq_div_pow]

theorem unpackExponent_eq_iff (b : UInt64) :
    @unpackExponent Format.binary64 b.toBitVec = -BitVec.ofNat Format.binary64.exponentBits 1 ↔
      b.toNat / 2 ^ 52 % 2048 = 2047 := by
  rw [← toNat_unpackExponent, ← BitVec.toNat_inj]
  rfl

theorem isFinite_unpack_iff (b : UInt64) :
    (UnpackedFloat.unpack Format.binary64 b.toBitVec).isFinite = true ↔
      b.toNat / 2 ^ 52 % 2048 ≠ 2047 := by
  rw [Ne, ← unpackExponent_eq_iff]
  simp only [UnpackedFloat.unpack]
  split
  · next h => split <;> exact ⟨fun hfalse => Bool.noConfusion hfalse, fun hne => absurd h hne⟩
  · next h =>
    split
    · split <;> exact ⟨fun _ => h, fun _ => rfl⟩
    · exact ⟨fun _ => h, fun _ => rfl⟩

theorem isFinite_iff (x : Float) : x.isFinite = true ↔ x.toBits.toNat / 2 ^ 52 % 2048 ≠ 2047 :=
  isFinite_unpack_iff x.toBits

theorem not_special {u : UnpackedFloat} (h : u.isFinite = true) : u.isInf = false ∧ u.isNaN = false := by
  cases u with
  | notANumber | infinity => cases h
  | zero | finite => exact ⟨rfl, rfl⟩

theorem not_special_of_isFinite (h : x.isFinite = true) : x.isInf = false ∧ x.isNaN = false :=
  not_special (u := x.toModel.unpack) h

theorem toBits_ofBits {b : UInt64} (h : b.toNat / 2 ^ 52 % 2048 ≠ 2047) : (Float.ofBits b).toBits = b := by
  have hvalid : Format.binary64.Valid b.toBitVec :=
    ⟨fun hexp => absurd ((unpackExponent_eq_iff b).mp hexp) h⟩
  show UInt64.ofBitVec (UnpackedFloat.pack Format.binary64 (UnpackedFloat.unpack Format.binary64 b.toBitVec)) = b
  rw [pack_unpack_of_valid hvalid]

/-! ### Parts and bits -/

theorem toNat_signBit_add (negative : Bool) {n : Nat} (h : n < 2047 * 2 ^ 52) :
    (signBit negative + n).toUInt64.toNat = signBit negative + n := by
  rw [Nat.toUInt64_eq, UInt64.toNat_ofNat']
  unfold signBit
  split <;> omega

theorem toBits_signBit_add (negative : Bool) {n : Nat} (h : n < 2047 * 2 ^ 52) :
    (Float.ofBits (signBit negative + n).toUInt64).toBits.toNat = signBit negative + n := by
  have hnat := toNat_signBit_add negative h
  rw [toBits_ofBits, hnat]
  rw [hnat]
  unfold signBit
  split <;> omega

/-- Bits below those of an infinity are those of a finite double. -/
theorem isFinite_ofBits (negative : Bool) {n : Nat} (h : n < 2047 * 2 ^ 52) :
    (Float.ofBits (signBit negative + n).toUInt64).isFinite = true := by
  rw [isFinite_iff, toBits_signBit_add negative h]
  unfold signBit
  split <;> omega

theorem toBits_toDouble (h : b.Canonical) :
    (toDouble b).toBits.toNat = signBit b.negative + b.code := toBits_signBit_add b.negative h.code_lt

theorem isFinite_toDouble (h : b.Canonical) : (toDouble b).isFinite = true :=
  isFinite_ofBits b.negative h.code_lt

theorem canonical_ofFloat (h : x.isFinite = true) : (ofFloat x).Canonical := by
  rw [isFinite_iff] at h
  have hbits := x.toBits.toNat_lt
  have hpow : Nat.pow 2 52 = 2 ^ 52 := rfl
  constructor
  · simp only [ofFloat, hpow]
    split <;> omega
  · simp only [ofFloat, hpow]
    split <;> omega
  · simp only [ofFloat, hpow]
    split <;> omega
  · simp only [ofFloat, hpow]
    split
    · exact .inr (by omega)
    · exact .inl (by omega)

/-- A finite double is packed from its parts. -/
theorem toDouble_ofFloat (h : x.isFinite = true) : toDouble (ofFloat x) = x := by
  have hcanonical := canonical_ofFloat h
  rw [isFinite_iff] at h
  have hbits := x.toBits.toNat_lt
  have hpow : Nat.pow 2 52 = 2 ^ 52 := rfl
  have hpow' : Nat.pow 2 63 = 2 ^ 63 := rfl
  have hzero : ((1 : Int) - 1075 + 1074).toNat = 0 := rfl
  refine Float.toBits_inj.mp (UInt64.toNat_inj.mp ?_)
  rw [toBits_toDouble hcanonical]
  simp only [ofFloat, code, signBit, hpow, hpow', decide_eq_true_eq]
  generalize x.toBits.toNat = bits at *
  by_cases hsign : 2 ^ 63 ≤ bits <;> by_cases hfield : bits / 2 ^ 52 % 2048 = 0
  · rw [if_pos hsign, if_pos hfield, if_pos hfield, hzero]
    omega
  · rw [if_pos hsign, if_neg hfield, if_neg hfield]
    omega
  · rw [if_neg hsign, if_pos hfield, if_pos hfield, hzero]
    omega
  · rw [if_neg hsign, if_neg hfield, if_neg hfield]
    omega

/-- The parts of a double that is packed from canonical ones. -/
theorem ofFloat_toDouble (h : b.Canonical) : ofFloat (toDouble b) = b := by
  have hcode := h.code_lt
  have hbits := toBits_toDouble h
  obtain ⟨negative, m, e⟩ := b
  obtain ⟨hm, hl, hg, hn⟩ := h
  have hpow : Nat.pow 2 52 = 2 ^ 52 := rfl
  have hpow' : Nat.pow 2 63 = 2 ^ 63 := rfl
  simp only [ofFloat, hbits, hpow, hpow', mk.injEq]
  simp only [code, signBit] at *
  cases negative with
  | false =>
    simp only [Bool.false_eq_true, if_false] at *
    refine ⟨decide_eq_false (by omega), ?_, ?_⟩
    · split <;> omega
    · split <;> omega
  | true =>
    simp only [if_true] at *
    refine ⟨decide_eq_true (by omega), ?_, ?_⟩
    · split <;> omega
    · split <;> omega

end Binary

end Dataflow
