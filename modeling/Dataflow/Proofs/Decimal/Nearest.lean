import Dataflow.Proofs.Decimal.Binary

/-!
# Every number near a double reads as it

`Binary.Near b d` says that the fraction `d` lies in the rounding interval of a double: between the middles to
its two neighbours, with the middles themselves only where the mantissa is even.  Such a fraction
rounds to the double (`Binary.toFloat_eq`), whatever the first guess of its exponent is.
-/

namespace Dataflow.Binary

variable {num den : Nat} {e : Int}

/-! ### Rounded quotients -/

section Quotients

variable {q r : Nat} {x : ℚ}

/-- The integer is the nearest to the number, and the even one of two that are. -/
structure Rounds (x : ℚ) (q : Nat) : Prop where
  low : (q : ℚ) - 1 / 2 ≤ x
  high : x ≤ q + 1 / 2
  odd : q % 2 = 1 → (q : ℚ) - 1 / 2 < x ∧ x < q + 1 / 2

theorem Rounds.le (h : Rounds x q) (h' : Rounds x r) : q ≤ r := by
  by_contra hlt
  have hcast : (r : ℚ) + 1 ≤ q := by exact_mod_cast Nat.not_le.mp hlt
  have hnext : q = r + 1 := by
    have hle : (q : ℚ) ≤ r + 1 := by linarith [h.low, h'.high]
    exact_mod_cast le_antisymm hle hcast
  rcases Nat.mod_two_eq_zero_or_one q with heven | hodd
  · linarith [h.low, (h'.odd (by omega)).2]
  · linarith [(h.odd hodd).1, h'.high]

theorem rounds_roundDiv (num : Nat) (hden : 0 < den) : Rounds (num / den) (roundDiv num den) := by
  have hpos : (0 : ℚ) < den := by exact_mod_cast hden
  have hdiv : (num : ℚ) = den * (num / den : Nat) + (num % den : Nat) := by
    exact_mod_cast (Nat.div_add_mod num den).symm
  have hmod : ((num % den : Nat) : ℚ) < den := by exact_mod_cast Nat.mod_lt num hden
  have hrest : (0 : ℚ) ≤ (num % den : Nat) := Nat.cast_nonneg _
  -- the same bounds without a division
  suffices h : ∀ q, q = roundDiv num den → ((q : ℚ) - 1 / 2) * den ≤ num ∧ num ≤ (q + 1 / 2 : ℚ) * den ∧
      (q % 2 = 1 → ((q : ℚ) - 1 / 2) * den < num ∧ num < (q + 1 / 2 : ℚ) * den) by
    simp only [← le_div_iff₀ hpos, ← div_le_iff₀ hpos, ← lt_div_iff₀ hpos, ← div_lt_iff₀ hpos] at h
    obtain ⟨hlow, hhigh, hodd⟩ := h _ rfl
    exact ⟨hlow, hhigh, hodd⟩
  rintro q rfl
  simp only [roundDiv]
  split
  · next h =>
    have h : 2 * ((num % den : Nat) : ℚ) < den := by exact_mod_cast h
    refine ⟨?_, ?_, fun _ => ⟨?_, ?_⟩⟩ <;> linarith
  · split
    · next h =>
      have h : (den : ℚ) < 2 * (num % den : Nat) := by exact_mod_cast h
      refine ⟨?_, ?_, fun _ => ⟨?_, ?_⟩⟩ <;> push_cast <;> linarith
    · next h h' =>
      have h : (den : ℚ) = 2 * (num % den : Nat) := by exact_mod_cast (by omega : den = 2 * (num % den))
      rcases Nat.mod_two_eq_zero_or_one (num / den) with hq | hq <;> rw [hq]
      all_goals refine ⟨?_, ?_, fun _ => by omega⟩ <;> push_cast <;> linarith
end Quotients

/-! ### Rounding to a unit -/

/-- The fraction rounded to a multiple of `2 ^ e`, in that unit. -/
def scaled (num den : Nat) (e : Int) : Nat :=
  if 0 ≤ e then roundDiv num (den * Nat.pow 2 e.toNat) else roundDiv (num * Nat.pow 2 (-e).toNat) den

section Scaled

variable {q : Nat}

theorem natCast_pow_toNat (a : Nat) (he : 0 ≤ e) : ((Nat.pow a e.toNat : Nat) : ℚ) = (a : ℚ) ^ e := by
  show ((a ^ e.toNat : Nat) : ℚ) = _
  rw [Nat.cast_pow, ← zpow_natCast, Int.toNat_of_nonneg he]

theorem rounds_scaled (num : Nat) (hden : 0 < den) (e : Int) :
    Rounds (num / den / 2 ^ e) (scaled num den e) := by
  unfold scaled
  split
  · next he =>
    have h := rounds_roundDiv num (Nat.mul_pos hden (Nat.pow_pos (by decide)) : 0 < den * Nat.pow 2 e.toNat)
    rwa [Nat.cast_mul, ← div_div, natCast_pow_toNat 2 he] at h
  · next he =>
    have h := rounds_roundDiv (num * Nat.pow 2 (-e).toNat) hden
    rwa [Nat.cast_mul, natCast_pow_toNat 2 (by omega), zpow_neg, mul_div_right_comm, ← div_eq_mul_inv] at h

theorem scaled_eq (hden : 0 < den) (hlow : ((q : ℚ) - 1 / 2) * 2 ^ e ≤ num / den)
    (hhigh : (num : ℚ) / den ≤ (q + 1 / 2) * 2 ^ e)
    (hodd : q % 2 = 1 → ((q : ℚ) - 1 / 2) * 2 ^ e < num / den ∧ (num : ℚ) / den < (q + 1 / 2) * 2 ^ e) :
    scaled num den e = q := by
  have hpos : (0 : ℚ) < 2 ^ e := zpow_pos (by norm_num) e
  rw [← le_div_iff₀ hpos] at hlow
  rw [← div_le_iff₀ hpos] at hhigh
  rw [← lt_div_iff₀ hpos, ← div_lt_iff₀ hpos] at hodd
  have h : Rounds (num / den / 2 ^ e) q := ⟨hlow, hhigh, hodd⟩
  have h' := rounds_scaled num hden e
  exact Nat.le_antisymm (h'.le h) (h.le h')

theorem le_scaled (hden : 0 < den) (h : ((q : ℚ) - 1 / 2) * 2 ^ e < num / den) : q ≤ scaled num den e := by
  rw [← lt_div_iff₀ (zpow_pos (by norm_num) e)] at h
  have hlt : (q : ℚ) < scaled num den e + 1 := by linarith [(rounds_scaled num hden e).high]
  exact Nat.lt_succ_iff.mp (by exact_mod_cast hlt)

end Scaled

/-! ### The double of a fraction -/

/-- The first guess of the exponent of a fraction: off by one at most. -/
def guess (num den : Nat) : Int := (num.log2 : Int) - den.log2

theorem log2_bounds {n : Nat} (hn : n ≠ 0) : (2 : ℚ) ^ (n.log2 : Int) ≤ n ∧ (n : ℚ) < 2 ^ ((n.log2 : Int) + 1) := by
  rw [← Int.natCast_succ, zpow_natCast, zpow_natCast]
  exact ⟨by exact_mod_cast Nat.log2_self_le hn, by exact_mod_cast Nat.lt_log2_self⟩

theorem guess_bounds (hnum : num ≠ 0) (hden : den ≠ 0) :
    (2 : ℚ) ^ (guess num den - 1) < num / den ∧ (num : ℚ) / den < 2 ^ (guess num den + 1) := by
  have hpos : (0 : ℚ) < den := by exact_mod_cast Nat.pos_of_ne_zero hden
  obtain ⟨hnumLow, hnumHigh⟩ := log2_bounds hnum
  obtain ⟨hdenLow, hdenHigh⟩ := log2_bounds hden
  have htwo : (2 : ℚ) ≠ 0 := by norm_num
  constructor
  · rw [lt_div_iff₀ hpos]
    calc (2 : ℚ) ^ (guess num den - 1) * den
        < 2 ^ (guess num den - 1) * 2 ^ ((den.log2 : Int) + 1) := by
          exact mul_lt_mul_of_pos_left hdenHigh (zpow_pos (by norm_num) _)
      _ = 2 ^ (num.log2 : Int) := by
          rw [← zpow_add₀ htwo, guess]
          congr 1
          ring
      _ ≤ num := hnumLow
  · rw [div_lt_iff₀ hpos]
    calc (num : ℚ) < 2 ^ ((num.log2 : Int) + 1) := hnumHigh
      _ = 2 ^ (guess num den + 1) * 2 ^ (den.log2 : Int) := by
          rw [← zpow_add₀ htwo, guess]
          congr 1
          ring
      _ ≤ 2 ^ (guess num den + 1) * den := by
          exact mul_le_mul_of_nonneg_left hdenLow (zpow_pos (by norm_num) _).le

theorem zpow_add_natCast (e : Int) (n : Nat) : (2 : ℚ) ^ (e + n) = 2 ^ n * 2 ^ e := by
  rw [zpow_add₀ (by norm_num), zpow_natCast, mul_comm]

theorem le_guess (hnum : num ≠ 0) (hden : den ≠ 0) {n : Nat}
    (h : 2 ^ n * 2 ^ e ≤ (num : ℚ) / den) : e + n ≤ guess num den := by
  by_contra hlt
  have hmono : (2 : ℚ) ^ (guess num den + 1) ≤ 2 ^ (e + n) := zpow_le_zpow_right₀ (by norm_num) (by omega)
  rw [zpow_add_natCast] at hmono
  linarith [(guess_bounds hnum hden).2]

theorem guess_le (hnum : num ≠ 0) (hden : den ≠ 0) {n : Nat}
    (h : (num : ℚ) / den ≤ 2 ^ n * 2 ^ e) : guess num den ≤ e + n := by
  by_contra hlt
  have hmono : (2 : ℚ) ^ (e + n) ≤ 2 ^ (guess num den - 1) := zpow_le_zpow_right₀ (by norm_num) (by omega)
  rw [zpow_add_natCast] at hmono
  linarith [(guess_bounds hnum hden).1]

def fine (num den : Nat) : Int := max (-1074) (guess num den - 53)

/-- The unit that is taken where the first one leaves too many bits. -/
def coarse (num den : Nat) : Int := max (-1074) (guess num den - 52)

variable {b : Binary}

theorem toFloat_of_ne_zero (negative : Bool) (hnum : num ≠ 0) : toFloat negative num den =
    let (m, e) := if scaled num den (fine num den) ≤ 2 ^ 53
      then (scaled num den (fine num den), fine num den)
      else (scaled num den (coarse num den), coarse num den)
    let bits : Nat := (e + 1074).toNat * 2 ^ 52 + m
    if 2047 * 2 ^ 52 ≤ bits then Float.ofBits (signBit negative + 2047 * 2 ^ 52).toUInt64
    else Float.ofBits (signBit negative + bits).toUInt64 := by
  rw [toFloat, if_neg hnum]
  rfl

theorem toFloat_of_unit (hb : b.Canonical) (hnum : num ≠ 0) {m : Nat} {e : Int}
    (hunit : (m, e) = if scaled num den (fine num den) ≤ 2 ^ 53
      then (scaled num den (fine num den), fine num den)
      else (scaled num den (coarse num den), coarse num den))
    (hcode : (e + 1074).toNat * 2 ^ 52 + m = b.code) : toFloat b.negative num den = toDouble b := by
  have hlt := hb.code_lt
  rw [toFloat_of_ne_zero b.negative hnum, ← hunit]
  show (if 2047 * 2 ^ 52 ≤ (e + 1074).toNat * 2 ^ 52 + m then _ else _) = _
  rw [hcode, if_neg (by omega)]
  rfl

/-! ### The rounding interval -/

/-- How far the rounding interval reaches below the double, in units of the last place: half as far at a
power of two, where the doubles below lie closer. -/
def below (b : Binary) : ℚ := if b.mantissa = 2 ^ 52 ∧ -1074 < b.exponent then 1 / 4 else 1 / 2

/-- The fraction lies in the rounding interval of the double. -/
structure Near (b : Binary) (d : ℚ) : Prop where
  low : (b.mantissa - b.below) * 2 ^ b.exponent ≤ d
  high : d ≤ (b.mantissa + 1 / 2) * 2 ^ b.exponent
  odd : b.mantissa % 2 = 1 → (b.mantissa - b.below) * 2 ^ b.exponent < d ∧
    d < (b.mantissa + 1 / 2) * 2 ^ b.exponent

theorem below_le (b : Binary) : b.below ≤ 1 / 2 := by
  unfold below
  split <;> norm_num

theorem half_le_below (b : Binary) :
    ((b.mantissa : ℚ) - 1 / 2) * 2 ^ b.exponent ≤ (b.mantissa - b.below) * 2 ^ b.exponent :=
  mul_le_mul_of_nonneg_right (by linarith [below_le b]) (zpow_pos (by norm_num) _).le

theorem Near.half_le {d : ℚ} (h : b.Near d) : (b.mantissa - 1 / 2) * 2 ^ b.exponent ≤ d :=
  (half_le_below b).trans h.low

/-- In the unit of its exponent the double is the nearest multiple. -/
theorem Near.scaled_eq (h : b.Near (num / den)) (hden : 0 < den) : scaled num den b.exponent = b.mantissa := by
  refine Binary.scaled_eq hden h.half_le h.high fun hodd => ?_
  obtain ⟨hlow, hhigh⟩ := h.odd hodd
  exact ⟨lt_of_le_of_lt (half_le_below b) hlow, hhigh⟩

theorem code_of_power (hm : b.mantissa = 2 ^ 52) (he : -1074 < b.exponent) :
    (b.exponent - 1 + 1074).toNat * 2 ^ 52 + 2 ^ 53 = b.code := by
  rw [code, hm]
  omega

/-- Near a power of two the next smaller unit gives the same double. -/
theorem toFloat_of_power (hb : b.Canonical) (hnum : num ≠ 0) (hden : 0 < den) (hm : b.mantissa = 2 ^ 52)
    (he : -1074 < b.exponent) (hlow : (2 ^ 52 - 1 / 4) * 2 ^ b.exponent ≤ (num : ℚ) / den)
    (hhigh : (num : ℚ) / den ≤ (2 ^ 52 + 1 / 4) * 2 ^ b.exponent)
    (hfine : fine num den = b.exponent - 1 ∨
      fine num den = b.exponent - 2 ∧ coarse num den = b.exponent - 1) :
    toFloat b.negative num den = toDouble b := by
  have hunit : (0 : ℚ) < 2 ^ b.exponent := zpow_pos (by norm_num) _
  have hhalf : (2 : ℚ) ^ (b.exponent - 1) = 2 ^ b.exponent / 2 := by rw [zpow_sub₀ (by norm_num), zpow_one]
  have hquarter : (2 : ℚ) ^ (b.exponent - 2) = 2 ^ b.exponent / 4 := by
    rw [zpow_sub₀ (by norm_num)]
    norm_num
  have hscaled : scaled num den (b.exponent - 1) = 2 ^ 53 := by
    refine Binary.scaled_eq hden ?_ ?_ (by norm_num)
    · rw [hhalf]
      push_cast
      linarith
    · rw [hhalf]
      push_cast
      linarith
  refine toFloat_of_unit hb hnum (m := 2 ^ 53) (e := b.exponent - 1) ?_ (code_of_power hm he)
  rcases hfine with hfine | ⟨hfine, hcoarse⟩
  · rw [hfine, hscaled, if_pos (Nat.le_refl _)]
  · have hlarge : 2 ^ 53 + 1 ≤ scaled num den (b.exponent - 2) := by
      refine le_scaled hden ?_
      rw [hquarter]
      push_cast
      linarith
    rw [hfine, if_neg (by omega), hcoarse, hscaled]

/-- **Every fraction in the rounding interval of a double reads as the double.** -/
theorem toFloat_eq (hb : b.Canonical) (hpos : 0 < b.mantissa) (hden : 0 < den) (h : b.Near (num / den)) :
    toFloat b.negative num den = toDouble b := by
  have hscaled := h.scaled_eq hden
  have hunit : (0 : ℚ) < 2 ^ b.exponent := zpow_pos (by norm_num) _
  have hone : (1 : ℚ) ≤ b.mantissa := by exact_mod_cast hpos
  have hbelow := below_le b
  have hlow := h.low
  have hhigh := h.high
  have hnum : num ≠ 0 := by
    rintro rfl
    rw [Nat.cast_zero, zero_div] at hlow
    nlinarith
  have hmantissa : (b.mantissa : ℚ) + 1 ≤ 2 ^ 53 := by exact_mod_cast hb.mantissa
  have hguess : guess num den ≤ b.exponent + (53 : Nat) :=
    guess_le hnum hden.ne' (hhigh.trans (mul_le_mul_of_nonneg_right (by linarith) hunit.le))
  by_cases hfine : fine num den = b.exponent
  · refine toFloat_of_unit hb hnum (m := b.mantissa) (e := b.exponent) ?_ rfl
    rw [hfine, hscaled, if_pos hb.mantissa.le]
  -- otherwise the first unit is smaller, and the mantissa has all its bits
  have hleast := hb.least
  have hsmall : -1074 < b.exponent ∧ guess num den ≤ b.exponent + 52 := by
    unfold fine at hfine
    omega
  have hnormal : 2 ^ 52 ≤ b.mantissa := hb.normal.resolve_right (by omega)
  have hnormal' : (2 : ℚ) ^ 52 ≤ b.mantissa := by exact_mod_cast hnormal
  by_cases hd : 2 ^ 52 * 2 ^ b.exponent ≤ (num : ℚ) / den
  · have hguess' := le_guess hnum hden.ne' hd
    have hunits : fine num den = b.exponent - 1 ∧ coarse num den = b.exponent := by
      unfold fine coarse
      omega
    by_cases hle : scaled num den (b.exponent - 1) ≤ 2 ^ 53
    · -- the fraction is so close to the power of two that the double is that power
      have hclose : (num : ℚ) / den ≤ (2 ^ 52 + 1 / 4) * 2 ^ b.exponent := by
        by_contra hlt
        have hlarge : 2 ^ 53 + 1 ≤ scaled num den (b.exponent - 1) := by
          refine le_scaled hden ?_
          rw [zpow_sub₀ (by norm_num), zpow_one]
          push_cast
          linarith
        omega
      have hm : b.mantissa = 2 ^ 52 := by
        have hlt : (b.mantissa : ℚ) < 2 ^ 52 + 1 := by
          have := le_of_mul_le_mul_right (hlow.trans hclose) hunit
          linarith
        have hlt' : b.mantissa < 2 ^ 52 + 1 := by exact_mod_cast hlt
        omega
      refine toFloat_of_power hb hnum hden hm hsmall.1 ?_ hclose (.inl hunits.1)
      exact le_trans (mul_le_mul_of_nonneg_right (by norm_num) hunit.le) hd
    · refine toFloat_of_unit hb hnum (m := b.mantissa) (e := b.exponent) ?_ rfl
      rw [hunits.1, if_neg hle, hunits.2, hscaled]
  · -- below the power of two the mantissa is that power
    have hlt : (num : ℚ) / den < 2 ^ 52 * 2 ^ b.exponent := lt_of_not_ge hd
    have hm : b.mantissa = 2 ^ 52 := by
      have hlt' : (b.mantissa : ℚ) - b.below < 2 ^ 52 := lt_of_mul_lt_mul_right (hlow.trans_lt hlt) hunit.le
      have hlt' : (b.mantissa : ℚ) < 2 ^ 52 + 1 := by linarith
      have hlt'' : b.mantissa < 2 ^ 52 + 1 := by exact_mod_cast hlt'
      omega
    have hquarter : b.below = 1 / 4 := if_pos ⟨hm, hsmall.1⟩
    have hcast : (b.mantissa : ℚ) = 2 ^ 52 := by rw [hm]; norm_num
    rw [hquarter, hcast] at hlow
    have hguess' : b.exponent + (51 : Nat) ≤ guess num den := by
      refine le_guess hnum hden.ne' (le_trans ?_ hlow)
      exact mul_le_mul_of_nonneg_right (by norm_num) hunit.le
    refine toFloat_of_power hb hnum hden hm hsmall.1 hlow ?_ ?_
    · exact hlt.le.trans (mul_le_mul_of_nonneg_right (by norm_num) hunit.le)
    · unfold fine coarse
      omega

theorem below_pos (b : Binary) : 0 < b.below := by
  unfold below
  split <;> norm_num

theorem near_value (b : Binary) : b.Near (b.mantissa * 2 ^ b.exponent) := by
  have hunit : (0 : ℚ) < 2 ^ b.exponent := zpow_pos (by norm_num) _
  have hbelow := below_pos b
  have hlow : (b.mantissa - b.below) * 2 ^ b.exponent < b.mantissa * 2 ^ b.exponent :=
    mul_lt_mul_of_pos_right (by linarith) hunit
  have hhigh : b.mantissa * (2 : ℚ) ^ b.exponent < (b.mantissa + 1 / 2) * 2 ^ b.exponent :=
    mul_lt_mul_of_pos_right (by linarith) hunit
  exact ⟨hlow.le, hhigh.le, fun _ => ⟨hlow, hhigh⟩⟩

/-! ### Integers -/

theorem canonical_zero (negative : Bool) : Canonical ⟨negative, 0, -1074⟩ :=
  ⟨by norm_num, by norm_num, by norm_num, .inr rfl⟩

theorem toFloat_zero (negative : Bool) (den : Nat) :
    toFloat negative 0 den = toDouble ⟨negative, 0, -1074⟩ := by
  have hcode : code ⟨negative, 0, -1074⟩ = 0 := by simp [code]
  rw [toFloat, if_pos rfl, toDouble, hcode]
  rfl

/-- An integer of up to fifty-three bits has canonical parts. -/
theorem exists_canonical {n : Nat} (hpos : 0 < n) (hn : n ≤ 2 ^ 53) (negative : Bool) :
    ∃ b : Binary, b.Canonical ∧ b.negative = negative ∧ 0 < b.mantissa ∧
      (b.mantissa : ℚ) * 2 ^ b.exponent = n ∧ b.truncate = if negative then -(n : Int) else n := by
  by_cases hlarge : n = 2 ^ 53
  · subst hlarge
    refine ⟨⟨negative, 2 ^ 52, 1⟩, ⟨by norm_num, by norm_num, by norm_num, .inl le_rfl⟩, rfl, by norm_num, ?_, ?_⟩
    · norm_num
    · cases negative <;> rfl
  · -- the leading bit moves to its place
    have hlog : n.log2 < 53 := (Nat.log2_lt hpos.ne').mpr (by omega)
    have hsplit : 2 ^ n.log2 * 2 ^ (52 - n.log2) = 2 ^ 52 := by
      rw [← Nat.pow_add]
      congr 1
      omega
    have hpow : 0 < 2 ^ (52 - n.log2) := Nat.pow_pos (by decide)
    have hlow : 2 ^ 52 ≤ n * 2 ^ (52 - n.log2) := by
      rw [← hsplit]
      exact Nat.mul_le_mul_right _ (Nat.log2_self_le hpos.ne')
    have hhigh : n * 2 ^ (52 - n.log2) < 2 ^ 53 := by
      have hlt : n < 2 ^ n.log2 * 2 := by
        rw [← Nat.pow_succ]
        exact Nat.lt_log2_self
      calc n * 2 ^ (52 - n.log2) < 2 ^ n.log2 * 2 * 2 ^ (52 - n.log2) := Nat.mul_lt_mul_of_pos_right hlt hpow
        _ = 2 ^ 52 * 2 := by rw [Nat.mul_right_comm, hsplit]
        _ = 2 ^ 53 := by norm_num
    have hexponent : -1074 ≤ -((52 - n.log2 : Nat) : Int) ∧ -((52 - n.log2 : Nat) : Int) ≤ 971 := by omega
    refine ⟨⟨negative, n * 2 ^ (52 - n.log2), -(52 - n.log2 : Nat)⟩,
      ⟨hhigh, hexponent.1, hexponent.2, .inl hlow⟩, rfl, Nat.mul_pos hpos hpow, ?_, ?_⟩
    · push_cast
      rw [zpow_neg, zpow_natCast, mul_assoc, mul_inv_cancel₀ (by positivity), mul_one]
    · unfold truncate
      by_cases hzero : 52 - n.log2 = 0
      · simp [hzero]
      · have hneg : ¬ (0 : Int) ≤ -((52 - n.log2 : Nat) : Int) := by omega
        simp only [if_neg hneg, neg_neg, Int.toNat_natCast]
        rw [show Nat.pow 2 (52 - n.log2) = 2 ^ (52 - n.log2) from rfl, Nat.mul_div_cancel _ hpow]

theorem truncate_of_zero {b : Binary} (h : b.mantissa = 0) : b.truncate = 0 := by
  unfold truncate
  rw [h, Nat.zero_mul, Nat.zero_div, ite_self]
  simp

/-- An integer of up to fifty-three bits is a finite double, and is found again in it. -/
theorem truncate?_toFloat {n : Nat} (hn : n ≤ 2 ^ 53) (negative : Bool) :
    Float64.truncate? (toFloat negative n 1) = some (if negative then -(n : Int) else n) := by
  by_cases hzero : n = 0
  · subst hzero
    have hcanonical := canonical_zero negative
    rw [toFloat_zero, Float64.truncate?, isFinite_toDouble hcanonical, if_pos rfl, ofFloat_toDouble hcanonical,
      truncate_of_zero rfl]
    simp
  · obtain ⟨b, hcanonical, rfl, hmantissa, hvalue, htruncate⟩ :=
      exists_canonical (Nat.pos_of_ne_zero hzero) hn negative
    have hnear : b.Near ((n : ℚ) / (1 : Nat)) := by
      rw [Nat.cast_one, div_one, ← hvalue]
      exact near_value b
    rw [toFloat_eq hcanonical hmantissa Nat.one_pos hnear, Float64.truncate?, isFinite_toDouble hcanonical,
      if_pos rfl, ofFloat_toDouble hcanonical, htruncate]

end Dataflow.Binary

namespace Dataflow.Float64

theorem truncate?_ofInt {n : Int} (h : n.natAbs ≤ 2 ^ 53) : truncate? (ofInt n) = some n := by
  rw [ofInt, Binary.truncate?_toFloat h]
  by_cases hneg : n < 0
  · simp only [hneg, decide_true, if_true, Option.some.injEq]
    omega
  · simp only [hneg, decide_false, Bool.false_eq_true, if_false, Option.some.injEq]
    omega

/-- A machine integer of up to fifty-three bits is found again in the double nearest to it. -/
theorem toInt_ofInt {n : Int64} (h : n.toInt.natAbs ≤ 2 ^ 53) : toInt (ofInt n.toInt) = n := by
  have hrange : Int64.minValue.toInt ≤ n.toInt ∧ n.toInt ≤ Int64.maxValue.toInt :=
    ⟨Int64.toInt_minValue ▸ n.le_toInt, Int64.toInt_maxValue ▸ Int.le_sub_one_of_lt n.toInt_lt⟩
  rw [toInt, truncate?_ofInt h, Option.bind_some, Integer64.ofInt?, if_pos hrange, Option.getD_some,
    Int64.ofInt_toInt]

end Dataflow.Float64
