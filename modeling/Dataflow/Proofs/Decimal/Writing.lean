import Dataflow.Proofs.Decimal.Reading

/-!
# A written double is read back

The search for the shortest decimal stops inside the rounding interval of the double (`Decimal.near_shortest`).
Every way to write that decimal is a numeral of the same magnitude (`NumberStyle.exists_numeral`), so that
reading gives the double again (`NumberStyle.readFloat_float`).
-/

namespace Dataflow

open List Text Numeral Binary

variable {s : NumberStyle} {x : Float}

/-! ### The search -/

namespace Decimal

variable {f : BinaryFormat} {b : Binary}

def magnitude (d : Decimal) : ℚ := d.digits * 10 ^ d.exponent

namespace Interval

variable {i : Interval}

theorem contains_value (hbelow : 0 < i.below) (habove : 0 < i.above) : i.contains i.value = true := by
  unfold contains
  split
  · simp
  · simp [hbelow, habove]

theorem contains_of_onGrid? {k q : Nat} (h : i.onGrid? k = some q) : i.contains (q * Nat.pow 10 k) = true := by
  simp only [onGrid?] at h
  split at h
  · next hboth =>
    obtain ⟨hdown, hup⟩ := Bool.and_eq_true_iff.mp hboth
    replace h := Option.some.inj h
    split at h
    · exact h ▸ hdown
    · exact h ▸ hup
  · split at h
    · next hdown => exact Option.some.inj h ▸ hdown
    · split at h
      · next hup => exact Option.some.inj h ▸ hup
      · cases h

theorem onGrid?_zero (hbelow : 0 < i.below) (habove : 0 < i.above) : i.onGrid? 0 = some i.value := by
  have hone : Nat.pow 10 0 = 1 := rfl
  have hvalue := contains_value hbelow habove
  simp only [onGrid?, hone, Nat.div_one, Nat.mul_one, Nat.mod_one, hvalue]
  split <;> simp

/-- The search ends on a multiple in the interval that is not zero. -/
theorem contains_search (hbelow : 0 < i.below) (habove : 0 < i.above) (hvalue : 0 < i.value) (k : Nat) :
    (i.search k).1 ≠ 0 ∧ i.contains ((i.search k).1 * Nat.pow 10 (i.search k).2) = true := by
  induction k with
  | zero =>
    have hgrid := onGrid?_zero hbelow habove
    rw [search, hgrid]
    exact ⟨hvalue.ne', contains_of_onGrid? hgrid⟩
  | succ k ih =>
    rw [search]
    split
    · next q hgrid =>
      split
      · exact ih
      · next hq => exact ⟨hq, contains_of_onGrid? hgrid⟩
    · exact ih

end Interval

theorem stripZeros_spec (n d : Nat) (e : Int) (hd : d ≠ 0) :
    (stripZeros n d e).digits ≠ 0 ∧ (stripZeros n d e).magnitude = d * 10 ^ e := by
  induction n generalizing d e with
  | zero => exact ⟨hd, rfl⟩
  | succ n ih =>
    rw [stripZeros]
    split
    · next hzero =>
      obtain ⟨hdigits, hmagnitude⟩ := ih (d / 10) (e + 1) (by omega)
      refine ⟨hdigits, ?_⟩
      have hcast : ((d / 10 : Nat) : ℚ) * 10 = d := by
        exact_mod_cast Nat.div_mul_cancel (Nat.dvd_of_mod_eq_zero hzero.2)
      rw [hmagnitude, zpow_add₀ (by norm_num), zpow_one, ← hcast]
      ring
    · exact ⟨hd, rfl⟩

/-- A quarter of the last place, in the unit of the search. -/
def quarter (b : Binary) : Nat :=
  if 0 ≤ b.exponent - 2 then Nat.pow 2 (b.exponent - 2).toNat else Nat.pow 5 (-(b.exponent - 2)).toNat

/-- The exponent of the power of ten that is the unit of the search. -/
def unitExponent (b : Binary) : Int := if 0 ≤ b.exponent - 2 then 0 else b.exponent - 2

def around (f : BinaryFormat) (b : Binary) : Interval :=
  { value := 4 * b.mantissa * quarter b
    below := (if b.mantissa = Nat.pow 2 (f.width - 1) ∧ f.least < b.exponent then 1 else 2) * quarter b
    above := 2 * quarter b
    closed := b.mantissa % 2 = 0 }

/-- Half the gap below, in units of the last place. -/
def gap (f : BinaryFormat) (b : Binary) : ℚ :=
  if b.mantissa = Nat.pow 2 (f.width - 1) ∧ f.least < b.exponent then 1 / 4 else 1 / 2

theorem gap_le : gap f b ≤ 1 / 2 := by
  unfold gap
  split <;> norm_num

theorem quarter_pos (b : Binary) : 0 < quarter b := by
  unfold quarter
  split <;> exact Nat.pow_pos (by decide)

theorem quarter_mul (b : Binary) : (quarter b : ℚ) * 10 ^ unitExponent b = 2 ^ b.exponent / 4 := by
  have hquarter : (2 : ℚ) ^ b.exponent / 4 = 2 ^ (b.exponent - 2) := by
    rw [zpow_sub₀ (by norm_num)]
    norm_num
  rw [hquarter, quarter, unitExponent]
  split
  · next he =>
    rw [zpow_zero, mul_one, natCast_pow_toNat 2 he]
    rfl
  · next he =>
    -- five to the one power and ten to the opposite one leave a power of two
    rw [natCast_pow_toNat 5 (by omega), zpow_neg, Nat.cast_ofNat, ← inv_zpow, ← mul_zpow]
    norm_num

theorem below_around : ((around f b).below : ℚ) = 4 * gap f b * quarter b := by
  simp only [around, gap]
  split <;> push_cast <;> ring

/-- The decimal lies in the rounding interval. -/
structure Within (f : BinaryFormat) (b : Binary) (d : ℚ) : Prop where
  low : (b.mantissa - gap f b) * 2 ^ b.exponent ≤ d
  high : d ≤ (b.mantissa + 1 / 2) * 2 ^ b.exponent
  odd : b.mantissa % 2 = 1 → (b.mantissa - gap f b) * 2 ^ b.exponent < d ∧
    d < (b.mantissa + 1 / 2) * 2 ^ b.exponent

theorem Within.half_le {d : ℚ} (h : Within f b d) : (b.mantissa - 1 / 2) * 2 ^ b.exponent ≤ d :=
  (mul_le_mul_of_nonneg_right (by linarith [gap_le (f := f) (b := b)]) (zpow_pos (by norm_num) _).le).trans h.low

/-- What the search accepts lies in the rounding interval. -/
theorem within_of_contains {n : Nat} (h : (around f b).contains n = true) :
    Within f b (n * 10 ^ unitExponent b) := by
  have hunit : (0 : ℚ) < 10 ^ unitExponent b := zpow_pos (by norm_num) _
  have hquarter := quarter_mul b
  have hbelow : (b.mantissa - gap f b) * 2 ^ b.exponent =
      ((around f b).value - (around f b).below) * 10 ^ unitExponent b := by
    rw [below_around]
    simp only [around, Nat.cast_mul, Nat.cast_ofNat]
    linear_combination -4 * (b.mantissa - gap f b) * hquarter
  have habove : (b.mantissa + 1 / 2 : ℚ) * 2 ^ b.exponent =
      ((around f b).value + (around f b).above) * 10 ^ unitExponent b := by
    simp only [around, Nat.cast_mul, Nat.cast_ofNat]
    linear_combination -4 * (b.mantissa + 1 / 2 : ℚ) * hquarter
  have hlow (h : (around f b).value ≤ n + (around f b).below) :
      (b.mantissa - gap f b) * 2 ^ b.exponent ≤ n * 10 ^ unitExponent b := by
    rw [hbelow, mul_le_mul_iff_left₀ hunit, sub_le_iff_le_add]
    exact_mod_cast h
  have hhigh (h : n ≤ (around f b).value + (around f b).above) :
      n * 10 ^ unitExponent b ≤ (b.mantissa + 1 / 2 : ℚ) * 2 ^ b.exponent := by
    rw [habove, mul_le_mul_iff_left₀ hunit]
    exact_mod_cast h
  unfold Interval.contains at h
  split at h
  · next hclosed =>
    have heven : b.mantissa % 2 = 0 := of_decide_eq_true hclosed
    rw [Bool.and_eq_true, decide_eq_true_eq, decide_eq_true_eq] at h
    exact ⟨hlow h.1, hhigh h.2, fun hodd => by omega⟩
  · rw [Bool.and_eq_true, decide_eq_true_eq, decide_eq_true_eq] at h
    refine ⟨hlow h.1.le, hhigh h.2.le, fun _ => ⟨?_, ?_⟩⟩
    · rw [hbelow, mul_lt_mul_iff_left₀ hunit, sub_lt_iff_lt_add]
      exact_mod_cast h.1
    · rw [habove, mul_lt_mul_iff_left₀ hunit]
      exact_mod_cast h.2

/-- The shortest decimal lies in the rounding interval. -/
theorem within_shortest (f : BinaryFormat) (hpos : 0 < b.mantissa) :
    (shortest f b).digits ≠ 0 ∧ Within f b (shortest f b).magnitude := by
  have hquarter := quarter_pos b
  have hbelow : 0 < (around f b).below := by
    refine Nat.mul_pos ?_ hquarter
    split <;> decide
  obtain ⟨k, hk⟩ : ∃ k, shortest f b =
      stripZeros 20 ((around f b).search k).1 (((around f b).search k).2 + unitExponent b) := ⟨_, if_neg hpos.ne'⟩
  obtain ⟨hne, hcontains⟩ := (around f b).contains_search hbelow (Nat.mul_pos (by decide) hquarter)
    (Nat.mul_pos (by omega) hquarter) k
  obtain ⟨hdigits, hmagnitude⟩ := stripZeros_spec 20 _ (((around f b).search k).2 + unitExponent b) hne
  rw [hk]
  refine ⟨hdigits, ?_⟩
  have hwithin := within_of_contains hcontains
  rw [Nat.cast_mul, natCast_ten_pow, mul_assoc, ← zpow_add₀ (by norm_num)] at hwithin
  rwa [hmagnitude]

theorem near_shortest (hpos : 0 < b.mantissa) :
    (shortest .double b).digits ≠ 0 ∧ b.Near (shortest .double b).magnitude := by
  obtain ⟨hdigits, hlow, hhigh, hodd⟩ := within_shortest .double hpos
  exact ⟨hdigits, hlow, hhigh, hodd⟩

end Decimal

/-! ### The written forms -/

namespace Text

theorem bytes_zeros (k : Nat) : (replicate k "0").bytes = List.replicate k 48 := by
  have hzero : (ofString "0").bytes = [48] := by cbv
  simp [replicate, concat, hzero, flatMap_replicate]

/-- Zeros in front change no digit's value. -/
theorem decimals_padZeros {t : Text} (w : Nat) (h : Decimals t.bytes) :
    Decimals (padZeros w t).bytes ∧ decimalsFrom 0 (padZeros w t).bytes = decimalsFrom 0 t.bytes ∧
      (padZeros w t).length = max w t.length := by
  have hbytes : (padZeros w t).bytes = List.replicate (w - t.length) 48 ++ t.bytes := by
    rw [padZeros, bytes_append, bytes_zeros]
  refine ⟨?_, ?_, ?_⟩
  · rw [hbytes]
    exact forall_mem_append.mpr ⟨decimals_replicate _, h⟩
  · rw [hbytes, decimalsFrom_append, decimalsFrom_replicate, Nat.zero_mul]
  · rw [length, hbytes, length_append, length_replicate, ← length]
    omega

theorem pow_le_of_bytes_ofNat {n : Nat} (hn : n ≠ 0) {b : UInt8} {r : List UInt8} (h : (ofNat n).bytes = b :: r) :
    b ≠ 48 ∧ 10 ^ r.length ≤ n := by
  obtain ⟨hdecimals, hvalue, b', r', hbytes, hne, -⟩ := decimals_ofNat n
  obtain ⟨rfl, rfl⟩ := List.cons.inj (h.symm.trans hbytes)
  have hb := hne hn
  have hdigit := (Byte.isDigit_iff b).mp (hdecimals b (by simp [hbytes]))
  have hlead : 1 ≤ b.toNat - 48 := by
    have : b.toNat ≠ 48 := fun heq => hb (UInt8.toNat_inj.mp heq)
    omega
  refine ⟨hb, ?_⟩
  calc 10 ^ r.length ≤ (b.toNat - 48) * 10 ^ r.length := Nat.le_mul_of_pos_left _ hlead
    _ ≤ (b.toNat - 48) * 10 ^ r.length + decimalsFrom 0 r := Nat.le_add_right _ _
    _ = decimalsFrom 0 (b :: r) := by
      rw [← decimalsFrom_eq, decimalsFrom, decimalsFrom, foldl_cons, Nat.zero_mul, Nat.zero_add]
    _ = n := by rw [← hbytes, hvalue]

theorem length_ofNat_le {n k : Nat} (h : n < 10 ^ k) (hk : 0 < k) : (ofNat n).length ≤ k := by
  obtain ⟨-, -, b, r, hbytes, -, hr⟩ := decimals_ofNat n
  rw [length, hbytes, length_cons]
  by_cases hzero : n = 0
  · rw [hr (by omega)]
    exact hk
  · exact (Nat.pow_lt_pow_iff_right (by decide)).mp ((pow_le_of_bytes_ofNat hzero hbytes).2.trans_lt h)

end Text

namespace NumberStyle

variable {ds : Text} {b : UInt8} {r : List UInt8}

theorem exists_scientific (hds : Decimals ds.bytes) (hbytes : ds.bytes = b :: r) {w : Nat} {e : Int} (hw : w ≤ 5)
    (he : e.natAbs < 10 ^ 5) (negative : Bool) :
    ∃ n : Numeral, n.WellFormed ∧ n.negative = negative ∧ n.body = (scientific w ds e).bytes ∧
      n.magnitude = decimalsFrom 0 ds.bytes * 10 ^ (e - r.length) := by
  obtain ⟨hexp, hvalue, hlen⟩ := decimals_padZeros w (decimals_ofNat e.natAbs).1
  rw [(decimals_ofNat e.natAbs).2.1] at hvalue
  have hfive : (Text.ofNat e.natAbs).length ≤ 5 := length_ofNat_le he (by decide)
  have hpos : 0 < (Text.padZeros w (Text.ofNat e.natAbs)).length := by
    obtain ⟨-, -, c, r', hbytes', -, -⟩ := decimals_ofNat e.natAbs
    rw [hlen, Text.length, hbytes', length_cons]
    omega
  rw [hbytes, Decimals, forall_mem_cons] at hds
  refine ⟨⟨negative, [b], r, some (e < 0, (Text.padZeros w (Text.ofNat e.natAbs)).bytes)⟩,
    ⟨?_, ?_, hds.2, ?_⟩, rfl, ?_, ?_⟩
  · exact forall_mem_singleton.mpr hds.1
  · exact ⟨b, [], rfl, fun _ => rfl⟩
  · rintro _ ⟨⟩
    exact ⟨hexp, ne_nil_of_length_pos hpos, by rw [← Text.length, hlen]; omega⟩
  · have hmantissa : (if ds.length = 1 then ds else ds.take 1 ++ "." ++ ds.drop 1).bytes =
        [b] ++ if r = [] then [] else 46 :: r := by
      have hpoint : (Text.ofString ".").bytes = [46] := by cbv
      cases r with
      | nil => simp [Text.length, hbytes]
      | cons c r => simp [Text.length, Text.take, Text.drop, hbytes, hpoint]
    have hmark : (Text.ofString "e").bytes = [101] := by cbv
    have hsign : (Text.ofString (if e < 0 then "-" else "+")).bytes = [if e < 0 then 45 else 43] := by
      split <;> cbv
    simp only [scientific, bytes_append, hmantissa, hmark, hsign]
    simp [body, fractionText, exponentText]
  · have hpower : (if e < 0 then -(e.natAbs : Int) else e.natAbs) = e := by
      split <;> omega
    simp only [magnitude, power, hvalue, decide_eq_true_eq, hpower, hbytes]
    rfl

theorem exists_positional (hds : Decimals ds.bytes) (hbytes : ds.bytes = b :: r) (hb : b ≠ 48) (k : Int)
    (negative : Bool) :
    ∃ n : Numeral, n.WellFormed ∧ n.negative = negative ∧ n.body = (positional ds k).bytes ∧
      n.magnitude = decimalsFrom 0 ds.bytes * 10 ^ (k - ds.length) := by
  have hlength : ds.bytes.length = ds.length := rfl
  by_cases hlow : k ≤ 0
  · -- zeros after the point and all digits after them
    refine ⟨⟨negative, [48], List.replicate (-k).toNat 48 ++ ds.bytes, none⟩,
      ⟨decimals_replicate 1, ⟨48, [], rfl, fun _ => rfl⟩, forall_mem_append.mpr ⟨decimals_replicate _, hds⟩, by simp⟩,
      rfl, ?_, ?_⟩
    · have hhead : (Text.ofString "0.").bytes = [48, 46] := by cbv
      rw [positional, if_pos hlow, bytes_append, bytes_append, hhead, bytes_zeros]
      simp [body, fractionText, exponentText, hbytes]
    · have hdigits : decimalsFrom 0 ([48] ++ (List.replicate (-k).toNat 48 ++ ds.bytes)) = decimalsFrom 0 ds.bytes := by
        rw [decimalsFrom_append, decimalsFrom_append, decimalsFrom_replicate]
        simp [decimalsFrom]
      simp only [magnitude, power, hdigits, length_append, length_replicate, hlength]
      congr 2
      omega
  · by_cases hhigh : (ds.length : Int) ≤ k
    · -- zeros up to the point
      refine ⟨⟨negative, ds.bytes ++ List.replicate (k.toNat - ds.length) 48, [], none⟩,
        ⟨forall_mem_append.mpr ⟨hds, decimals_replicate _⟩, ?_, by simp [Decimals], by simp⟩, rfl, ?_, ?_⟩
      · exact ⟨b, r ++ List.replicate (k.toNat - ds.length) 48, by rw [hbytes]; rfl, fun h => absurd h hb⟩
      · rw [positional, if_neg hlow, if_pos hhigh, bytes_append, bytes_zeros]
        simp [body, fractionText, exponentText]
      · have hzeros : ((10 ^ (k.toNat - ds.length) : Nat) : ℚ) = 10 ^ (k - ds.length) := by
          rw [Nat.cast_pow, ← zpow_natCast, Nat.cast_ofNat]
          congr 1
          omega
        simp only [magnitude, power, append_nil, decimalsFrom_append]
        rw [decimalsFrom_replicate, Nat.cast_mul, hzeros]
        simp
    · -- the point among the digits
      refine ⟨⟨negative, ds.bytes.take k.toNat, ds.bytes.drop k.toNat, none⟩,
        ⟨fun c hc => hds c (mem_of_mem_take hc), ?_, fun c hc => hds c (mem_of_mem_drop hc), by simp⟩, rfl, ?_, ?_⟩
      · obtain ⟨j, hj⟩ : ∃ j, k.toNat = j + 1 := ⟨k.toNat - 1, by omega⟩
        exact ⟨b, r.take j, by rw [hbytes, hj]; rfl, fun h => absurd h hb⟩
      · have hpoint : (Text.ofString ".").bytes = [46] := by cbv
        have hdrop : ds.bytes.drop k.toNat ≠ [] := by
          rw [Ne, drop_eq_nil_iff, hlength]
          omega
        rw [positional, if_neg hlow, if_neg hhigh, bytes_append, bytes_append, hpoint]
        simp [body, fractionText, exponentText, hdrop, Text.take, Text.drop]
      · simp only [magnitude, power, take_append_drop, length_drop, hlength]
        congr 2
        omega

/-- Every way to write a decimal of moderate size is a numeral of the same magnitude. -/
theorem exists_numeral (hs : s.exponentDigits ≤ 5) {d : Decimal} (hd : d.digits ≠ 0)
    (hlow : 10 ^ (-400 : Int) < d.magnitude) (hhigh : d.magnitude < 10 ^ (400 : Int)) (negative : Bool) :
    ∃ n : Numeral, n.WellFormed ∧ n.negative = negative ∧ n.body = (s.decimal d).bytes ∧
      n.magnitude = d.magnitude := by
  obtain ⟨hdecimals, hvalue, b, r, hbytes, -, -⟩ := decimals_ofNat d.digits
  obtain ⟨hb, hpow⟩ := pow_le_of_bytes_ofNat hd hbytes
  have hlen : (Text.ofNat d.digits).length = r.length + 1 := by rw [Text.length, hbytes, length_cons]
  have hunit : (0 : ℚ) < 10 ^ d.exponent := zpow_pos (by norm_num) _
  have hless : d.exponent + r.length < 400 := by
    have hcast : (10 : ℚ) ^ r.length ≤ d.digits := by exact_mod_cast hpow
    have hle : (10 : ℚ) ^ (d.exponent + r.length) ≤ d.magnitude := by
      rw [zpow_add₀ (by norm_num), zpow_natCast, mul_comm]
      exact mul_le_mul_of_nonneg_right hcast hunit.le
    exact (zpow_lt_zpow_iff_right₀ (by norm_num)).mp (hle.trans_lt hhigh)
  have hmore : -400 < d.exponent + (r.length + 1 : Nat) := by
    have hlt := decimalsFrom_lt hdecimals
    rw [hvalue, hbytes, length_cons] at hlt
    have hcast : (d.digits : ℚ) < 10 ^ (r.length + 1) := by exact_mod_cast hlt
    have hle : d.magnitude < 10 ^ (d.exponent + (r.length + 1 : Nat)) := by
      rw [zpow_add₀ (by norm_num), zpow_natCast, mul_comm]
      exact mul_lt_mul_of_pos_right hcast hunit
    exact (zpow_lt_zpow_iff_right₀ (by norm_num)).mp (hlow.trans hle)
  have hexponent : d.exponent + (Text.ofNat d.digits).length - 1 = d.exponent + r.length := by
    rw [hlen]
    omega
  simp only [decimal, if_neg hd, hexponent]
  split
  · obtain ⟨n, hn, hneg, hbody, hmagnitude⟩ :=
      exists_scientific hdecimals hbytes (e := d.exponent + r.length) hs (by omega) negative
    refine ⟨n, hn, hneg, hbody, ?_⟩
    rw [hmagnitude, hvalue, add_sub_cancel_right, Decimal.magnitude]
  · obtain ⟨n, hn, hneg, hbody, hmagnitude⟩ :=
      exists_positional hdecimals hbytes hb (d.exponent + r.length + 1) negative
    refine ⟨n, hn, hneg, hbody, ?_⟩
    rw [hmagnitude, hvalue, Decimal.magnitude, hlen]
    congr 2
    omega

theorem text_eq_binary {f : BinaryFormat} {x : Binary} {n : Numeral}
    (hneg : n.negative = x.negative) (hbody : n.body = (s.decimal (Decimal.shortest f x)).bytes) :
    n.text = s.binary f x := by
  have hminus : (Text.ofString "-").bytes = [45] := by cbv
  rw [text, hneg, hbody, binary]
  ext1
  split <;> simp [hminus]

theorem wellFormed_zero (negative : Bool) : Numeral.WellFormed ⟨negative, [48], [], none⟩ :=
  ⟨decimals_replicate 1, ⟨48, [], rfl, fun _ => rfl⟩, decimals_replicate 0, by simp⟩

theorem body_zero (s : NumberStyle) (f : BinaryFormat) {x : Binary} (h : x.mantissa = 0) (negative : Bool) :
    body ⟨negative, [48], [], none⟩ = (s.decimal (Decimal.shortest f x)).bytes := by
  have hdigit : (Text.ofString "0").bytes = [48] := by cbv
  rw [Decimal.shortest, if_pos h, decimal, if_pos rfl, hdigit]
  rfl

theorem exists_numeral_float (hs : s.exponentDigits ≤ 5) (hx : x.isFinite = true) :
    ∃ n : Numeral, n.WellFormed ∧ n.text = s.float x ∧ readFloat n.text = .ok x := by
  obtain ⟨hinf, hnan⟩ := not_special_of_isFinite hx
  have hcanonical := canonical_ofFloat hx
  have hfloat : s.float x = s.binary .double (ofFloat x) := by
    rw [float, hnan, hinf]
    rfl
  rw [hfloat]
  by_cases hzero : (ofFloat x).mantissa = 0
  · have hwell := wellFormed_zero (ofFloat x).negative
    have hleast : (ofFloat x).exponent = -1074 := hcanonical.normal.resolve_left (by omega)
    have hparts : (⟨(ofFloat x).negative, 0, -1074⟩ : Binary) = ofFloat x := by
      rw [← hleast, ← hzero]
    refine ⟨_, hwell, text_eq_binary rfl (body_zero s .double hzero _), ?_⟩
    rw [readFloat_of_zero hwell (decimalsFrom_replicate 0 1), hparts, toDouble_ofFloat hx]
  · have hpos := Nat.pos_of_ne_zero hzero
    obtain ⟨hdigits, hnear⟩ := Decimal.near_shortest hpos
    obtain ⟨n, hn, hneg, hbody, hmagnitude⟩ := exists_numeral hs hdigits
      (ten_pow_lt hpos hcanonical.least hnear.half_le)
      (lt_ten_pow hcanonical.mantissa hcanonical.greatest hnear.high) (ofFloat x).negative
    refine ⟨n, hn, text_eq_binary hneg hbody, ?_⟩
    rw [readFloat_of_near hn hcanonical hpos hneg (hmagnitude ▸ hnear), toDouble_ofFloat hx]

/-- A finite double is read back from what is written for it. -/
theorem readFloat_float (hs : s.exponentDigits ≤ 5) (hx : x.isFinite = true) :
    readFloat (s.float x) = .ok x := by
  obtain ⟨n, -, htext, hread⟩ := exists_numeral_float hs hx
  rw [← htext, hread]

/-- What is written for a finite double is a number of a document. -/
theorem isNumber_float (hs : s.exponentDigits ≤ 5) (hx : x.isFinite = true) :
    Json.isNumber (s.float x) = true := by
  obtain ⟨n, hn, htext, -⟩ := exists_numeral_float hs hx
  rw [← htext, isNumber_text hn]

/-- What is written for a finite number of single precision is a number of a document. -/
theorem isNumber_float32 (hs : s.exponentDigits ≤ 5) {x : Float32} (hx : x.isFinite = true) :
    Json.isNumber (s.float32 x) = true := by
  have hspecial : x.isInf = false ∧ x.isNaN = false := not_special (u := x.toModel.unpack) hx
  have hfloat : s.float32 x = s.binary .single (ofFloat32 x) := by
    rw [float32, hspecial.1, hspecial.2]
    rfl
  have hmantissa : (ofFloat32 x).mantissa < 2 ^ 24 := by
    have hfraction : x.toBits.toNat % Nat.pow 2 23 < 2 ^ 23 := Nat.mod_lt _ (by decide)
    have hpow : Nat.pow 2 23 = 2 ^ 23 := rfl
    simp only [ofFloat32]
    split <;> omega
  have hexponent : -149 ≤ (ofFloat32 x).exponent ∧ (ofFloat32 x).exponent ≤ 105 := by
    simp only [ofFloat32]
    split <;> omega
  generalize ofFloat32 x = b at hfloat hmantissa hexponent
  rw [hfloat]
  by_cases hzero : b.mantissa = 0
  · rw [← text_eq_binary rfl (body_zero s .single hzero b.negative), isNumber_text (wellFormed_zero _)]
  · have hpos := Nat.pos_of_ne_zero hzero
    obtain ⟨hdigits, hwithin⟩ := Decimal.within_shortest .single hpos
    have habove := ten_pow_lt hpos (by omega) hwithin.half_le
    have hless := lt_ten_pow (by omega) (by omega) hwithin.high
    obtain ⟨n, hn, hneg, hbody, -⟩ := exists_numeral hs hdigits habove hless b.negative
    rw [← text_eq_binary hneg hbody, isNumber_text hn]

end NumberStyle

end Dataflow
