import Dataflow.Proofs.Decimal.Nearest
import Dataflow.Proofs.Session.Identifier

/-!
# Numerals are read as what they say

A `Numeral` is a number as documents write it: a sign, digits without a leading zero, a fraction and an
exponent.  Its text is a number of a document (`Numeral.isNumber_text`), and reading it scales
its digits by its exponent (`Numeral.readFloat_text`).
-/

namespace Dataflow

open List

variable {b : Binary} {ds : List UInt8}

/-! ### Decimal digits -/

namespace Byte

theorem isDigit_iff (b : UInt8) : isDigit b = true ↔ 48 ≤ b.toNat ∧ b.toNat ≤ 57 := by
  rw [isDigit, Bool.and_eq_true, decide_eq_true_eq, decide_eq_true_eq, UInt8.le_iff_toNat_le,
    UInt8.le_iff_toNat_le]
  rfl

theorem hexValue?_of_isDigit {b : UInt8} (h : isDigit b = true) : hexValue? b = some (b.toNat - 48) := if_pos h

/-- A digit is none of the other marks in a number. -/
theorem ne_of_isDigit {b c : UInt8} (h : isDigit b = true) (hc : isDigit c = false) : b ≠ c := by
  rintro rfl
  rw [h] at hc
  cases hc

theorem toLower_of_isDigit {b : UInt8} (h : isDigit b = true) : toLower b = b := by
  obtain ⟨-, hhigh⟩ := (isDigit_iff b).mp h
  refine if_neg fun hupper => ?_
  rw [isUpper, Bool.and_eq_true, decide_eq_true_eq, UInt8.le_iff_toNat_le] at hupper
  have hlow : 65 ≤ b.toNat := hupper.1
  omega

end Byte

/-- All bytes are decimal digits. -/
def Decimals (bs : List UInt8) : Prop := ∀ b ∈ bs, Byte.isDigit b = true

/-- The number that decimal digits stand for, after others that stand for `n`. -/
def decimalsFrom (n : Nat) (bs : List UInt8) : Nat := bs.foldl (fun n b => n * 10 + (b.toNat - 48)) n

theorem decimalsFrom_append (n : Nat) (bs cs : List UInt8) :
    decimalsFrom n (bs ++ cs) = decimalsFrom (decimalsFrom n bs) cs := foldl_append

theorem decimalsFrom_eq (n : Nat) (bs : List UInt8) :
    decimalsFrom n bs = n * 10 ^ bs.length + decimalsFrom 0 bs := by
  induction bs using reverseRecOn generalizing n with
  | nil => simp [decimalsFrom]
  | append_singleton bs b ih =>
    rw [decimalsFrom_append, decimalsFrom_append, ih n]
    simp only [decimalsFrom, foldl_cons, foldl_nil, length_append, length_singleton,
      Nat.pow_succ]
    ring

theorem decimalsFrom_lt {bs : List UInt8} (h : Decimals bs) : decimalsFrom 0 bs < 10 ^ bs.length := by
  induction bs using reverseRecOn with
  | nil => simp [decimalsFrom]
  | append_singleton bs b ih =>
    have hb := (Byte.isDigit_iff b).mp (h b (by simp))
    have hlt := ih fun c hc => h c (by simp [hc])
    rw [decimalsFrom_append, length_append, length_singleton, Nat.pow_succ]
    simp only [decimalsFrom, foldl_cons, foldl_nil] at hlt ⊢
    omega

theorem decimalsFrom_replicate (n k : Nat) : decimalsFrom n (List.replicate k 48) = n * 10 ^ k := by
  induction k generalizing n with
  | zero => simp [decimalsFrom]
  | succ k ih =>
    rw [replicate_succ, decimalsFrom, foldl_cons]
    show decimalsFrom (n * 10 + 0) _ = _
    rw [ih, Nat.pow_succ]
    ring

theorem decimals_replicate (k : Nat) : Decimals (List.replicate k 48) := fun b hb => by
  rw [eq_of_mem_replicate hb]
  decide

namespace Text

theorem bytes_ofNat (n : Nat) : (ofNat n).bytes = (Nat.toDigits 10 n).flatMap String.utf8EncodeChar := by
  have hdigits : toString n = String.ofList (Nat.toDigits 10 n) := Nat.repr_eq_ofList_toDigits
  rw [ofNat, hdigits, ofString_ofList, ofChars]

theorem bytes_ofNat_of_lt {d : Nat} (h : d < 10) : (ofNat d).bytes = [UInt8.ofNat (48 + d)] := by
  rw [bytes_ofNat, Nat.toDigits_of_lt_base h]
  have hall : ∀ d < 10, [d.digitChar].flatMap String.utf8EncodeChar = [UInt8.ofNat (48 + d)] := by decide
  exact hall d h

theorem bytes_ofNat_digit {m d : Nat} (hm : 0 < m) (hd : d < 10) :
    (ofNat (10 * m + d)).bytes = (ofNat m).bytes ++ [UInt8.ofNat (48 + d)] := by
  rw [← bytes_ofNat_of_lt hd, bytes_ofNat, bytes_ofNat, bytes_ofNat,
    ← Nat.toDigits_append_toDigits (by omega) hm hd, flatMap_append]

/-- What is known of the digits of a number. -/
theorem decimals_ofNat (n : Nat) : Decimals (ofNat n).bytes ∧ decimalsFrom 0 (ofNat n).bytes = n ∧
      ∃ b r, (ofNat n).bytes = b :: r ∧ (n ≠ 0 → b ≠ 48) ∧ (n < 10 → r = []) := by
  have hdigit : ∀ d < 10, Byte.isDigit (UInt8.ofNat (48 + d)) = true ∧ (UInt8.ofNat (48 + d)).toNat - 48 = d ∧
      (d ≠ 0 → UInt8.ofNat (48 + d) ≠ 48) := by decide
  induction n using Nat.base_induction 10 (by omega) with
  | single d hd =>
    rw [bytes_ofNat_of_lt hd]
    obtain ⟨h, hvalue, hne⟩ := hdigit d hd
    refine ⟨forall_mem_singleton.mpr h, ?_, _, [], rfl, hne, fun _ => rfl⟩
    simpa [decimalsFrom] using hvalue
  | digit m d hd hm ih =>
    obtain ⟨hdecimals, hvalue, b, r, hbytes, hne, -⟩ := ih
    obtain ⟨h, hdvalue, -⟩ := hdigit d hd
    rw [bytes_ofNat_digit hm hd]
    refine ⟨forall_mem_append.mpr ⟨hdecimals, forall_mem_singleton.mpr h⟩, ?_,
      b, r ++ [UInt8.ofNat (48 + d)], by rw [hbytes]; rfl, fun _ => hne hm.ne', fun hlt => by omega⟩
    rw [decimalsFrom_append, hvalue, decimalsFrom, foldl_cons, foldl_nil, hdvalue]
    ring

end Text

/-! ### Numerals -/

/-- A number as documents write it. -/
structure Numeral where
  negative : Bool
  whole : List UInt8
  fraction : List UInt8
  /-- Whether the exponent is negative, and its digits. -/
  exponent : Option (Bool × List UInt8)

namespace NumberReader

/-- What is read as an infinity or as what is no number, in lowercase. -/
def words : List Text := ["inf", "+inf", "-inf", "infinity", "+infinity", "-infinity", "nan"]

theorem special?_of_not_mem {t : Text} (h : t.toLower ∉ words) : special? t = none := by
  have hnone (sign : Option Bool) (front body : Text) (hlow : t.toLower = front ++ body)
      (hfront : ∀ w ∈ [("inf" : Text), "infinity"], front ++ w ∈ words) (hnan : sign = none → front = "") :
      (if body = "inf" ∨ body = "infinity" then
        some (if sign = some true then Float64.negInfinity else Float64.infinity)
      else if sign = none ∧ body = "nan" then some Float64.nan else none) = none := by
    rw [hlow] at h
    rw [if_neg, if_neg]
    · rintro ⟨hsign, rfl⟩
      rw [hnan hsign] at h
      exact h (by decide)
    · rintro (rfl | rfl) <;> exact h (hfront _ (by simp))
  unfold special?
  dsimp only
  split
  · next r hr => exact hnone (some true) "-" ⟨r⟩ (Text.ext hr) (by decide) (by simp)
  · next r hr => exact hnone (some false) "+" ⟨r⟩ (Text.ext hr) (by decide) (by simp)
  · exact hnone none "" t.toLower rfl (by decide) fun _ => rfl

end NumberReader

namespace Numeral

variable (n : Numeral)

def fractionText : List UInt8 := if n.fraction = [] then [] else 46 :: n.fraction

def exponentText : List UInt8 :=
  match n.exponent with
  | none => []
  | some (negative, ds) => 101 :: (if negative then 45 else 43) :: ds

def body : List UInt8 := n.whole ++ n.fractionText ++ n.exponentText

def text : Text := ⟨(if n.negative then [45] else []) ++ n.body⟩

def power : Int :=
  match n.exponent with
  | none => 0
  | some (negative, ds) => if negative then -(decimalsFrom 0 ds : Int) else decimalsFrom 0 ds

/-- The rules of a number in a document, with an exponent of up to five digits. -/
structure WellFormed : Prop where
  whole : Decimals n.whole
  leading : ∃ b r, n.whole = b :: r ∧ (b = 48 → r = [])
  fraction : Decimals n.fraction
  exponent : ∀ e ∈ n.exponent, Decimals e.2 ∧ e.2 ≠ [] ∧ e.2.length ≤ 5

variable {n}

/-- Digits with what follows them are cut where the digits end. -/
theorem span_digits {bs r : List UInt8} (h : Decimals bs) (hr : ∀ b ∈ r.head?, Byte.isDigit b = false) :
    (bs ++ r).takeWhile Byte.isDigit = bs ∧ (bs ++ r).dropWhile Byte.isDigit = r := by
  constructor
  · rw [takeWhile_append_of_pos h]
    cases r with
    | nil => simp
    | cons b r => simp [hr b (by simp)]
  · rw [dropWhile_append_of_pos h]
    cases r with
    | nil => rfl
    | cons b r => simp [hr b (by simp)]

theorem head?_exponentText (b : UInt8) (h : b ∈ n.exponentText.head?) : b = 101 := by
  unfold exponentText at h
  split at h <;> simp_all

theorem head?_fractionText (b : UInt8) (h : b ∈ (n.fractionText ++ n.exponentText).head?) :
    b = 46 ∨ b = 101 := by
  unfold fractionText at h
  split at h
  · exact .inr (head?_exponentText b h)
  · simp_all

theorem not_isDigit_of_head? {b : UInt8} (h : b ∈ (n.fractionText ++ n.exponentText).head?) :
    Byte.isDigit b = false := by
  rcases head?_fractionText b h with rfl | rfl <;> decide

/-- The text has a digit after its sign. -/
theorem WellFormed.exists_body (h : n.WellFormed) :
    ∃ b r, n.body = b :: r ∧ Byte.isDigit b = true := by
  obtain ⟨b, r, hwhole, -⟩ := h.leading
  refine ⟨b, r ++ n.fractionText ++ n.exponentText, ?_, h.whole b (by simp [hwhole])⟩
  rw [body, hwhole]
  rfl

/-! ### As a number of a document -/

theorem isNumber_text (h : n.WellFormed) : Json.isNumber n.text = true := by
  obtain ⟨b, r, hbody, hb⟩ := h.exists_body
  obtain ⟨hwhole, hrest⟩ := span_digits h.whole (r := n.fractionText ++ n.exponentText)
    fun b hb => not_isDigit_of_head? hb
  rw [← List.append_assoc] at hwhole hrest
  have hne := Byte.ne_of_isDigit hb (by decide : Byte.isDigit 45 = false)
  have hunsigned : Json.isNumber n.text = Json.isNumber ⟨45 :: n.body⟩ := by
    unfold text
    cases n.negative with
    | true => rfl
    | false =>
      have hstrip : ∀ r', b :: r = 45 :: r' → False := by simp [hne]
      simp only [Json.isNumber, Bool.false_eq_true, if_false, nil_append, hbody]
  rw [hunsigned]
  simp only [Json.isNumber]
  rw [body, hwhole, hrest]
  have hspan {ds : List UInt8} (hds : Decimals ds) :
      ds.takeWhile Byte.isDigit = ds ∧ ds.dropWhile Byte.isDigit = [] := by
    simpa using span_digits hds (r := []) (by simp)
  have hfraction := span_digits h.fraction (r := n.exponentText) fun b hb => by
    rw [head?_exponentText b hb]
    decide
  rw [Bool.and_eq_true, Bool.and_eq_true]
  refine ⟨⟨?whole, ?fraction⟩, ?exponent⟩
  case whole =>
    obtain ⟨c, w, hw, hlead⟩ := h.leading
    rw [hw]
    cases w with
    | nil => rfl
    | cons d w => exact bne_iff_ne.mpr fun hzero => by simpa using hlead hzero
  case fraction =>
    by_cases hf : n.fraction = []
    · cases hexp : n.exponent <;> simp [fractionText, exponentText, hf, hexp]
    · simp [fractionText, hf, hfraction]
  case exponent =>
    by_cases hf : n.fraction = []
    on_goal 1 => rw [fractionText, if_pos hf, nil_append]
    on_goal 2 =>
      rw [fractionText, if_neg hf]
      simp only [cons_append, hfraction]
    all_goals
      cases hexp : n.exponent with
      | none => simp [exponentText, hexp]
      | some e =>
        obtain ⟨negative, ds⟩ := e
        obtain ⟨hds, hne, -⟩ := h.exponent _ hexp
        cases negative <;> simp [exponentText, hexp, hspan hds, hne] <;> decide

/-! ### As a number that is read -/

open NumberReader

/-- A text with a digit is none of the words. -/
theorem special?_text (h : n.WellFormed) : special? n.text = none := by
  obtain ⟨b, r, hbody, hb⟩ := h.exists_body
  refine special?_of_not_mem fun hmem => ?_
  have hword : ∀ w ∈ words, w.bytes.any Byte.isDigit = false := by decide
  have hmemb : b ∈ n.text.toLower.bytes :=
    mem_map.mpr ⟨b, mem_append_right _ (hbody ▸ mem_cons_self), Byte.toLower_of_isDigit hb⟩
  exact Bool.false_ne_true ((hword _ hmem).symm.trans (any_eq_true.mpr ⟨b, hmemb, hb⟩))

theorem unsigned_text (h : n.WellFormed) : unsigned n.text = (n.negative, n.body) := by
  obtain ⟨b, r, hbody, hb⟩ := h.exists_body
  have hplus := Byte.ne_of_isDigit hb (by decide : Byte.isDigit 43 = false)
  have hminus := Byte.ne_of_isDigit hb (by decide : Byte.isDigit 45 = false)
  unfold unsigned text
  cases n.negative with
  | true => rfl
  | false => simp [hbody, hplus, hminus]

/-- A leading zero stands alone, so no mark of another base follows it. -/
theorem afterHexMark?_body (h : n.WellFormed) : afterHexMark? n.body = none := by
  obtain ⟨b, r, hwhole, hlead⟩ := h.leading
  have hbody : n.body = b :: (r ++ (n.fractionText ++ n.exponentText)) := by
    rw [body, hwhole, List.append_assoc]
    rfl
  by_cases hb : b = 48
  · rw [hbody, hb, hlead hb, nil_append]
    cases hrest : n.fractionText ++ n.exponentText with
    | nil => rfl
    | cons x r =>
      have hx : Byte.toLower x ≠ byte 'x' := by
        rcases head?_fractionText x (by rw [hrest]; rfl) with rfl | rfl <;> decide
      exact if_neg fun hmark => hx hmark.1
  · rw [hbody]
    simp [afterHexMark?, hb]

theorem readDigits_append (h : Decimals ds) (seen : Bool) (d : Digits) (r : List UInt8) :
    readDigits 10 seen d (ds ++ r) = readDigits 10 seen
      { d with value := decimalsFrom d.value ds, places := d.places + (if seen then ds.length else 0),
               any := d.any || !ds.isEmpty } r := by
  induction ds generalizing d with
  | nil => simp [decimalsFrom]
  | cons b ds ih =>
    have hb := h b (by simp)
    have hunderscore := Byte.ne_of_isDigit hb (by decide : Byte.isDigit (byte '_') = false)
    have hpoint := Byte.ne_of_isDigit hb (by decide : Byte.isDigit (byte '.') = false)
    have hlt : b.toNat - 48 < 10 := by
      have := (Byte.isDigit_iff b).mp hb
      omega
    rw [cons_append, readDigits, if_neg hunderscore, if_neg fun hp => hpoint hp.1,
      Byte.hexValue?_of_isDigit hb]
    simp only [if_pos hlt]
    rw [ih fun c hc => h c (by simp [hc])]
    cases seen <;> simp [decimalsFrom, Nat.add_comm, Nat.add_left_comm]

theorem readDigits_exponentText (seen : Bool) (d : Digits) :
    readDigits 10 seen d n.exponentText = { d with rest := n.exponentText } := by
  unfold exponentText
  split
  · rfl
  · simp only [readDigits]
    rw [if_neg (by decide), if_neg fun hp => absurd hp.1 (by decide)]
    rfl

theorem readDigits_body (h : n.WellFormed) : readDigits 10 false ⟨0, 0, false, false, []⟩ n.body =
      ⟨decimalsFrom 0 (n.whole ++ n.fraction), n.fraction.length, true, false, n.exponentText⟩ := by
  obtain ⟨b, r, hwhole, -⟩ := h.leading
  have hany : (!n.whole.isEmpty) = true := by rw [hwhole]; rfl
  rw [body, List.append_assoc, readDigits_append h.whole]
  by_cases hf : n.fraction = []
  · rw [fractionText, if_pos hf, nil_append, readDigits_exponentText]
    simp [hf, hany]
  · rw [fractionText, if_neg hf, cons_append, readDigits, if_neg (by decide), if_pos ⟨rfl, rfl⟩,
      readDigits_append h.fraction, readDigits_exponentText]
    simp [decimalsFrom_append, hany]

theorem not_underscored (h : n.WellFormed) : n.body.contains (byte '_') = false := by
  have hdigits {ds : List UInt8} (hds : Decimals ds) : byte '_' ∉ ds := fun hmem => by
    have hdigit := hds _ hmem
    revert hdigit
    decide
  have hfraction : byte '_' ∉ n.fractionText := by
    unfold fractionText
    split
    · simp
    · exact not_mem_cons_of_ne_of_not_mem (by decide) (hdigits h.fraction)
  have hexponent : byte '_' ∉ n.exponentText := by
    cases hexp : n.exponent with
    | none => simp [exponentText, hexp]
    | some e =>
      obtain ⟨negative, ds⟩ := e
      have hds := hdigits (h.exponent _ hexp).1
      rw [exponentText, hexp]
      cases negative <;>
        exact not_mem_cons_of_ne_of_not_mem (by decide)
          (not_mem_cons_of_ne_of_not_mem (by decide) hds)
  rw [← Bool.not_eq_true, contains_iff_mem, body, mem_append, mem_append]
  rintro ((hmem | hmem) | hmem)
  · exact hdigits h.whole hmem
  · exact hfraction hmem
  · exact hexponent hmem

/-- Up to five digits of an exponent are read exactly. -/
theorem exponentValue_eq (h : Decimals ds) (hlen : ds.length ≤ 5) :
    exponentValue ds = decimalsFrom 0 ds := by
  induction ds using reverseRecOn with
  | nil => rfl
  | append_singleton ds b ih =>
    have hds : Decimals ds := fun c hc => h c (by simp [hc])
    rw [length_append, length_singleton] at hlen
    have hbound : decimalsFrom 0 ds < 10000 := by
      calc decimalsFrom 0 ds < 10 ^ ds.length := decimalsFrom_lt hds
        _ ≤ 10 ^ 4 := Nat.pow_le_pow_right (by omega) (by omega)
    have hb := Byte.ne_of_isDigit (h b (by simp)) (by decide : Byte.isDigit (byte '_') = false)
    rw [exponentValue, foldl_append, ← exponentValue, ih hds (by omega), decimalsFrom_append]
    simp only [foldl_cons, foldl_nil, if_neg hb, if_pos hbound]
    rfl

theorem readExponent?_of_exponent (h : n.WellFormed) {negative : Bool}
    (he : n.exponent = some (negative, ds)) :
    readExponent? ((if negative then 45 else 43) :: ds) = some (n.power, []) := by
  obtain ⟨hds, hne, hlen⟩ := h.exponent _ he
  have hpart (b : UInt8) (hb : b ∈ ds) : (Byte.isDigit b || b == byte '_') = true := by rw [hds b hb]; rfl
  have htake : ds.takeWhile (fun b => Byte.isDigit b || b == byte '_') = ds := takeWhile_eq_self_iff.mpr hpart
  have hdrop : ds.dropWhile (fun b => Byte.isDigit b || b == byte '_') = [] := dropWhile_eq_nil_iff.mpr hpart
  have hvalue := exponentValue_eq hds hlen
  obtain ⟨b, r, rfl⟩ := exists_cons_of_ne_nil hne
  rw [power, he]
  cases negative <;>
    simp only [readExponent?, if_true, if_false, Bool.false_eq_true, htake, hdrop, hvalue, hds b (by simp)]

/-- A numeral is read as its digits, scaled. -/
theorem readFloat_text (h : n.WellFormed) :
    readFloat n.text = ranged (scaleDecimal n.negative (decimalsFrom 0 (n.whole ++ n.fraction)) n.body.length
      (n.power - n.fraction.length)) := by
  have hfits : (!n.body.contains (byte '_') || underscoresFit false .start n.body) = true := by
    rw [not_underscored h]
    rfl
  simp only [readFloat, special?_text h, unsigned_text h, afterHexMark?_body h, readDigits_body h, hfits]
  cases hexp : n.exponent with
  | none => simp [exponentText, power, hexp]
  | some e =>
    obtain ⟨negative, ds⟩ := e
    have hread := readExponent?_of_exponent h hexp
    have hmark : Byte.toLower 101 = byte 'e' := by decide
    simp [exponentText, hexp, hmark, hread]

end Numeral

/-! ### Reading into an interval -/

namespace Binary

theorem two_pow_lt_ten_pow : (2 : ℚ) ^ (1200 : Int) < 10 ^ (400 : Int) := by
  rw [show (1200 : Int) = 3 * 400 from rfl, zpow_mul]
  exact zpow_lt_zpow_left₀ (by norm_num) (by norm_num) (by norm_num)

/-- What is near a double is not so large that it is taken for infinite. -/
theorem lt_ten_pow {d : ℚ} (hmantissa : b.mantissa < 2 ^ 53) (hgreatest : b.exponent ≤ 971)
    (h : d ≤ (b.mantissa + 1 / 2) * 2 ^ b.exponent) : d < 10 ^ (400 : Int) := by
  have hmantissa : (b.mantissa : ℚ) + 1 / 2 ≤ 2 ^ (53 : Int) := by
    have : (b.mantissa : ℚ) + 1 ≤ 2 ^ (53 : Int) := by exact_mod_cast hmantissa
    linarith
  calc d ≤ (b.mantissa + 1 / 2) * 2 ^ b.exponent := h
    _ ≤ 2 ^ (53 : Int) * 2 ^ (971 : Int) :=
      mul_le_mul hmantissa (zpow_le_zpow_right₀ (by norm_num) hgreatest) (zpow_pos (by norm_num) _).le
        (zpow_pos (by norm_num) _).le
    _ = 2 ^ (53 + 971 : Int) := (zpow_add₀ (by norm_num) _ _).symm
    _ ≤ 2 ^ (1200 : Int) := zpow_le_zpow_right₀ (by norm_num) (by norm_num)
    _ < 10 ^ (400 : Int) := two_pow_lt_ten_pow

/-- What is near a positive double is not so small that it is taken for zero. -/
theorem ten_pow_lt {d : ℚ} (hpos : 0 < b.mantissa) (hleast : -1074 ≤ b.exponent)
    (h : (b.mantissa - 1 / 2) * 2 ^ b.exponent ≤ d) : 10 ^ (-400 : Int) < d := by
  have hone : (1 : ℚ) ≤ b.mantissa := by exact_mod_cast hpos
  calc (10 : ℚ) ^ (-400 : Int) < 2 ^ (-1200 : Int) := by
        rw [zpow_neg, zpow_neg]
        exact inv_strictAnti₀ (zpow_pos (by norm_num) _) two_pow_lt_ten_pow
    _ ≤ 2 ^ (-1 + -1074 : Int) := zpow_le_zpow_right₀ (by norm_num) (by norm_num)
    _ = 1 / 2 * 2 ^ (-1074 : Int) := by rw [zpow_add₀ (by norm_num), zpow_neg_one, one_div]
    _ ≤ (b.mantissa - 1 / 2) * 2 ^ b.exponent :=
      mul_le_mul (by linarith) (zpow_le_zpow_right₀ (by norm_num) hleast) (zpow_pos (by norm_num) _).le (by linarith)
    _ ≤ d := h

theorem ranged_toDouble (hb : b.Canonical) : NumberReader.ranged (toDouble b) = .ok (toDouble b) := by
  rw [NumberReader.ranged, (not_special_of_isFinite (isFinite_toDouble hb)).1]
  rfl

theorem natCast_ten_pow (k : Nat) : ((Nat.pow 10 k : Nat) : ℚ) = 10 ^ (k : Int) := by
  show ((10 ^ k : Nat) : ℚ) = 10 ^ (k : Int)
  rw [Nat.cast_pow, zpow_natCast]
  rfl

/-- Digits scaled into the rounding interval of a double give that double. -/
theorem scaleDecimal_of_near (hb : b.Canonical) (hpos : 0 < b.mantissa) {value count : Nat} {e : Int}
    (hcount : value < 10 ^ count) (h : b.Near (value * 10 ^ e)) :
    NumberReader.scaleDecimal b.negative value count e = toDouble b := by
  have hlow := ten_pow_lt hpos hb.least h.half_le
  have hhigh := lt_ten_pow hb.mantissa hb.greatest h.high
  have hvalue : value ≠ 0 := by
    rintro rfl
    rw [Nat.cast_zero, zero_mul] at hlow
    exact absurd hlow (zpow_pos (by norm_num) _).le.not_gt
  have hunit : (0 : ℚ) < 10 ^ e := zpow_pos (by norm_num) _
  have hnotLarge : ¬ 400 < e := by
    intro he
    have hone : (1 : ℚ) ≤ value := by exact_mod_cast Nat.pos_of_ne_zero hvalue
    have hmono : (10 : ℚ) ^ (400 : Int) ≤ 10 ^ e := zpow_le_zpow_right₀ (by norm_num) he.le
    have hscale : (10 : ℚ) ^ e ≤ value * 10 ^ e := le_mul_of_one_le_left hunit.le hone
    linarith
  have hnotSmall : ¬ e + count < -400 := by
    intro he
    have hmono : (10 : ℚ) ^ (count + e : Int) ≤ 10 ^ (-400 : Int) := zpow_le_zpow_right₀ (by norm_num) (by omega)
    rw [zpow_add₀ (by norm_num), zpow_natCast] at hmono
    have hcast : (value : ℚ) ≤ 10 ^ count := by exact_mod_cast hcount.le
    have hscale := mul_le_mul_of_nonneg_right hcast hunit.le
    linarith
  rw [NumberReader.scaleDecimal, if_neg hvalue, if_neg hnotLarge, if_neg hnotSmall]
  split
  · next he =>
    refine toFloat_eq hb hpos Nat.one_pos ?_
    rw [Nat.cast_one, div_one, Nat.cast_mul, natCast_ten_pow, Int.toNat_of_nonneg he]
    exact h
  · next he =>
    refine toFloat_eq hb hpos (Nat.pow_pos (by decide)) ?_
    rw [natCast_ten_pow, Int.toNat_of_nonneg (by omega), zpow_neg, div_inv_eq_mul]
    exact h

end Binary

namespace Numeral

open Binary

variable {n : Numeral}

/-- The number that a numeral stands for, without its sign. -/
def magnitude (n : Numeral) : ℚ := decimalsFrom 0 (n.whole ++ n.fraction) * 10 ^ (n.power - n.fraction.length)

theorem digits_lt (h : n.WellFormed) : decimalsFrom 0 (n.whole ++ n.fraction) < 10 ^ n.body.length := by
  have hlt := decimalsFrom_lt (forall_mem_append.mpr ⟨h.whole, h.fraction⟩)
  have hlen : (n.whole ++ n.fraction).length ≤ n.body.length := by
    unfold body fractionText
    split <;> simp_all
    omega
  exact hlt.trans_le (Nat.pow_le_pow_right (by decide) hlen)

/-- A numeral in the rounding interval of a double is read as that double. -/
theorem readFloat_of_near (h : n.WellFormed) (hb : b.Canonical) (hpos : 0 < b.mantissa)
    (hsign : n.negative = b.negative) (hnear : b.Near n.magnitude) : readFloat n.text = .ok (toDouble b) := by
  rw [readFloat_text h, hsign, scaleDecimal_of_near hb hpos (digits_lt h) hnear, ranged_toDouble hb]

/-- A numeral of zeros is read as a zero of its sign. -/
theorem readFloat_of_zero (h : n.WellFormed) (hzero : decimalsFrom 0 (n.whole ++ n.fraction) = 0) :
    readFloat n.text = .ok (toDouble ⟨n.negative, 0, -1074⟩) := by
  rw [readFloat_text h, hzero, NumberReader.scaleDecimal, if_pos rfl, toFloat_zero,
    ranged_toDouble (canonical_zero _)]

/-! ### Integers -/

def ofInt (i : Int) : Numeral := ⟨i < 0, (Text.ofNat i.natAbs).bytes, [], none⟩

theorem ofInt_text (i : Int) : (ofInt i).text = Text.ofInt i := by
  have hunsigned : (ofInt i).body = (Text.ofNat i.natAbs).bytes := by
    simp [ofInt, body, fractionText, exponentText]
  rw [text, hunsigned]
  cases i with
  | ofNat k => rfl
  | negSucc k =>
    have hstring : toString (Int.negSucc k) = "-" ++ toString (k + 1) := rfl
    show _ = Text.ofString (toString (Int.negSucc k))
    have hminus : "-".toByteArray.data.toList = [45] := by cbv
    rw [hstring, Text.ofString, String.toByteArray_append]
    simp [ofInt, Text.ofNat, Text.ofString, hminus]

theorem wellFormed_ofInt (i : Int) : (ofInt i).WellFormed := by
  obtain ⟨hdecimals, -, b, r, hbytes, hne, hr⟩ := Text.decimals_ofNat i.natAbs
  refine ⟨hdecimals, ⟨b, r, hbytes, fun hb => hr ?_⟩, by simp [Decimals, ofInt], by simp [ofInt]⟩
  by_contra hlarge
  exact hne (by omega) hb

end Numeral

/-- The text of an integer of up to fifty-three bits is read as the double of that integer. -/
theorem readFloat_ofInt {i : Int} (h : i.natAbs ≤ 2 ^ 53) : readFloat (Text.ofInt i) = .ok (Float64.ofInt i) := by
  have hdigits : decimalsFrom 0 ((Numeral.ofInt i).whole ++ (Numeral.ofInt i).fraction) = i.natAbs := by
    rw [Numeral.ofInt, append_nil]
    exact (Text.decimals_ofNat i.natAbs).2.1
  rw [← Numeral.ofInt_text, Float64.ofInt]
  by_cases hzero : i.natAbs = 0
  · rw [Numeral.readFloat_of_zero (Numeral.wellFormed_ofInt i) (hdigits.trans hzero), hzero, Binary.toFloat_zero]
    rfl
  · obtain ⟨b, hcanonical, hsign, hmantissa, hvalue, -⟩ :=
      Binary.exists_canonical (Nat.pos_of_ne_zero hzero) h (i < 0)
    have hnear : b.Near i.natAbs := hvalue ▸ Binary.near_value b
    have hmagnitude : (Numeral.ofInt i).magnitude = i.natAbs := by
      rw [Numeral.magnitude, hdigits]
      simp [Numeral.ofInt, Numeral.power]
    rw [Numeral.readFloat_of_near (Numeral.wellFormed_ofInt i) hcanonical hmantissa hsign.symm (hmagnitude ▸ hnear),
      ← hsign, Binary.toFloat_eq hcanonical hmantissa Nat.one_pos (by simpa using hnear)]

end Dataflow
