import Dataflow.Proofs.Json.Values

/-!
# What readers accept

Whatever document is read, its texts and names are UTF-8, since stray bytes are replaced, and its numbers are
numbers of documents (`Json.accepted_read?`).

Rounding to a double gives a finite one or an infinity, and a text that would give an infinity is out of
range.  The words for infinities and for what is no number are no numbers of documents, so that a number of
a document is read as a finite double (`NumberReader.isFinite_of_isNumber`).
-/

namespace Dataflow

open List

variable {t : Text} {xs : List Json} {ms : List (Text × Json)} {fuel : Nat} {bs r : List UInt8}

/-! ### Numbers that are read are finite -/

namespace Binary

theorem isInf_ofBits (negative : Bool) :
    (Float.ofBits (signBit negative + 2047 * Nat.pow 2 52).toUInt64).isInf = true := by
  cases negative <;> rfl

theorem exists_capped (negative : Bool) (bits : Nat) :
    ∃ n ≤ 2047 * 2 ^ 52, (if 2047 * Nat.pow 2 52 ≤ bits
        then Float.ofBits (signBit negative + 2047 * Nat.pow 2 52).toUInt64
        else Float.ofBits (signBit negative + bits).toUInt64) =
      Float.ofBits (signBit negative + n).toUInt64 := by
  split
  · exact ⟨2047 * 2 ^ 52, Nat.le_refl _, rfl⟩
  · next hbits => exact ⟨bits, Nat.le_of_lt (Nat.lt_of_not_le hbits), rfl⟩

/-- What is rounded has the bits of an infinity, or bits below. -/
theorem exists_toFloat (negative : Bool) (num den : Nat) :
    ∃ n ≤ 2047 * 2 ^ 52, toFloat negative num den = Float.ofBits (signBit negative + n).toUInt64 := by
  unfold toFloat
  by_cases hnum : num = 0
  · rw [if_pos hnum]
    exact ⟨0, by decide, rfl⟩
  · rw [if_neg hnum]
    exact exists_capped negative _

/-- What is rounded is finite, unless it is an infinity. -/
theorem isInf_or_isFinite_toFloat (negative : Bool) (num den : Nat) :
    (toFloat negative num den).isInf = true ∨ (toFloat negative num den).isFinite = true := by
  obtain ⟨n, hn, heq⟩ := exists_toFloat negative num den
  rw [heq]
  rcases Nat.lt_or_eq_of_le hn with hn | rfl
  · exact .inr (isFinite_ofBits negative hn)
  · exact .inl (isInf_ofBits negative)

end Binary

namespace NumberReader

open Binary (isInf_or_isFinite_toFloat)

theorem isInf_or_isFinite_scaleBinary (negative : Bool) (value : Nat) (e : Int) :
    (scaleBinary negative value e).isInf = true ∨ (scaleBinary negative value e).isFinite = true := by
  unfold scaleBinary
  split
  · exact isInf_or_isFinite_toFloat ..
  · split <;> exact isInf_or_isFinite_toFloat ..

theorem isInf_or_isFinite_scaleDecimal (negative : Bool) (value count : Nat) (e : Int) :
    (scaleDecimal negative value count e).isInf = true ∨
      (scaleDecimal negative value count e).isFinite = true := by
  unfold scaleDecimal
  by_cases hzero : value = 0
  · rw [if_pos hzero]
    exact isInf_or_isFinite_toFloat ..
  rw [if_neg hzero]
  by_cases hlarge : 400 < e
  · rw [if_pos hlarge]
    refine .inl ?_
    cases negative <;> decide +kernel
  rw [if_neg hlarge]
  split
  · exact isInf_or_isFinite_toFloat ..
  · split <;> exact isInf_or_isFinite_toFloat ..

theorem isFinite_of_ranged {x y : Float} (h : ranged x = .ok y) (hx : x.isInf = true ∨ x.isFinite = true) :
    y.isFinite = true := by
  unfold ranged at h
  split at h
  · cases h
  · next hinf =>
    cases h
    exact hx.resolve_left hinf

/-- What is no word is read as a finite double. -/
theorem isFinite_of_readFloat {x : Float} (ht : special? t = none) (h : readFloat t = .ok x) :
    x.isFinite = true := by
  unfold readFloat at h
  rw [ht] at h
  dsimp only at h
  split at h
  · split at h
    · cases h
    · split at h
      · split at h
        · split at h
          · split at h
            · cases h
            · exact isFinite_of_ranged h (isInf_or_isFinite_scaleBinary ..)
          · cases h
        · cases h
      · cases h
  · split at h
    · cases h
    · split at h
      · split at h
        · exact isFinite_of_ranged h (isInf_or_isFinite_scaleDecimal ..)
        · cases h
      · split at h
        · split at h
          · split at h
            · exact isFinite_of_ranged h (isInf_or_isFinite_scaleDecimal ..)
            · cases h
          · cases h
        · cases h

theorem toLower_of_isNumberByte {b : UInt8} (h : Json.isNumberByte b = true) : Byte.toLower b ≠ 110 := by
  simp only [Json.isNumberByte, Bool.or_eq_true, beq_iff_eq] at h
  rcases h with ((((h | rfl) | rfl) | rfl) | rfl) | rfl
  · rw [Byte.toLower_of_isDigit h]
    exact Byte.ne_of_isDigit h (by decide)
  all_goals decide

/-- A number of a document is no word. -/
theorem special?_of_isNumber (h : Json.isNumber t = true) : special? t = none := by
  obtain ⟨hbytes, -⟩ := Json.exists_of_isNumber h
  refine special?_of_not_mem fun hmem => ?_
  have hword : ∀ w ∈ words, 110 ∈ w.bytes := by decide
  obtain ⟨b, hb, hlower⟩ := mem_map.mp (hword _ hmem)
  exact toLower_of_isNumberByte (hbytes b hb) hlower

theorem isFinite_of_isNumber (ht : Json.isNumber t = true) {x : Float} (h : readFloat t = .ok x) :
    x.isFinite = true := isFinite_of_readFloat (special?_of_isNumber ht) h

end NumberReader

/-! ### Documents that are read -/

namespace Json

mutual

/-- All texts and names in the document are UTF-8. -/
def Legible : Json → Prop
  | text t => t.Valid
  | array xs => LegibleAll xs
  | object ms => LegibleMembers ms
  | _ => True

def LegibleAll : List Json → Prop
  | [] => True
  | x :: xs => x.Legible ∧ LegibleAll xs

def LegibleMembers : List (Text × Json) → Prop
  | [] => True
  | (k, x) :: ms => k.Valid ∧ x.Legible ∧ LegibleMembers ms

end

theorem legibleAll_iff : LegibleAll xs ↔ ∀ x ∈ xs, x.Legible := by
  induction xs with
  | nil => simp [LegibleAll]
  | cons x xs ih => rw [LegibleAll, ih, forall_mem_cons]

theorem legibleMembers_iff : LegibleMembers ms ↔ ∀ e ∈ ms, e.1.Valid ∧ e.2.Legible := by
  induction ms with
  | nil => simp [LegibleMembers]
  | cons e ms ih =>
    obtain ⟨k, x⟩ := e
    rw [LegibleMembers, ih, forall_mem_cons, and_assoc]

/-- A document as readers give it. -/
structure Accepted (j : Json) : Prop where
  legible : j.Legible
  numeric : j.Numeric

theorem accepted_array : (array xs).Accepted ↔ ∀ x ∈ xs, x.Accepted := by
  constructor
  · rintro ⟨hlegible, hnumeric⟩ x hx
    exact ⟨legibleAll_iff.mp hlegible x hx, numericAll_iff.mp hnumeric x hx⟩
  · exact fun h => ⟨legibleAll_iff.mpr fun x hx => (h x hx).legible,
      numericAll_iff.mpr fun x hx => (h x hx).numeric⟩

theorem accepted_object : (object ms).Accepted ↔ ∀ e ∈ ms, e.1.Valid ∧ e.2.Accepted := by
  constructor
  · rintro ⟨hlegible, hnumeric⟩ e he
    obtain ⟨hkey, hvalue⟩ := legibleMembers_iff.mp hlegible e he
    exact ⟨hkey, hvalue, numericMembers_iff.mp hnumeric e he⟩
  · exact fun h => ⟨legibleMembers_iff.mpr fun e he => ⟨(h e he).1, (h e he).2.legible⟩,
      numericMembers_iff.mpr fun e he => (h e he).2.numeric⟩

theorem valid_sanitize (bs : List UInt8) : (sanitize bs).Valid := by
  have hshown : sanitize bs = Text.shown ⟨bs⟩ := (Text.shown_eq ⟨bs⟩).symm
  rw [hshown]
  exact Text.valid_shown _

/-- Whatever is read with some fuel is accepted. -/
structure Sound (fuel : Nat) : Prop where
  value : ∀ {bs j r}, readValue fuel bs = some (j, r) → j.Accepted
  elements : ∀ {bs xs r}, readElements fuel bs = some (xs, r) → ∀ x ∈ xs, x.Accepted
  members : ∀ {bs ms r}, readMembers fuel bs = some (ms, r) → ∀ e ∈ ms, e.1.Valid ∧ e.2.Accepted

theorem accepted_readValue (h : Sound fuel) {j : Json}
    (hread : readValue (fuel + 1) bs = some (j, r)) : j.Accepted := by
  rw [readValue] at hread
  split at hread
  · cases hread
  · obtain ⟨⟨t, r⟩, -, heq⟩ := Option.map_eq_some_iff.mp hread
    cases heq
    exact ⟨valid_sanitize t, trivial⟩
  · split at hread
    · cases hread
      exact accepted_array.mpr (forall_mem_nil _)
    · obtain ⟨⟨xs, r⟩, hxs, heq⟩ := Option.map_eq_some_iff.mp hread
      cases heq
      exact accepted_array.mpr (h.elements hxs)
  · split at hread
    · cases hread
      exact accepted_object.mpr (forall_mem_nil _)
    · obtain ⟨⟨ms, r⟩, hms, heq⟩ := Option.map_eq_some_iff.mp hread
      cases heq
      exact accepted_object.mpr (h.members hms)
  · next b s _ _ _ _ =>
    have hword {w : Text} {k : Json}
        (hw : (Text.afterBytes w.bytes (b :: s)).map (fun r => (k, r)) = some (j, r)) (hk : k.Accepted) :
        j.Accepted := by
      obtain ⟨r, -, heq⟩ := Option.map_eq_some_iff.mp hw
      cases heq
      exact hk
    dsimp only at hread
    split at hread
    · exact hword hread ⟨trivial, trivial⟩
    · split at hread
      · exact hword hread ⟨trivial, trivial⟩
      · split at hread
        · exact hword hread ⟨trivial, trivial⟩
        · split at hread
          · next hnumber =>
            cases hread
            exact ⟨trivial, hnumber⟩
          · cases hread

theorem accepted_readElements (h : Sound fuel)
    (hread : readElements (fuel + 1) bs = some (xs, r)) : ∀ x ∈ xs, x.Accepted := by
  rw [readElements] at hread
  split at hread
  · cases hread
  · next x s hx =>
    split at hread
    · cases hread
      exact forall_mem_singleton.mpr (h.value hx)
    · obtain ⟨⟨ys, r⟩, hys, heq⟩ := Option.map_eq_some_iff.mp hread
      cases heq
      exact forall_mem_cons.mpr ⟨h.value hx, h.elements hys⟩
    · cases hread

theorem accepted_readMembers (h : Sound fuel) (hread : readMembers (fuel + 1) bs = some (ms, r)) :
    ∀ e ∈ ms, e.1.Valid ∧ e.2.Accepted := by
  rw [readMembers] at hread
  split at hread
  · split at hread
    · cases hread
    · next key s _ =>
      split at hread
      · split at hread
        · cases hread
        · next x s hx =>
          have hfirst : (sanitize key).Valid ∧ x.Accepted := ⟨valid_sanitize key, h.value hx⟩
          split at hread
          · cases hread
            exact forall_mem_singleton.mpr hfirst
          · obtain ⟨⟨ns, r⟩, hns, heq⟩ := Option.map_eq_some_iff.mp hread
            cases heq
            exact forall_mem_cons.mpr ⟨hfirst, h.members hns⟩
          · cases hread
      · cases hread
  · cases hread

theorem sound (fuel : Nat) : Sound fuel := by
  induction fuel with
  | zero => exact ⟨nofun, nofun, nofun⟩
  | succ fuel ih => exact ⟨accepted_readValue ih, accepted_readElements ih, accepted_readMembers ih⟩

/-- **Readers accept legible documents.**  What is read is legible, has numbers of documents only, and is not
too deep. -/
theorem accepted_read? {j : Json} (h : read? t = some j) : j.Accepted ∧ j.depth ≤ maxDepth := by
  unfold read? at h
  split at h
  · next k r hread =>
    split at h
    · next hfits =>
      cases h
      rw [Bool.and_eq_true, decide_eq_true_eq] at hfits
      exact ⟨(sound _).value hread, hfits.2⟩
    · cases h
  · cases h

end Json

end Dataflow
