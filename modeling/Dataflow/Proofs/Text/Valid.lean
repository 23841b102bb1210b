import Dataflow.Proofs.Session.Identifier

/-!
# Texts as documents show them

A document shows a text with the replacement character in the place of each stray byte (`Text.shown`).  A
text is `Valid` if nothing is replaced.  Texts of ASCII bytes are valid (`valid_of_ascii`), and no other
text is shown as one of them (`eq_of_shown_eq`).

The bytes of a character are read as that character (`firstChar?_encode`), and so the pieces of a text that
is made of characters are these characters.  What is shown of a text is therefore valid (`valid_shown`).
-/

namespace Dataflow.Text

open List

variable {b : UInt8} {c : Char}

/-- The text with the replacement character for each stray byte. -/
def shown (t : Text) : Text := ofString t.display

/-- The text is shown as it is: all of it is UTF-8. -/
def Valid (t : Text) : Prop := t.shown = t

instance (t : Text) : Decidable t.Valid := inferInstanceAs (Decidable (t.shown = t))

def Ascii (t : Text) : Prop := ∀ b ∈ t.bytes, b.toNat < 128

-- by the bytes of the text, and not by going through all bytes there are
instance (t : Text) : Decidable t.Ascii := List.decidableBAll _ t.bytes

theorem bytes_shown (t : Text) :
    t.shown.bytes = (piecesAfter 0 t.bytes).flatMap fun p => String.utf8EncodeChar p.toChar := by
  rw [shown, display, ofString_ofList, ofChars, chars, pieces, flatMap_map]

/-! ### Encoded characters -/

theorem toNat_ofNat {n : Nat} (h : n.isValidChar) : (Char.ofNat n).toNat = n := by
  rw [Char.ofNat, dif_pos h]
  rfl

theorem utf8EncodeChar_ofNat (h : b.toNat < 128) :
    String.utf8EncodeChar (Char.ofNat b.toNat) = [b] := by
  have hc : (Char.ofNat b.toNat).toNat = b.toNat := toNat_ofNat (.inl (by omega))
  rw [utf8EncodeChar_of_le (by omega), hc, UInt8.ofNat_toNat]

/-- No byte of a character that is not ASCII is ASCII. -/
theorem le_of_mem_utf8EncodeChar (h : 128 ≤ c.toNat) :
    ∀ b ∈ String.utf8EncodeChar c, 128 ≤ b.toNat := by
  have hlarge : ¬ c.val.toNat ≤ 127 := Nat.not_le.mpr h
  unfold String.utf8EncodeChar
  simp only [if_neg hlarge]
  repeat' split
  all_goals
    simp only [forall_mem_cons, not_mem_nil, false_implies, implies_true, and_true,
      UInt8.toNat_ofNat']
    omega

theorem lt_of_utf8EncodeChar (h : ∀ b ∈ String.utf8EncodeChar c, b.toNat < 128) :
    c.toNat < 128 := by
  by_contra hc
  obtain ⟨b, hb⟩ := exists_mem_of_ne_nil _ (String.utf8EncodeChar_ne_nil (c := c))
  have hle := le_of_mem_utf8EncodeChar (Nat.le_of_not_lt hc) b hb
  exact absurd (h b hb) (Nat.not_lt.mpr hle)

/-- A character read from a byte that is not ASCII is not ASCII. -/
theorem le_of_firstChar? {r : List UInt8} {n : Nat}
    (h : firstChar? (b :: r) = some (c, n)) (hb : 128 ≤ b.toNat) : 128 ≤ c.toNat := by
  -- each branch rules out the short forms, the surrogates and what lies beyond the last character
  have hvalid {k : Nat} (hk : k < 0xD800 ∨ 0xDFFF < k ∧ k < 0x110000) (hle : 128 ≤ k) :
      128 ≤ (Char.ofNat k).toNat := by
    rw [toNat_ofNat hk]
    exact hle
  have hsize := b.toNat_lt
  unfold firstChar? at h
  simp only [UInt8.lt_iff_toNat_lt, isTail, Bool.and_eq_true, Bool.not_eq_true', decide_eq_true_eq,
    UInt8.le_iff_toNat_le, Bool.and_eq_false_iff, beq_eq_false_iff_ne, decide_eq_false_iff_not, ne_eq,
    ← UInt8.toNat_inj, UInt8.reduceToNat] at h
  split at h
  · next hlt => omega
  split at h
  · cases h
  iterate 3
    split at h
    · split at h
      · split at h
        · cases h
          exact hvalid (by omega) (by omega)
        · cases h
      · cases h
  cases h

/-! ### Texts of ASCII bytes -/

theorem piecesAfter_ascii (h : b.toNat < 128) (r : List UInt8) :
    piecesAfter 0 (b :: r) = .char (Char.ofNat b.toNat) :: piecesAfter 0 r := by
  have hlt : b < 0x80 := UInt8.lt_iff_toNat_lt.2 h
  simp only [piecesAfter, firstChar?, if_pos hlt, Nat.sub_self]

theorem valid_of_ascii {t : Text} (h : t.Ascii) : t.Valid := by
  have hread : ∀ bs : List UInt8, (∀ b ∈ bs, b.toNat < 128) →
      (piecesAfter 0 bs).flatMap (fun p => String.utf8EncodeChar p.toChar) = bs := by
    intro bs
    induction bs with
    | nil => exact fun _ => rfl
    | cons b r ih =>
      intro hbs
      obtain ⟨hb, hr⟩ := forall_mem_cons.1 hbs
      rw [piecesAfter_ascii hb, flatMap_cons, Piece.toChar, utf8EncodeChar_ofNat hb, ih hr]
      rfl
  have hbytes : t.shown.bytes = t.bytes := (bytes_shown t).trans (hread _ h)
  exact congrArg Text.mk hbytes

/-- A text that starts with a byte that is not ASCII is shown with a character that is not. -/
theorem exists_piecesAfter (h : 128 ≤ b.toNat) (r : List UInt8) :
    ∃ p ps, piecesAfter 0 (b :: r) = p :: ps ∧ 128 ≤ p.toChar.toNat := by
  rw [piecesAfter]
  split
  · next c n hc => exact ⟨_, _, rfl, le_of_firstChar? hc h⟩
  · exact ⟨_, _, rfl, show 128 ≤ '�'.toNat by decide⟩

theorem eq_of_shown_eq {t u : Text} (h : t.shown = u) (hu : u.Ascii) : t = u := by
  have hread : ∀ bs : List UInt8,
      (∀ b ∈ (piecesAfter 0 bs).flatMap (fun p => String.utf8EncodeChar p.toChar), b.toNat < 128) →
        ∀ b ∈ bs, b.toNat < 128 := by
    intro bs
    induction bs with
    | nil => simp
    | cons b r ih =>
      intro hbs
      have hb : b.toNat < 128 := by
        by_contra hb
        obtain ⟨p, ps, hp, hle⟩ := exists_piecesAfter (by omega : 128 ≤ b.toNat) r
        rw [hp, flatMap_cons] at hbs
        have := lt_of_utf8EncodeChar fun x hx => hbs x (mem_append_left _ hx)
        omega
      rw [piecesAfter_ascii hb, flatMap_cons] at hbs
      exact forall_mem_cons.2 ⟨hb, ih fun x hx => hbs x (mem_append_right _ hx)⟩
  subst h
  have ht : t.Ascii := hread t.bytes (bytes_shown t ▸ hu)
  exact (valid_of_ascii ht).symm

/-! ### Bytes that are read as characters -/

theorem isTail_iff : isTail b = true ↔ 128 ≤ b.toNat ∧ b.toNat ≤ 191 := by
  simp [isTail, UInt8.le_iff_toNat_le]

theorem toNat_ofNat_of_lt {n : Nat} (h : n < 256) : (UInt8.ofNat n).toNat = n := by
  rw [UInt8.toNat_ofNat', Nat.mod_eq_of_lt h]

/-! ### Sequences of two, three and four bytes -/

theorem firstChar?_two {a : UInt8} (ha : 194 ≤ a.toNat ∧ a.toNat < 224) (hb : isTail b) (r : List UInt8) :
    firstChar? (a :: b :: r) = some (Char.ofNat ((a.toNat - 192) * 64 + b.toNat % 64), 2) := by
  simp (disch := omega) only [firstChar?, UInt8.lt_iff_toNat_lt, UInt8.reduceToNat, if_neg, if_pos, hb,
    if_true]

theorem firstChar?_three {a c : UInt8} (ha : 224 ≤ a.toNat ∧ a.toNat < 240) (hb : isTail b) (hc : isTail c)
    (hlow : a.toNat = 224 → 160 ≤ b.toNat) (hhigh : a.toNat = 237 → b.toNat < 160) (r : List UInt8) :
    firstChar? (a :: b :: c :: r) =
      some (Char.ofNat ((a.toNat - 224) * 4096 + b.toNat % 64 * 64 + c.toNat % 64), 3) := by
  simp (disch := omega) only [firstChar?, UInt8.lt_iff_toNat_lt, UInt8.reduceToNat, if_neg, if_pos]
  refine if_pos ?_
  simp only [hb, hc, Bool.and_true, Bool.true_and, Bool.and_eq_true, Bool.not_eq_true', Bool.and_eq_false_iff,
    beq_eq_false_iff_ne, decide_eq_false_iff_not, ne_eq, ← UInt8.toNat_inj, UInt8.le_iff_toNat_le,
    UInt8.reduceToNat]
  omega

theorem firstChar?_four {a c d : UInt8} (ha : 240 ≤ a.toNat ∧ a.toNat < 245) (hb : isTail b) (hc : isTail c)
    (hd : isTail d) (hlow : a.toNat = 240 → 144 ≤ b.toNat) (hhigh : a.toNat = 244 → b.toNat < 144)
    (r : List UInt8) : firstChar? (a :: b :: c :: d :: r) =
      some (Char.ofNat ((a.toNat - 240) * 262144 + b.toNat % 64 * 4096 + c.toNat % 64 * 64 + d.toNat % 64), 4) := by
  simp (disch := omega) only [firstChar?, UInt8.lt_iff_toNat_lt, UInt8.reduceToNat, if_neg, if_pos]
  refine if_pos ?_
  simp only [hb, hc, hd, Bool.and_true, Bool.true_and, Bool.and_eq_true, Bool.not_eq_true',
    Bool.and_eq_false_iff, beq_eq_false_iff_ne, decide_eq_false_iff_not, ne_eq, ← UInt8.toNat_inj,
    UInt8.le_iff_toNat_le, UInt8.reduceToNat]
  omega

/-! ### Characters -/

/-- The bytes of a character are read as that character. -/
theorem firstChar?_encode (c : Char) (r : List UInt8) :
    firstChar? (String.utf8EncodeChar c ++ r) = some (c, (String.utf8EncodeChar c).length) := by
  have hv : c.toNat < 0xD800 ∨ 0xDFFF < c.toNat ∧ c.toNat < 0x110000 := c.valid
  have hc : Char.ofNat c.toNat = c := Char.ofNat_toNat c
  have htail {n : Nat} (h : n < 64) :
      (UInt8.ofNat (n + 128)).toNat = n + 128 ∧ isTail (UInt8.ofNat (n + 128)) := by
    have hn := toNat_ofNat_of_lt (by omega : n + 128 < 256)
    exact ⟨hn, isTail_iff.mpr (by omega)⟩
  have htoNat : c.val.toNat = c.toNat := rfl
  unfold String.utf8EncodeChar
  simp only [htoNat]
  generalize c.toNat = n at hv hc ⊢
  obtain ⟨h0, ht0⟩ := htail (by omega : n % 64 < 64)
  obtain ⟨h1, ht1⟩ := htail (by omega : n / 64 % 64 < 64)
  obtain ⟨h2, ht2⟩ := htail (by omega : n / 4096 % 64 < 64)
  split
  · next h =>
    have hn := toNat_ofNat_of_lt (by omega : n < 256)
    have hlt : UInt8.ofNat n < 0x80 := by
      simp only [UInt8.lt_iff_toNat_lt, hn, UInt8.reduceToNat]
      omega
    simp only [singleton_append, firstChar?, if_pos hlt, hn, hc, length_singleton]
  split
  · next h =>
    have ha := toNat_ofNat_of_lt (by omega : n / 64 % 32 + 192 < 256)
    refine (firstChar?_two (by omega) ht0 r).trans ?_
    rw [ha, h0, ← hc]
    congr 3
    omega
  split
  · next h =>
    have ha := toNat_ofNat_of_lt (by omega : n / 4096 % 16 + 224 < 256)
    refine (firstChar?_three (by omega) ht1 ht0 (by omega) (by omega) r).trans ?_
    rw [ha, h0, h1, ← hc]
    congr 3
    omega
  · next h =>
    have ha := toNat_ofNat_of_lt (by omega : n / 262144 % 8 + 240 < 256)
    refine (firstChar?_four (by omega) ht2 ht1 ht0 (by omega) (by omega) r).trans ?_
    rw [ha, h0, h1, h2, ← hc]
    congr 3
    omega

theorem piecesAfter_append (bs r : List UInt8) : piecesAfter bs.length (bs ++ r) = piecesAfter 0 r := by
  induction bs with
  | nil => rfl
  | cons b bs ih => exact ih

theorem piecesAfter_encode (c : Char) (r : List UInt8) :
    piecesAfter 0 (String.utf8EncodeChar c ++ r) = .char c :: piecesAfter 0 r := by
  have hfirst := firstChar?_encode c r
  cases hbs : String.utf8EncodeChar c with
  | nil => exact absurd hbs String.utf8EncodeChar_ne_nil
  | cons b bs =>
    rw [hbs, cons_append] at hfirst
    rw [cons_append, piecesAfter, hfirst]
    exact congrArg _ (piecesAfter_append bs r)

theorem pieces_ofChars (cs : List Char) : (ofChars cs).pieces = cs.map .char := by
  unfold pieces ofChars
  induction cs with
  | nil => rfl
  | cons c cs ih => rw [flatMap_cons, piecesAfter_encode, ih, map_cons]

theorem shown_eq (t : Text) : t.shown = ofChars t.chars := by rw [shown, display, ofString_ofList]

theorem valid_shown (t : Text) : t.shown.Valid := by
  rw [Valid, shown_eq, shown_eq, chars, pieces_ofChars, map_map]
  exact congrArg ofChars (map_id'' (fun _ => rfl) _)

end Dataflow.Text
