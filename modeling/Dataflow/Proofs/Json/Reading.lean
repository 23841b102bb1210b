import Dataflow.Json.Reader
import Dataflow.Proofs.Text.Valid
import Mathlib.Data.List.TakeWhile

/-!
# Documents read back from their text

A document is read back from what is written of it, with the replacement character in the place of each
stray byte (`Json.read?_write`).  Its numbers have to be numbers of documents, and it may not be too deep.
Each piece of a text is read in at most as many steps as it has bytes, and what is written last decides how
a number ends, so the statements are about a document with anything that can follow it.
-/

namespace Dataflow.Json

open List

variable {b : UInt8} {bs : List UInt8}

/-! ### Texts -/

/-- The byte stands for itself inside a text. -/
def IsPlain (b : UInt8) : Prop := 32 ≤ b.toNat ∧ b ≠ 34 ∧ b ≠ 92

theorem readText_plain (h : ∀ b ∈ bs, IsPlain b) (fuel : Nat) (acc r : List UInt8) :
    readText (fuel + bs.length) acc (bs ++ r) = readText fuel (bs.reverse ++ acc) r := by
  induction bs generalizing acc with
  | nil => rfl
  | cons b bs ih =>
    obtain ⟨⟨hle, hquote, hslash⟩, hbs⟩ := forall_mem_cons.mp h
    have hlt : ¬ b < 32 := by
      simp only [UInt8.lt_iff_toNat_lt, UInt8.reduceToNat]
      omega
    rw [length_cons, ← Nat.add_assoc, cons_append, readText]
    · rw [if_neg hlt, ih hbs, reverse_cons, append_assoc]
      rfl
    · exact hquote
    · exact fun _ h _ => hslash h
    · exact fun _ _ h _ => hslash h

theorem hex4?_append {n : Nat} (h : hex4? bs = some (n, [])) (r : List UInt8) :
    hex4? (bs ++ r) = some (n, r) := by
  match bs, h with
  | a :: b :: c :: d :: s, h =>
    simp only [hex4?, Option.bind_eq_bind, Option.bind_eq_some_iff, Option.pure_def, Option.some.injEq,
      Prod.mk.injEq] at h
    obtain ⟨a', ha, b', hb, c', hc, d', hd, rfl, rfl⟩ := h
    simp only [cons_append, nil_append, hex4?, ha, hb, hc, hd]
    rfl

/-- The characters that are written by their number. -/
def numbered : List Nat := List.range 32 ++ [0x2028, 0x2029, 0x3c, 0x3e, 0x26]

theorem numbered_of_low {n : Nat} (h : (n < 32 ∨ n = 0x2028) ∨ n = 0x2029) : n ∈ numbered := by
  rcases h with (h | rfl) | rfl
  · exact mem_append_left _ (mem_range.mpr h)
  all_goals decide

theorem numbered_of_markup {c : Char} (h : (c = '<' ∨ c = '>') ∨ c = '&') : c.toNat ∈ numbered := by
  rcases h with (rfl | rfl) | rfl
  all_goals decide

theorem hex4?_numbered : ∀ n ∈ numbered, hex4? (Text.ofHex 4 n).bytes = some (n, []) ∧ n < 0xD800 := by decide

/-- One step of the reader passes what is written of the piece. -/
def PassedIn (k : Nat) (e cs : List UInt8) : Prop :=
  ∀ fuel acc r, readText (fuel + k) acc (e ++ r) = readText fuel (cs.reverse ++ acc) r

theorem passedIn_letter {c : UInt8} (hb : b ≠ 117) (h : letterEscape? b = some c) : PassedIn 1 [92, b] [c] := by
  intro fuel acc r
  show readText (fuel + 1) acc (92 :: b :: r) = _
  rw [readText]
  · rw [h]
    rfl
  · exact hb

theorem passedIn_numbered {c : Char} (h : c.toNat ∈ numbered) :
    PassedIn 1 (Text.ofString "\\u" ++ Text.ofHex 4 c.toNat).bytes (String.utf8EncodeChar c) := by
  intro fuel acc r
  obtain ⟨hhex, hlt⟩ := hex4?_numbered _ h
  have hescape : unicodeEscape? ((Text.ofHex 4 c.toNat).bytes ++ r) = some (String.utf8EncodeChar c, r) := by
    rw [unicodeEscape?, hex4?_append hhex]
    simp only [Option.bind_eq_bind, Option.bind_some]
    rw [if_neg (by omega), if_neg (by omega), Char.ofNat_toNat]
    rfl
  have hmark : (Text.ofString "\\u").bytes = [92, 117] := rfl
  rw [Text.bytes_append, hmark, append_assoc]
  show readText (fuel + 1) acc (92 :: 117 :: ((Text.ofHex 4 c.toNat).bytes ++ r)) = _
  rw [readText, hescape]

theorem isPlain_encode {c : Char} (h : 32 ≤ c.toNat) (hquote : c ≠ '"') (hslash : c ≠ '\\') :
    ∀ b ∈ String.utf8EncodeChar c, IsPlain b := by
  by_cases hascii : c.toNat ≤ 127
  · have hn := Text.toNat_ofNat_of_lt (by omega : c.toNat < 256)
    have hne {d : Char} (hd : d.toNat < 256) (hcd : c ≠ d) : UInt8.ofNat c.toNat ≠ UInt8.ofNat d.toNat := by
      intro heq
      have hnat := congrArg UInt8.toNat heq
      rw [hn, Text.toNat_ofNat_of_lt hd] at hnat
      exact hcd (Char.toNat_inj.mp hnat)
    rw [Text.utf8EncodeChar_of_le hascii, forall_mem_singleton]
    exact ⟨by rwa [hn], hne (by decide) hquote, hne (by decide) hslash⟩
  · intro b hb
    have hle := Text.le_of_mem_utf8EncodeChar (by omega) b hb
    refine ⟨by omega, ?_, ?_⟩ <;> rintro rfl
    all_goals exact absurd hle (by decide)

/-- What is written of a piece is read as its character, in at most as many steps as it has bytes. -/
theorem exists_passedIn (markup : Bool) (p : Piece) : ∃ k ≤ (escapePiece markup p).length,
      PassedIn k (escapePiece markup p).bytes (String.utf8EncodeChar p.toChar) := by
  have hplain {bs : List UInt8} (h : ∀ b ∈ bs, IsPlain b) : PassedIn bs.length bs bs := fun fuel acc r =>
    readText_plain h fuel acc r
  cases p with
  | stray b =>
    exact ⟨_, Nat.le_refl _, hplain (isPlain_encode (c := '�') (by decide) (by decide) (by decide))⟩
  | char c =>
    have hletter {n : Nat} (hn : n < 128) (hc : c.toNat = n) {b : UInt8} (hb : b ≠ 117)
        (h : letterEscape? b = some (UInt8.ofNat n)) :
        ∃ k ≤ 2, PassedIn k [92, b] (String.utf8EncodeChar c) := by
      rw [Text.utf8EncodeChar_of_le (by omega), hc]
      exact ⟨1, by decide, passedIn_letter hb h⟩
    have hnumbered (h : c.toNat ∈ numbered) : ∃ k ≤ (Text.ofString "\\u" ++ Text.ofHex 4 c.toNat).length,
        PassedIn k (Text.ofString "\\u" ++ Text.ofHex 4 c.toNat).bytes (String.utf8EncodeChar c) := by
      refine ⟨1, ?_, passedIn_numbered h⟩
      show 1 ≤ ((Text.ofString "\\u").bytes ++ _).length
      rw [length_append]
      exact Nat.le_add_right_of_le (by decide)
    simp only [escapePiece, beq_iff_eq, Bool.or_eq_true, Bool.and_eq_true, decide_eq_true_eq]
    split
    · next h => exact hletter (n := 34) (by decide) (h ▸ rfl) (by decide) rfl
    split
    · next h => exact hletter (n := 92) (by decide) (h ▸ rfl) (by decide) rfl
    split
    · next h => exact hletter (n := 8) (by decide) h (by decide) rfl
    split
    · next h => exact hletter (n := 12) (by decide) h (by decide) rfl
    split
    · next h => exact hletter (n := 10) (by decide) h (by decide) rfl
    split
    · next h => exact hletter (n := 13) (by decide) h (by decide) rfl
    split
    · next h => exact hletter (n := 9) (by decide) h (by decide) rfl
    split
    · next h => exact hnumbered (numbered_of_low h)
    split
    · next h => exact hnumbered (numbered_of_markup h.2)
    · next hquote hslash _ _ _ _ _ hlow _ =>
      exact ⟨_, Nat.le_refl _, hplain (isPlain_encode (by omega) hquote hslash)⟩

theorem bytes_between {a b : Text} {x y : UInt8} (ha : a.bytes = [x]) (hb : b.bytes = [y]) (t : Text)
    (r : List UInt8) : (a ++ t ++ b).bytes ++ r = x :: (t.bytes ++ y :: r) := by
  rw [Text.bytes_append, Text.bytes_append, ha, hb, append_assoc, append_assoc]
  rfl

theorem readText_quote (markup : Bool) (t : Text) (r : List UInt8) :
    ∃ bs, (quote markup t).bytes ++ r = 34 :: bs ∧
      readText (bs.length + 1) [] bs = some (t.shown.bytes, r) := by
  have hpieces : ∀ (ps : List Piece) (fuel : Nat) (acc : List UInt8),
      (Text.concat (ps.map (escapePiece markup))).length < fuel →
      readText fuel acc ((Text.concat (ps.map (escapePiece markup))).bytes ++ 34 :: r) =
        some (acc.reverse ++ ps.flatMap fun p => String.utf8EncodeChar p.toChar, r) := by
    intro ps
    induction ps with
    | nil =>
      intro fuel acc hfuel
      rcases fuel with _ | fuel
      · cases hfuel
      show some (acc.reverse, r) = _
      rw [flatMap_nil, append_nil]
    | cons p ps ih =>
      intro fuel acc hfuel
      obtain ⟨k, hk, hpassed⟩ := exists_passedIn markup p
      have hbytes : (Text.concat ((p :: ps).map (escapePiece markup))).bytes =
          (escapePiece markup p).bytes ++ (Text.concat (ps.map (escapePiece markup))).bytes := rfl
      rw [Text.length, hbytes, length_append] at hfuel
      rw [Text.length] at hk
      obtain ⟨fuel, rfl⟩ := Nat.exists_eq_add_of_le' (by omega : k ≤ fuel)
      rw [hbytes, append_assoc, hpassed, ih fuel _ (by rw [Text.length]; omega), reverse_append,
        reverse_reverse, flatMap_cons, append_assoc]
  refine ⟨_, bytes_between (y := 34) rfl rfl _ r, ?_⟩
  rw [hpieces t.pieces _ [] (by rw [Text.length, length_append, length_cons]; omega), Text.bytes_shown]
  rfl

theorem sanitize_shown (t : Text) : sanitize t.shown.bytes = t.shown := by
  have hshown := t.valid_shown
  rwa [Text.Valid, Text.shown_eq] at hshown

/-! ### Numbers -/

def NumberBytes (bs : List UInt8) : Prop := ∀ b ∈ bs, isNumberByte b = true

namespace NumberBytes

theorem of_isDigit (h : Byte.isDigit b = true) : isNumberByte b = true := by simp [isNumberByte, h]

theorem nil : NumberBytes [] := forall_mem_nil _

theorem cons (hb : isNumberByte b = true) (h : NumberBytes bs) : NumberBytes (b :: bs) :=
  forall_mem_cons.mpr ⟨hb, h⟩

theorem of_dropWhile (h : NumberBytes (bs.dropWhile Byte.isDigit)) : NumberBytes bs := by
  rw [← takeWhile_append_dropWhile (p := Byte.isDigit) (l := bs)]
  exact forall_mem_append.mpr ⟨fun b hb => of_isDigit (mem_takeWhile_imp hb), h⟩

end NumberBytes

def afterMinus : List UInt8 → List UInt8
  | 45 :: r => r
  | r => r

def afterSign : List UInt8 → List UInt8
  | 43 :: r => r
  | 45 :: r => r
  | r => r

/-- Whether the digits are some, and have no zero before others. -/
def isWhole : List UInt8 → Bool
  | [] => false
  | [_] => true
  | d :: _ => d != byte '0'

/-- Whether a fraction has digits, and what follows it. -/
def fraction : List UInt8 → Bool × List UInt8
  | 46 :: r => (!(r.takeWhile Byte.isDigit).isEmpty, r.dropWhile Byte.isDigit)
  | r => (true, r)

/-- Whether the bytes are an exponent, or nothing. -/
def isExponent : List UInt8 → Bool
  | [] => true
  | e :: r => (e == byte 'e' || e == byte 'E') && !((afterSign r).takeWhile Byte.isDigit).isEmpty &&
      ((afterSign r).dropWhile Byte.isDigit).isEmpty

theorem numberBytes_of_isExponent (h : isExponent bs = true) : NumberBytes bs := by
  cases bs with
  | nil => exact .nil
  | cons e r =>
    simp only [isExponent, Bool.and_eq_true, Bool.or_eq_true, beq_iff_eq, List.isEmpty_iff] at h
    obtain ⟨⟨he, -⟩, hrest⟩ := h
    have hsigned : NumberBytes (afterSign r) := .of_dropWhile (hrest ▸ .nil)
    refine .cons (by rcases he with rfl | rfl <;> decide) ?_
    unfold afterSign at hsigned
    split at hsigned
    · exact .cons (by decide) hsigned
    · exact .cons (by decide) hsigned
    · exact hsigned

theorem NumberBytes.of_fraction (h : NumberBytes (fraction bs).2) : NumberBytes bs := by
  unfold fraction at h
  split at h
  · exact .cons (by decide) (.of_dropWhile h)
  · exact h

/-- A number starts with a digit or a minus sign, and has nothing in it but what can stand in a number. -/
theorem exists_of_isNumber {t : Text} (h : isNumber t = true) :
    NumberBytes t.bytes ∧ ∃ b r, t.bytes = b :: r ∧ 45 ≤ b.toNat ∧ b.toNat ≤ 57 := by
  simp only [isNumber, Bool.and_eq_true] at h
  obtain ⟨⟨hwhole, -⟩, hexponent⟩ := h
  have hbytes : NumberBytes (afterMinus t.bytes) :=
    .of_dropWhile (.of_fraction (numberBytes_of_isExponent hexponent))
  have hfirst : ∃ b r, afterMinus t.bytes = b :: r ∧ Byte.isDigit b = true := by
    replace hwhole : isWhole ((afterMinus t.bytes).takeWhile Byte.isDigit) = true := hwhole
    cases hs : afterMinus t.bytes with
    | nil =>
      rw [hs] at hwhole
      cases hwhole
    | cons b r =>
      refine ⟨b, r, rfl, ?_⟩
      by_contra hb
      rw [hs, takeWhile_cons_of_neg hb] at hwhole
      cases hwhole
  obtain ⟨b, r, hs, hb⟩ := hfirst
  have hcases : t.bytes = 45 :: afterMinus t.bytes ∨ t.bytes = afterMinus t.bytes := by
    unfold afterMinus
    split
    · next h => exact .inl h
    · exact .inr rfl
  rcases hcases with heq | heq
  · rw [heq]
    exact ⟨.cons (by decide) hbytes, 45, _, rfl, by decide⟩
  · rw [heq]
    simp only [Byte.isDigit, Bool.and_eq_true, decide_eq_true_eq, UInt8.le_iff_toNat_le] at hb
    exact ⟨hbytes, b, r, hs, Nat.le_trans (by decide) hb.1, hb.2⟩

/-! ### Documents -/

mutual

def Numeric : Json → Prop
  | number t => isNumber t = true
  | array xs => NumericAll xs
  | object ms => NumericMembers ms
  | _ => True

def NumericAll : List Json → Prop
  | [] => True
  | x :: xs => x.Numeric ∧ NumericAll xs

def NumericMembers : List (Text × Json) → Prop
  | [] => True
  | (_, x) :: ms => x.Numeric ∧ NumericMembers ms

end

theorem skipSpace_cons (h : isSpace b = false) (r : List UInt8) : skipSpace (b :: r) = b :: r := by
  rw [skipSpace, dropWhile_cons_of_neg (by simp [h])]

/-- The first byte of a number starts nothing else and is no white space. -/
theorem ne_of_number {c : UInt8} (h : 45 ≤ b.toNat ∧ b.toNat ≤ 57) (hc : c.toNat < 45 ∨ 57 < c.toNat) :
    b ≠ c := by
  rintro rfl
  omega

theorem isSpace_of_number (h : 45 ≤ b.toNat ∧ b.toNat ≤ 57) : isSpace b = false := by
  simp only [isSpace, Bool.or_eq_false_iff, beq_eq_false_iff_ne]
  exact ⟨⟨⟨ne_of_number h (by decide), ne_of_number h (by decide)⟩, ne_of_number h (by decide)⟩,
    ne_of_number h (by decide)⟩

/-- What is written starts with a byte that is no white space and closes nothing. -/
theorem exists_bytes_write (markup : Bool) {j : Json} (h : j.Numeric) :
    ∃ b r, (write markup j).bytes = b :: r ∧ isSpace b = false ∧ b ≠ 93 ∧ b ≠ 125 := by
  cases j with
  | null => exact ⟨110, _, rfl, by decide⟩
  | bool b =>
    cases b with
    | false => exact ⟨102, _, rfl, by decide⟩
    | true => exact ⟨116, _, rfl, by decide⟩
  | number t =>
    obtain ⟨-, b, r, hbytes, hb⟩ := exists_of_isNumber h
    exact ⟨b, r, hbytes, isSpace_of_number hb, ne_of_number hb (by decide), ne_of_number hb (by decide)⟩
  | text t => exact ⟨34, _, rfl, by decide⟩
  | array xs => exact ⟨91, _, rfl, by decide⟩
  | object ms => exact ⟨123, _, rfl, by decide⟩

theorem readValue_number {t : Text} (h : isNumber t = true) {r : List UInt8}
    (hr : ∀ b ∈ r.head?, isNumberByte b = false) (fuel : Nat) :
    readValue (fuel + 1) (t.bytes ++ r) = some (number t, r) := by
  obtain ⟨hbytes, b, s, ht, hb⟩ := exists_of_isNumber h
  have htake : (t.bytes ++ r).takeWhile isNumberByte = t.bytes ∧ (t.bytes ++ r).dropWhile isNumberByte = r := by
    rw [takeWhile_append_of_pos hbytes, dropWhile_append_of_pos hbytes]
    cases r with
    | nil => simp
    | cons c r =>
      have hc := hr c rfl
      rw [takeWhile_cons_of_neg (by simp [hc]), dropWhile_cons_of_neg (by simp [hc]), append_nil]
      exact ⟨rfl, rfl⟩
  rw [ht, cons_append] at htake ⊢
  have hword {c : UInt8} (hc : c.toNat < 45 ∨ 57 < c.toNat) : b ≠ c := ne_of_number hb hc
  rw [readValue, skipSpace_cons (isSpace_of_number hb)]
  split
  · next heq => cases heq
  · next heq => exact absurd (List.cons.inj heq).1 (hword (by decide))
  · next heq => exact absurd (List.cons.inj heq).1 (hword (by decide))
  · next heq => exact absurd (List.cons.inj heq).1 (hword (by decide))
  · next heq =>
    obtain ⟨rfl, rfl⟩ := List.cons.inj heq
    simp only [if_neg (hword (by decide : (byte 't').toNat < 45 ∨ 57 < (byte 't').toNat)),
      if_neg (hword (by decide : (byte 'f').toNat < 45 ∨ 57 < (byte 'f').toNat)),
      if_neg (hword (by decide : (byte 'n').toNat < 45 ∨ 57 < (byte 'n').toNat)), htake, ← ht]
    rw [if_pos h]

theorem bytes_join_cons (p q : Text) (ps : List Text) :
    (Text.join "," (p :: q :: ps)).bytes = p.bytes ++ 44 :: (Text.join "," (q :: ps)).bytes := by
  have hcomma : (Text.ofString ",").bytes = [44] := rfl
  simp [Text.join, Text.concat, hcomma]

theorem bytes_join_single (p : Text) : (Text.join "," [p]).bytes = p.bytes := by
  simp [Text.join, Text.concat]

theorem bytes_array (markup : Bool) (xs : List Json) (r : List UInt8) :
    (write markup (array xs)).bytes ++ r = 91 :: ((Text.join "," (writeAll markup xs)).bytes ++ 93 :: r) :=
  bytes_between rfl rfl _ r

theorem bytes_object (markup : Bool) (ms : List (Text × Json)) (r : List UInt8) :
    (write markup (object ms)).bytes ++ r = 123 :: ((Text.join "," (writeMembers markup ms)).bytes ++ 125 :: r) :=
  bytes_between rfl rfl _ r

/-- What cannot stand in a number can follow one. -/
theorem ends_of_not (h : isNumberByte b = false) (r : List UInt8) :
    ∀ c ∈ (b :: r).head?, isNumberByte c = false := by
  rintro c ⟨⟩
  exact h

/-- What is written of elements starts as the first of them. -/
theorem exists_bytes_join (p : Text) (ps : List Text) {s : List UInt8} (h : p.bytes = b :: s)
    (r : List UInt8) : ∃ s', (Text.join "," (p :: ps)).bytes ++ r = b :: s' := by
  refine ⟨s ++ (Text.concat (ps.map (("," : Text) ++ ·))).bytes ++ r, ?_⟩
  rw [Text.join, Text.bytes_append, h]
  rfl

theorem bytes_member (markup : Bool) (k : Text) (x : Json) (r : List UInt8) :
    (quote markup k ++ ":" ++ write markup x).bytes ++ r =
      (quote markup k).bytes ++ 58 :: ((write markup x).bytes ++ r) := by
  have hcolon : (Text.ofString ":").bytes = [58] := rfl
  rw [Text.bytes_append, Text.bytes_append, hcolon, append_assoc, append_assoc]
  rfl

theorem exists_bytes_member (markup : Bool) (k : Text) (x : Json) :
    ∃ s, (quote markup k ++ ":" ++ write markup x).bytes = 34 :: s := ⟨_, rfl⟩

/-- What is read after the value of a member. -/
def afterMember (key : Text) (fuel : Nat) :
    Option (Json × List UInt8) → Option (List (Text × Json) × List UInt8)
  | none => none
  | some (x, r) =>
    match skipSpace r with
    | 125 :: r => some ([(key, x)], r)
    | 44 :: r => (readMembers fuel r).map fun (ms, r) => ((key, x) :: ms, r)
    | _ => none

theorem readMembers_member (markup : Bool) (k : Text) (x : Json) (r : List UInt8) (fuel : Nat) :
    readMembers (fuel + 1) ((quote markup k ++ ":" ++ write markup x).bytes ++ r) =
      afterMember k.shown fuel (readValue fuel ((write markup x).bytes ++ r)) := by
  obtain ⟨bs, hbs, hread⟩ := readText_quote markup k (58 :: ((write markup x).bytes ++ r))
  rw [bytes_member, hbs, readMembers, skipSpace_cons (by decide)]
  simp only [hread, skipSpace_cons (by decide : isSpace 58 = false), sanitize_shown]
  rfl

mutual

/-- A document is read back from the front of what is written of it. -/
theorem readValue_write (markup : Bool) (j : Json) (h : j.Numeric) {r : List UInt8}
    (hr : ∀ b ∈ r.head?, isNumberByte b = false) {fuel : Nat} (hfuel : 2 * (write markup j).length < fuel) :
    readValue fuel ((write markup j).bytes ++ r) = some (j.displayed, r) := by
  rcases fuel with _ | fuel
  · cases hfuel
  cases j with
  | null => rfl
  | bool b => cases b <;> rfl
  | number t => exact readValue_number h hr fuel
  | text t =>
    obtain ⟨bs, hbs, hread⟩ := readText_quote markup t r
    rw [write, hbs, readValue, skipSpace_cons (by decide)]
    show (readText (bs.length + 1) [] bs).map _ = _
    rw [hread, Option.map_some]
    show some (text (sanitize t.shown.bytes), r) = _
    rw [sanitize_shown]
    rfl
  | array xs =>
    have hlength := congrArg List.length (bytes_array markup xs [])
    rw [append_nil, length_cons, length_append, length_singleton] at hlength
    rw [Text.length, hlength] at hfuel
    rw [bytes_array, readValue, skipSpace_cons (by decide)]
    cases xs with
    | nil => rfl
    | cons x xs =>
      have hall : x.Numeric ∧ NumericAll xs := h
      have helements := readElements_write markup (x :: xs) hall (cons_ne_nil x xs) r fuel
        (by rw [Text.length]; omega)
      obtain ⟨b, s, hbytes, hspace, hclose, -⟩ := exists_bytes_write markup hall.1
      obtain ⟨s', hs'⟩ := exists_bytes_join _ (writeAll markup xs) hbytes (93 :: r)
      rw [writeAll] at helements ⊢
      rw [hs'] at helements ⊢
      simp only [skipSpace_cons hspace]
      split
      · next heq => exact absurd (List.cons.inj heq).1 hclose
      · rw [helements]
        rfl
  | object ms =>
    have hlength := congrArg List.length (bytes_object markup ms [])
    rw [append_nil, length_cons, length_append, length_singleton] at hlength
    rw [Text.length, hlength] at hfuel
    rw [bytes_object, readValue, skipSpace_cons (by decide)]
    cases ms with
    | nil => rfl
    | cons m ms =>
      obtain ⟨k, x⟩ := m
      have hall : x.Numeric ∧ NumericMembers ms := h
      have hmembers := readMembers_write markup ((k, x) :: ms) hall (cons_ne_nil _ ms) r fuel
        (by rw [Text.length]; omega)
      obtain ⟨s, hs⟩ := exists_bytes_member markup k x
      obtain ⟨s', hs'⟩ := exists_bytes_join _ (writeMembers markup ms) hs (125 :: r)
      rw [writeMembers] at hmembers ⊢
      rw [hs'] at hmembers ⊢
      simp only [skipSpace_cons (by decide : isSpace 34 = false)]
      show (readMembers fuel (34 :: s')).map _ = _
      rw [hmembers]
      rfl

theorem readElements_write (markup : Bool) (xs : List Json) (h : NumericAll xs) (hne : xs ≠ [])
    (r : List UInt8) (fuel : Nat) (hfuel : 2 * (Text.join "," (writeAll markup xs)).length + 1 < fuel) :
    readElements fuel ((Text.join "," (writeAll markup xs)).bytes ++ 93 :: r) = some (displayedAll xs, r) := by
  rcases fuel with _ | fuel
  · cases hfuel
  match xs, hne with
  | [x], _ =>
    rw [writeAll, writeAll, Text.length, bytes_join_single] at hfuel
    rw [writeAll, writeAll, bytes_join_single, readElements,
      readValue_write markup x h.1 (ends_of_not (by decide) r) (by rw [Text.length]; omega)]
    rfl
  | x :: y :: ys, _ =>
    rw [writeAll, writeAll, Text.length, bytes_join_cons, length_append, length_cons] at hfuel
    have hmore := readElements_write markup (y :: ys) h.2 (cons_ne_nil y ys) r fuel
      (by rw [writeAll, Text.length]; omega)
    rw [writeAll] at hmore
    rw [writeAll, writeAll, bytes_join_cons, append_assoc, cons_append, readElements,
      readValue_write markup x h.1 (ends_of_not (by decide) _) (by rw [Text.length]; omega)]
    show (readElements fuel _).map _ = _
    rw [hmore]
    rfl

theorem readMembers_write (markup : Bool) (ms : List (Text × Json)) (h : NumericMembers ms) (hne : ms ≠ [])
    (r : List UInt8) (fuel : Nat) (hfuel : 2 * (Text.join "," (writeMembers markup ms)).length + 1 < fuel) :
    readMembers fuel ((Text.join "," (writeMembers markup ms)).bytes ++ 125 :: r) =
      some (displayedMembers ms, r) := by
  rcases fuel with _ | fuel
  · cases hfuel
  match ms, hne with
  | [(k, x)], _ =>
    have hlength := congrArg List.length (bytes_member markup k x [])
    rw [append_nil, append_nil, length_append, length_cons] at hlength
    rw [writeMembers, writeMembers, Text.length, bytes_join_single] at hfuel
    rw [writeMembers, writeMembers, bytes_join_single, readMembers_member,
      readValue_write markup x h.1 (ends_of_not (by decide) r) (by rw [Text.length]; omega)]
    rfl
  | (k, x) :: (k', y) :: ms, _ =>
    have hlength := congrArg List.length (bytes_member markup k x [])
    rw [append_nil, append_nil, length_append, length_cons] at hlength
    rw [writeMembers, writeMembers, Text.length, bytes_join_cons, length_append, length_cons] at hfuel
    have hmore := readMembers_write markup ((k', y) :: ms) h.2 (cons_ne_nil _ ms) r fuel
      (by rw [writeMembers, Text.length]; omega)
    rw [writeMembers] at hmore
    rw [writeMembers, writeMembers, bytes_join_cons, append_assoc, cons_append, readMembers_member,
      readValue_write markup x h.1 (ends_of_not (by decide) _) (by rw [Text.length]; omega)]
    show (readMembers fuel _).map _ = _
    rw [hmore]
    rfl

end

mutual

theorem depth_displayed (j : Json) : j.displayed.depth = j.depth := by
  cases j with
  | array xs => rw [displayed, depth, depth, depthAll_displayed]
  | object ms => rw [displayed, depth, depth, depthMembers_displayed]
  | _ => rfl

theorem depthAll_displayed (xs : List Json) : depthAll (displayedAll xs) = depthAll xs := by
  cases xs with
  | nil => rfl
  | cons x xs => rw [displayedAll, depthAll, depthAll, depth_displayed x, depthAll_displayed xs]

theorem depthMembers_displayed (ms : List (Text × Json)) : depthMembers (displayedMembers ms) = depthMembers ms := by
  match ms with
  | [] => rfl
  | (_, x) :: ms => rw [displayedMembers, depthMembers, depthMembers, depth_displayed x, depthMembers_displayed ms]

end

theorem read?_write_eq (markup : Bool) {j : Json} (h : j.Numeric) :
    read? (write markup j) = if j.depth ≤ maxDepth then some j.displayed else none := by
  have hread := readValue_write markup j h (r := []) (by simp)
    (by omega : 2 * (write markup j).length < 2 * (write markup j).length + 2)
  rw [append_nil] at hread
  rw [read?, hread]
  simp [skipSpace, depth_displayed]

/-- **Documents are read back from their text**, if they are not too deep. -/
theorem read?_write (markup : Bool) {j : Json} (h : j.Numeric) (hdepth : j.depth ≤ maxDepth) :
    read? (write markup j) = some j.displayed := by
  rw [read?_write_eq markup h, if_pos hdepth]

end Dataflow.Json
