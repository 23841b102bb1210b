import Dataflow.Proofs.Json.Reading

/-!
# Documents as lines

What is written of a document is one line: it has no control character (`Json.printed_write`), and there is
no white space at either end of it (`Json.tight_write`).  A text of such lines is split into them
(`Text.split_lines`), and cutting off white space takes nothing from them (`Text.Tight.trim`).
-/

namespace Dataflow

open List

variable {parts : List Text} {t : Text}

namespace Text

/-! ### Lines -/

theorem splitBytes_line {bs : List UInt8} (h : 10 ∉ bs) (part r : List UInt8) :
    splitBytes [10] 0 part (bs ++ 10 :: r) = (part.reverse ++ bs) :: splitBytes [10] 0 [] r := by
  induction bs generalizing part with
  | nil => simp [splitBytes]
  | cons b bs ih =>
    rw [mem_cons, not_or] at h
    have hb : ¬ [10].isPrefixOf (b :: (bs ++ 10 :: r)) = true := by
      simpa using h.1
    rw [cons_append, splitBytes, if_neg hb, ih h.2, reverse_cons, List.append_assoc]
    rfl

theorem lines_cons (p : Text) (parts : List Text) : lines (p :: parts) = p ++ "\n" ++ lines parts := rfl

/-- Lines are found again, with an empty part after the last of them. -/
theorem split_lines (h : ∀ p ∈ parts, 10 ∉ p.bytes) :
    (lines parts).split "\n" = parts ++ [("" : Text)] := by
  have hfeed : (ofString "\n").bytes = [10] := rfl
  have hempty : (ofString "").bytes = [] := rfl
  unfold Text.split
  rw [hfeed]
  induction parts with
  | nil =>
    show [Text.mk []] = _
    rw [← hempty]
    rfl
  | cons p parts ih =>
    rw [forall_mem_cons] at h
    have hbytes : (lines (p :: parts)).bytes = p.bytes ++ 10 :: (lines parts).bytes := by
      rw [lines_cons, bytes_append, bytes_append, hfeed, List.append_assoc]
      rfl
    rw [hbytes, splitBytes_line h.1, List.map_cons, ih h.2]
    rfl

/-! ### Texts without control characters -/

/-- A text of characters none of which is a control character. -/
def Printed (t : Text) : Prop := ∃ cs, t = ofChars cs ∧ ∀ c ∈ cs, 32 ≤ c.toNat

theorem ofChars_append (cs ds : List Char) : ofChars (cs ++ ds) = ofChars cs ++ ofChars ds :=
  Text.ext flatMap_append

theorem ofChars_ascii {bs : List UInt8} (h : ∀ b ∈ bs, b.toNat < 128) :
    ofChars (bs.map fun b => Char.ofNat b.toNat) = ⟨bs⟩ := by
  refine Text.ext ?_
  induction bs with
  | nil => rfl
  | cons b bs ih =>
    rw [forall_mem_cons] at h
    rw [ofChars, List.map_cons, flatMap_cons, utf8EncodeChar_ofNat h.1]
    exact congrArg (b :: ·) (ih h.2)

/-- All bytes are ASCII, and neither blanks nor control characters. -/
def Visible (t : Text) : Prop := ∀ b ∈ t.bytes, 33 ≤ b.toNat ∧ b.toNat < 128

-- by the bytes of the text, and not by going through all bytes there are
instance (t : Text) : Decidable t.Visible := List.decidableBAll _ t.bytes

theorem printed_ofChar {c : Char} (h : 32 ≤ c.toNat) : (ofChar c).Printed :=
  ⟨[c], Text.ext (append_nil _).symm, forall_mem_singleton.mpr h⟩

theorem Visible.printed (h : t.Visible) : t.Printed := by
  refine ⟨_, (ofChars_ascii fun b hb => (h b hb).2).symm, fun c hc => ?_⟩
  obtain ⟨b, hb, rfl⟩ := mem_map.mp hc
  obtain ⟨hle, hlt⟩ := h b hb
  rw [toNat_ofNat (.inl (by omega))]
  omega

theorem Printed.append {u : Text} (ht : t.Printed) (hu : u.Printed) : (t ++ u).Printed := by
  obtain ⟨cs, rfl, hcs⟩ := ht
  obtain ⟨ds, rfl, hds⟩ := hu
  exact ⟨cs ++ ds, (ofChars_append cs ds).symm, forall_mem_append.mpr ⟨hcs, hds⟩⟩

theorem Printed.enclosed {o c : Text} (h : t.Printed) (ho : o.Visible) (hc : c.Visible) : (o ++ t ++ c).Printed :=
  (ho.printed.append h).append hc.printed

theorem printed_concat (h : ∀ p ∈ parts, p.Printed) : (concat parts).Printed := by
  induction parts with
  | nil => exact ⟨[], rfl, nofun⟩
  | cons p parts ih =>
    rw [forall_mem_cons] at h
    exact h.1.append (ih h.2)

theorem printed_join {sep : Text} (hsep : sep.Printed) (h : ∀ p ∈ parts, p.Printed) :
    (join sep parts).Printed := by
  cases parts with
  | nil => exact ⟨[], rfl, nofun⟩
  | cons p parts =>
    rw [forall_mem_cons] at h
    exact h.1.append (printed_concat (forall_mem_map.mpr fun r hr => hsep.append (h.2 r hr)))

/-- There is no line feed in it. -/
theorem Printed.not_mem (h : t.Printed) : 10 ∉ t.bytes := by
  obtain ⟨cs, rfl, hcs⟩ := h
  intro hmem
  obtain ⟨c, hc, hbyte⟩ := mem_flatMap.mp hmem
  by_cases hascii : c.toNat ≤ 127
  · rw [utf8EncodeChar_of_le hascii, mem_singleton] at hbyte
    have hn := congrArg UInt8.toNat hbyte
    rw [toNat_ofNat_of_lt (by omega)] at hn
    have hle := hcs c hc
    rw [← hn] at hle
    exact absurd hle (by decide)
  · have hplain : Json.IsPlain 10 := Json.isPlain_encode (hcs c hc)
      (by rintro rfl; exact hascii (by decide)) (by rintro rfl; exact hascii (by decide)) 10 hbyte
    exact absurd hplain.1 (by decide)

/-! ### Texts without white space at the ends -/

/-- A text that starts and ends with characters that are no white space. -/
def Tight (t : Text) : Prop :=
  ∃ cs, t = ofChars cs ∧ (∃ c ∈ cs.head?, isBlank c = false) ∧ ∃ c ∈ cs.getLast?, isBlank c = false

theorem ofPieces_chars (cs : List Char) : ofPieces (cs.map .char) = ofChars cs :=
  Text.ext (flatMap_map _ _ cs)

theorem Tight.trim (h : t.Tight) : t.trim = t := by
  obtain ⟨cs, rfl, ⟨c, hc, hhead⟩, d, hd, hlast⟩ := h
  have hleft : (ofChars cs).trimLeft = ofChars cs := by
    rw [trimLeft, pieces_ofChars]
    cases cs with
    | nil => rfl
    | cons c' cs =>
      cases hc
      rw [List.map_cons, dropWhile_cons_of_neg (by simp [isBlankPiece, hhead]), ← List.map_cons,
        ofPieces_chars]
  have hright : (ofChars cs).trimRight = ofChars cs := by
    rw [trimRight, pieces_ofChars, ← map_reverse]
    rw [Option.mem_def, ← List.head?_reverse] at hd
    cases hrev : cs.reverse with
    | nil => simp [hrev] at hd
    | cons d' ds =>
      rw [hrev] at hd
      cases hd
      rw [List.map_cons, dropWhile_cons_of_neg (by simp [isBlankPiece, hlast]), ← List.map_cons,
        ← map_reverse, ← hrev, reverse_reverse, ofPieces_chars]
  rw [Text.trim, hleft, hright]

theorem Tight.not_isEmpty (h : t.Tight) : t.isEmpty = false := by
  obtain ⟨cs, rfl, ⟨c, hc, -⟩, -⟩ := h
  cases cs with
  | nil => cases hc
  | cons c' cs =>
    cases hbs : String.utf8EncodeChar c' with
    | nil => exact absurd hbs String.utf8EncodeChar_ne_nil
    | cons b bs =>
      rw [isEmpty, ofChars, flatMap_cons, hbs]
      rfl

theorem isBlank_of_visible {c : Char} (h : 33 ≤ c.toNat ∧ c.toNat < 128) : isBlank c = false := by
  simp only [isBlank, Bool.or_eq_false_iff, Bool.and_eq_false_iff, decide_eq_false_iff_not, beq_eq_false_iff_ne]
  omega

theorem Visible.tight (h : t.Visible) (hne : t.bytes ≠ []) : t.Tight := by
  have hblank : ∀ b ∈ t.bytes, isBlank (Char.ofNat b.toNat) = false := by
    intro b hb
    obtain ⟨hle, hlt⟩ := h b hb
    refine isBlank_of_visible ?_
    rw [toNat_ofNat (.inl (by omega))]
    exact ⟨hle, hlt⟩
  refine ⟨_, (ofChars_ascii fun b hb => (h b hb).2).symm, ?_, ?_⟩
  · exact ⟨_, by rw [List.head?_map, List.head?_eq_some_head hne]; rfl, hblank _ (head_mem hne)⟩
  · exact ⟨_, by rw [List.getLast?_map, List.getLast?_eq_some_getLast hne]; rfl, hblank _ (getLast_mem hne)⟩

theorem tight_enclosed {o c : Char} (ho : isBlank o = false) (hc : isBlank c = false)
    (h : t.Printed) : (ofChar o ++ t ++ ofChar c).Tight := by
  obtain ⟨cs, rfl, -⟩ := h
  refine ⟨o :: (cs ++ [c]), ?_, ⟨o, rfl, ho⟩, c, ?_, hc⟩
  · refine Text.ext ?_
    simp [ofChars, ofChar]
  · rw [← cons_append, List.getLast?_concat]
    rfl

end Text

namespace Json

/-! ### What is written -/

theorem visible_numbered : ∀ n ∈ numbered, (Text.ofString "\\u" ++ Text.ofHex 4 n).Visible := by decide

theorem printed_escapePiece (markup : Bool) (p : Piece) : (escapePiece markup p).Printed := by
  cases p with
  | stray b => exact Text.printed_ofChar (c := '�') (by decide)
  | char c =>
    simp only [escapePiece, beq_iff_eq, Bool.or_eq_true, Bool.and_eq_true, decide_eq_true_eq]
    -- the escapes by a letter
    iterate 7
      split
      · exact Text.Visible.printed (by decide)
    split
    · next h => exact (visible_numbered _ (numbered_of_low h)).printed
    split
    · next h => exact (visible_numbered _ (numbered_of_markup h.2)).printed
    · next hlow _ => exact Text.printed_ofChar (by omega)

theorem printed_pieces (markup : Bool) (t : Text) :
    (Text.concat (t.pieces.map (escapePiece markup))).Printed :=
  Text.printed_concat (forall_mem_map.mpr fun piece _ => printed_escapePiece markup piece)

theorem printed_quote (markup : Bool) (t : Text) : (quote markup t).Printed :=
  (printed_pieces markup t).enclosed (by decide) (by decide)

theorem visible_of_isNumber (h : isNumber t = true) : t.Visible := by
  intro b hb
  have hbyte := (exists_of_isNumber h).1 b hb
  simp only [isNumberByte, Byte.isDigit, Bool.or_eq_true, Bool.and_eq_true, decide_eq_true_eq, beq_iff_eq,
    UInt8.le_iff_toNat_le] at hbyte
  rcases hbyte with ((((hdigit | rfl) | rfl) | rfl) | rfl) | rfl
  · exact ⟨Nat.le_trans (by decide) hdigit.1, Nat.lt_of_le_of_lt hdigit.2 (by decide)⟩
  all_goals decide

theorem printed_comma : Text.Printed "," := Text.Visible.printed (by decide)

mutual

/-- What is written of a document has no control characters. -/
theorem printed_write (markup : Bool) (j : Json) (h : j.Numeric) : (write markup j).Printed := by
  cases j with
  | null =>
    rw [write]
    exact Text.Visible.printed (by decide)
  | bool b =>
    rw [write]
    cases b <;> exact Text.Visible.printed (by decide)
  | number t => exact (visible_of_isNumber h).printed
  | text t => exact printed_quote markup t
  | array xs =>
    have hparts := Text.printed_join printed_comma (printed_writeAll markup xs h)
    exact hparts.enclosed (by decide) (by decide)
  | object ms =>
    have hparts := Text.printed_join printed_comma (printed_writeMembers markup ms h)
    exact hparts.enclosed (by decide) (by decide)

theorem printed_writeAll (markup : Bool) (xs : List Json) (h : NumericAll xs) :
    ∀ t ∈ writeAll markup xs, t.Printed := by
  cases xs with
  | nil => exact nofun
  | cons x xs =>
    rw [writeAll]
    exact forall_mem_cons.mpr ⟨printed_write markup x h.1, printed_writeAll markup xs h.2⟩

theorem printed_writeMembers (markup : Bool) (ms : List (Text × Json)) (h : NumericMembers ms) :
    ∀ t ∈ writeMembers markup ms, t.Printed := by
  match ms with
  | [] => exact nofun
  | (k, x) :: ms =>
    rw [writeMembers]
    refine forall_mem_cons.mpr ⟨?_, printed_writeMembers markup ms h.2⟩
    exact ((printed_quote markup k).append (Text.Visible.printed (by decide))).append (printed_write markup x h.1)

end

/-- What is written of a document has no white space at its ends. -/
theorem tight_write (markup : Bool) {j : Json} (h : j.Numeric) : (write markup j).Tight := by
  cases j with
  | null =>
    rw [write]
    exact Text.Visible.tight (by decide) (by decide)
  | bool b =>
    rw [write]
    cases b <;> exact Text.Visible.tight (by decide) (by decide)
  | number t =>
    obtain ⟨-, b, r, hbytes, -⟩ := exists_of_isNumber h
    exact (visible_of_isNumber h).tight (hbytes ▸ cons_ne_nil b r)
  | text t => exact Text.tight_enclosed (o := '"') (c := '"') (by decide) (by decide) (printed_pieces markup t)
  | array xs =>
    exact Text.tight_enclosed (o := '[') (c := ']') (by decide) (by decide)
      (Text.printed_join printed_comma (printed_writeAll markup xs h))
  | object ms =>
    exact Text.tight_enclosed (o := '\x7b') (c := '\x7d') (by decide) (by decide)
      (Text.printed_join printed_comma (printed_writeMembers markup ms h))

theorem read?_write_of_lt (markup : Bool) {j : Json} (h : j.Numeric) (hdepth : maxDepth < j.depth) :
    read? (write markup j) = none := by
  rw [read?_write_eq markup h, if_neg (Nat.not_le.mpr hdepth)]

end Json

end Dataflow
