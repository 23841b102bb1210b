import Dataflow.Drawing
import Dataflow.Script.Lower
import Dataflow.Stream
import Mathlib.Logic.Function.Basic

/-!
# Identifiers are fresh

The numbered identifiers of a session tell draws apart: their first group reads back as the number
(`hexValue_toDigits`), and zeros in front of it do not count.  As program text identifiers stay apart too
(`Text.ident_injective`), since the text can be read back; so do the names of nodes that are made of it.
-/

namespace Dataflow

open List String

def hexDigit (c : Char) : Nat := if c.toNat < 58 then c.toNat - 48 else c.toNat - 87

def hexValue (cs : List Char) : Nat := cs.foldl (fun v c => 16 * v + hexDigit c) 0

theorem hexDigit_digitChar : ∀ d < 16, hexDigit d.digitChar = d := by decide

theorem hexValue_concat (cs : List Char) (c : Char) :
    hexValue (cs ++ [c]) = 16 * hexValue cs + hexDigit c := by
  simp [hexValue]

theorem hexValue_toDigits (n : Nat) : hexValue (Nat.toDigits 16 n) = n := by
  induction n using Nat.base_induction 16 (by omega) with
  | single d hd => simp [Nat.toDigits_of_lt_base hd, hexValue, hexDigit_digitChar d hd]
  | digit m d hd hm ih =>
    rw [← Nat.toDigits_append_toDigits (by omega) hm hd, Nat.toDigits_of_lt_base hd, hexValue_concat, ih,
      hexDigit_digitChar d hd]

theorem hexValue_zeros (k : Nat) (cs : List Char) :
    hexValue (List.replicate k '0' ++ cs) = hexValue cs := by
  have hzeros : (List.replicate k '0').foldl (fun v c => 16 * v + hexDigit c) 0 = 0 := by
    induction k with
    | zero => rfl
    | succ k ih => rwa [replicate_succ]
  rw [hexValue, foldl_append, hzeros]
  rfl

theorem Text.ofString_injective : Function.Injective Text.ofString := by
  intro a b h
  have hbytes : a.toByteArray.data.toList = b.toByteArray.data.toList := congrArg Text.bytes h
  exact toByteArray_inj.mp (ByteArray.ext (Array.toList_inj.mp hbytes))

theorem Text.ofString_ofList (cs : List Char) : ofString (ofList cs) = ofChars cs := by
  rw [ofString, toByteArray_ofList, List.utf8Encode, ofChars]
  simp

theorem Text.utf8EncodeChar_of_le {c : Char} (h : c.toNat ≤ 127) :
    utf8EncodeChar c = [UInt8.ofNat c.toNat] := by
  rw [utf8EncodeChar]
  exact if_pos h

/-- Filling with zeros puts digits in front. -/
theorem Text.padZeros_ofList (w : Nat) (cs : List Char) :
    ∃ k, padZeros w (ofString (ofList cs)) =
      ofString (ofList (List.replicate k '0' ++ cs)) := by
  have hzero : ofString "0" = ofChars ['0'] := by decide
  have hzeros : ∀ k, replicate k "0" = ofChars (List.replicate k '0') := by
    intro k
    simp [replicate, concat, hzero, ofChars, flatMap_replicate]
  refine ⟨w - (ofString (ofList cs)).length, ?_⟩
  rw [padZeros, hzeros, ofString_ofList, ofString_ofList]
  ext1
  simp [ofChars]

theorem Text.ofHex_injective (w : Nat) : Function.Injective (ofHex w) := by
  intro n m h
  obtain ⟨k, hk⟩ := padZeros_ofList w (Nat.toDigits 16 n)
  obtain ⟨l, hl⟩ := padZeros_ofList w (Nat.toDigits 16 m)
  have hchars : List.replicate k '0' ++ Nat.toDigits 16 n =
      List.replicate l '0' ++ Nat.toDigits 16 m :=
    ofList_injective (ofString_injective (hk.symm.trans (h.trans hl)))
  have hvalue := congrArg hexValue hchars
  rwa [hexValue_zeros, hexValue_zeros, hexValue_toDigits, hexValue_toDigits] at hvalue

theorem identifier_injective : Function.Injective fun k => Text.concat (identifier k) := by
  intro n m h
  have hbytes := congrArg Text.bytes h
  simp only [Text.concat, identifier, flatMap_cons] at hbytes
  exact Text.ofHex_injective 8 (Text.ext (append_cancel_right hbytes))

def Text.Hexadecimal (t : Text) : Prop := ∀ b ∈ t.bytes, (Byte.hexValue? b).isSome

-- by the bytes of the text, and not by going through all bytes there are
instance (t : Text) : Decidable t.Hexadecimal := List.decidableBAll _ t.bytes

theorem Text.hexadecimal_ofChars {cs : List Char}
    (h : ∀ c ∈ cs, ∀ b ∈ utf8EncodeChar c, (Byte.hexValue? b).isSome) :
    (ofChars cs).Hexadecimal := by
  intro b hb
  obtain ⟨c, hc, hb⟩ := mem_flatMap.mp hb
  exact h c hc b hb

theorem isSome_hexValue?_digitChar :
    ∀ d < 16, ∀ b ∈ utf8EncodeChar d.digitChar, (Byte.hexValue? b).isSome := by
  have hall : ∀ d < 16, (utf8EncodeChar d.digitChar).all fun b => (Byte.hexValue? b).isSome := by decide
  exact fun d hd => all_eq_true.mp (hall d hd)

theorem Text.hexadecimal_ofHex (w n : Nat) : (ofHex w n).Hexadecimal := by
  obtain ⟨k, hk⟩ := padZeros_ofList w (Nat.toDigits 16 n)
  have hdigits : ∀ c ∈ Nat.toDigits 16 n, ∀ b ∈ utf8EncodeChar c, (Byte.hexValue? b).isSome := by
    clear hk
    induction n using Nat.base_induction 16 (by omega) with
    | single d hd => simpa [Nat.toDigits_of_lt_base hd] using isSome_hexValue?_digitChar d hd
    | digit m d hd hm ih =>
      rw [← Nat.toDigits_append_toDigits (by omega) hm hd, Nat.toDigits_of_lt_base hd, forall_mem_append]
      exact ⟨ih, forall_mem_singleton.mpr (isSome_hexValue?_digitChar d hd)⟩
  have hzeros : ∀ c ∈ List.replicate k '0', ∀ b ∈ utf8EncodeChar c, (Byte.hexValue? b).isSome := by
    intro c hc
    rw [eq_of_mem_replicate hc]
    exact isSome_hexValue?_digitChar 0 (by decide)
  have hofHex : ofHex w n = ofChars (List.replicate k '0' ++ Nat.toDigits 16 n) := hk.trans (ofString_ofList _)
  rw [hofHex]
  exact hexadecimal_ofChars (forall_mem_append.mpr ⟨hzeros, hdigits⟩)

theorem hexadecimal_identifier (k : Nat) : (Text.concat (identifier k)).Hexadecimal := by
  intro b hb
  have hgroups : b ∈ (Text.ofHex 8 k).bytes ++ (Text.concat ["0000", "4000", "8000", "000000000000"]).bytes := hb
  rcases mem_append.mp hgroups with hb | hb
  · exact Text.hexadecimal_ofHex 8 k b hb
  · have hmarks : (Text.concat ["0000", "4000", "8000", "000000000000"]).Hexadecimal := by decide
    exact hmarks b hb

/-! ### Identifiers as program text -/

namespace Byte

theorem hexValue?_hexDigit : ∀ d < 16, hexValue? (hexDigit d) = some d := by decide

theorem hexDigit_ne_underscore : ∀ d < 16, hexDigit d ≠ byte '_' := by decide

theorem ident_cases (b : UInt8) : (ident b = [b] ∧ b ≠ byte '_') ∨
    (ident b = [byte '_', byte '_'] ∧ b = byte ':') ∨ ident b = byte '_' :: hex b := by
  unfold ident
  by_cases hplain : (isLower b || isDigit b) = true
  · rw [if_pos hplain]
    refine .inl ⟨rfl, ?_⟩
    rintro rfl
    exact absurd hplain (by decide)
  · rw [if_neg hplain]
    by_cases hcolon : b = byte ':'
    · simp [hcolon]
    · simp [hcolon]

/-- Reads program text back as bytes of an identifier. -/
def unident : List UInt8 → List UInt8
  | [] => []
  | a :: r =>
    if a ≠ byte '_' then a :: unident r
    else match r with
      | [] => []
      | b :: r =>
        if b = byte '_' then byte ':' :: unident r
        else match r with
          | [] => []
          | c :: r =>
            UInt8.ofNat (16 * (hexValue? b).getD 0 + (hexValue? c).getD 0) :: unident r

theorem unident_ident (b : UInt8) (r : List UInt8) : unident (ident b ++ r) = b :: unident r := by
  rcases ident_cases b with ⟨h, hne⟩ | ⟨h, rfl⟩ | h
  · rw [h, singleton_append, unident.eq_def]
    simp [hne]
  · rw [h, cons_append, unident.eq_def]
    simp
  · have hlt := b.toNat_lt
    have hhigh : b.toNat / 16 < 16 := by omega
    have hlow : b.toNat % 16 < 16 := by omega
    have hnumber : UInt8.ofNat (16 * (b.toNat / 16) + b.toNat % 16) = b := by
      rw [Nat.div_add_mod, UInt8.ofNat_toNat]
    simp [h, hex, unident, hexDigit_ne_underscore _ hhigh, hexValue?_hexDigit _ hhigh,
      hexValue?_hexDigit _ hlow, hnumber]

end Byte

/-- No two identifiers are the same program text. -/
theorem Text.ident_injective : Function.Injective Text.ident := by
  have hback : ∀ bs : List UInt8, Byte.unident (bs.flatMap Byte.ident) = bs := by
    intro bs
    induction bs with
    | nil => rfl
    | cons b bs ih => rw [flatMap_cons, Byte.unident_ident, ih]
  intro a b h
  have hbytes : a.bytes.flatMap Byte.ident = b.bytes.flatMap Byte.ident := congrArg Text.bytes h
  exact Text.ext (by rw [← hback a.bytes, hbytes, hback])

theorem Byte.hexDigit_plain : ∀ d < 16, isLower (hexDigit d) = true ∨ isDigit (hexDigit d) = true := by
  decide

/-- Program text has small letters, digits and underscores. -/
theorem Byte.plain_of_mem_ident {b c : UInt8} (h : c ∈ ident b) :
    isLower c = true ∨ isDigit c = true ∨ c = byte '_' := by
  have hlt := b.toNat_lt
  unfold ident at h
  split at h
  · next hplain =>
    rw [mem_singleton.mp h]
    rcases (Bool.or_eq_true _ _).mp hplain with hlower | hdigit
    · exact .inl hlower
    · exact .inr (.inl hdigit)
  split at h
  · simp only [mem_cons, not_mem_nil, or_false, or_self] at h
    exact .inr (.inr h)
  · rcases mem_cons.mp h with rfl | h
    · exact .inr (.inr rfl)
    have hdigits : c = hexDigit (b.toNat / 16) ∨ c = hexDigit (b.toNat % 16) := by simpa [hex] using h
    rcases hdigits with rfl | rfl
    · exact (hexDigit_plain _ (by omega)).imp_right .inl
    · exact (hexDigit_plain _ (by omega)).imp_right .inl

/-- **Nodes have names of their own.**  Identifiers that give the same program text are the same, and
the text has small letters, digits and underscores only.  So nodes of a graph with different identifiers
share neither a variable nor a name in a drawing. -/
theorem ident_tells_nodes_apart (g : Graph) :
    (∀ a b : Text, a.ident = b.ident → a = b) ∧
    (∀ a : Text, ∀ b ∈ a.ident.bytes,
      Byte.isLower b = true ∨ Byte.isDigit b = true ∨ b = byte '_') ∧
    ∀ n ∈ g.nodes, ∀ m ∈ g.nodes, n.id ≠ m.id →
      Script.variableOf n ≠ Script.variableOf m ∧ Drawing.nodeName n.id ≠ Drawing.nodeName m.id := by
  have hmark {mark a b : Text} (h : mark ++ a.ident = mark ++ b.ident) : a = b :=
    Text.ident_injective (Text.ext (append_cancel_left (congrArg Text.bytes h)))
  refine ⟨fun a b h => Text.ident_injective h, fun a b hb => ?_, fun n _ m _ hne => ?_⟩
  · obtain ⟨c, -, hc⟩ := mem_flatMap.mp hb
    exact Byte.plain_of_mem_ident hc
  · exact ⟨fun h => hne (hmark h), fun h => hne (hmark h)⟩

/-- A colon, the two underscores it is written as and its code do not meet. -/
theorem ident_tells_nodes_apart_colon :
    let n : Node := { id := "a:b", op := .source }
    let m : Node := { id := "a__b", op := .source }
    ∃ g : Graph, n ∈ g.nodes ∧ m ∈ g.nodes ∧ n.id ≠ m.id ∧
      Script.variableOf n ≠ Script.variableOf m ∧ Drawing.nodeName n.id ≠ Drawing.nodeName m.id := by
  intro n m
  have hne : n.id ≠ m.id := by decide
  let g : Graph := { id := "g", nodes := [n, m], nodup_ids := by decide, edges := [], edges_eq := rfl }
  exact ⟨g, by simp [g], by simp [g], hne,
    (ident_tells_nodes_apart g).2.2 n (by simp [g]) m (by simp [g]) hne⟩

end Dataflow
