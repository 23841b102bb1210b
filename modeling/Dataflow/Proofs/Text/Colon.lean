import Dataflow.Text.Basic

/-!
# Texts cut at colons

A colon parts the name of a branch from its node, and the dialect of a backend from its family.  A text
with a colon is cut at the first one, so that the part before it has none (`cut?_colon_iff`).
-/

namespace Dataflow

namespace Text

def Colonless (t : Text) : Prop := byte ':' ∉ t.bytes

instance (t : Text) : Decidable (Colonless t) := inferInstanceAs (Decidable (byte ':' ∉ t.bytes))

variable {a b r t : Text}

theorem append_assoc (a b c : Text) : a ++ b ++ c = a ++ (b ++ c) := ext (List.append_assoc _ _ _)

theorem append_cancel (h : r ++ a = r ++ b) : a = b := ext (List.append_cancel_left (congrArg bytes h))

theorem append_colon_inj : a ++ ":" = b ++ ":" ↔ a = b :=
  ⟨fun h => ext (List.append_cancel_right (congrArg bytes h)), fun h => by rw [h]⟩

theorem bytes_colon : (ofString ":").bytes = [byte ':'] := by decide

theorem isEmpty_iff : t.isEmpty = true ↔ t = "" := by
  rw [isEmpty, List.isEmpty_iff]
  exact ⟨ext, congrArg bytes⟩

theorem endsWith_colon_iff : t.endsWith ":" = true ↔ ∃ stem : Text, t = stem ++ ":" := by
  rw [endsWith, List.isSuffixOf_iff_suffix]
  constructor
  · rintro ⟨stem, h⟩
    exact ⟨⟨stem⟩, ext h.symm⟩
  · rintro ⟨stem, rfl⟩
    exact ⟨stem.bytes, rfl⟩

theorem take_append_colon : (a ++ ":").take ((a ++ ":").length - 1) = a := by
  apply ext
  simp [take, length, bytes_colon]

/-- Before a colon at the end there is a first one. -/
theorem exists_cut_colon (t : Text) :
    ∃ root rest : Text, t ++ ":" = root ++ ":" ++ rest ∧ root.Colonless := by
  have hmem : byte ':' ∈ (t ++ ":").bytes := by simp [bytes_colon]
  obtain ⟨root, rest, heq, hout⟩ := List.eq_append_cons_of_mem hmem
  exact ⟨⟨root⟩, ⟨rest⟩, ext (by rw [heq]; simp [bytes_colon]), hout⟩

theorem cutBytes_singleton_iff {sep : UInt8} {bs head rest : List UInt8} :
    cutBytes [sep] bs = some (head, rest) ↔ bs = head ++ sep :: rest ∧ sep ∉ head := by
  induction bs generalizing head with
  | nil => simp [cutBytes]
  | cons b bs ih =>
    by_cases hb : sep = b
    · subst hb
      simp only [cutBytes, afterBytes, if_true, Option.some.injEq, Prod.mk.injEq]
      constructor
      · rintro ⟨rfl, rfl⟩
        simp
      · rintro ⟨heq, hout⟩
        cases head with
        | nil => simpa using heq
        | cons c head => simp_all
    · simp only [cutBytes, afterBytes, if_neg hb, Option.map_eq_some_iff, Prod.exists, Prod.mk.injEq]
      constructor
      · rintro ⟨h, r, hcut, rfl, rfl⟩
        obtain ⟨rfl, hout⟩ := ih.mp hcut
        exact ⟨rfl, by simp [hb, hout]⟩
      · rintro ⟨heq, hout⟩
        cases head with
        | nil => simp_all
        | cons c head =>
          obtain ⟨rfl, htail⟩ : b = c ∧ bs = head ++ sep :: rest := by simpa using heq
          exact ⟨head, rest, ih.mpr ⟨htail, fun h => hout (List.mem_cons_of_mem _ h)⟩, rfl, rfl⟩

theorem cut?_colon_iff : t.cut? ":" = some (a, b) ↔ t = a ++ ":" ++ b ∧ a.Colonless := by
  rw [cut?, bytes_colon, Option.map_eq_some_iff]
  constructor
  · rintro ⟨⟨h, r⟩, hcut, heq⟩
    cases heq
    obtain ⟨hbytes, hout⟩ := cutBytes_singleton_iff.mp hcut
    exact ⟨ext (by simpa [bytes_colon] using hbytes), hout⟩
  · rintro ⟨rfl, hout⟩
    exact ⟨(a.bytes, b.bytes), cutBytes_singleton_iff.mpr ⟨by simp [bytes_colon], hout⟩, rfl⟩

end Text

end Dataflow
