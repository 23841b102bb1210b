import Dataflow.Value.Basic
import Mathlib.Data.List.Induction

/-!
# Rows in ascending order

Texts are in strict order by their bytes.  Setting a field keeps fields in strictly ascending order of their
names.
-/

namespace Dataflow

open List

namespace Text

theorem leBytes_iff (a b : List UInt8) : leBytes a b = true ↔ a ≤ b := by
  induction a generalizing b with
  | nil => simp [leBytes]
  | cons x a ih =>
    cases b with
    | nil => simp [leBytes]
    | cons y b =>
      rw [leBytes, Bool.or_eq_true, Bool.and_eq_true, ih, cons_le_cons_iff]
      simp

theorem lt_iff (a b : Text) : a.lt b = true ↔ a.bytes < b.bytes := by
  rw [lt, le, Bool.not_eq_true', ← Bool.not_eq_true, leBytes_iff, List.not_le]

theorem lt_trans {a b c : Text} (h : a.lt b) (h' : b.lt c) : a.lt c := by
  rw [lt_iff] at *
  exact List.lt_trans h h'

theorem lt_irrefl (a : Text) : ¬ a.lt a := by
  rw [lt_iff]
  exact List.lt_irrefl _

theorem lt_of_not {a b : Text} (h : ¬ a.lt b) (hne : b ≠ a) : b.lt a := by
  rw [lt_iff] at *
  rw [List.not_lt] at h
  exact (List.le_iff_lt_or_eq.mp h).resolve_right fun heq => hne (Text.ext heq)

end Text

namespace Fields

variable {α : Type} {fs : List (Text × α)} {key : Text} {v : α} {e : Text × α}
  {more : List (Text × α)}

def Ascending (fs : List (Text × α)) : Prop := fs.Pairwise fun e e' => e.1.lt e'.1 = true

theorem ascending_iff : Ascending fs ↔ (fs.map Prod.fst).Pairwise fun k k' => k.lt k' = true := by
  rw [Ascending, pairwise_map]

theorem mem_set (h : e ∈ set key v fs) : e = (key, v) ∨ e ∈ fs := by
  induction fs with
  | nil => exact .inl (mem_singleton.mp h)
  | cons e' rest ih =>
    unfold set at h
    split at h
    · exact (mem_cons.mp h).imp_right (mem_cons_of_mem e')
    · split at h
      · exact mem_cons.mp h
      · rcases mem_cons.mp h with rfl | h
        · exact .inr mem_cons_self
        · exact (ih h).imp_right (mem_cons_of_mem e')

theorem Ascending.set (h : Ascending fs) (key : Text) (v : α) : Ascending (set key v fs) := by
  induction fs with
  | nil => exact pairwise_singleton _ _
  | cons e rest ih =>
    obtain ⟨k, w⟩ := e
    obtain ⟨hfirst, hrest⟩ := pairwise_cons.mp h
    unfold Fields.set
    by_cases hk : k = key
    · subst hk
      rw [if_pos rfl]
      exact pairwise_cons.mpr ⟨hfirst, hrest⟩
    · rw [if_neg hk]
      by_cases hlt : key.lt k = true
      · rw [if_pos hlt]
        refine pairwise_cons.mpr ⟨fun e he => ?_, h⟩
        rcases mem_cons.mp he with rfl | he
        · exact hlt
        · exact Text.lt_trans hlt (hfirst e he)
      · rw [if_neg hlt]
        refine pairwise_cons.mpr ⟨fun e he => ?_, ih hrest⟩
        rcases mem_set he with rfl | he
        · exact Text.lt_of_not hlt hk
        · exact hfirst e he

theorem Ascending.update (h : Ascending fs) (more : List (Text × α)) : Ascending (update fs more) := by
  unfold Fields.update
  induction more generalizing fs with
  | nil => exact h
  | cons e more ih => exact ih (h.set e.1 e.2)

theorem ascending_ofList (more : List (Text × α)) : Ascending (ofList more) :=
  Ascending.update List.Pairwise.nil more

theorem mem_update (h : e ∈ update fs more) : e ∈ fs ∨ e ∈ more := by
  unfold update at h
  induction more generalizing fs with
  | nil => exact .inl h
  | cons e' more ih =>
    rcases ih h with h | h
    · exact (mem_set h).elim (fun heq => .inr (heq ▸ mem_cons_self)) .inl
    · exact .inr (mem_cons_of_mem e' h)

theorem mem_ofList (h : e ∈ ofList more) : e ∈ more :=
  (mem_update h).resolve_left not_mem_nil

theorem Ascending.nodup (h : Ascending fs) : (fs.map Prod.fst).Nodup := by
  rw [List.Nodup, pairwise_map]
  refine h.imp fun hlt heq => ?_
  rw [heq] at hlt
  exact Text.lt_irrefl _ hlt

end Fields

end Dataflow
