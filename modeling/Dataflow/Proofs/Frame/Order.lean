import Dataflow.Proofs.Frame.Columns

/-!
# The order of columns

The columns of a table stand in the order of the rows that bring them in, and by name where one row brings in
several.  A row is a set of named cells: the order in which it lists them does not matter.

Main statement (`Row.columns_canonical`): the columns are the names that occur, each once and in this order,
however the cells of the rows are listed.
-/

namespace Dataflow

open List

namespace Text

theorem le_iff (a b : Text) : a.le b = true ↔ a.bytes ≤ b.bytes := leBytes_iff ..

theorem pairwise_sort (ts : List Text) : (sort ts).Pairwise fun a b => a.le b = true := by
  refine pairwise_mergeSort (fun a b c => ?_) (fun a b => ?_) ts
  · simp only [le_iff]
    exact List.le_trans
  · rw [Bool.or_eq_true, le_iff, le_iff]
    exact List.le_total _ _

theorem sort_eq_of_perm {ts ts' : List Text} (h : ts ~ ts') : sort ts = sort ts' := by
  have hperm : sort ts ~ sort ts' := (mergeSort_perm ts le).trans (h.trans (mergeSort_perm ts' le).symm)
  refine hperm.eq_of_pairwise (fun a b _ _ hab hba => ?_) (pairwise_sort ts) (pairwise_sort ts')
  rw [le_iff] at hab hba
  exact Text.ext (List.le_antisymm hab hba)

end Text

namespace Row

variable {rows : List Row} {r : Row} {name a b : Text}

/-- The number of the first row that has a column. -/
def firstRow (rows : List Row) (name : Text) : Nat := rows.findIdx (name ∈ ·.map Prod.fst)

/-- A column belongs before another: a row has it earlier, or the same row has both first and its name is
less. -/
def Precedes (rows : List Row) (a b : Text) : Prop :=
  firstRow rows a < firstRow rows b ∨ firstRow rows a = firstRow rows b ∧ a.lt b = true

theorem Precedes.ne (h : Precedes rows a b) : a ≠ b := by
  rintro rfl
  exact h.elim (Nat.lt_irrefl _) fun h => Text.lt_irrefl a h.2

theorem firstRow_lt_iff : firstRow rows name < rows.length ↔ name ∈ columns rows := by
  simp [firstRow, findIdx_lt_length, mem_columns]

theorem firstRow_concat_of_mem (h : name ∈ columns rows) (r : Row) :
    firstRow (rows ++ [r]) name = firstRow rows name := by
  rw [firstRow, findIdx_append, ← firstRow, if_pos (firstRow_lt_iff.mpr h)]

theorem firstRow_concat_of_not_mem (h : name ∉ columns rows) (hr : name ∈ r.map Prod.fst) :
    firstRow (rows ++ [r]) name = rows.length := by
  rw [firstRow, findIdx_append, ← firstRow, if_neg (firstRow_lt_iff.not.mpr h), findIdx_cons, decide_eq_true hr]
  exact Nat.zero_add _

/-- The columns stand in their order. -/
theorem pairwise_columns (h : ∀ r ∈ rows, (r.map Prod.fst).Nodup) :
    (columns rows).Pairwise (Precedes rows) := by
  induction rows using reverseRecOn with
  | nil => exact List.Pairwise.nil
  | append_singleton rows r ih =>
    rw [forall_mem_append, forall_mem_singleton] at h
    have hnew {name : Text} (hname : name ∈ fresh (columns rows) r) :
        firstRow (rows ++ [r]) name = rows.length := by
      obtain ⟨hr, hrows⟩ := mem_fresh.mp hname
      exact firstRow_concat_of_not_mem hrows hr
    rw [columns_concat, pairwise_append]
    refine ⟨?_, ?_, fun a ha b hb => .inl ?_⟩
    · refine (ih h.1).imp_of_mem fun ha hb hab => ?_
      rwa [Precedes, firstRow_concat_of_mem ha, firstRow_concat_of_mem hb]
    · have hnodup : (fresh (columns rows) r).Nodup :=
        (mergeSort_perm _ _).nodup_iff.mpr (h.2.filter _)
      refine ((Text.pairwise_sort _).and hnodup).imp_of_mem fun ha hb hab =>
        .inr ⟨(hnew ha).trans (hnew hb).symm, Text.lt_of_not (fun hba => ?_) hab.2⟩
      rw [Text.lt, hab.1] at hba
      cases hba
    · rw [firstRow_concat_of_mem ha, hnew hb]
      exact firstRow_lt_iff.mpr ha

theorem nodup_columns (h : ∀ r ∈ rows, (r.map Prod.fst).Nodup) : (columns rows).Nodup :=
  (pairwise_columns h).imp Precedes.ne

/-- How the cells of each row are listed does not matter to the columns. -/
theorem columns_eq_of_perm {rows' : List Row} (h : Forall₂ Perm rows rows') : columns rows' = columns rows := by
  unfold columns
  generalize ([] : List Text) = seen
  induction h generalizing seen with
  | nil => rfl
  | cons hr _ ih => rw [foldl_cons, foldl_cons, ih, Text.sort_eq_of_perm ((hr.map _).filter _).symm]

/-- **The columns of a table are in canonical order**: they are the names that occur, each once, by the first
row that has them and then by name, and do not depend on how the rows list their cells. -/
theorem columns_canonical (rows : List Row) (h : ∀ r ∈ rows, (r.map Prod.fst).Nodup) :
    (columns rows).Nodup ∧ (∀ name, name ∈ columns rows ↔ ∃ r ∈ rows, name ∈ r.map Prod.fst) ∧
      (columns rows).Pairwise (fun a b =>
        firstRow rows a < firstRow rows b ∨ firstRow rows a = firstRow rows b ∧ a.lt b = true) ∧
      ∀ rows', Forall₂ Perm rows rows' → columns rows' = columns rows :=
  ⟨nodup_columns h, fun _ => mem_columns, pairwise_columns h, fun _ => columns_eq_of_perm⟩

theorem columns_canonical_ledger :
    let rows : List Row := [[("price", .int 3), ("at", .int 1)], [("volume", .int 9), ("at", .int 2), ("Side", .null)]]
    (columns rows).Nodup ∧ columns (rows.map List.reverse) = columns rows := by
  intro rows
  obtain ⟨hnodup, -, -, hlisted⟩ := columns_canonical rows (by decide)
  refine ⟨hnodup, hlisted _ (forall₂_map_right_iff.mpr (forall₂_same.mpr fun r _ => ?_))⟩
  exact (reverse_perm r).symm

end Row

end Dataflow
