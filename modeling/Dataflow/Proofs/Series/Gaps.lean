import Dataflow.Proofs.Indicator.Values
import Dataflow.Proofs.Series.Range

/-!
# Rows that running series pass over

A series with a running state passes over the rows that lack a number it needs: they are null, and the state is
that of the row before.  So it is the same whether such rows are there or not.  Which rows are there is said by a
mask, with a mark for every row; `keep` takes the marked ones, and a series is `Blank` where the mask has no mark.

Main statement (`Indicator.evaluate_keep`): averages, balances and average prices commute with `keep`.  The average
of a difference of averages comes last, and the rows that are passed over in it are those of the column all three
are made from.
-/

namespace Dataflow

open Arithmetic List

namespace Series

/-! ### Masks -/

section Keep

variable {α β γ : Type} {mask : List Bool}

/-- The marked rows. -/
def keep (mask : List Bool) (xs : List α) : List α := ((mask.zip xs).filter Prod.fst).map Prod.snd

@[simp] theorem keep_nil (mask : List Bool) : keep mask ([] : List α) = [] := by simp [keep]

theorem keep_cons (b : Bool) (mask : List Bool) (x : α) (xs : List α) :
    keep (b :: mask) (x :: xs) = if b then x :: keep mask xs else keep mask xs := by
  cases b <;> simp [keep]

theorem length_keep {xs : List α} (h : mask.length = xs.length) : (keep mask xs).length = mask.count true := by
  induction mask generalizing xs with
  | nil => simp [keep]
  | cons b mask ih =>
    obtain ⟨x, xs, rfl⟩ := exists_cons_of_length_eq_add_one h.symm
    have hrest := ih (Nat.succ.inj h)
    cases b <;> simp [keep_cons, hrest]

theorem keep_zipWith (f : α → β → γ) {xs : List α} {ys : List β} (h : ys.length = xs.length) :
    keep mask (List.zipWith f xs ys) = List.zipWith f (keep mask xs) (keep mask ys) := by
  induction mask generalizing xs ys with
  | nil => simp [keep]
  | cons b mask ih =>
    cases xs with
    | nil => simp
    | cons x xs =>
      obtain ⟨y, ys, rfl⟩ := exists_cons_of_length_eq_add_one h
      have hrest := ih (Nat.succ.inj h)
      cases b <;> simp [keep_cons, hrest]

end Keep

/-! ### Running series -/

variable {α : Type} [Arithmetic α] {mask : List Bool}

/-- The rows without a mark are null. -/
def Blank (mask : List Bool) (xs : List α) : Prop := Forall₂ (fun b x => b = false → x = null) mask xs

section Running

variable {β σ : Type} {counts : β → Bool} (next : σ → β → σ × α) (s : σ) {xs : List β}
  (h : Forall₂ (fun b x => b = false → counts x = false) mask xs)

include h

/-- Rows that do not count can be left out before or after. -/
theorem running_keep : running counts next s (keep mask xs) = keep mask (running counts next s xs) := by
  induction h generalizing s with
  | nil => rfl
  | @cons b x mask xs hx _ ih =>
    cases b with
    | false => simp [running, keep_cons, hx rfl, ih]
    | true => cases hcounts : counts x <;> simp [running, keep_cons, hcounts, ih]

theorem blank_running : Blank mask (running counts next s xs) := by
  induction h generalizing s with
  | nil => exact .nil
  | @cons b x mask xs hx _ ih =>
    unfold running
    split
    · next hcounts => exact .cons (fun hb => by rw [hx hb] at hcounts; cases hcounts) (ih _)
    · exact .cons (fun _ => rfl) (ih s)

end Running

variable [LawfulArithmetic α]

theorem Blank.counts {xs : List α} (h : Blank mask xs) :
    Forall₂ (fun b x => b = false → (!isNull x) = false) mask xs :=
  h.imp fun b x hx hb => by rw [hx hb, LawfulArithmetic.isNull_iff.mpr rfl]; rfl

theorem Blank.sub {xs ys : List α} (hx : Blank mask xs) (hy : Blank mask ys) :
    Blank mask (List.zipWith (· - ·) xs ys) := by
  induction hx generalizing ys with
  | nil => exact .nil
  | cons hx _ ih =>
    cases hy with
    | cons _ hy => exact .cons (fun hb => by rw [hx hb]; exact LawfulArithmetic.null_sub _) (ih hy)

section Ema

variable {xs : List α} (h : Blank mask xs) (n : Int64)

include h

theorem ema_keep : ema (keep mask xs) n = keep mask (ema xs n) := by
  simp only [ema, ewm, ewmFrom_eq]
  exact running_keep _ _ h.counts

theorem Blank.ema : Blank mask (ema xs n) := by
  rw [Series.ema, ewm, ewmFrom_eq]
  exact blank_running _ _ h.counts

end Ema

end Series

/-! ### Indicators -/

namespace Indicator

open Series Exact

variable {α : Type} [Arithmetic α]

/-- For each row, whether it has the numbers an indicator with a running state needs: close and volume, price and
volume, or the number it averages. -/
def usable (k : Indicator) (p : Params α) (column : Text → List α) : List Bool :=
  match k with
  | obv => ((column p.close).zip (column p.vol)).map present
  | vwap => ((priceColumn p column).zip (column p.vol)).map present
  | _ => (column p.field).map (!isNull ·)

theorem priceColumn_eq {p : Params α} {column : Text → List α}
    (h : (column p.close).length = (column p.price).length) : priceColumn p column =
      List.zipWith (fun x c => if isNull x then c else x) (column p.price) (column p.close) := by
  refine ext_getElem (by simp [priceColumn, h]) fun i hi hi' => ?_
  have hrow : i < (column p.close).length := by
    rw [length_zipWith] at hi'
    omega
  simp only [priceColumn, getElem_mapIdx, getElem_zipWith]
  rw [getD_eq_getElem _ _ hrow]

theorem forall₂_map_counts {β : Type} (counts : β → Bool) (xs : List β) :
    Forall₂ (fun b x => b = false → counts x = false) (xs.map counts) xs :=
  forall₂_map_left_iff.mpr (forall₂_same.mpr fun _ _ h => h)

section Length

variable {column : Text → List α} {n : Nat} (hcolumn : ∀ name, (column name).length = n) (k : Indicator)
  (p : Params α)

include hcolumn

theorem length_usable : (usable k p column).length = n := by
  cases k <;> simp [usable, hcolumn, length_priceColumn hcolumn]

/-- Columns of one length are of one length on the usable rows. -/
theorem length_keep_usable (name : Text) :
    (keep (usable k p column) (column name)).length = (usable k p column).count true :=
  length_keep (by rw [length_usable hcolumn, hcolumn])

end Length

variable [LawfulArithmetic α]

theorem blank_map_isNull (xs : List α) : Blank (xs.map (!isNull ·)) xs :=
  forall₂_map_left_iff.mpr
    (forall₂_same.mpr fun x _ h => LawfulArithmetic.isNull_iff.mp (by simpa using h))

section Columns

variable {k : Indicator} (hk : k ∈ [ema, macd, obv, vwap]) (p : Params α) {column : Text → List α}

include hk

theorem blank_series {xs : List α} (hxs : xs ∈ series k p column) : Blank (usable k p column) xs := by
  have hfield := blank_map_isNull (column p.field)
  fin_cases hk
  · obtain rfl := mem_singleton.mp hxs
    exact hfield.ema _
  · -- the second average is blank where the difference it is made from is
    have hline := (hfield.ema p.fast).sub (hfield.ema p.slow)
    simp only [series, Series.macd, mem_cons, not_mem_nil, or_false] at hxs
    rcases hxs with rfl | rfl | rfl
    · exact hline
    · exact hline.ema _
    · exact hline.sub (hline.ema _)
  · obtain rfl := mem_singleton.mp hxs
    rw [balances_eq]
    exact blank_running _ _ (forall₂_map_counts _ _)
  · obtain rfl := mem_singleton.mp hxs
    rw [quotients_eq]
    exact blank_running _ _ (forall₂_map_counts _ _)

/-- The columns of the usable rows are the usable rows of the columns. -/
theorem series_keep {n : Nat} (hcolumn : ∀ name, (column name).length = n) :
    series k p (fun name => keep (usable k p column) (column name)) =
    (series k p column).map (keep (usable k p column)) := by
  have hlength (a b : Text) : (column a).length = (column b).length := by rw [hcolumn, hcolumn]
  have hfield := blank_map_isNull (column p.field)
  fin_cases hk
  · simp only [series, usable, ema_keep hfield, List.map_cons, map_nil]
  · have hline := (hfield.ema p.fast).sub (hfield.ema p.slow)
    have hkeep (xs ys : List α) (h : ys.length = xs.length) :
        keep (usable macd p column) (List.zipWith (· - ·) xs ys) =
          List.zipWith (· - ·) (keep (usable macd p column) xs) (keep (usable macd p column) ys) :=
      keep_zipWith _ h
    simp only [series, Series.macd, usable, List.map_cons, map_nil] at hkeep ⊢
    rw [ema_keep hfield, ema_keep hfield, ← hkeep _ _ (by simp), ema_keep hline, ← hkeep _ _ (by simp)]
  · simp only [series, balances_eq, List.map_cons, map_nil]
    rw [List.zip, ← keep_zipWith Prod.mk (hlength p.vol p.close)]
    exact congrArg ([·]) (running_keep _ _ (forall₂_map_counts _ _))
  · have hkept := length_keep_usable hcolumn vwap p
    have hprice : (priceColumn p column).length = (column p.vol).length := by
      rw [length_priceColumn hcolumn, hcolumn]
    simp only [series, quotients_eq, List.map_cons, map_nil]
    rw [priceColumn_eq (by rw [hkept, hkept]), ← keep_zipWith _ (hlength p.close p.price),
      ← priceColumn_eq (hlength _ _), List.zip, ← keep_zipWith Prod.mk hprice.symm]
    exact congrArg ([·]) (running_keep _ _ (forall₂_map_counts _ _))

end Columns

/-- **Rows without the numbers that are needed can be left out.**  The columns of an average, a balance or an
average price are null on them, and on the other rows they are the columns of those rows alone. -/
theorem evaluate_keep {k : Indicator} (hk : k ∈ [ema, macd, obv, vwap]) (p : Params α) {column : Text → List α}
    {n : Nat} (hcolumn : ∀ name, (column name).length = n) :
    ∃ outputs, evaluate k p column = .ok outputs ∧ outputs.map Prod.fst = columns k p ∧
      (∀ output ∈ outputs, output.2.length = n ∧ Blank (usable k p column) output.2) ∧
      evaluate k p (fun name => keep (usable k p column) (column name)) =
        .ok (outputs.map fun output => (output.1, keep (usable k p column) output.2)) := by
  have hall : k ∈ all := by
    fin_cases hk <;> decide
  have hfits : p.Fits k := by
    fin_cases hk <;> trivial
  refine ⟨_, evaluate_eq hall hfits hcolumn, ?_, fun output houtput => ?_, ?_⟩
  · exact List.map_fst_zip (length_columns k p column).le
  · have hmem := (List.of_mem_zip houtput).2
    exact ⟨length_of_mem_series hcolumn hfits hmem, blank_series hk p hmem⟩
  · rw [evaluate_eq hall hfits (length_keep_usable hcolumn k p), series_keep hk p hcolumn, List.zip_map_right]
    rfl

/-- Of five rows, the third has neither price nor close and the fourth has no volume; the first takes the close for
its price. -/
theorem evaluate_keep_vwap :
    let column (name : Text) : List (Exact id fun _ => none) :=
      if name = "price" then [null, num 4, null, num 3, num 6]
      else if name = "volume" then [num 0, num 1, num 5, null, num 2]
      else [num 2, num 9, null, num 1, num 1]
    let p := (defaults vwap).withStd (num 2 : Exact id fun _ => none)
    let mask := [true, true, false, false, true]
    usable vwap p column = mask ∧
      ∃ outputs, evaluate vwap p column = .ok outputs ∧ outputs.map Prod.fst = [("vwap" : Text)] ∧
        (∀ output ∈ outputs, output.2.length = 5 ∧ Blank mask output.2) ∧
        evaluate vwap p (fun name => keep mask (column name)) =
          .ok (outputs.map fun output => (output.1, keep mask output.2)) := by
  intro column p mask
  have hmask : usable vwap p column = mask := by rfl
  refine ⟨hmask, ?_⟩
  rw [← hmask]
  refine evaluate_keep (by decide) p fun name => ?_
  simp only [column]
  split_ifs <;> rfl

end Indicator

end Dataflow
