import Dataflow.Proofs.Frame.Shape
import Dataflow.Proofs.Indicator.Agreement

/-!
# Indicators stay within their rows

A series that would be read outside its rows makes an indicator crash.  Windows are 64-bit integers, and the
number of the row after a window may wrap around: the strength index takes the largest window for one that ends
before the first row (`compute_crash_iff`), and no other indicator is misled.  Rows keep all columns but those of the
indicator, which have a number or null in every row (`compute_rows`).  Column by column, the rows are
moved down by one to find the close before, which needs a row: `Frame.withIndicator_crash_iff` says of all frames
which lack it, and that else the frame keeps its rows and all columns but those that are added.
-/

namespace Dataflow

open List hiding all

/-! ### Rows -/

namespace Series

variable {α : Type} [Arithmetic α]

/-- After the largest window comes the row with the least number. -/
theorem rsi?_maxValue (xs : List α) : rsi? xs Int64.maxValue = none := by
  have hfirst : (Int64.maxValue + 1).toInt = -2 ^ 63 := by decide
  have hguard : ¬ (xs.length : Int) ≤ (Int64.maxValue + 1).toInt := by
    rw [hfirst]
    omega
  simp only [rsi?]
  rw [if_neg hguard, if_pos (by decide)]

end Series

namespace Indicator

theorem compute_rsi {p : Params Float} (h : p.window = Int64.maxValue) (rows : List Row) :
    compute rsi p rows = Outcome.crash := by
  simp only [compute, evaluate, values?, h, Series.rsi?_maxValue]
  rfl

/-- **Of all indicators and settings that pass their checks, only a strength index with the largest window
leaves its rows**, and it does on all rows.  Else each column has a cell for every row. -/
theorem compute_crash_iff {k : Indicator} (hk : k ∈ all) {config : Row} {p : Params Float}
    (hp : params k config = .ok p) (rows : List Row) :
    (compute k p rows = Outcome.crash ↔ k = rsi ∧ p.window = Int64.maxValue) ∧
    (¬ (k = rsi ∧ p.window = Int64.maxValue) →
      ∃ outputs out, evaluate k p (Row.column rows) = .ok outputs ∧ outputs.map Prod.fst = columns k p ∧
        (∀ output ∈ outputs, output.2.length = rows.length) ∧
        compute k p rows = .ok out ∧ out.length = rows.length) := by
  have hcolumn := Row.length_column rows
  have hfits (hmax : ¬ (k = rsi ∧ p.window = Int64.maxValue)) : p.Fits k :=
    fits_of_params hp (fun hk hwindow => hmax ⟨hk, hwindow⟩) p.std
  have hevaluate (hmax : ¬ (k = rsi ∧ p.window = Int64.maxValue)) := evaluate_eq hk (hfits hmax) hcolumn
  refine ⟨⟨fun hcrash => ?_, ?_⟩, fun hmax => ⟨_, _, hevaluate hmax,
    List.map_fst_zip (Nat.le_of_eq (length_columns k p _)), fun output houtput => ?_,
    by rw [compute, hevaluate hmax]; rfl, by simp⟩⟩
  · by_contra hmax
    rw [compute, hevaluate hmax] at hcrash
    cases hcrash
  · rintro ⟨rfl, hwindow⟩
    exact compute_rsi hwindow rows
  · exact length_of_mem_series hcolumn (hfits hmax) (List.of_mem_zip houtput).2

/-- Twice this window is the least integer, so that the guard of a directional index lets two rows pass; the
index has no number there, and does not crash. -/
theorem compute_crash_iff_adx :
    let p := { defaults adx with window := 4611686018427387904 }
    let rows : List Row := [[("close", .float 2), ("high", .float 3), ("low", .float 1)], [("close", .float 4)]]
    params adx [("window", .int 4611686018427387904)] = .ok p ∧ (2 * p.window).toInt = -2 ^ 63 ∧
      compute adx p rows ≠ Outcome.crash ∧
      ∃ outputs out, evaluate adx p (Row.column rows) = .ok outputs ∧ outputs.map Prod.fst = columns adx p ∧
        (∀ output ∈ outputs, output.2.length = 2) ∧ compute adx p rows = .ok out ∧ out.length = 2 := by
  intro p rows
  have hparams : params adx [("window", .int 4611686018427387904)] = .ok p := by cbv
  have hother : ¬ (adx = rsi ∧ p.window = Int64.maxValue) := fun h => by cases h.1
  obtain ⟨hcrash, hok⟩ := compute_crash_iff (by decide) hparams rows
  exact ⟨hparams, by decide, fun h => hother (hcrash.mp h), hok hother⟩

/-- A strength index with the largest window passes its checks, and crashes on no rows and on one. -/
theorem compute_largest_crash :
    let p := { defaults rsi with window := Int64.maxValue }
    params rsi [("window", .int Int64.maxValue)] = .ok p ∧ compute rsi p [] = Outcome.crash ∧
      compute rsi p [[("close", .float 1)]] = Outcome.crash :=
  ⟨by cbv, compute_rsi rfl _, compute_rsi rfl _⟩

/-- **What an indicator makes of rows**: as many rows in their order, each with its other columns as they were and
under every column of the indicator the number of the series at the row, or null for none. -/
theorem compute_rows {k : Indicator} (hk : k ∈ all) {config : Row} {p : Params Float}
    (hp : params k config = .ok p) (hwindow : p.window.toInt < 2 ^ 62) (rows : List Row) :
    ∃ outputs out, evaluate k p (Row.column rows) = .ok outputs ∧ outputs.map Prod.fst = columns k p ∧
      (∀ output ∈ outputs, output.2.length = rows.length) ∧
      compute k p rows = .ok out ∧ out.length = rows.length ∧
      ∀ (i : Nat) r, rows[i]? = some r → ∃ r', out[i]? = some r' ∧
        (∀ name ∉ columns k p, Fields.get? r' name = Fields.get? r name) ∧
        ∀ output ∈ outputs, ∃ x, output.2[i]? = some x ∧
          Fields.get? r' output.1 = some (if x.isNaN then .null else .float x) := by
  have hfits : p.Fits k := fits_of_params_of_lt hp hwindow p.std
  have hcolumn := Row.length_column rows
  have hevaluate := evaluate_eq hk hfits hcolumn
  have hnames := List.map_fst_zip (Nat.le_of_eq (length_columns k p (Row.column rows)))
  have hlength : ∀ output ∈ (columns k p).zip (series k p (Row.column rows)), output.2.length = rows.length :=
    fun output houtput => length_of_mem_series hcolumn hfits (List.of_mem_zip houtput).2
  refine ⟨_, _, hevaluate, hnames, hlength, by rw [compute, hevaluate]; rfl, by simp, fun i r hr => ?_⟩
  obtain ⟨hi, rfl⟩ := List.getElem?_eq_some_iff.mp hr
  have hnodup : (((columns k p).zip (series k p (Row.column rows))).map Prod.fst).Nodup := by
    rw [hnames]
    exact nodup_columns k p
  have hget := Fields.get?_foldl_set hnodup (fun xs => Row.cell (xs.getD i Float64.nan)) rows[i]
  refine ⟨_, List.getElem?_eq_some_iff.mpr ⟨by simpa using hi, List.getElem_mapIdx⟩, ?_, ?_⟩
  · intro name hname
    rw [← hnames] at hname
    rw [hget, Fields.get?_eq_none hname]
    rfl
  · rintro ⟨name, xs⟩ houtput
    have hxs : i < xs.length := (hlength _ houtput).symm ▸ hi
    refine ⟨xs[i], List.getElem?_eq_getElem hxs, ?_⟩
    rw [hget, Fields.get?_of_mem hnodup houtput, Option.map_some, List.getD_eq_getElem _ _ hxs]
    rfl

/-- A row that lacks the field, and has a text under the name of the mean. -/
theorem compute_rows_sma :
    let p := { defaults sma with window := 1 }
    let rows : List Row := [[("close", .float 2), ("note", .text "a")], [("sma_1", .text "b")]]
    params sma [("window", .int 1)] = .ok p ∧ columns sma p = [("sma_1" : Text)] ∧
      ∃ out, compute sma p rows = .ok out ∧ out.length = 2 ∧
        ∀ (i : Nat) r, rows[i]? = some r → ∃ r', out[i]? = some r' ∧
          (∀ name ∉ [("sma_1" : Text)], Fields.get? r' name = Fields.get? r name) ∧
          ∃ x : Float, Fields.get? r' "sma_1" = some (if x.isNaN then .null else .float x) := by
  intro p rows
  have hparams : params sma [("window", .int 1)] = .ok p := by cbv
  have hcolumns : columns sma p = [("sma_1" : Text)] := by cbv
  obtain ⟨outputs, out, -, hnames, -, hout, hlength, hrows⟩ :=
    compute_rows (by decide) hparams (by decide) rows
  rw [hcolumns] at hnames hrows
  refine ⟨hparams, hcolumns, out, hout, hlength, fun i r hr => ?_⟩
  obtain ⟨r', hr', hothers, hadded⟩ := hrows i r hr
  obtain ⟨output, rfl, hname⟩ := List.map_eq_singleton_iff.mp hnames
  obtain ⟨x, -, hx⟩ := hadded _ List.mem_cons_self
  exact ⟨r', hr', hothers, x, hname ▸ hx⟩

end Indicator

/-! ### Frames -/

namespace Columnwise

open Indicator Series

variable {α : Type} [Arithmetic α] [LawfulArithmetic α] {k : Indicator} {p : Params α}
  {column : Text → List α} {n : Nat}

/-- There are as many columns as series, with a row for every row. -/
theorem exists_values? (hp : p.Fits k) (hrows : k = atr ∨ k = adx ∧ (2 * p.window).toInt ≤ 0 → 0 < n)
    (hcolumn : ∀ name, (column name).length = n) :
    ∃ columns, values? k p column = some columns ∧ columns.length = (series k p column).length ∧
      ∀ xs ∈ columns, xs.length = n := by
  by_cases hk : k = .vwap
  · subst hk
    have hvol : (priceColumn p column).length ≤ (column p.vol).length := by
      rw [hcolumn, length_priceColumn hcolumn]
    obtain ⟨xs, hxs, hlength⟩ : ∃ xs, vwap? (priceColumn p column) (column p.vol) = some xs ∧
        xs.length = n := by
      refine ⟨_, by simp only [vwap?, zip?_eq hvol]; rfl, ?_⟩
      rw [length_mapIdx, length_priceColumn hcolumn]
    exact ⟨[xs], by simp only [values?, hxs]; rfl, rfl, by simpa using hlength⟩
  · obtain ⟨columns, hvalues, hcoincide⟩ := values?_coincide hp hrows hcolumn (absurd · hk)
    refine ⟨columns, hvalues, hcoincide.length_eq.symm, fun xs hxs => ?_⟩
    obtain ⟨ys, hys, hcells⟩ := exists_mem_of_forall₂ hcoincide.flip hxs
    rw [← Forall₂.length_eq hcells, length_of_mem_series hcolumn hp hys]

end Columnwise

namespace Frame

open Indicator

variable {f g : Frame} {names : List Text}

theorem filter_columns_withColumn {name : Text} (h : name ∈ names) (f : Frame) (c : Column) :
    (f.withColumn name c).columns.filter (·.1 ∉ names) = f.columns.filter (·.1 ∉ names) := by
  rw [columns_withColumn]
  induction f.columns with
  | nil => simp [Fields.adjust, h]
  | cons e columns ih =>
    rw [Fields.adjust]
    split
    · next heq => simp [heq, h]
    · rw [filter_cons, filter_cons, ih]

/-- What setting columns under some names leaves as it is: the number of rows, the columns under other names,
and that all columns have that many rows. -/
structure Keeps (names : List Text) (f g : Frame) : Prop where
  rows : g.rows = f.rows
  others : g.columns.filter (·.1 ∉ names) = f.columns.filter (·.1 ∉ names)
  rectangular : f.Rectangular → g.Rectangular

theorem Keeps.withColumn (h : Keeps names f g) {name : Text} (hname : name ∈ names) {c : Column}
    (hc : c.length = f.rows) : Keeps names f (g.withColumn name c) where
  rows := by
    rw [← h.rows]
    unfold Frame.withColumn
    split
    · rfl
    · show (if g.columns.isEmpty then c.length else g.rows) = g.rows
      rw [hc, ← h.rows, ite_self]
  others := (filter_columns_withColumn hname g c).trans h.others
  rectangular hf := (h.rectangular hf).withColumn name (hc.trans h.rows.symm)

theorem Keeps.foldl_withColumn (h : Keeps names f g) {outputs : List (Text × List Float)}
    (houtputs : ∀ output ∈ outputs, output.1 ∈ names ∧ output.2.length = f.rows) :
    Keeps names f (outputs.foldl (fun g (name, xs) => g.withColumn name (Column.ofFloats xs)) g) := by
  induction outputs generalizing g with
  | nil => exact h
  | cons output outputs ih =>
    obtain ⟨⟨hname, hlength⟩, hrest⟩ := forall_mem_cons.mp houtputs
    exact ih (h.withColumn hname ((length_map _).trans hlength)) hrest

theorem length_series (f : Frame) (name : Text) : (f.series name).length = f.rows := by
  unfold series floats
  split <;> simp

/-- There is no close before where there is no row. -/
theorem withIndicator_atr (h : f.rows = 0) (p : Params Float) : f.withIndicator atr p = Outcome.crash := by
  have hempty (name : Text) : f.series name = [] := length_eq_zero_iff.mp ((f.length_series name).trans h)
  simp only [withIndicator, Columnwise.values?, hempty]
  rfl

/-- **Only the average range of a frame without rows is read outside of it.**  Every other indicator whose
settings pass their checks gives a frame with its columns, which keeps all else. -/
theorem withIndicator_crash_iff {k : Indicator} (hk : k ∈ all) {config : Row} {p : Params Float}
    (hp : params k config = .ok p) (hwindow : p.window.toInt < 2 ^ 62) (f : Frame) :
    (f.withIndicator k p = Outcome.crash ↔ k = atr ∧ f.rows = 0) ∧
    (¬ (k = atr ∧ f.rows = 0) → ∃ g, f.withIndicator k p = .ok g ∧ Keeps (Indicator.columns k p) f g ∧
      ∀ name ∈ Indicator.columns k p, ∃ c, g.column? name = some c ∧ c.length = f.rows) := by
  have hfits : p.Fits k := fits_of_params_of_lt hp hwindow p.std
  have hcolumns (hrows : ¬ (k = atr ∧ f.rows = 0)) :
      ∃ g, f.withIndicator k p = .ok g ∧ Keeps (Indicator.columns k p) f g ∧
        ∀ name ∈ Indicator.columns k p, ∃ c, g.column? name = some c ∧ c.length = f.rows := by
    have hmoved (h : k = atr ∨ k = adx ∧ (2 * p.window).toInt ≤ 0) : 0 < f.rows := by
      rcases h with rfl | ⟨rfl, hwrap⟩
      · exact Nat.pos_of_ne_zero fun hzero => hrows ⟨rfl, hzero⟩
      · have hdouble := Series.toInt_two_mul hfits hwindow
        have hpos : 0 < p.window.toInt := hfits
        omega
    obtain ⟨values, hvalues, hcount, hlength⟩ := Columnwise.exists_values? hfits hmoved f.length_series
    have hnames : (Indicator.columns k p).length = values.length := by rw [hcount, length_columns]
    refine ⟨_, by rw [withIndicator, hvalues]; rfl, ?_, fun name hname => ?_⟩
    · refine Keeps.foldl_withColumn ⟨rfl, rfl, id⟩ fun output houtput => ?_
      obtain ⟨hname, hvalue⟩ := List.of_mem_zip houtput
      exact ⟨hname, hlength _ hvalue⟩
    · have hsame : List.Forall₂ Eq values values := List.forall₂_same.mpr fun _ _ => rfl
      obtain ⟨xs, -, hmem, -⟩ := exists_mem_zip hsame hnames hname
      have hnodup : (((Indicator.columns k p).zip values).map Prod.fst).Nodup := by
        rw [List.map_fst_zip (Nat.le_of_eq hnames)]
        exact nodup_columns k p
      refine ⟨_, column?_foldl_withColumn hnodup f hmem, ?_⟩
      exact (List.length_map _).trans (hlength _ (List.of_mem_zip hmem).2)
  refine ⟨⟨fun hcrash => ?_, ?_⟩, hcolumns⟩
  · by_contra hrows
    obtain ⟨g, hok, -⟩ := hcolumns hrows
    rw [hok] at hcrash
    cases hcrash
  · rintro ⟨rfl, hrows⟩
    exact withIndicator_atr hrows p

/-- The directional index of a frame from which all rows are gone takes the place of the text column of its name,
and leaves the column of notes. -/
theorem withIndicator_crash_iff_adx :
    let f : Frame := { columns := [("adx_14", .text []), ("note", .text [])] }
    params adx [] = .ok (defaults adx) ∧ f.withIndicator adx (defaults adx) ≠ Outcome.crash ∧
      Indicator.columns adx (defaults adx) = [("adx_14" : Text)] ∧
      ∃ g, f.withIndicator adx (defaults adx) = .ok g ∧ Keeps [("adx_14" : Text)] f g ∧
        ∃ c, g.column? "adx_14" = some c ∧ c.length = 0 := by
  intro f
  have hparams : params adx [] = .ok (defaults adx) := by rfl
  have hcolumns : Indicator.columns adx (defaults adx) = [("adx_14" : Text)] := by rfl
  have hother : ¬ (adx = atr ∧ f.rows = 0) := fun h => by cases h.1
  obtain ⟨hcrash, hok⟩ := withIndicator_crash_iff (by decide) hparams (by decide) f
  obtain ⟨g, hg, hkeeps, hadded⟩ := hok hother
  rw [hcolumns] at hkeeps hadded
  exact ⟨hparams, fun h => hother (hcrash.mp h), hcolumns, g, hg, hkeeps, hadded _ List.mem_cons_self⟩

/-- The average range crashes on the frame of a bar that a filter takes out. -/
theorem withIndicator_atr_crash :
    let f : Frame := { columns := [("close", .float [some 2]), ("high", .float [some 3]), ("low", .float [some 1])]
                       rows := 1 }
    params atr [] = .ok (defaults atr) ∧ (f.pick []).rows = 0 ∧
      (f.pick []).withIndicator atr (defaults atr) = Outcome.crash :=
  ⟨by rfl, by rfl, withIndicator_atr rfl _⟩

end Frame

end Dataflow
