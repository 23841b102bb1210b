import Dataflow.Frame.Lower
import Dataflow.Proofs.Frame.Rows
import Dataflow.Proofs.Series.Columnwise
import Dataflow.Proofs.Series.Double

/-!
# Indicators of rows and of frames

An indicator reads the cells of rows one by one: a truth value is one or zero, and a text that spells a
number is that number.  A frame has a type for each column, and a column that is not of numbers has no
number at all.  Where the columns that an indicator reads are uniform, both compute columns that are
empty in the same rows (`nulls_withIndicator`).
-/

namespace Dataflow.Indicator

open Arithmetic Series List Dataflow.Frame

def reads {α : Type} (k : Indicator) (p : Params α) : List Text :=
  match k with
  | sma | ema | wma | rsi | macd | bbands => [p.field]
  | stoch | cci | atr | adx => [p.high, p.low, p.close]
  | obv => [p.close, p.vol]
  | vwap => [p.price, p.close, p.vol]
  | other _ => []

section Reads

variable {α : Type} [Arithmetic α] {k : Indicator} {p : Params α} {column column' : Text → List α}

/-- An indicator depends on the columns that it reads only. -/
theorem columnwise_congr (h : ∀ name ∈ reads k p, column name = column' name) :
    Columnwise.values? k p column = Columnwise.values? k p column' := by
  cases k with
  | sma | ema | wma | rsi | macd | bbands =>
    simp only [Columnwise.values?, h p.field (by simp [reads])]
  | stoch | cci | atr | adx =>
    simp only [Columnwise.values?, h p.high (by simp [reads]), h p.low (by simp [reads]),
      h p.close (by simp [reads])]
  | obv => simp only [Columnwise.values?, h p.close (by simp [reads]), h p.vol (by simp [reads])]
  | vwap =>
    simp only [Columnwise.values?, priceColumn, h p.price (by simp [reads]),
      h p.close (by simp [reads]), h p.vol (by simp [reads])]
  | other name => rfl

end Reads

theorem nodup_columns {α : Type} (k : Indicator) (p : Params α) : (columns k p).Nodup := by
  cases k with
  | macd => exact (by decide : [("macd" : Text), "macd_signal", "macd_hist"].Nodup)
  | bbands => exact (by decide : [("bb_mid" : Text), "bb_upper", "bb_lower"].Nodup)
  | stoch => exact (by decide : [("stoch_k" : Text), "stoch_d"].Nodup)
  | other name => exact nodup_nil
  | _ => exact nodup_singleton _

/-! ### Prices and volumes -/

/-- The sums of price times volume and of volume over rows that have both. -/
def turnover {α : Type} [Arithmetic α] (start : α × α) (rows : List (α × α)) : α × α :=
  rows.foldl (fun (value, volume) (p, v) =>
    if isNull p || isNull v then (value, volume) else (value + p * v, volume + v)) start

/-- Sums of products that are numbers, where they are not divided. -/
theorem summable_of_turnover {α : Type} [Arithmetic α] {rows : List (α × α)} {value volume : α}
    (hproduct : ∀ row ∈ rows, isNull row.1 = false → isNull row.2 = false →
      isNull (row.1 * row.2) = false)
    (hsum : ∀ m, same (turnover (value, volume) (rows.take m)).2 (ofInt 0) = true →
      isNull (turnover (value, volume) (rows.take m)).1 = false) :
    Columnwise.Summable value volume rows := by
  induction rows generalizing value volume with
  | nil => trivial
  | cons row rows ih =>
    obtain ⟨p, v⟩ := row
    have hrest := fun row hrow => hproduct row (mem_cons_of_mem _ hrow)
    unfold Columnwise.Summable
    split
    · next hnull =>
      refine ih hrest fun m => ?_
      simpa only [turnover, take_succ_cons, foldl_cons, hnull, if_true] using hsum (m + 1)
    · next hnull =>
      obtain ⟨hp, hv⟩ := Bool.or_eq_false_iff.mp (Bool.eq_false_iff.mpr hnull)
      have hnext (m : Nat) := hsum (m + 1)
      simp only [turnover, take_succ_cons, foldl_cons, hp, hv, Bool.or_self,
        Bool.false_eq_true, if_false] at hnext
      exact ⟨hproduct (p, v) mem_cons_self hp hv, hnext 0, ih hrest hnext⟩

def trades (p : Params Float) (rows : List Row) : List (Float × Float) :=
  (priceColumn p (Row.column rows)).zip (Row.column rows p.vol)

/-- Wherever the volume so far comes to zero, the sum of price times volume is a number. -/
def Settled (p : Params Float) (rows : List Row) : Prop :=
  ∀ m, same (turnover (ofInt 0, ofInt 0) ((trades p rows).take m)).2 (ofInt 0) = true →
    isNull (turnover (ofInt 0, ofInt 0) ((trades p rows).take m)).1 = false

/-- The numbers of a uniform column of plain cells are finite. -/
theorem isFinite_of_mem_column {rows : List Row} (hplain : Row.Plain rows) {name : Text}
    (huniform : Row.Uniform rows name) {x : Float} (hx : x ∈ Row.column rows name)
    (hnull : x.isNaN = false) : x.isFinite = true := by
  obtain ⟨r, hr, rfl⟩ := mem_map.mp hx
  cases hfloat : Row.float? r name with
  | none =>
    rw [hfloat, Option.getD_none, (Double.isNaN_iff_eq _).mpr rfl] at hnull
    cases hnull
  | some y =>
    rcases huniform with hnumbers | hnone
    · unfold Row.float? at hfloat
      split at hfloat
      · cases hfloat
      · cases hfloat
      · next v _ hget =>
        rcases hnumbers r hr v hget with rfl | ⟨z, rfl⟩
        · cases (Option.filter_eq_some_iff.mp hfloat).1
        · obtain rfl : z = y := Option.some.inj (Option.filter_eq_some_iff.mp hfloat).1
          exact hplain r hr _ (Fields.mem_of_get? hget)
    · rw [hnone r hr] at hfloat
      cases hfloat

/-- Products of price and volume are numbers. -/
theorem isNull_mul_of_mem_trades {rows : List Row} (hplain : Row.Plain rows) {p : Params Float}
    (huniform : ∀ name ∈ reads vwap p, Row.Uniform rows name) {row : Float × Float}
    (hrow : row ∈ trades p rows) (hprice : isNull row.1 = false) (hvol : isNull row.2 = false) :
    isNull (row.1 * row.2) = false := by
  obtain ⟨hmem, hmem'⟩ := of_mem_zip hrow
  have hfinite {name : Text} (hname : name ∈ reads vwap p) {x : Float}
      (hx : x ∈ Row.column rows name) (hnull : isNull x = false) : x.isFinite = true :=
    isFinite_of_mem_column hplain (huniform name hname) hx hnull
  refine Double.isNaN_mul ?_ (hfinite (by simp [reads]) hmem' hvol)
  -- a price is that of its column or the close
  obtain ⟨i, hi, hx⟩ := mem_mapIdx.mp hmem
  split at hx
  · next hempty =>
    rcases Nat.lt_or_ge i (Row.column rows p.close).length with hrow | hrow
    · rw [getD_eq_getElem _ _ hrow] at hx
      rw [← hx] at hprice ⊢
      exact hfinite (by simp [reads]) (getElem_mem hrow) hprice
    · rw [getD_eq_default _ _ hrow] at hx
      rw [← hx, hempty] at hprice
      cases hprice
  · rw [← hx] at hprice ⊢
    exact hfinite (by simp [reads]) (getElem_mem hi) hprice

/-! ### Agreement -/

/-- The values under a name in two lists of related values. -/
theorem exists_mem_zip {α β : Type} {R : α → β → Prop} {names : List Text} {xs : List α} {ys : List β}
    (h : Forall₂ R xs ys) (hlength : names.length = xs.length) {name : Text} (hname : name ∈ names) :
    ∃ x y, (name, x) ∈ names.zip xs ∧ (name, y) ∈ names.zip ys ∧ R x y := by
  induction h generalizing names with
  | nil => simp_all
  | cons hxy h ih =>
    cases names with
    | nil => simp at hlength
    | cons n names =>
      rcases mem_cons.mp hname with rfl | hmem
      · exact ⟨_, _, mem_cons_self, mem_cons_self, hxy⟩
      · obtain ⟨x, y, hx, hy, hR⟩ := ih (by simpa using hlength) hmem
        exact ⟨x, y, mem_cons_of_mem _ hx, mem_cons_of_mem _ hy, hR⟩

/-- Series that coincide are empty in the same rows. -/
theorem isNull_getD {α : Type} [Arithmetic α] [LawfulArithmetic α] {xs ys : List α}
    (h : Forall₂ Coincide xs ys) (d : α) (i : Nat) : isNull (xs.getD i d) = isNull (ys.getD i d) := by
  induction h generalizing i with
  | nil => rfl
  | cons hxy h ih =>
    cases i with
    | zero => exact hxy.isNull_eq
    | succ i => exact ih i

theorem cell_eq_null_iff (x : Float) : Row.cell x = .null ↔ x.isNaN = true := by
  unfold Row.cell
  split <;> simp_all

/-- **Rows and frames have the same empty cells.**  Settings that pass their checks, plain cells and
columns that are read uniformly give an indicator as many rows from a frame as from the rows, and its
columns are empty in the same places. -/
theorem nulls_withIndicator {k : Indicator} (hk : k ∈ all) {config : Row} {p : Params Float}
    (hp : params k config = .ok p) (hmax : k = rsi → p.window ≠ Int64.maxValue) {rows : List Row}
    (hplain : Row.Plain rows) {r : Row} (hr : r ∈ rows) (hne : r ≠ [])
    (huniform : ∀ name ∈ reads k p, Row.Uniform rows name)
    (hsettled : k = vwap → Settled p rows) :
    ∃ f g out, Frame.ofRows rows = .ok f ∧ f.withIndicator k p = .ok g ∧
      compute k p rows = .ok out ∧ g.rows = rows.length ∧ out.length = rows.length ∧
      ∀ name ∈ columns k p, ∃ c, g.column? name = some c ∧ c.length = rows.length ∧
        ∀ i < rows.length, c.value i = .null ↔ Fields.get? (out.getD i []) name = some .null := by
  have hcolumn := Row.length_column rows
  have hfits : p.Fits k := fits_of_params hp hmax p.std
  have hframe := ofRows_eq hplain
  obtain ⟨hcolumns, hrows⟩ := rows_ofRows hplain hframe hr hne
  obtain ⟨values, hvalues, hcoincide⟩ := Columnwise.values?_coincide hfits
    (fun _ => List.length_pos_of_mem hr) hcolumn fun hk => summable_of_turnover
      (fun row hrow => isNull_mul_of_mem_trades hplain (hk ▸ huniform) hrow) (hsettled hk)
  -- the frame has the columns of the rows
  have hread := columnwise_congr fun name hname =>
    series_ofRows hplain hframe hr hne (huniform name hname)
  refine ⟨_, _, _, hframe, by rw [withIndicator, hread, hvalues]; rfl,
    by rw [compute, evaluate_eq hk hfits hcolumn]; rfl, ?_, by simp, fun name hname => ?_⟩
  · exact (rows_foldl_withColumn _ hcolumns).trans hrows
  · have hlength := length_columns k p (Row.column rows)
    obtain ⟨xs, ys, hxs, hys, hcells⟩ := exists_mem_zip hcoincide hlength hname
    have hrow := length_of_mem_series hcolumn hfits (List.of_mem_zip hxs).2
    have hnames {zs : List (List Float)} (hzs : (columns k p).length ≤ zs.length) :
        (((columns k p).zip zs).map Prod.fst).Nodup := by
      rw [List.map_fst_zip hzs]
      exact nodup_columns k p
    refine ⟨_, column?_foldl_withColumn (hnames (by rw [hlength, hcoincide.length_eq])) _ hys, ?_,
      fun i hi => ?_⟩
    · rw [Column.ofFloats, Column.length, List.length_map, ← hcells.length_eq, hrow]
    · have hnodup := hnames (Nat.le_of_eq hlength)
      have hout := Fields.get?_foldl_set hnodup (fun xs => Row.cell (xs.getD i Float64.nan)) rows[i] name
      rw [Fields.get?_of_mem hnodup hxs] at hout
      rw [getD_mapIdx _ hi, value_ofFloats, hout, Option.map_some, Option.some_or, Option.some.injEq,
        cell_eq_null_iff, cell_eq_null_iff]
      exact (Bool.eq_iff_iff.mp (isNull_getD hcells Float64.nan i)).symm

/-- Prices and volumes with a missing price, an empty close, a column of texts beside them and a first
volume of zero. -/
theorem nulls_withIndicator_vwap :
    let rows : List Row :=
      [[("close", .float 2), ("note", .text "x"), ("volume", .float 0)],
       [("close", .null), ("volume", .float 9)],
       [("price", .float 3), ("volume", .float 5)]]
    let p := defaults vwap
    params vwap [] = .ok p ∧ Row.Plain rows ∧ (∀ name ∈ reads vwap p, Row.Uniform rows name) ∧
      Settled p rows ∧
      ∃ f g out, ofRows rows = .ok f ∧ f.withIndicator vwap p = .ok g ∧
        compute vwap p rows = .ok out ∧ g.rows = 3 ∧ out.length = 3 ∧
        ∀ name ∈ columns vwap p, ∃ c, g.column? name = some c ∧ c.length = 3 ∧
          ∀ i < 3, c.value i = .null ↔ Fields.get? (out.getD i []) name = some .null := by
  intro rows p
  have hparams : params vwap [] = .ok p := by rfl
  have hplain : Row.Plain rows := by
    simp only [rows, Row.Plain, Value.Plain, List.forall_mem_cons, List.not_mem_nil, false_imp_iff,
      implies_true, and_true, true_and]
    exact ⟨⟨rfl, rfl⟩, rfl, rfl, rfl⟩
  have huniform : ∀ name ∈ reads vwap p, Row.Uniform rows name := by
    have hreads : ("note" : Text) ∉ reads vwap p := by decide
    intro name hname
    have hnote : name ≠ "note" := fun heq => hreads (heq ▸ hname)
    refine .inl fun r hr v hget => ?_
    have hcell := Fields.mem_of_get? hget
    rcases List.mem_cons.mp hr with rfl | hr
    · grind
    · grind
  have hsettled : Settled p rows := by
    have htrades : trades p rows = [(2, 0), (Float64.nan, 9), (3, 5)] := by
      simp only [rows, p]
      rfl
    intro m
    rw [htrades]
    match m with
    | 0 => exact fun _ => by rfl
    | 1 => exact fun _ => by rfl
    | 2 => exact fun _ => by rfl
    | m + 3 =>
      rw [List.take_of_length_le (by simp)]
      exact fun h => absurd h (by rw [Bool.not_eq_true]; rfl)
  exact ⟨hparams, hplain, huniform, hsettled, nulls_withIndicator (by decide) hparams (by decide) hplain
    List.mem_cons_self (by simp) huniform fun _ => hsettled⟩

/-- A truth value is one to the rows, but a column of truth values has no number. -/
theorem bool_withIndicator_ne :
    let rows : List Row := [[("close", .bool true)]]
    params ema [] = .ok (defaults ema) ∧ Row.Plain rows ∧
      ∃ f g out c, ofRows rows = .ok f ∧ f.withIndicator ema (defaults ema) = .ok g ∧
        compute ema (defaults ema) rows = .ok out ∧ columns ema (defaults ema) = [("ema_14" : Text)] ∧
        g.column? "ema_14" = some c ∧ c.value 0 = .null ∧
        Fields.get? (out.getD 0 []) "ema_14" = some (.float 1) := by
  intro rows
  have hplain : Row.Plain rows := by
    simp only [rows, Row.Plain, Value.Plain, List.forall_mem_cons, List.not_mem_nil, false_imp_iff,
      implies_true, and_true]
  obtain ⟨f, hframe⟩ : ∃ f, ofRows rows = .ok f := ⟨_, ofRows_eq hplain⟩
  obtain ⟨-, hrows⟩ := rows_ofRows hplain hframe List.mem_cons_self (by simp)
  have hseries : f.series "close" = [Float64.nan] :=
    (series_ofRows_eq_nan hplain hframe
      (Row.mem_columns.mpr ⟨_, List.mem_cons_self, List.mem_cons_self⟩) (.inl rfl)).trans
      (by rw [hrows]; rfl)
  have hvalues : Columnwise.values? ema (defaults ema) f.series = some [[Float64.nan]] := by
    change some [Columnwise.ewm (f.series "close") _] = _
    rw [hseries, Columnwise.ewm, Columnwise.scan, Columnwise.ewmStep, if_pos (by rfl)]
    rfl
  refine ⟨by rfl, hplain, _, _, _, Column.ofFloats [Float64.nan], hframe,
    by rw [withIndicator, hvalues]; rfl, by simp only [rows]; rfl, by rfl, ?_, ?_, by rfl⟩
  · exact (column?_withColumn _ _ _ _).trans (if_pos rfl)
  · rw [value_ofFloats, cell_eq_null_iff]
    rfl

end Dataflow.Indicator
