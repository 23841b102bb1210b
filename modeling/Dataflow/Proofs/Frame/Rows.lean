import Dataflow.Proofs.Decimal.Binary
import Dataflow.Proofs.Frame.Columns

/-!
# Rows through a frame

A frame gives its rows back in a normal form (`Row.normal`): a column of numbers has doubles, one of truth
values keeps them, and any other has texts.  Rows in normal form stay as they are.

Among *plain* cells — empty, a finite number, a truth value or a text — a column of numbers keeps them, and
one in which no cell stands for a number has none (`Frame.series_ofRows`); in between the frame loses what
the rows would give, since its column has no number as soon as one cell is no number.

A table is *typed* if the cells of each column are finite numbers, truth values or texts, with empty ones
among them.  The frame of a typed table keeps every cell and has an explicit null for every cell that a row
lacks: its rows are those of the table, filled up to all of its columns (`Frame.toRows_framed`).
-/

namespace Dataflow

open List Value Fields

variable {r : Row} {rows : List Row} {name : Text} {v : Value} {t : ColumnType} {f : Frame}

/-! ### Cells -/

namespace Fields

variable {α : Type}

theorem get?_ofList_map (g : Text → α) (names : List Text) (name : Text) :
    get? (ofList (names.map fun n => (n, g n))) name = if name ∈ names then some (g name) else none := by
  rw [get?_ofList, ← map_reverse]
  exact (Frame.find?_map_pair g _ name).trans (if_congr mem_reverse rfl rfl)

end Fields

namespace Row

/-- The cell under a name; one that the row lacks is null. -/
def read (r : Row) (name : Text) : Value := (get? r name).getD .null

/-- The rows have the same cells, where one that is lacking counts as null. -/
def Same (r r' : Row) : Prop := ∀ name, read r name = read r' name

/-- The row with a cell for each of the names. -/
def filled (names : List Text) (r : Row) : Row := ofList (names.map fun name => (name, read r name))

theorem ascending_filled (names : List Text) (r : Row) : Fields.Ascending (filled names r) :=
  ascending_ofList _

theorem get?_filled (names : List Text) (r : Row) (name : Text) :
    get? (filled names r) name = if name ∈ names then some (read r name) else none :=
  get?_ofList_map (read r) names name

theorem read_filled (names : List Text) (r : Row) (name : Text) :
    read (filled names r) name = if name ∈ names then read r name else .null := by
  rw [read, get?_filled]
  split <;> rfl

theorem read_eq_null (hr : r ∈ rows) (h : name ∉ columns rows) : read r name = .null := by
  rw [read, get?_eq_none fun hmem => h (mem_columns.mpr ⟨r, hr, hmem⟩)]
  rfl

/-- A row filled up to all columns of its table has the same cells. -/
theorem same_filled (hr : r ∈ rows) : Same (filled (columns rows) r) r := by
  intro name
  rw [read_filled]
  split
  · rfl
  · next h => exact (read_eq_null hr h).symm

theorem filled_congr {names names' : List Text} (h : ∀ name, name ∈ names ↔ name ∈ names') (r : Row) :
    filled names r = filled names' r := by
  refine Fields.Ascending.ext (ascending_filled names r) (ascending_filled names' r) fun name => ?_
  rw [get?_filled, get?_filled]
  exact if_congr (h name) rfl rfl

end Row

/-! ### Normal forms -/

/-- The double of a number of any type. -/
def Value.double? : Value → Option Float
  | .float x => some x
  | .single x => some x.toFloat
  | .int n => some (Float64.ofInt n.toInt)
  | .sized _ n => some (Float64.ofInt n)
  | _ => none

def Value.isNull : Value → Bool
  | .null => true
  | _ => false

namespace Row

/-- All cells of a column that are not null satisfy a condition. -/
def every (ok : Value → Bool) (rows : List Row) (name : Text) : Bool :=
  rows.all fun r => (read r name).isNull || ok (read r name)

theorem every_eq_true {ok : Value → Bool} :
    every ok rows name = true ↔ ∀ r ∈ rows, read r name ≠ .null → ok (read r name) = true := by
  have hcell (v : Value) : (v.isNull || ok v) = true ↔ (v ≠ .null → ok v = true) := by
    cases v <;> simp [isNull]
  simp only [every, all_eq_true, hcell]

/-- What a frame makes of a cell: a double in a column of numbers, the same in one of truth values, and
the text of the cell in any other.  Null and not-a-number are null. -/
def normal (rows : List Row) (name : Text) (v : Value) : Value :=
  if v.isNull then .null
  else if every (·.double?.isSome) rows name then v.double?.elim .null cell
  else if every (·.bool?.isSome) rows name then v
  else .text (v.toText?.getD "")

def normalized (rows : List Row) (r : Row) : Row :=
  ofList ((columns rows).map fun name => (name, normal rows name (read r name)))

end Row

/-! ### Typed tables -/

/-- A cell of a column of a type: null, or a finite number, a truth value or a text as the type says. -/
def Value.fits : ColumnType → Value → Bool
  | _, .null => true
  | .float, .float x => x.isFinite
  | .bool, .bool _ => true
  | .text, .text _ => true
  | _, _ => false

def Value.Fits (t : ColumnType) (v : Value) : Prop := v.fits t = true

instance (t : ColumnType) (v : Value) : Decidable (v.Fits t) := inferInstanceAs (Decidable (_ = true))

theorem Value.fits_null (t : ColumnType) : null.Fits t := by cases t <;> rfl

theorem Value.Fits.cases (h : v.Fits t) : v = .null ∨ (∃ x, t = .float ∧ v = .float x ∧ x.isFinite = true) ∨
      (∃ b, t = .bool ∧ v = .bool b) ∨ ∃ s, t = .text ∧ v = .text s := by
  cases v with
  | null => exact .inl rfl
  | float x =>
    cases t with
    | float => exact .inr (.inl ⟨x, rfl, rfl, h⟩)
    | _ => cases h
  | bool b =>
    cases t with
    | bool => exact .inr (.inr (.inl ⟨b, rfl, rfl⟩))
    | _ => cases h
  | text s =>
    cases t with
    | text => exact .inr (.inr (.inr ⟨s, rfl, rfl⟩))
    | _ => cases h
  | _ => cases t <;> cases h

/-- A cell as frames give it back from a column of a type. -/
def Value.Settled (t : ColumnType) (v : Value) : Prop :=
  v = .null ∨ (∃ x, t = .float ∧ v = .float x ∧ x.isNaN = false) ∨
    (∃ b, t = .bool ∧ v = .bool b) ∨ ∃ s, t = .text ∧ v = .text s

theorem Value.Fits.settled (h : v.Fits t) : v.Settled t := by
  rcases h.cases with hv | ⟨x, ht, hv, hx⟩ | hv | hv
  · exact .inl hv
  · exact .inr (.inl ⟨x, ht, hv, (Binary.not_special_of_isFinite hx).2⟩)
  · exact .inr (.inr (.inl hv))
  · exact .inr (.inr (.inr hv))

theorem Value.Settled.columnType? (h : v.Settled t) (hv : v ≠ .null) : v.columnType? = some t := by
  rcases h with rfl | ⟨x, rfl, rfl, -⟩ | ⟨b, rfl, rfl⟩ | ⟨s, rfl, rfl⟩
  · exact absurd rfl hv
  all_goals rfl

theorem Value.columnType?_eq_none : v.columnType? = none ↔ v = .null := by
  cases v <;> simp [columnType?]

theorem Value.columnType?_eq_bool : (∃ b, v = .bool b) ↔ v.columnType? = some .bool := by
  cases v <;> simp [columnType?]

theorem Value.isSome_double? (v : Value) : v.double?.isSome = true ↔ v.columnType? = some .float := by
  cases v <;> simp [double?, columnType?]

theorem Value.isSome_bool? (v : Value) : v.bool?.isSome = true ↔ v.columnType? = some .bool := by
  cases v <;> simp [bool?, columnType?]

theorem Value.columnType?_ne_int (v : Value) : v.columnType? ≠ some .int := by
  cases v <;> simp [columnType?]

/-- The cells of each column are of one type. -/
def Row.Typed (rows : List Row) : Prop :=
  ∀ name, ∃ t : ColumnType, ∀ r ∈ rows, ∀ cell ∈ r, cell.1 = name → cell.2.Fits t

namespace Row

/-- Only the names of cells that there are need a type, and this is never that of integers. -/
theorem typed_iff : Typed rows ↔ ∀ r ∈ rows, ∀ cell ∈ r, ∃ t ∈ [ColumnType.float, .bool, .text],
    ∀ r' ∈ rows, ∀ cell' ∈ r', cell'.1 = cell.1 → cell'.2.Fits t := by
  constructor
  · intro h r _ cell _
    obtain ⟨t, ht⟩ := h cell.1
    cases t with
    | int =>
      refine ⟨.float, by simp, fun r' hr' cell' hcell' hname => ?_⟩
      rcases (ht r' hr' cell' hcell' hname).cases with hv | ⟨_, hint, -⟩ | ⟨_, hint, -⟩ | ⟨_, hint, -⟩
      · rw [hv]
        exact fits_null _
      all_goals cases hint
    | float | bool | text => exact ⟨_, by simp, ht⟩
  · intro h name
    by_cases hname : ∃ r ∈ rows, ∃ cell ∈ r, cell.1 = name
    · obtain ⟨r, hr, cell, hcell, rfl⟩ := hname
      obtain ⟨t, -, ht⟩ := h r hr cell hcell
      exact ⟨t, ht⟩
    · exact ⟨.float, fun r hr cell hcell heq => absurd ⟨r, hr, cell, hcell, heq⟩ hname⟩

instance (rows : List Row) : Decidable (Typed rows) := decidable_of_iff' _ typed_iff

theorem Typed.plain (h : Typed rows) : Plain rows := by
  intro r hr cell hcell
  obtain ⟨t, ht⟩ := h cell.1
  rcases (ht r hr cell hcell rfl).cases with hv | ⟨x, -, hv, hx⟩ | ⟨b, -, hv⟩ | ⟨s, -, hv⟩
  · rw [hv]; trivial
  · rw [hv]; exact hx
  · rw [hv]; trivial
  · rw [hv]; trivial

theorem Typed.of_mem_flatten {tables : List (List Row)} (h : Typed tables.flatten) (hrows : rows ∈ tables) :
    Typed rows := by
  intro name
  obtain ⟨t, ht⟩ := h name
  exact ⟨t, fun r hr => ht r (mem_flatten.mpr ⟨rows, hrows, hr⟩)⟩

theorem fits_read (h : ∀ cell ∈ r, cell.1 = name → cell.2.Fits t) : (read r name).Fits t := by
  unfold read
  cases hget : get? r name with
  | none => exact fits_null t
  | some v => exact h _ (mem_of_get? hget) rfl

theorem Typed.exists_fits (h : Typed rows) (name : Text) : ∃ t, ∀ r ∈ rows, (read r name).Fits t := by
  obtain ⟨t, ht⟩ := h name
  exact ⟨t, fun r hr => fits_read (ht r hr)⟩

/-- All cells of a column are of the one type that they settle for. -/
theorem every_iff {ok : Value → Bool} {u : ColumnType} (hok : ∀ v : Value, ok v = true ↔ v.columnType? = some u)
    (h : ∀ r ∈ rows, (read r name).Settled t) (hr : r ∈ rows) (hv : read r name ≠ .null) :
    every ok rows name = true ↔ t = u := by
  simp only [every_eq_true, hok]
  refine ⟨fun hall => ?_, fun ht r' hr' hv' => ht ▸ (h r' hr').columnType? hv'⟩
  exact Option.some.inj (((h r hr).columnType? hv).symm.trans (hall r hr hv))

/-- A table of rows: named cells in order, of one type in each column. -/
structure Table (rows : List Row) : Prop where
  ascending : ∀ r ∈ rows, Fields.Ascending r
  typed : Typed rows

theorem table_iff : Table rows ↔ (∀ r ∈ rows, r.Pairwise fun e e' => e.1.lt e'.1 = true) ∧ Typed rows :=
  ⟨fun h => ⟨h.ascending, h.typed⟩, fun h => ⟨h.1, h.2⟩⟩

instance (rows : List Row) : Decidable (Table rows) := decidable_of_iff' _ table_iff

end Row

namespace Frame

/-- What a cell asks for is what the row asks for that may lack it. -/
theorem bind_columnType? (r : Row) (name : Text) :
    (get? r name).bind columnType? = (Row.read r name).columnType? := by
  unfold Row.read
  cases get? r name <;> rfl

theorem float?_eq (r : Row) (name : Text) : Row.float? r name = match Row.read r name with
      | .null => none
      | v => v.toFloat?.filter fun x => !x.isNaN := by
  unfold Row.float? Row.read
  cases hget : get? r name with
  | none => rfl
  | some v => cases v <;> rfl

theorem float?_of_null (hread : Row.read r name = .null) : Row.float? r name = none := by
  rw [float?_eq, hread]

/-- The type of a column by its cells. -/
theorem columnType_eq_ite (rows : List Row) (name : Text) : columnType rows name =
    if Row.every (·.double?.isSome) rows name then .float
    else if Row.every (·.bool?.isSome) rows name then .bool else .text := by
  have hevery (u : ColumnType) (ok : Value → Bool)
      (hok : ∀ v : Value, ok v = true ↔ v.columnType? = some u) :
      Row.every ok rows name = true ↔
        ∀ k ∈ rows.filterMap fun r => (Row.read r name).columnType?, k = u := by
    rw [Row.every_eq_true]
    constructor
    · intro h k hk
      obtain ⟨r, hr, htype⟩ := mem_filterMap.mp hk
      have hv : Row.read r name ≠ .null := fun hnull => by
        rw [hnull] at htype
        cases htype
      rw [(hok _).mp (h r hr hv)] at htype
      exact (Option.some.inj htype).symm
    · intro h r hr hv
      cases htype : (Row.read r name).columnType? with
      | none => exact absurd (columnType?_eq_none.mp htype) hv
      | some k => exact (hok _).mpr (h k (mem_filterMap.mpr ⟨r, hr, htype⟩) ▸ htype)
  have hnumbers := hevery .float (·.double?.isSome) isSome_double?
  have htruths := hevery .bool (·.bool?.isSome) isSome_bool?
  have hint : ∀ k ∈ rows.filterMap fun r => (Row.read r name).columnType?, k ≠ .int := by
    rintro k hk rfl
    obtain ⟨r, -, htype⟩ := mem_filterMap.mp hk
    exact columnType?_ne_int _ htype
  simp only [columnType, bind_columnType?, hnumbers, htruths]
  generalize (rows.filterMap fun r => (Row.read r name).columnType?) = kinds at hint
  cases kinds with
  | nil => simp
  | cons k ks =>
    have hk := hint k mem_cons_self
    by_cases hall : ks.all (· = k) = true
    · have hsame : ∀ x ∈ k :: ks, x = k := forall_mem_cons.mpr ⟨rfl, by simpa using hall⟩
      have hother {u : ColumnType} (h : k ≠ u) : ¬ ∀ x ∈ k :: ks, x = u :=
        fun h' => h (h' k mem_cons_self)
      refine (if_pos hall).trans ?_
      cases k with
      | int => exact absurd rfl hk
      | float => exact (if_pos hsame).symm
      | bool => rw [if_neg (hother (by simp)), if_pos hsame]
      | text => rw [if_neg (hother (by simp)), if_neg (hother (by simp))]
    · have hmixed (u : ColumnType) : ¬ ∀ x ∈ k :: ks, x = u := by
        intro h
        refine hall (all_eq_true.mpr fun x hx => ?_)
        simp [h x (mem_cons_of_mem _ hx), h k mem_cons_self]
      rw [if_neg (hmixed _), if_neg (hmixed _)]
      exact if_neg hall

/-- The type of a column is that of its cells, and that of numbers if all of them are null. -/
theorem columnType_eq (h : ∀ r ∈ rows, (Row.read r name).Fits t) :
    ((∀ r ∈ rows, Row.read r name = .null) ∧ columnType rows name = .float) ∨
      ((∃ r ∈ rows, Row.read r name ≠ .null) ∧ columnType rows name = t) := by
  rw [columnType_eq_ite]
  by_cases hnull : ∀ r ∈ rows, Row.read r name = .null
  · exact .inl ⟨hnull, if_pos (Row.every_eq_true.mpr fun r hr hv => absurd (hnull r hr) hv)⟩
  push Not at hnull
  obtain ⟨r, hr, hv⟩ := hnull
  have hsettled : ∀ r ∈ rows, (Row.read r name).Settled t := fun r hr => (h r hr).settled
  refine .inr ⟨⟨r, hr, hv⟩, ?_⟩
  simp only [Row.every_iff isSome_double? hsettled hr hv, Row.every_iff isSome_bool? hsettled hr hv]
  cases t with
  | int => exact absurd ((hsettled r hr).columnType? hv) (columnType?_ne_int _)
  | _ => rfl

theorem ofOption_filter_cell (x : Float) :
    ofOption (((some x).filter fun x => !x.isNaN).map Row.cell) = Row.cell x := by
  rw [Option.filter_some]
  split
  · rfl
  · next hx => exact (if_pos (by simpa only [Bool.not_eq_true', Bool.not_eq_false] using hx)).symm

/-- A column has the normal forms of its cells. -/
theorem values_cells_eq_normal (rows : List Row) (name : Text) :
    (cells rows name).values = rows.map fun r => Row.normal rows name (Row.read r name) := by
  unfold cells
  rw [columnType_eq_ite]
  by_cases hnumbers : Row.every (·.double?.isSome) rows name = true
  · rw [if_pos hnumbers, Column.values, map_map]
    refine map_congr_left fun r hr => ?_
    have hnumber := Row.every_eq_true.mp hnumbers r hr
    rw [Function.comp_apply, float?_eq, Row.normal, hnumbers]
    cases hread : Row.read r name with
    | null => rfl
    | float x | single x | int x | sized _ x => exact ofOption_filter_cell _
    | _ => simp [hread, double?] at hnumber
  rw [if_neg hnumbers]
  by_cases htruths : Row.every (·.bool?.isSome) rows name = true
  · rw [if_pos htruths, Column.values, map_map]
    refine map_congr_left fun r hr => ?_
    have htruth := Row.every_eq_true.mp htruths r hr
    have hbind : (get? r name).bind bool? = (Row.read r name).bool? := by
      unfold Row.read
      cases get? r name <;> rfl
    rw [Function.comp_apply, hbind, Row.normal, if_neg hnumbers, if_pos htruths]
    cases hread : Row.read r name with
    | null | bool b => rfl
    | _ => simp [hread, bool?] at htruth
  · rw [if_neg htruths, Column.values, map_map]
    refine map_congr_left fun r _ => ?_
    rw [Function.comp_apply, Row.normal, if_neg hnumbers, if_neg htruths, cellText]
    change ofOption ((match Row.read r name with
      | .null => none
      | v => some (v.toText?.getD "")).map .text) = _
    cases Row.read r name <;> rfl

/-- Cells as frames give them back are in normal form. -/
theorem normal_of_settled (h : ∀ r ∈ rows, (Row.read r name).Settled t) (hr : r ∈ rows) :
    Row.normal rows name (Row.read r name) = Row.read r name := by
  by_cases hv : Row.read r name = .null
  · rw [hv]
    rfl
  simp only [Row.normal, Row.every_iff isSome_double? h hr hv, Row.every_iff isSome_bool? h hr hv]
  rcases h r hr with hread | ⟨x, rfl, hread, hx⟩ | ⟨b, rfl, hread⟩ | ⟨u, rfl, hread⟩
  · exact absurd hread hv
  · rw [hread]
    exact Row.cell_eq_float (Bool.eq_false_iff.mp hx)
  · rw [hread]
    rfl
  · rw [hread]
    rfl

theorem columnType_eq_float (h : ∀ r ∈ rows, ∀ v, get? r name = some v → v = .null ∨ ∃ x, v = .float x) :
    columnType rows name = .float := by
  rw [columnType_eq_ite, if_pos]
  refine Row.every_eq_true.mpr fun r hr hv => ?_
  unfold Row.read at hv ⊢
  cases hget : get? r name with
  | none => simp [hget] at hv
  | some v =>
    rcases h r hr v hget with rfl | ⟨x, rfl⟩
    · simp [hget] at hv
    · rfl

/-- The numbers of a uniform column are those of the rows. -/
theorem floats_cells (huniform : Row.Uniform rows name) :
    (cells rows name).floats = rows.map (Row.float? · name) := by
  have hfloats : (Column.float (rows.map (Row.float? · name))).floats = rows.map (Row.float? · name) := by
    refine floats_float _ fun x hx => ?_
    obtain ⟨r, -, hr⟩ := mem_map.mp hx
    exact float?_ne_nan hr
  rcases huniform with hnumbers | hnone
  · rw [cells, columnType_eq_float hnumbers]
    exact hfloats
  · have hempty := map_eq_replicate_iff.mpr hnone
    unfold cells
    split
    · rw [floats_bool, length_map, hempty]
    · rw [floats_text, length_map, hempty]
    · exact hfloats

theorem series_ofRows (hplain : Row.Plain rows) (hf : ofRows rows = .ok f) (hr : r ∈ rows) (hne : r ≠ [])
    (huniform : Row.Uniform rows name) : f.series name = Row.column rows name := by
  obtain ⟨-, hrows⟩ := rows_ofRows hplain hf hr hne
  have hfloats : f.floats name = rows.map (Row.float? · name) := by
    unfold floats
    rw [column?_ofRows hplain hf, hrows]
    split
    · next hnone =>
      have hmissing : name ∉ Row.columns rows := fun hmem => by simp [hmem] at hnone
      exact (map_eq_replicate_iff.mpr fun r hr => float?_of_null (Row.read_eq_null hr hmissing)).symm
    · next c hsome =>
      obtain rfl : cells rows name = c := by
        split at hsome
        · exact Option.some.inj hsome
        · cases hsome
      rw [floats_cells huniform]
      refine ext_getElem (by simp) fun i hi hi' => ?_
      simp only [getElem_map, getElem_range]
      rw [List.getElem?_eq_getElem hi', Option.join_some, getElem_map]
  rw [series, hfloats, map_map]
  rfl

/-- A typed column keeps its cells. -/
theorem values_cells (h : ∀ r ∈ rows, (Row.read r name).Fits t) :
    (cells rows name).values = rows.map (Row.read · name) := by
  rw [values_cells_eq_normal]
  exact map_congr_left fun r hr => normal_of_settled (fun r hr => (h r hr).settled) hr

theorem rows_framed (h : Row.columns rows ≠ []) : (framed rows).rows = rows.length :=
  if_neg (by simpa using h)

/-- The rows of a frame have the normal forms of the cells, in all columns of the table. -/
theorem toRows_framed_eq_normalized (h : Row.columns rows ≠ []) :
    (framed rows).toRows = rows.map (Row.normalized rows) := by
  rw [toRows, rows_framed h]
  refine ext_getElem (by simp) fun i hi hi' => ?_
  rw [getElem_map, getElem_map, getElem_range]
  rw [length_map] at hi'
  rw [row, framed, map_map, Row.normalized]
  refine congrArg ofList (map_congr_left fun name _ => ?_)
  show (name, (cells rows name).value i) = _
  rw [Column.value, values_cells_eq_normal, getD_eq_getElem _ _ (by simpa using hi'),
    getElem_map]

/-- The rows of a frame are those of the typed table it was made of, each filled up to all columns. -/
theorem toRows_framed (htyped : Row.Typed rows) (h : Row.columns rows ≠ []) :
    (framed rows).toRows = rows.map (Row.filled (Row.columns rows)) := by
  rw [toRows_framed_eq_normalized h]
  refine map_congr_left fun r hr => congrArg ofList (map_congr_left fun name _ => ?_)
  obtain ⟨t, ht⟩ := htyped.exists_fits name
  rw [normal_of_settled (fun r hr => (ht r hr).settled) hr]

end Frame

end Dataflow
