import Dataflow.Frame.Basic
import Dataflow.Proofs.Value.Ascending
import Mathlib.Data.List.GetD
import Mathlib.Data.List.Induction
import Mathlib.Data.List.Nodup
import Mathlib.Tactic.Common

/-!
# The columns of a frame

A table of rows becomes a frame of columns, each of one type.  If all cells have a text this never
fails (`ofRows_eq_of_told`).
-/

namespace Dataflow

open List
open Column (ofFloats values floatCell float bool text value)

variable {name : Text} {r : Row} {rows : List Row} {f : Frame}

/-- A cell that is empty, a finite number, a truth value or a text. -/
def Value.Plain : Value → Prop
  | .null | .bool _ | .text _ => True
  | .float x => x.isFinite = true
  | _ => False

/-- All cells of the rows are plain. -/
def Row.Plain (rows : List Row) : Prop := ∀ r ∈ rows, ∀ cell ∈ r, cell.2.Plain

/-- All cells of the rows have a text: none is a reference to nothing of a type that writes its values. -/
def Row.Told (rows : List Row) : Prop := ∀ r ∈ rows, ∀ cell ∈ r, ∀ type, cell.2 ≠ .noReference type (some .text)

theorem Row.Plain.told (h : Row.Plain rows) : Row.Told rows := by
  intro r hr cell hcell type hv
  have hplain := h r hr cell hcell
  rw [hv] at hplain
  exact hplain

/-- The cells of a column are numbers or empty, or none of them stands for a number. -/
def Row.Uniform (rows : List Row) (name : Text) : Prop :=
  (∀ r ∈ rows, ∀ v, Fields.get? r name = some v → v = .null ∨ ∃ x, v = .float x) ∨
    ∀ r ∈ rows, Row.float? r name = none

namespace Fields

variable {α : Type} {fs : List (Text × α)} {key : Text}

theorem isSome_get?_iff : (get? fs key).isSome = true ↔ key ∈ fs.map Prod.fst := by
  rw [← has_eq_isSome, has, any_eq_true, mem_map]
  simp

theorem get?_eq_none (h : key ∉ fs.map Prod.fst) : get? fs key = none := by
  rwa [← isSome_get?_iff, Option.not_isSome_iff_eq_none] at h

theorem get?_of_mem (h : (fs.map Prod.fst).Nodup) {e : Text × α} (he : e ∈ fs) : get? fs e.1 = some e.2 := by
  obtain ⟨v, hv⟩ := Option.isSome_iff_exists.mp (isSome_get?_iff.mpr (mem_map_of_mem he))
  have heq := inj_on_of_nodup_map h (mem_of_get? hv) he rfl
  rw [hv, ← heq]

/-- The order of fields with names of their own does not matter. -/
theorem get?_reverse (h : (fs.map Prod.fst).Nodup) (key : Text) : get? fs.reverse key = get? fs key := by
  by_cases hkey : key ∈ fs.map Prod.fst
  · obtain ⟨e, he, rfl⟩ := mem_map.mp hkey
    have hreverse : (fs.reverse.map Prod.fst).Nodup := by rwa [map_reverse, nodup_reverse]
    rw [get?_of_mem h he, get?_of_mem hreverse (mem_reverse.mpr he)]
  · rw [get?_eq_none hkey, get?_eq_none (by rwa [map_reverse, mem_reverse])]

/-- The fields with another value for a key, in its place or at the end. -/
def adjust (key : Text) (g : Option α → α) : List (Text × α) → List (Text × α)
  | [] => [(key, g none)]
  | e :: fs => if e.1 = key then (key, g (some e.2)) :: fs else e :: adjust key g fs

theorem adjust_eq (key : Text) (v : α) (fs : List (Text × α)) : adjust key (fun _ => v) fs =
    (fs.findIdx? (·.1 = key)).elim (fs ++ [(key, v)]) (fs.set · (key, v)) := by
  induction fs with
  | nil => rfl
  | cons e fs ih =>
    rw [adjust, findIdx?_cons, ih]
    by_cases h : e.1 = key
    · simp [h]
    · rw [if_neg h, if_neg (by simpa using h)]
      cases fs.findIdx? (·.1 = key) <;> rfl

theorem get?_adjust (key : Text) (g : Option α → α) (fs : List (Text × α)) (k : Text) :
    get? (adjust key g fs) k = if key = k then some (g (get? fs key)) else get? fs k := by
  induction fs with
  | nil => exact get?_cons [] key k _
  | cons e fs ih =>
    rw [adjust, get?_cons, get?_cons]
    by_cases he : e.1 = key
    · rw [if_pos he, get?_cons, if_pos he, he]
      split <;> rfl
    · rw [if_neg he, get?_cons, ih, if_neg he]
      by_cases hk : e.1 = k
      · rw [if_pos hk, if_neg fun h => he (hk.trans h.symm), if_pos hk]
      · rw [if_neg hk, if_neg hk]

theorem keys_adjust (key : Text) (g : Option α → α) (fs : List (Text × α)) :
    (adjust key g fs).map Prod.fst =
      if key ∈ fs.map Prod.fst then fs.map Prod.fst else fs.map Prod.fst ++ [key] := by
  induction fs with
  | nil => rfl
  | cons e fs ih =>
    rw [adjust]
    by_cases he : e.1 = key
    · simp [he]
    · rw [if_neg he, map_cons, ih, map_cons]
      by_cases hmem : key ∈ fs.map Prod.fst
      · rw [if_pos hmem, if_pos (mem_cons_of_mem _ hmem)]
      · rw [if_neg hmem, if_neg (by simpa [Ne.symm he] using hmem)]
        rfl

theorem nodup_adjust (h : (fs.map Prod.fst).Nodup) (key : Text) (g : Option α → α) :
    ((adjust key g fs).map Prod.fst).Nodup := by
  rw [keys_adjust]
  split
  · exact h
  · next hmem =>
    rw [← concat_eq_append]
    exact h.concat hmem

end Fields

/-- Of what is written under a name one after another, the last is read back. -/
theorem read_foldl_write {σ β γ : Type} {read : σ → Text → Option γ} {write : σ → Text × β → σ}
    {val : β → γ} (hread : ∀ s e name, read (write s e) name =
      if e.1 = name then some (val e.2) else read s name) (entries : List (Text × β)) (s : σ) (name : Text) :
    read (entries.foldl write s) name = ((Fields.get? entries.reverse name).map val).or (read s name) := by
  induction entries using reverseRecOn with
  | nil => rfl
  | append_singleton entries last ih =>
    rw [foldl_append, foldl_cons, foldl_nil, hread, ih, reverse_append, reverse_singleton, singleton_append,
      Fields.get?_cons]
    split <;> rfl

/-- Of fields with one name the last decides. -/
theorem Fields.get?_update {α : Type} (fs more : List (Text × α)) (key : Text) :
    get? (update fs more) key = (get? more.reverse key).or (get? fs key) := by
  have h : get? (update fs more) key = ((get? more.reverse key).map id).or (get? fs key) :=
    read_foldl_write (fun fs e key => get?_set fs e.1 key e.2) more fs key
  simpa using h

theorem Fields.get?_ofList {α : Type} (fs : List (Text × α)) (key : Text) :
    get? (ofList fs) key = get? fs.reverse key := (get?_update [] fs key).trans Option.or_none

namespace Fields.Ascending

variable {α : Type} {fs gs : List (Text × α)}

/-- Fields in ascending order are the same if they have the same values under all names. -/
theorem ext (hfs : Ascending fs) (hgs : Ascending gs) (h : ∀ key, get? fs key = get? gs key) : fs = gs := by
  have hmem {fs : List (Text × α)} (hfs : Ascending fs) (e : Text × α) : e ∈ fs ↔ get? fs e.1 = some e.2 :=
    ⟨get?_of_mem hfs.nodup, mem_of_get?⟩
  have hperm : fs ~ gs := (perm_ext_iff_of_nodup (.of_map _ hfs.nodup) (.of_map _ hgs.nodup)).mpr fun e => by
    rw [hmem hfs, hmem hgs, h]
  exact hperm.eq_of_pairwise (fun a b _ _ hab hba => absurd (Text.lt_trans hab hba) (Text.lt_irrefl _)) hfs hgs

theorem ofList_eq (h : Ascending fs) : ofList fs = fs :=
  (ascending_ofList fs).ext h fun key => (get?_ofList fs key).trans (get?_reverse h.nodup key)

end Fields.Ascending

namespace Row

@[simp] theorem length_column (rows : List Row) (name : Text) :
    (column rows name).length = rows.length := length_map _

/-- The names that a row brings in, in their order. -/
def fresh (seen : List Text) (r : Row) : List Text := Text.sort ((r.map Prod.fst).filter (!seen.contains ·))

theorem mem_fresh {seen : List Text} : name ∈ fresh seen r ↔ name ∈ r.map Prod.fst ∧ name ∉ seen := by
  simp only [fresh, Text.sort, mem_mergeSort, mem_filter, Bool.not_eq_true', ← Bool.not_eq_true, contains_iff_mem]

theorem columns_concat (rows : List Row) (r : Row) :
    columns (rows ++ [r]) = columns rows ++ fresh (columns rows) r := by
  rw [columns, foldl_append, ← columns]
  rfl

theorem mem_columns : name ∈ columns rows ↔ ∃ r ∈ rows, name ∈ r.map Prod.fst := by
  induction rows using reverseRecOn with
  | nil => simp [columns]
  | append_singleton rows r ih =>
    rw [columns_concat, mem_append, mem_fresh, ih, or_and_left, and_iff_left (em _)]
    simp only [mem_append, mem_singleton, or_and_right, exists_or, exists_eq_left]

theorem cell_eq_float {x : Float} (h : ¬x.isNaN = true) : cell x = .float x := if_neg h

theorem columns_ne_nil (hr : r ∈ rows) (hne : r ≠ []) : columns rows ≠ [] := by
  obtain ⟨cell, rest, rfl⟩ := exists_cons_of_ne_nil hne
  exact ne_nil_of_mem (mem_columns.mpr ⟨_, hr, mem_map_of_mem mem_cons_self⟩)

end Row

namespace Frame

/-! ### Rows as a frame -/

def cellText (r : Row) (name : Text) : Option Text :=
  match (Fields.get? r name).getD .null with
  | .null => none
  | v => some (v.toText?.getD "")

def cells (rows : List Row) (name : Text) : Column :=
  match columnType rows name with
  | .bool => .bool (rows.map fun r => (Fields.get? r name).bind Value.bool?)
  | .text => .text (rows.map (cellText · name))
  | _ => .float (rows.map (Row.float? · name))

theorem mapM_eq_ok {α β : Type} {f : α → Outcome β} {g : α → β} {xs : List α}
    (h : ∀ x ∈ xs, f x = .ok (g x)) : xs.mapM f = .ok (xs.map g) := by
  induction xs with
  | nil => rfl
  | cons x xs ih =>
    rw [mapM_cons, h x mem_cons_self, ih fun y hy => h y (mem_cons_of_mem _ hy)]
    rfl

theorem find?_map_pair {β : Type} (g : Text → β) (names : List Text) (name : Text) :
    ((names.map fun n => (n, g n)).find? (·.1 = name)).map Prod.snd =
      if name ∈ names then some (g name) else none := by
  induction names with
  | nil => rfl
  | cons n names ih =>
    by_cases h : n = name
    · simp [h]
    · rw [List.map_cons, List.find?_cons_of_neg (by simpa using h), ih]
      simp [Ne.symm h]

section OfRows

theorem columnOf_eq (h : Row.Told rows) (name : Text) :
    columnOf rows name (columnType rows name) = .ok (cells rows name) := by
  unfold cells
  cases columnType rows name with
  | text =>
    simp only [columnOf]
    rw [mapM_eq_ok (g := fun r => cellText r name)]
    · rfl
    · intro r hr
      cases hget : Fields.get? r name with
      | none => simp only [cellText, hget]; rfl
      | some v =>
        have hv := h r hr _ (Fields.mem_of_get? hget)
        cases v with
        | noReference type writing =>
          rcases writing with _ | _ | _
          · simp only [cellText, hget]; rfl
          · exact absurd rfl (hv type)
          · simp only [cellText, hget]; rfl
        | _ => simp only [cellText, hget]; rfl
  | _ => rfl

theorem mapM_schema (h : Row.Told rows) :
    ((schema rows).mapM fun (name, t) => do return (name, ← columnOf rows name t)) =
      (.ok ((Row.columns rows).map fun name => (name, cells rows name)) : Outcome _) := by
  rw [mapM_eq_ok (g := fun e => (e.1, cells rows e.1)), schema, map_map]
  · rfl
  · rintro ⟨name, t⟩ hmem
    obtain ⟨key, -, heq⟩ := mem_map.mp hmem
    cases heq
    simp only [columnOf_eq h]
    rfl

/-- The frame of all columns of the rows. -/
def framed (rows : List Row) : Frame where
  columns := (Row.columns rows).map fun name => (name, cells rows name)
  rows := if (Row.columns rows).isEmpty then 0 else rows.length

theorem ofRows_eq_of_told (h : Row.Told rows) : ofRows rows = .ok (framed rows) := by
  unfold ofRows
  rw [mapM_schema h]
  exact congrArg (fun n => Except.ok (Frame.mk _ n)) (by rw [isEmpty_map])

variable (hplain : Row.Plain rows)

include hplain

theorem ofRows_eq : ofRows rows = .ok (framed rows) := ofRows_eq_of_told hplain.told

theorem column?_ofRows (hf : ofRows rows = .ok f) (name : Text) :
    f.column? name = if name ∈ Row.columns rows then some (cells rows name) else none := by
  rw [ofRows_eq hplain, Except.ok.injEq] at hf
  subst hf
  exact find?_map_pair (cells rows) _ name

theorem rows_ofRows (hf : ofRows rows = .ok f) (hr : r ∈ rows) (hne : r ≠ []) :
    f.columns ≠ [] ∧ f.rows = rows.length := by
  have hcolumns := Row.columns_ne_nil hr hne
  rw [ofRows_eq hplain, Except.ok.injEq] at hf
  subst hf
  exact ⟨by simpa [framed] using hcolumns, if_neg (by simpa using hcolumns)⟩

end OfRows

/-! ### The numbers of a column -/

theorem float?_ne_nan {x : Float} (h : Row.float? r name = some x) : ¬x.isNaN = true := by
  unfold Row.float? at h
  split at h
  · cases h
  · cases h
  · exact Bool.eq_false_iff.mp (Bool.not_eq_eq_eq_not.mp (Option.filter_eq_some_iff.mp h).2)

theorem floats_float (xs : List (Option Float)) (h : ∀ x, some x ∈ xs → ¬x.isNaN = true) :
    (float xs).floats = xs := by
  rw [Column.floats, values, map_map]
  refine (map_congr_left fun x hx => ?_).trans (map_id xs)
  cases x with
  | none => rfl
  | some x => simp only [Function.comp_apply, Option.map_some, Value.ofOption,
      Row.cell_eq_float (h x hx), id]

theorem floats_bool (xs : List (Option Bool)) :
    (bool xs).floats = List.replicate xs.length none := by
  rw [Column.floats, values, map_map, map_eq_replicate_iff]
  intro x _
  cases x <;> rfl

theorem floats_text (xs : List (Option Text)) :
    (text xs).floats = List.replicate xs.length none := by
  rw [Column.floats, values, map_map, map_eq_replicate_iff]
  intro x _
  cases x <;> rfl

/-- A column that is not of numbers has none. -/
theorem series_ofRows_eq_nan (hplain : Row.Plain rows)
    (hf : ofRows rows = .ok f) (hname : name ∈ Row.columns rows)
    (htype : columnType rows name = .bool ∨ columnType rows name = .text) :
    f.series name = List.replicate f.rows Float64.nan := by
  have hfloats : (cells rows name).floats = List.replicate rows.length none := by
    rcases htype with htype | htype
    · rw [cells, htype, floats_bool, length_map]
    · rw [cells, htype, floats_text, length_map]
  rw [series, floats, column?_ofRows hplain hf, if_pos hname]
  simp only [hfloats, map_map]
  rw [eq_replicate_iff]
  refine ⟨by simp, fun x hx => ?_⟩
  obtain ⟨i, -, rfl⟩ := mem_map.mp hx
  rw [Function.comp_apply, List.getElem?_replicate]
  split <;> rfl

/-! ### Columns that are added -/

theorem columns_withColumn (f : Frame) (name : Text) (c : Column) :
    (f.withColumn name c).columns = Fields.adjust name (fun _ => c) f.columns := by
  rw [Fields.adjust_eq, withColumn]
  cases f.columns.findIdx? (·.1 = name) <;> rfl

theorem column?_withColumn (f : Frame) (name key : Text) (c : Column) :
    (f.withColumn name c).column? key = if name = key then some c else f.column? key := by
  show Fields.get? _ key = _
  rw [columns_withColumn, Fields.get?_adjust]
  rfl

theorem rows_withColumn (h : f.columns ≠ []) (name : Text) (c : Column) :
    (f.withColumn name c).columns ≠ [] ∧ (f.withColumn name c).rows = f.rows := by
  unfold withColumn
  split
  · exact ⟨by simpa using h, rfl⟩
  · exact ⟨by simp, if_neg (by simpa using h)⟩

/-- Columns with names of their own are found under them. -/
theorem column?_foldl_withColumn {outputs : List (Text × List Float)}
    (hnodup : (outputs.map Prod.fst).Nodup) (f : Frame) {xs : List Float}
    (h : (name, xs) ∈ outputs) :
    (outputs.foldl (fun f (name, xs) => f.withColumn name (ofFloats xs)) f).column? name =
      some (ofFloats xs) := by
  have hread (f : Frame) (e : Text × List Float) (key : Text) :
      (f.withColumn e.1 (ofFloats e.2)).column? key =
        if e.1 = key then some (ofFloats e.2) else f.column? key := column?_withColumn f e.1 key _
  rw [read_foldl_write hread, Fields.get?_reverse hnodup, Fields.get?_of_mem hnodup h]
  rfl

theorem rows_foldl_withColumn (outputs : List (Text × List Float)) (h : f.columns ≠ []) :
    (outputs.foldl (fun f (name, xs) => f.withColumn name (ofFloats xs)) f).rows = f.rows := by
  induction outputs generalizing f with
  | nil => rfl
  | cons output outputs ih =>
    obtain ⟨hcolumns, hrows⟩ := rows_withColumn h output.1 (ofFloats output.2)
    rw [foldl_cons, ih hcolumns, hrows]

theorem value_ofFloats (xs : List Float) (i : Nat) :
    (ofFloats xs).value i = Row.cell (xs.getD i Float64.nan) := by
  have hcell (x : Float) : Value.ofOption ((floatCell x).map Row.cell) = Row.cell x := by
    unfold floatCell
    split
    · next h => exact (if_pos h).symm
    · rfl
  simp only [value, ofFloats, values, map_map]
  rcases Nat.lt_or_ge i xs.length with hi | hi
  · rw [getD_eq_getElem _ _ (by simpa using hi), getElem_map, getD_eq_getElem _ _ hi]
    exact hcell _
  · rw [getD_eq_default _ _ (by simpa using hi), getD_eq_default _ _ hi]
    rfl

end Frame

/-- Values with names of their own are found under them, and nothing else is touched. -/
theorem Fields.get?_foldl_set {β : Type} {outputs : List (Text × β)} (hnodup : (outputs.map Prod.fst).Nodup)
    (cell : β → Value) (r : Row) (name : Text) :
    get? (outputs.foldl (fun r (name, b) => set name (cell b) r) r) name =
      ((get? outputs name).map cell).or (get? r name) := by
  rw [← get?_reverse hnodup]
  exact read_foldl_write (fun r e key => get?_set r e.1 key (cell e.2)) outputs r name

end Dataflow
