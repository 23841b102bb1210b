import Dataflow.Proofs.Frame.Rows

/-!
# Frames one under another

The frame of several frames has all of their columns, each of the least type that takes the cells of all.
Types are ordered by `ColumnType.unify`: integers below numbers, and texts above all.

Main statement (`Frame.toRows_concat_iff`): frames of typed tables, put one under another, have the rows of
the frame of all rows, unless a column of truth values is null throughout one of the tables.  Such a column
is one of numbers there, so that its cells become texts where the frames meet.
-/

namespace Dataflow

open List Fields

variable {name : Text} {t u : ColumnType} {c : Column} {frames : List Frame} {f : Frame} {rows : List Row}

/-! ### Columns -/

namespace ColumnType

theorem unify_self (t : ColumnType) : t.unify t = t := by cases t <;> rfl

theorem unify_takes_right (t u : ColumnType) : (t.unify u).unify u = t.unify u := by
  cases t <;> cases u <;> rfl

/-- A type that takes the cells of another one does so after it has grown. -/
theorem unify_takes (h : t.unify u = t) (s : ColumnType) : (t.unify s).unify u = t.unify s := by
  revert h
  cases t <;> cases u <;> cases s <;> decide

theorem eq_or_of_takes (h : t.unify u = t) : u = t ∨ t = .float ∨ t = .text := by
  revert h
  cases t <;> cases u <;> decide

theorem eq_text_of_takes (hbool : t.unify .bool = t) (hfloat : t.unify .float = t) : t = .text := by
  revert hbool hfloat
  cases t <;> decide

end ColumnType

namespace Column

@[simp] theorem length_values (c : Column) : c.values.length = c.length := by
  cases c <;> exact length_map _

@[simp] theorem length_texts (c : Column) : c.texts.length = c.length := by
  cases c with
  | text xs => rfl
  | _ => exact length_map _

@[simp] theorem length_floats (c : Column) : c.floats.length = c.length := by
  rw [floats, length_map, length_values]

@[simp] theorem length_cast (c : Column) (t : ColumnType) : (c.cast t).length = c.length := by
  unfold cast
  split
  · rfl
  · split
    · exact c.length_floats
    · exact c.length_texts

theorem type_cast (h : t.unify c.type = t) : (c.cast t).type = t := by
  unfold cast
  split
  · assumption
  · next hne =>
    rcases ColumnType.eq_or_of_takes h with heq | rfl | rfl
    · exact absurd heq hne
    · rw [if_pos rfl]
      rfl
    · rw [if_neg (by decide)]
      rfl

@[simp] theorem type_empty (t : ColumnType) (n : Nat) : (empty t n).type = t := by cases t <;> rfl

@[simp] theorem length_empty (t : ColumnType) (n : Nat) : (empty t n).length = n := by
  cases t <;> exact length_replicate

theorem values_empty (t : ColumnType) (n : Nat) : (empty t n).values = List.replicate n .null := by
  cases t <;> exact map_replicate

@[simp] theorem type_concat (t : ColumnType) (cs : List Column) : (concat t cs).type = t := by
  cases t <;> rfl

theorem concat_nil (t : ColumnType) : (concat t []).values = [] := by cases t <;> rfl

theorem values_concat {cs : List Column} (h : ∀ c ∈ cs, c.type = t) :
    (concat t cs).values = cs.flatMap values := by
  induction cs with
  | nil => exact concat_nil t
  | cons c cs ih =>
    rw [forall_mem_cons] at h
    obtain ⟨rfl, hcs⟩ := h
    rw [flatMap_cons, ← ih hcs]
    cases c <;> exact map_append

/-- Cells of texts are texts or null. -/
theorem value_ne_bool (h : c.type = .text) (i : Nat) (b : Bool) : c.value i ≠ .bool b := by
  cases c with
  | text xs =>
    intro heq
    rcases Nat.lt_or_ge i xs.length with hi | hi
    · rw [value, getD_eq_getElem _ _ (by simpa [values] using hi)] at heq
      simp only [values, getElem_map] at heq
      cases hx : xs[i] with
      | none | some t => rw [hx] at heq; cases heq
    · rw [value, getD_eq_default _ _ (by simpa [values] using hi)] at heq
      cases heq
  | _ => cases h

end Column

/-! ### The types of all columns -/

namespace Frame

/-- The types of columns, where those of one name are unified. -/
def typesOf (columns : List (Text × Column)) : List (Text × ColumnType) :=
  columns.foldl (fun ts (name, c) => addType ts name c.type) []

theorem unionTypes_eq (frames : List Frame) : unionTypes frames = typesOf (frames.flatMap Frame.columns) := rfl

theorem typesOf_append (columns : List (Text × Column)) (e : Text × Column) :
    typesOf (columns ++ [e]) = addType (typesOf columns) e.1 e.2.type := by
  rw [typesOf, foldl_append]
  rfl

theorem addType_eq (ts : List (Text × ColumnType)) (name : Text) (t : ColumnType) :
    addType ts name t = adjust name (fun u => (u.map (·.unify t)).getD t) ts := by
  induction ts with
  | nil => rfl
  | cons e ts ih =>
    rw [adjust, ← ih, addType, addType, List.findIdx?_cons]
    by_cases h : e.1 = name
    · simp [h]
    · rw [if_neg (by simpa using h), if_neg h]
      cases ts.findIdx? (·.1 = name) <;> rfl

section TypesOf

variable {columns : List (Text × Column)}

theorem nodup_typesOf (columns : List (Text × Column)) : ((typesOf columns).map Prod.fst).Nodup := by
  induction columns using reverseRecOn with
  | nil => exact nodup_nil
  | append_singleton columns e ih =>
    rw [typesOf_append, addType_eq]
    exact nodup_adjust ih e.1 _

theorem mem_typesOf : name ∈ (typesOf columns).map Prod.fst ↔ name ∈ columns.map Prod.fst := by
  induction columns using reverseRecOn with
  | nil => rfl
  | append_singleton columns e ih =>
    rw [typesOf_append, addType_eq, keys_adjust, map_append, mem_append, ← ih]
    split
    · next hmem =>
      refine ⟨.inl, fun h => h.elim id fun h => ?_⟩
      rw [mem_singleton.mp h]
      exact hmem
    · rw [mem_append]
      rfl

/-- The type of a name takes the cells of all its columns. -/
theorem exists_typesOf (h : (name, c) ∈ columns) :
    ∃ t, get? (typesOf columns) name = some t ∧ t.unify c.type = t := by
  induction columns using reverseRecOn with
  | nil => cases h
  | append_singleton columns e ih =>
    rw [typesOf_append]
    simp only [addType_eq, get?_adjust]
    rcases mem_append.mp h with hmem | hmem
    · obtain ⟨t, ht, htakes⟩ := ih hmem
      by_cases hname : e.1 = name
      · rw [if_pos hname, hname, ht]
        exact ⟨_, rfl, ColumnType.unify_takes htakes _⟩
      · rw [if_neg hname]
        exact ⟨t, ht, htakes⟩
    · obtain rfl := mem_singleton.mp hmem
      rw [if_pos rfl]
      refine ⟨_, rfl, ?_⟩
      cases get? (typesOf columns) name with
      | none => exact ColumnType.unify_self _
      | some u => exact ColumnType.unify_takes_right u c.type

/-- Columns of one name and one type keep it. -/
theorem typesOf_eq (h : ∀ c, (name, c) ∈ columns → c.type = t)
    (hu : get? (typesOf columns) name = some u) : u = t := by
  induction columns using reverseRecOn generalizing u with
  | nil => cases hu
  | append_singleton columns e ih =>
    have hbefore : ∀ c, (name, c) ∈ columns → c.type = t := fun c hc => h c (mem_append_left _ hc)
    rw [typesOf_append, addType_eq, get?_adjust] at hu
    by_cases hname : e.1 = name
    · rw [if_pos hname, hname, Option.some.injEq] at hu
      have he : e.2.type = t := by
        refine h e.2 (mem_append_right _ ?_)
        rw [← hname]
        exact mem_singleton.mpr rfl
      rw [← hu, he]
      cases hget : get? (typesOf columns) name with
      | none => rfl
      | some u' =>
        rw [ih hbefore hget]
        exact t.unify_self
    · rw [if_neg hname] at hu
      exact ih hbefore hu

end TypesOf

/-! ### The columns of all frames -/

def typeIn (frames : List Frame) (name : Text) : ColumnType :=
  (get? (unionTypes frames) name).getD .float

/-- The cells that a frame has in a column of several frames. -/
def part (frames : List Frame) (name : Text) (f : Frame) : Column :=
  match f.column? name with
  | none => Column.empty (typeIn frames name) f.rows
  | some c => c.cast (typeIn frames name)

def stacked (frames : List Frame) (name : Text) : Column :=
  Column.concat (typeIn frames name) (frames.map (part frames name))

theorem columns_concat (frames : List Frame) : (concat frames).columns =
    ((unionTypes frames).map Prod.fst).map fun name => (name, stacked frames name) := by
  show (unionTypes frames).map _ = _
  rw [map_map]
  refine map_congr_left fun e he => ?_
  have hget : get? (unionTypes frames) e.1 = some e.2 := get?_of_mem (nodup_typesOf _) he
  have htype : typeIn frames e.1 = e.2 := by
    rw [typeIn, hget]
    rfl
  rw [Function.comp_apply, stacked, htype]
  refine congrArg (fun cs => (e.1, Column.concat e.2 cs)) (map_congr_left fun f _ => ?_)
  show _ = part frames e.1 f
  rw [← htype]
  rfl

theorem rows_concat (frames : List Frame) : (concat frames).rows = (frames.map Frame.rows).sum := by
  rw [sum_eq_foldl, foldl_map]
  rfl

theorem mem_names_concat : name ∈ (unionTypes frames).map Prod.fst ↔ ∃ f ∈ frames, name ∈ f.names := by
  rw [unionTypes_eq, mem_typesOf, map_flatMap, mem_flatMap]
  rfl

theorem mem_of_column? (h : f.column? name = some c) : (name, c) ∈ f.columns := mem_of_get? h

theorem takes_typeIn (hf : f ∈ frames)
    (hc : (name, c) ∈ f.columns) : (typeIn frames name).unify c.type = typeIn frames name := by
  obtain ⟨t, ht, htakes⟩ := exists_typesOf (mem_flatMap.mpr ⟨f, hf, hc⟩)
  rw [← unionTypes_eq] at ht
  rw [typeIn, ht]
  exact htakes

theorem typeIn_eq (hf : f ∈ frames)
    (hname : name ∈ f.names) (h : ∀ f ∈ frames, ∀ c, (name, c) ∈ f.columns → c.type = t) :
    typeIn frames name = t := by
  obtain ⟨e, he, rfl⟩ := mem_map.mp hname
  obtain ⟨u, hu, -⟩ := exists_typesOf (mem_flatMap.mpr ⟨f, hf, he⟩)
  have htype := typesOf_eq (t := t) (fun c hc => ?_) hu
  · rw [typeIn, unionTypes_eq, hu, htype]
    rfl
  · obtain ⟨g, hg, hc⟩ := mem_flatMap.mp hc
    exact h g hg c hc

theorem type_part (hf : f ∈ frames) (name : Text) :
    (part frames name f).type = typeIn frames name := by
  unfold part
  split
  · exact Column.type_empty _ _
  · next c hc => exact Column.type_cast (takes_typeIn hf (mem_of_column? hc))

theorem values_stacked (frames : List Frame) (name : Text) :
    (stacked frames name).values = frames.flatMap fun f => (part frames name f).values := by
  rw [stacked, Column.values_concat (forall_mem_map.mpr fun f hf => type_part hf name), flatMap_map]

theorem get?_row_concat (frames : List Frame) (i : Nat) (name : Text) :
    get? ((concat frames).row i) name =
      if name ∈ (unionTypes frames).map Prod.fst then some ((stacked frames name).value i) else none := by
  rw [row, columns_concat, map_map]
  exact get?_ofList_map (fun name => (stacked frames name).value i) _ name

/-! ### Frames of tables -/

theorem column?_framed (rows : List Row) (name : Text) :
    (framed rows).column? name = if name ∈ Row.columns rows then some (cells rows name) else none :=
  find?_map_pair (cells rows) _ name

theorem mem_columns_framed :
    (name, c) ∈ (framed rows).columns ↔ name ∈ Row.columns rows ∧ c = cells rows name := by
  rw [framed, mem_map]
  constructor
  · rintro ⟨name, hname, heq⟩
    cases heq
    exact ⟨hname, rfl⟩
  · rintro ⟨hname, rfl⟩
    exact ⟨name, hname, rfl⟩

theorem names_framed (rows : List Row) : (framed rows).names = Row.columns rows := by
  rw [names, framed, map_map]
  exact map_id _

/-- A column that is null throughout is one of empty numbers. -/
theorem cells_of_null (h : ∀ r ∈ rows, Row.read r name = .null) :
    cells rows name = Column.empty .float rows.length := by
  have hfits : ∀ r ∈ rows, (Row.read r name).Fits .float := fun r hr => by
    rw [h r hr]
    exact Value.fits_null _
  have htype : columnType rows name = .float := (columnType_eq hfits).elim And.right And.right
  rw [cells, htype]
  show Column.float _ = Column.float _
  exact congrArg _ (map_eq_replicate_iff.mpr fun r hr => float?_of_null (h r hr))

theorem values_cast_empty (t : ColumnType) (n : Nat) :
    ((Column.empty .float n).cast t).values = List.replicate n .null := by
  cases t with
  | float => exact Column.values_empty .float n
  | _ =>
    show (Column.text ((List.replicate n none).map _)).values = _
    rw [map_replicate]
    exact Column.values_empty .text n

/-- A column is null throughout, and so of numbers, or of the type that its cells fit. -/
theorem type_cells (h : ∀ r ∈ rows, (Row.read r name).Fits t) :
    ((∀ r ∈ rows, Row.read r name = .null) ∧ (cells rows name).type = .float) ∨
      ((∃ r ∈ rows, Row.read r name ≠ .null) ∧ (cells rows name).type = t ∧ t ≠ .int) := by
  rcases columnType_eq h with ⟨hnull, -⟩ | ⟨⟨r, hr, hv⟩, htype⟩
  · exact .inl ⟨hnull, by rw [cells_of_null hnull, Column.type_empty]⟩
  · have hint : t ≠ .int := fun ht => Value.columnType?_ne_int _ (ht ▸ (h r hr).settled.columnType? hv)
    refine .inr ⟨⟨r, hr, hv⟩, ?_, hint⟩
    rw [cells, htype]
    cases t with
    | int => exact absurd rfl hint
    | _ => rfl

section Tables

variable {tables : List (List Row)} (htyped : Row.Typed tables.flatten)

/-- No column of truth values is null throughout one of the tables that name it. -/
def Unmixed (tables : List (List Row)) : Prop :=
  ∀ name, (∃ r ∈ tables.flatten, ∃ b, Row.read r name = .bool b) →
    ∀ rows ∈ tables, name ∈ Row.columns rows → ∃ r ∈ rows, Row.read r name ≠ .null

/-- It is enough to look at the cells that there are. -/
theorem unmixed_iff : Unmixed tables ↔ ∀ r ∈ tables.flatten, ∀ cell ∈ r,
    (Row.read r cell.1).columnType? = some .bool → ∀ rows ∈ tables,
      (∃ r ∈ rows, cell.1 ∈ r.map Prod.fst) → ∃ r ∈ rows, (Row.read r cell.1).columnType? ≠ none := by
  simp only [Unmixed, ne_eq, Value.columnType?_eq_none, ← Value.columnType?_eq_bool, ← Row.mem_columns]
  constructor
  · intro h r hr cell _ hb
    exact h cell.1 ⟨r, hr, hb⟩
  · rintro h name ⟨r, hr, hb⟩
    have hname : name ∈ r.map Prod.fst := by
      by_contra hmem
      obtain ⟨b, hb⟩ := hb
      rw [Row.read, get?_eq_none hmem] at hb
      exact Value.noConfusion hb
    obtain ⟨cell, hcell, rfl⟩ := mem_map.mp hname
    exact h r hr cell hcell hb

instance (tables : List (List Row)) : Decidable (Unmixed tables) := decidable_of_iff' _ unmixed_iff

include htyped

theorem exists_fits_tables (name : Text) :
    ∃ t, ∀ rows ∈ tables, ∀ r ∈ rows, (Row.read r name).Fits t := by
  obtain ⟨t, ht⟩ := htyped.exists_fits name
  exact ⟨t, fun rows hrows r hr => ht r (mem_flatten.mpr ⟨rows, hrows, hr⟩)⟩

/-- A column that is not null throughout a table has the type that it has among all tables. -/
theorem typeIn_framed (h : Unmixed tables) (hrows : rows ∈ tables)
    (hname : name ∈ Row.columns rows) (hv : ∃ r ∈ rows, Row.read r name ≠ .null) :
    typeIn (tables.map framed) name = (cells rows name).type := by
  obtain ⟨t, ht⟩ := exists_fits_tables htyped name
  obtain ⟨r, hr, hv⟩ := hv
  have hnot : ¬ ∀ r ∈ rows, Row.read r name = .null := fun hnull => hv (hnull r hr)
  obtain ⟨-, htype, hint⟩ := (type_cells (ht rows hrows)).resolve_left fun hnull => hnot hnull.1
  have hmem : framed rows ∈ tables.map framed := mem_map_of_mem hrows
  have hcolumn : (name, cells rows name) ∈ (framed rows).columns := mem_columns_framed.mpr ⟨hname, rfl⟩
  have htakes := takes_typeIn hmem hcolumn
  rw [htype] at htakes ⊢
  -- all columns of the name are of this type, or it is that of texts and takes those that are not
  have hall (hother : ∀ rows' ∈ tables, name ∈ Row.columns rows' →
      (∀ r ∈ rows', Row.read r name = .null) → t = .float) : typeIn (tables.map framed) name = t := by
    refine typeIn_eq hmem (by rw [names_framed]; exact hname) fun f hf c hc => ?_
    obtain ⟨rows', hrows', rfl⟩ := mem_map.mp hf
    obtain ⟨hname', rfl⟩ := mem_columns_framed.mp hc
    rcases type_cells (ht rows' hrows') with ⟨hnull, hfloat⟩ | ⟨-, htype', -⟩
    · rw [hfloat, hother rows' hrows' hname' hnull]
    · exact htype'
  cases t with
  | float => exact hall fun _ _ _ _ => rfl
  | bool =>
    refine hall fun rows' hrows' hname' hnull => ?_
    obtain ⟨b, hb⟩ := Value.columnType?_eq_bool.mpr ((ht rows hrows r hr).settled.columnType? hv)
    obtain ⟨r', hr', hv'⟩ :=
      h name ⟨r, mem_flatten.mpr ⟨rows, hrows, hr⟩, b, hb⟩ rows' hrows' hname'
    exact absurd (hnull r' hr') hv'
  | text =>
    revert htakes
    cases typeIn (tables.map framed) name <;> decide
  | int => exact absurd rfl hint

/-- The cells of a table stay in a column of all tables. -/
theorem values_part (h : Unmixed tables) (hrows : rows ∈ tables)
    (hcolumns : Row.columns rows ≠ []) (name : Text) :
    (part (tables.map framed) name (framed rows)).values = rows.map (Row.read · name) := by
  obtain ⟨t, ht⟩ := exists_fits_tables htyped name
  rw [part, column?_framed]
  by_cases hname : name ∈ Row.columns rows
  · rw [if_pos hname]
    by_cases hv : ∃ r ∈ rows, Row.read r name ≠ .null
    · show ((cells rows name).cast _).values = _
      rw [typeIn_framed htyped h hrows hname hv, Column.cast, if_pos rfl, values_cells (ht rows hrows)]
    · have hnull : ∀ r ∈ rows, Row.read r name = .null := by simpa using hv
      show ((cells rows name).cast _).values = _
      rw [cells_of_null hnull, values_cast_empty, map_eq_replicate_iff.mpr hnull]
  · rw [if_neg hname]
    show (Column.empty _ (framed rows).rows).values = _
    rw [rows_framed hcolumns, Column.values_empty, map_eq_replicate_iff.mpr fun r hr => Row.read_eq_null hr hname]

/-- A column of truth values that is one of numbers in another frame is one of texts among all. -/
theorem typeIn_of_mixed {r : Row} (hr : r ∈ tables.flatten) {b : Bool}
    (hb : Row.read r name = .bool b) (hrows : rows ∈ tables)
    (hname : name ∈ Row.columns rows) (hnull : ∀ r ∈ rows, Row.read r name = .null) :
    typeIn (tables.map framed) name = .text := by
  obtain ⟨t, ht⟩ := exists_fits_tables htyped name
  obtain ⟨rows', hrows', hr'⟩ := mem_flatten.mp hr
  have hv : Row.read r name ≠ .null := by
    rw [hb]
    exact Value.noConfusion
  have hname' : name ∈ Row.columns rows' := by
    by_contra hmem
    exact hv (Row.read_eq_null hr' hmem)
  obtain ⟨-, htype, -⟩ := (type_cells (ht rows' hrows')).resolve_left fun hnull => hv (hnull.1 r hr')
  have hbool : t = .bool := by
    have hfits := ht rows' hrows' r hr'
    rw [hb] at hfits
    cases t with
    | bool => rfl
    | _ => cases hfits
  have htakes := takes_typeIn (mem_map_of_mem hrows') (mem_columns_framed.mpr ⟨hname', rfl⟩)
  have htakes' := takes_typeIn (mem_map_of_mem hrows) (mem_columns_framed.mpr ⟨hname, rfl⟩)
  rw [htype, hbool] at htakes
  rw [cells_of_null hnull, Column.type_empty] at htakes'
  exact ColumnType.eq_text_of_takes htakes htakes'

variable (hcolumns : ∀ rows ∈ tables, Row.columns rows ≠ [])

omit htyped in
include hcolumns in
theorem rows_concat_framed : (concat (tables.map framed)).rows = tables.flatten.length := by
  rw [rows_concat, length_flatten, map_map]
  exact congrArg List.sum (map_congr_left fun rows hrows => rows_framed (hcolumns rows hrows))

omit htyped in
theorem mem_names_framed :
    name ∈ (unionTypes (tables.map framed)).map Prod.fst ↔ name ∈ Row.columns tables.flatten := by
  rw [mem_names_concat, Row.mem_columns]
  constructor
  · rintro ⟨f, hf, hname⟩
    obtain ⟨rows, hrows, rfl⟩ := mem_map.mp hf
    rw [names_framed] at hname
    obtain ⟨r, hr, hkey⟩ := Row.mem_columns.mp hname
    exact ⟨r, mem_flatten.mpr ⟨rows, hrows, hr⟩, hkey⟩
  · rintro ⟨r, hr, hkey⟩
    obtain ⟨rows, hrows, hr⟩ := mem_flatten.mp hr
    refine ⟨framed rows, mem_map_of_mem hrows, ?_⟩
    rw [names_framed]
    exact Row.mem_columns.mpr ⟨r, hr, hkey⟩

include hcolumns

theorem toRows_concat (h : Unmixed tables) : (concat (tables.map framed)).toRows =
    tables.flatten.map (Row.filled (Row.columns tables.flatten)) := by
  have hvalues (name : Text) :
      (stacked (tables.map framed) name).values = tables.flatten.map (Row.read · name) := by
    rw [values_stacked, flatMap_map, map_flatten, flatMap_def]
    exact congrArg List.flatten (map_congr_left fun rows hrows =>
      values_part htyped h hrows (hcolumns rows hrows) name)
  rw [toRows, rows_concat_framed hcolumns]
  refine ext_getElem (by rw [length_map, length_range, length_map]) fun i hi hi' => ?_
  rw [getElem_map, getElem_map, getElem_range,
    ← Row.filled_congr (fun name => mem_names_framed), Row.filled, row, columns_concat, map_map]
  refine congrArg ofList (map_congr_left fun name _ => ?_)
  show (name, (stacked (tables.map framed) name).value i) = _
  rw [length_map] at hi'
  rw [Column.value, hvalues, getD_eq_getElem _ _ (by rw [length_map]; exact hi'), getElem_map]

end Tables

/-- Take tables with at least one column each, whose columns have cells of one type over all tables.  Their
frames, one under another, have the rows of the frame of all rows, if and only if no column of truth values
is null throughout one of the tables that name it. -/
theorem toRows_concat_iff {tables : List (List Row)} (htyped : Row.Typed tables.flatten)
    (hcolumns : ∀ rows ∈ tables, Row.columns rows ≠ []) :
    ∃ frames f, tables.mapM ofRows = .ok frames ∧ ofRows tables.flatten = .ok f ∧
      ((concat frames).toRows = f.toRows ↔ Unmixed tables) := by
  have hframes : tables.mapM ofRows = .ok (tables.map framed) :=
    mapM_eq_ok fun rows hrows => ofRows_eq (htyped.of_mem_flatten hrows).plain
  refine ⟨_, _, hframes, ofRows_eq htyped.plain, fun heq => ?_, fun h => ?_⟩
  · rintro name ⟨r, hr, b, hb⟩ rows hrows hname
    by_contra hnull
    have hnull : ∀ r ∈ rows, Row.read r name = .null := by simpa using hnull
    have hmem : name ∈ Row.columns tables.flatten := by
      by_contra hmem
      rw [Row.read_eq_null hr hmem] at hb
      cases hb
    -- the row of the truth value has it in the frame of all rows, and a text or null in the other one
    obtain ⟨i, hi, hrow⟩ := List.getElem_of_mem hr
    have hsame := congrArg (fun rows => rows[i]?) heq
    rw [toRows_framed htyped (List.ne_nil_of_mem hmem), toRows, rows_concat_framed hcolumns] at hsame
    simp only [List.getElem?_map, List.getElem?_range hi, List.getElem?_eq_getElem hi, hrow, Option.map_some,
      Option.some.injEq] at hsame
    have hcell := congrArg (get? · name) hsame
    simp only [get?_row_concat, if_pos (mem_names_framed.mpr hmem), Row.get?_filled, if_pos hmem, hb,
      Option.some.injEq] at hcell
    refine Column.value_ne_bool ?_ i b hcell
    rw [stacked, Column.type_concat, typeIn_of_mixed htyped hr hb hrows hname hnull]
  · rw [toRows_concat htyped hcolumns h]
    cases tables with
    | nil => rfl
    | cons rows tables =>
      obtain ⟨name, hname⟩ := List.exists_mem_of_ne_nil _ (hcolumns rows List.mem_cons_self)
      obtain ⟨r, hr, hkey⟩ := Row.mem_columns.mp hname
      refine (toRows_framed htyped (List.ne_nil_of_mem (Row.mem_columns.mpr ⟨r, ?_, hkey⟩))).symm
      exact List.mem_flatten.mpr ⟨rows, List.mem_cons_self, hr⟩

/-- Tables in which columns are missing, or null throughout. -/
def patchy : List (List Row) :=
  [[[("a", .float 1)], []], [[("a", .null), ("t", .null)]],
   [[("b", .bool true), ("t", .text "x")], [("a", .float 2), ("b", .null)]]]

theorem toRows_concat_iff_patchy : Row.Typed patchy.flatten ∧ (∀ rows ∈ patchy, Row.columns rows ≠ []) ∧
    ∃ frames f, patchy.mapM ofRows = .ok frames ∧ ofRows patchy.flatten = .ok f ∧
      (concat frames).toRows = f.toRows := by
  have htyped : Row.Typed patchy.flatten := by decide
  have hcolumns : ∀ rows ∈ patchy, Row.columns rows ≠ [] := by
    have hkeys : ∀ rows ∈ patchy, ∃ r ∈ rows, r ≠ [] := by simp [patchy]
    intro rows hrows
    obtain ⟨r, hr, hne⟩ := hkeys rows hrows
    exact Row.columns_ne_nil hr hne
  obtain ⟨frames, f, hframes, hf, hiff⟩ := toRows_concat_iff htyped hcolumns
  exact ⟨htyped, hcolumns, frames, f, hframes, hf, hiff.mpr (by decide)⟩

/-- A truth value becomes a text under a column that is null. -/
theorem concat_truth_ne : Row.Typed [[("b", .null)], [("b", .bool true)]] ∧
    (do return (concat [← ofRows [[("b", .null)]], ← ofRows [[("b", .bool true)]]]).toRows : Outcome _) =
      .ok [[("b", .null)], [("b", .text "true")]] ∧
    (ofRows [[("b", .null)], [("b", .bool true)]]).map toRows = .ok [[("b", .null)], [("b", .bool true)]] ∧
    Value.text "true" ≠ .bool true :=
  ⟨by decide, by cbv, by cbv, Value.noConfusion⟩

end Frame

end Dataflow
