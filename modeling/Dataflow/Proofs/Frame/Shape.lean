import Dataflow.Proofs.Frame.Concat
import Dataflow.Proofs.Frame.Order
import Dataflow.Proofs.Run

/-!
# The shape of frames

Frames are made of rows, and from other frames by picking rows, cutting off rows, putting them one under
another or side by side, and setting columns (`Frame.Derived`).  In all of them each column has as many cells
as the frame has rows, and the names and the columns, kept apart in a `Sheet`, are as many.  The names are
different, so that no column is lost in the rows, as long as no mark that tells the columns of two frames apart
makes a name that is there already.

Main statement (`Frame.derived_shape`): the invariant, and when exactly two frames side by side break it.
-/

namespace Dataflow

open List

variable {rows : List Row} {P : Frame → Frame → Prop}

/-! ### Rows made of fields -/

namespace Fields

variable {α : Type} {fs : List (Text × α)}

theorem mem_keys_ofList {key : Text} : key ∈ (ofList fs).map Prod.fst ↔ key ∈ fs.map Prod.fst := by
  rw [← isSome_get?_iff, get?_ofList, isSome_get?_iff, map_reverse, mem_reverse]

theorem length_ofList (h : (fs.map Prod.fst).Nodup) : (ofList fs).length = fs.length := by
  have hperm := (perm_ext_iff_of_nodup (ascending_ofList fs).nodup h).mpr fun _ => mem_keys_ofList
  simpa using hperm.length_eq

end Fields

namespace Frame

/-! ### Frames of one length -/

/-- Each column has as many cells as the frame has rows. -/
def Rectangular (f : Frame) : Prop := ∀ e ∈ f.columns, e.2.length = f.rows

theorem length_columnOf {name : Text} {t : ColumnType} {c : Column}
    (h : columnOf rows name t = .ok c) : c.length = rows.length := by
  cases t with
  | float | int | bool =>
    cases h
    exact length_map _
  | text =>
    simp only [columnOf] at h
    obtain ⟨cells, hcells, hc⟩ := Outcome.bind_eq_ok h
    cases hc
    exact (forall₂_of_mapM hcells).length_eq.symm

/-- The frame of rows has a column for each name in them, with a cell for each row. -/
theorem names_ofRows {f : Frame} (h : ofRows rows = .ok f) :
    f.names = Row.columns rows ∧ f.Rectangular := by
  obtain ⟨columns, hcolumns, hf⟩ := Outcome.bind_eq_ok h
  cases hf
  have hforall : Forall₂ (fun (p : Text × ColumnType) (e : Text × Column) =>
      e.1 = p.1 ∧ e.2.length = rows.length) (schema rows) columns := by
    refine (forall₂_of_mapM hcolumns).imp fun p e he => ?_
    obtain ⟨c, hc, hpair⟩ := Outcome.bind_eq_ok he
    cases hpair
    exact ⟨rfl, length_columnOf hc⟩
  have hnames : columns.map Prod.fst = (schema rows).map Prod.fst := by
    rw [← forall₂_eq_eq_eq, forall₂_map_left_iff, forall₂_map_right_iff]
    exact hforall.flip.imp fun e p he => he.1
  constructor
  · rw [names, hnames, schema, map_map]
    exact map_id _
  · intro e he
    obtain ⟨p, -, -, hlength⟩ := exists_mem_of_forall₂ hforall.flip he
    have hne : ¬ columns.isEmpty = true := by
      rw [List.isEmpty_iff]
      exact ne_nil_of_mem he
    exact hlength.trans (if_neg hne).symm

variable {f l r : Frame}

theorem names_pick (f : Frame) (is : List Nat) : (f.pick is).names = f.names := by
  rw [names, pick, map_map]
  rfl

theorem rectangular_pick (f : Frame) (is : List Nat) : (f.pick is).Rectangular := by
  intro e he
  obtain ⟨⟨name, c⟩, -, rfl⟩ := mem_map.mp he
  cases c <;> exact length_map _

theorem names_head (f : Frame) (n : Nat) : (f.head n).names = f.names := by
  unfold head
  split
  · rfl
  · rw [names, map_map]
    rfl

theorem rows_head {n : Nat} (h : n ≤ f.rows) : (f.head n).rows = n := by
  unfold head
  split
  · next hle => exact Nat.le_antisymm hle h
  · rfl

theorem Rectangular.head (h : f.Rectangular) (n : Nat) : (f.head n).Rectangular := by
  unfold Frame.head
  split
  · exact h
  · next hlt =>
    intro e he
    obtain ⟨⟨name, c⟩, hc, rfl⟩ := mem_map.mp he
    have hlength : c.length = f.rows := h _ hc
    have htake : (c.take n).length = min n c.length := by
      cases c <;> exact length_take
    show (c.take n).length = n
    omega

theorem names_concat (frames : List Frame) : (concat frames).names = (unionTypes frames).map Prod.fst := by
  rw [names, columns_concat, map_map]
  exact map_id _

theorem nodup_names_concat (frames : List Frame) : (concat frames).names.Nodup := by
  rw [names_concat]
  exact nodup_typesOf _

theorem length_part {frames : List Frame} (hf : f.Rectangular) (name : Text) :
    (part frames name f).length = f.rows := by
  unfold part
  split
  · exact Column.length_empty _ _
  · next c hc =>
    rw [Column.length_cast]
    exact hf _ (mem_of_column? hc)

theorem rectangular_concat {frames : List Frame} (h : ∀ f ∈ frames, f.Rectangular) :
    (concat frames).Rectangular := by
  intro e he
  rw [columns_concat] at he
  obtain ⟨name, -, rfl⟩ := mem_map.mp he
  show (stacked frames name).length = _
  rw [← Column.length_values, values_stacked, length_flatMap, rows_concat]
  refine congrArg List.sum (map_congr_left fun f hf => ?_)
  rw [Column.length_values, length_part (h f hf)]

theorem Rectangular.withColumn (h : f.Rectangular) (name : Text) {c : Column} (hc : c.length = f.rows) :
    (f.withColumn name c).Rectangular := by
  unfold Frame.withColumn
  split
  · intro e he
    rcases mem_or_eq_of_mem_set he with he | rfl
    · exact h e he
    · exact hc
  · intro e he
    have hrows : (if f.columns.isEmpty then c.length else f.rows) = f.rows := by
      split
      · exact hc
      · rfl
    rcases mem_append.mp he with he | he
    · exact (h e he).trans hrows.symm
    · obtain rfl := mem_singleton.mp he
      exact hc.trans hrows.symm

/-! ### Frames side by side -/

/-- The name that a column of the right frame gets. -/
def markedName (l : Frame) (name : Text) : Text := if name ∈ l.names then name ++ "_right" else name

theorem isSome_column?_iff {name : Text} : (f.column? name).isSome = true ↔ name ∈ f.names := by
  rw [column?, Option.isSome_map, List.find?_isSome]
  simp [names]

theorem names_beside (l r : Frame) : (l.beside r).names = l.names ++ r.names.map l.markedName := by
  have hmarked (n : Nat) : ((r.head n).columns.map fun e =>
      (if ((l.head n).column? e.1).isSome then e.1 ++ ("_right" : Text) else e.1, e.2)).map Prod.fst =
        r.names.map l.markedName := by
    rw [map_map, ← names_head r n, names, map_map]
    refine map_congr_left fun e _ => ?_
    show (if ((l.head n).column? e.1).isSome then e.1 ++ "_right" else e.1) = l.markedName e.1
    rw [markedName, ← names_head l n]
    exact if_congr isSome_column?_iff rfl rfl
  show ((l.head _).columns ++ _).map Prod.fst = _
  rw [map_append, hmarked, ← names, names_head]

theorem Rectangular.beside (hl : l.Rectangular) (hr : r.Rectangular) : (l.beside r).Rectangular := by
  intro e he
  rcases mem_append.mp he with he | he
  · exact (hl.head _ e he).trans (rows_head (Nat.min_le_left _ _))
  · obtain ⟨⟨name, c⟩, hc, rfl⟩ := mem_map.mp he
    exact (hr.head _ _ hc).trans (rows_head (Nat.min_le_right _ _))

/-- No mark on a name that both frames have makes a name that one of them has. -/
def Separate (l r : Frame) : Prop :=
  ∀ name ∈ l.names, name ∈ r.names → name ++ "_right" ∉ l.names ∧ name ++ "_right" ∉ r.names

instance : Decidable (Separate l r) := inferInstanceAs (Decidable (∀ _ ∈ _, _))

theorem append_right_injective {a b : Text} (h : a ++ "_right" = b ++ "_right") : a = b :=
  Text.ext (append_cancel_right (congrArg Text.bytes h))

theorem append_right_ne (a : Text) : a ++ "_right" ≠ a := by
  intro h
  have hlength := congrArg (fun t : Text => t.bytes.length) h
  simp only [Text.bytes_append, length_append] at hlength
  have hmark : 0 < (Text.ofString "_right").bytes.length := by decide
  omega

/-- Two frames with different names each have different names side by side if and only if they are separate. -/
theorem nodup_names_beside_iff (hl : l.names.Nodup) (hr : r.names.Nodup) :
    (l.beside r).names.Nodup ↔ Separate l r := by
  rw [names_beside, nodup_append]
  constructor
  · rintro ⟨-, hmarked, hapart⟩ name hname hname'
    have hmark : name ++ "_right" = l.markedName name := (if_pos hname).symm
    have hleft : name ++ "_right" ∉ l.names := fun hmem =>
      hapart _ hmem _ (mem_map_of_mem hname') hmark
    refine ⟨hleft, fun hmem => ?_⟩
    -- two columns of the right frame would come under this name
    have hsame : l.markedName (name ++ "_right") = l.markedName name := (if_neg hleft).trans hmark
    exact append_right_ne name (inj_on_of_nodup_map hmarked hmem hname' hsame)
  · intro h
    refine ⟨hl, hr.map_on fun a ha b hb heq => ?_, fun a ha b hb heq => ?_⟩
    · unfold markedName at heq
      split at heq
      · next hal =>
        split at heq
        · exact append_right_injective heq
        · exact absurd (heq ▸ hb) (h a hal ha).2
      · split at heq
        · next hbl => exact absurd (heq ▸ ha) (h b hbl hb).2
        · exact heq
    · obtain ⟨name, hname, rfl⟩ := mem_map.mp hb
      unfold markedName at heq
      split at heq
      · next hmem => exact (h name hmem hname).1 (heq ▸ ha)
      · next hmem => exact hmem (heq ▸ ha)

/-! ### Names and columns apart -/

/-- A frame as two lists, of names and of columns, which are changed one by one. -/
structure Sheet where
  names : List Text
  columns : List Column
  rows : Nat

def sheet (f : Frame) : Sheet := ⟨f.names, f.columns.map Prod.snd, f.rows⟩

namespace Sheet

def pick (s : Sheet) (is : List Nat) : Sheet := ⟨s.names, s.columns.map (Column.pick is), is.length⟩

def head (s : Sheet) (n : Nat) : Sheet :=
  if s.rows ≤ n then s else ⟨s.names, s.columns.map (Column.take n), n⟩

def concat (ss : List Sheet) : Sheet :=
  let frames := ss.map fun s => (⟨s.names.zip s.columns, s.rows⟩ : Frame)
  let names := (unionTypes frames).map Prod.fst
  ⟨names, names.map (stacked frames), (ss.map Sheet.rows).sum⟩

def beside (l r : Sheet) : Sheet :=
  let n := min l.rows r.rows
  ⟨l.names ++ r.names.map fun name => if name ∈ l.names then name ++ "_right" else name,
    (l.head n).columns ++ (r.head n).columns.take r.names.length, n⟩

def withColumn (s : Sheet) (name : Text) (c : Column) : Sheet :=
  match s.names.findIdx? (· = name) with
  | some i => { s with columns := s.columns.set i c }
  | none => ⟨s.names ++ [name], s.columns ++ [c], if s.columns.isEmpty then c.length else s.rows⟩

end Sheet

theorem sheet_pick (f : Frame) (is : List Nat) : (f.pick is).sheet = f.sheet.pick is := by
  simp [sheet, names, pick, Sheet.pick]

theorem sheet_head (f : Frame) (n : Nat) : (f.head n).sheet = f.sheet.head n := by
  unfold head Sheet.head
  by_cases h : f.rows ≤ n
  · rw [if_pos h]
    exact (if_pos h).symm
  · rw [if_neg h]
    refine Eq.trans ?_ (if_neg h).symm
    simp [sheet, names]

theorem sheet_concat (fs : List Frame) : (concat fs).sheet = .concat (fs.map sheet) := by
  have hframe (f : Frame) : (⟨f.sheet.names.zip f.sheet.columns, f.rows⟩ : Frame) = f :=
    congrArg (Frame.mk · f.rows) ((zip_map' ..).trans (map_id _))
  have hframes : (fs.map sheet).map (fun s => (⟨s.names.zip s.columns, s.rows⟩ : Frame)) = fs := by
    rw [map_map]
    exact (map_congr_left fun f _ => hframe f).trans (map_id fs)
  have hrows : (fs.map sheet).map Sheet.rows = fs.map Frame.rows := map_map
  rw [Sheet.concat, hframes, hrows, sheet, names_concat, columns_concat, rows_concat, map_map]
  rfl

theorem sheet_beside (l r : Frame) : (l.beside r).sheet = l.sheet.beside r.sheet := by
  have hcolumns (n : Nat) : (r.sheet.head n).columns.take r.names.length = (r.head n).columns.map Prod.snd := by
    rw [← sheet_head, ← names_head r n]
    exact take_of_length_le (by simp [sheet, names])
  show Sheet.mk _ _ _ = Sheet.mk _ ((l.sheet.head _).columns ++ (r.sheet.head _).columns.take r.names.length) _
  rw [names_beside, hcolumns, ← sheet_head]
  exact congrArg (Sheet.mk _ · _) (by simp [beside, sheet])

theorem sheet_withColumn (f : Frame) (name : Text) (c : Column) :
    (f.withColumn name c).sheet = f.sheet.withColumn name c := by
  have hfind : f.sheet.names.findIdx? (· = name) = f.columns.findIdx? (·.1 = name) := findIdx?_map ..
  unfold Sheet.withColumn
  rw [hfind]
  cases h : f.columns.findIdx? (·.1 = name) with
  | none =>
    rw [withColumn, h]
    simp [sheet, names]
  | some i =>
    obtain ⟨hlt, hname, -⟩ := findIdx?_eq_some_iff_getElem.mp h
    have hmem : name ∈ f.names := of_decide_eq_true hname ▸ mem_map_of_mem (getElem_mem hlt)
    have hnames : (f.withColumn name c).names = f.names := by
      rw [names, columns_withColumn, Fields.keys_adjust]
      exact if_pos hmem
    rw [sheet, hnames, withColumn, h]
    simp [sheet, map_set]

/-! ### Derived frames -/

/-- The frames that come from rows, where frames side by side satisfy a condition, and the sheets that come
from them in the same way. -/
inductive Derived (P : Frame → Frame → Prop) : Frame → Sheet → Prop
  | ofRows {rows : List Row} {f : Frame} (hrows : ∀ r ∈ rows, Fields.Ascending r) (h : ofRows rows = .ok f) :
      Derived P f f.sheet
  | pick {f : Frame} {s : Sheet} (h : Derived P f s) {is : List Nat} (his : ∀ i ∈ is, i < f.rows) :
      Derived P (f.pick is) (s.pick is)
  | head {f : Frame} {s : Sheet} (h : Derived P f s) (n : Nat) : Derived P (f.head n) (s.head n)
  | concat {fs : List (Frame × Sheet)} (h : ∀ p ∈ fs, Derived P p.1 p.2) :
      Derived P (concat (fs.map Prod.fst)) (.concat (fs.map Prod.snd))
  | beside {l r : Frame} {s t : Sheet} (hl : Derived P l s) (hr : Derived P r t) (h : P l r) :
      Derived P (l.beside r) (s.beside t)
  | withColumn {f : Frame} {s : Sheet} (h : Derived P f s) (name : Text) {c : Column} (hc : c.length = f.rows) :
      Derived P (f.withColumn name c) (s.withColumn name c)

variable {s : Sheet}

theorem Derived.of_table (rows : List Row) (hrows : Row.Table rows)
    (h : Frame.ofRows rows = .ok f) : Derived P f f.sheet :=
  .ofRows hrows.ascending h

theorem Derived.sheet (h : Derived P f s) : s = f.sheet := by
  induction h with
  | ofRows hrows h => rfl
  | pick _ _ ih => rw [sheet_pick, ih]
  | head _ n ih => rw [sheet_head, ih]
  | concat _ ih =>
    rw [sheet_concat, map_map]
    exact congrArg _ (map_congr_left ih)
  | beside _ _ _ ihl ihr => rw [sheet_beside, ihl, ihr]
  | withColumn _ name hc ih => rw [sheet_withColumn, ih]

theorem Derived.rectangular (h : Derived P f s) : f.Rectangular := by
  induction h with
  | ofRows hrows h => exact (names_ofRows h).2
  | pick _ _ ih => exact rectangular_pick _ _
  | head _ n ih => exact ih.head n
  | concat _ ih => exact rectangular_concat (forall_mem_map.mpr ih)
  | beside _ _ _ ihl ihr => exact ihl.beside ihr
  | withColumn _ name hc ih => exact ih.withColumn name hc

theorem Derived.nodup_names (h : Derived Separate f s) : f.names.Nodup := by
  induction h with
  | ofRows hrows h =>
    rw [(names_ofRows h).1]
    exact Row.nodup_columns fun r hr => (hrows r hr).nodup
  | pick _ _ ih => rwa [names_pick]
  | head _ n ih => rwa [names_head]
  | concat _ ih => exact nodup_names_concat _
  | beside _ _ h ihl ihr => exact (nodup_names_beside_iff ihl ihr).mpr h
  | withColumn _ name hc ih =>
    rw [names, columns_withColumn]
    exact Fields.nodup_adjust ih name _

/-- A row has a field for each column of a frame with different names, and the cell of the column in it. -/
theorem row_of_nodup (h : f.names.Nodup) (i : Nat) : (f.row i).length = f.columns.length ∧
    ∀ e ∈ f.columns, Fields.get? (f.row i) e.1 = some (e.2.value i) := by
  have hnames : ((f.columns.map fun e => (e.1, e.2.value i)).map Prod.fst).Nodup := by
    rw [map_map]
    exact h
  constructor
  · exact (Fields.length_ofList hnames).trans (length_map _)
  · intro e he
    refine (Fields.get?_ofList _ e.1).trans ((Fields.get?_reverse hnames e.1).trans ?_)
    exact Fields.get?_of_mem hnames (mem_map_of_mem he)

/-- Every frame that comes from rows is the same in two lists, which are of one length, and all columns have as
many cells as there are rows.  If the frames that were put side by side were separate, the names of the columns
are different, and each row of the frame has one field for each column, with its cell.  Two such frames have
different names side by side if and only if they are separate. -/
theorem derived_shape (f g : Frame) (s t : Sheet) :
    (Derived (fun _ _ => True) f s → s = f.sheet ∧ s.names.length = s.columns.length ∧ f.Rectangular ∧
      f.toRows.length = f.rows) ∧
    (Derived Separate f s → f.names.Nodup ∧ ∀ (i : Nat) (row : Row), f.toRows[i]? = some row →
      row.length = f.columns.length ∧ ∀ e ∈ f.columns, Fields.get? row e.1 = some (e.2.value i)) ∧
    (Derived Separate f s → Derived Separate g t → ((f.beside g).names.Nodup ↔ Separate f g)) := by
  refine ⟨fun hf => ⟨hf.sheet, ?_, hf.rectangular, ?_⟩, fun hf => ⟨hf.nodup_names, fun i row hrow => ?_⟩,
    fun hf hg => nodup_names_beside_iff hf.nodup_names hg.nodup_names⟩
  · rw [hf.sheet, sheet, names, List.length_map, List.length_map]
  · rw [toRows, List.length_map, List.length_range]
  · rw [toRows, List.getElem?_map, Option.map_eq_some_iff] at hrow
    obtain ⟨j, hj, rfl⟩ := hrow
    obtain rfl : i = j := by
      obtain ⟨hi, hget⟩ := List.getElem?_eq_some_iff.mp hj
      rw [← hget, List.getElem_range]
    exact row_of_nodup hf.nodup_names i

/-- The frame of bids, of which one has no size. -/
def bids : Frame :=
  { columns := [("firm", .bool [some true, some false]), ("size", .text [some "s", none])], rows := 2 }

/-- The frame of asks, which have their own mark of firmness. -/
def asks : Frame :=
  { columns := [("firm", .bool [some true, none, some true]), ("note", .text [none, some "n", some "m"])]
    rows := 3 }

/-- The frame of venues. -/
def venues : Frame := { columns := [("venue", .text [some "x", some "y"])], rows := 2 }

theorem derived_bids : Derived Separate bids bids.sheet :=
  .of_table [[("firm", .bool true), ("size", .text "s")], [("firm", .bool false)]] (by decide) (by cbv)

theorem derived_asks : Derived Separate asks asks.sheet :=
  .of_table [[("firm", .bool true)], [("note", .text "n")], [("firm", .bool true), ("note", .text "m")]]
    (by decide) (by cbv)

theorem derived_venues : Derived Separate venues venues.sheet :=
  .of_table [[("venue", .text "x")], [("venue", .text "y")]] (by decide) (by cbv)

/-- Bids, asks and venues, the venues next to the other two. -/
def book : Frame := (bids.beside asks).beside venues

theorem derived_shape_book : ¬ Separate book bids ∧
    ((bids.sheet.beside asks.sheet).beside venues.sheet).names =
      [("firm" : Text), "size", "firm_right", "note", "venue"] ∧
    ((bids.sheet.beside asks.sheet).beside venues.sheet).columns.length = 5 ∧
    (∀ (i : Nat) (row : Row), book.toRows[i]? = some row → row.length = 5) ∧
    ¬ (book.beside bids).names.Nodup := by
  have hbook : Derived Separate book _ :=
    .beside (.beside derived_bids derived_asks (by decide)) derived_venues (by decide)
  have hnot : ¬ Separate book bids := by decide
  obtain ⟨-, hrows, hbeside⟩ := derived_shape book bids _ _
  exact ⟨hnot, by decide, by decide, fun i row hrow => ((hrows hbook).2 i row hrow).1,
    fun hnodup => hnot ((hbeside hbook derived_bids).mp hnodup)⟩

/-- The frame of one closing price. -/
def close (price : Text) : Frame := { columns := [("close", .text [some price])], rows := 1 }

theorem derived_close (price : Text) : Derived P (close price) (close price).sheet := by
  have hrow : Fields.Ascending [(("close" : Text), Value.text price)] := pairwise_singleton _ _
  exact .ofRows (forall_mem_singleton.mpr hrow) (by cbv)

/-- Three closing prices, the third next to the other two. -/
def closes : Frame := ((close "a").beside (close "b")).beside (close "c")

/-- The second one is lost. -/
theorem derived_close_lost : (∃ s, Derived (fun _ _ => True) closes s) ∧
    closes.names = [("close" : Text), "close_right", "close_right"] ∧
    closes.toRows = [([("close", .text "a"), ("close_right", .text "c")] : List (Text × Value))] := by
  have hcloses : Derived (fun _ _ => True) closes _ :=
    .beside (.beside (derived_close "a") (derived_close "b") trivial) (derived_close "c") trivial
  exact ⟨⟨_, hcloses⟩, by decide, rfl⟩

end Frame

end Dataflow
