import Dataflow.Connector
import Dataflow.Proofs.Json.Accepted
import Dataflow.Proofs.Frame.Shape

/-!
# Rows of comma-separated records

A record becomes a row with the names of the header.  Of columns with one name the last decides
(`Connector.get?_rowOf`).  A cell is empty, the text of its field, or the number that the field spells, and the
words for infinities and for what is no number are read as numbers too.  So a row has a document exactly if none
of the fields that decide is such a word (`Connector.source_clean_iff`).
-/

namespace Dataflow

open List Fields

/-! ### Words among numbers -/

namespace NumberReader

variable {t : Text} {x : Float}

theorem exists_readFloat_of_mem (h : t.toLower ∈ words) :
    ∃ x, readFloat t = .ok x ∧ x.isFinite = false := by
  have hspecial : ∃ x, special? t = some x ∧ x.isFinite = false := by
    unfold special?
    generalize t.toLower = low at h
    simp only [words, mem_cons, not_mem_nil, or_false] at h
    rcases h with rfl | rfl | rfl | rfl | rfl | rfl | rfl <;> exact ⟨_, rfl, by decide +kernel⟩
  obtain ⟨x, hx, hfinite⟩ := hspecial
  exact ⟨x, by rw [readFloat, hx], hfinite⟩

theorem isFinite_iff (h : readFloat t = .ok x) : x.isFinite = true ↔ t.toLower ∉ words := by
  constructor
  · intro hx hmem
    obtain ⟨y, hy, hfinite⟩ := exists_readFloat_of_mem hmem
    cases h.symm.trans hy
    rw [hx] at hfinite
    cases hfinite
  · intro hmem
    exact isFinite_of_readFloat (special?_of_not_mem hmem) h

end NumberReader

namespace Connector

open NumberReader (words)

variable {header fields : List Text} {name : Text} {i : Nat} {v : Value}

/-! ### Cells -/

/-- What a cell holds, given its field if the record has one. -/
inductive Holds : Option Text → Value → Prop
  | missing : Holds none .null
  | blank {t : Text} (h : t.trim.isEmpty = true) : Holds (some t) .null
  | text {t : Text} (h : ∀ x, readFloat t.trim ≠ .ok x) : Holds (some t) (.text t)
  | number {t : Text} {x : Float} (h : readFloat t.trim = .ok x) (hx : x.isFinite = true) :
    Holds (some t) (.float x)
  | word {t : Text} {x : Float} (h : t.trim.toLower ∈ words) (hx : x.isFinite = false) :
    Holds (some t) (.float x)

def cellAt (fields : List Text) (i : Nat) : Value :=
  match fields[i]? with
  | some t => cell t
  | none => .null

theorem holds_cellAt (fields : List Text) (i : Nat) : Holds fields[i]? (cellAt fields i) := by
  unfold cellAt
  cases fields[i]? with
  | none => exact .missing
  | some t =>
    show Holds (some t) (cell t)
    unfold cell
    split
    · next h => exact .blank h
    · unfold Value.ofCell
      split
      · next x h =>
        have hiff := NumberReader.isFinite_iff h
        by_cases hx : x.isFinite = true
        · exact .number h hx
        · exact .word (by_contra fun hw => hx (hiff.mpr hw)) (by simpa using hx)
      · next f h => exact .text fun x hx => by rw [h] at hx; cases hx

/-- A cell has a document unless its field is a word for what is no finite number. -/
theorem Holds.isSome_toJson? {field : Option Text} (h : Holds field v) :
    v.toJson?.isSome = true ↔ ∀ t, field = some t → t.trim.toLower ∉ words := by
  cases h with
  | missing => simp [Value.toJson?]
  | @blank t h =>
    have hempty : t.trim = "" := Text.ext (isEmpty_iff.mp h)
    simp only [Value.toJson?, Option.isSome_some, true_iff, Option.some.injEq, forall_eq', hempty]
    decide
  | text h =>
    simp only [Value.toJson?, Option.isSome_some, true_iff, Option.some.injEq, forall_eq']
    intro hword
    obtain ⟨x, hx, -⟩ := NumberReader.exists_readFloat_of_mem hword
    exact h x hx
  | number h hx => simpa [Value.toJson?, Value.floatJson?, hx] using (NumberReader.isFinite_iff h).mp hx
  | word h hx => simpa [Value.toJson?, Value.floatJson?, hx] using h

/-! ### Rows -/

/-- The place of the last column with the name. -/
def lastPlace? (header : List Text) (name : Text) : Option Nat := get? header.zipIdx.reverse name

theorem rowOf_eq (header fields : List Text) : rowOf header fields =
    ofList (header.zipIdx.map fun e => (e.1, cellAt fields e.2)) := by
  refine congrArg ofList (map_congr_left fun e _ => ?_)
  obtain ⟨n, i⟩ := e
  unfold cellAt
  dsimp only
  cases fields[i]? <;> rfl

/-- **Of columns with one name the last decides.** -/
theorem get?_rowOf (header fields : List Text) (name : Text) :
    get? (rowOf header fields) name = (lastPlace? header name).map (cellAt fields) := by
  rw [rowOf_eq, get?_ofList, ← map_reverse, lastPlace?, get?, get?, find?_map]
  simp [Function.comp_def]

theorem mem_keys_rowOf : name ∈ (rowOf header fields).map Prod.fst ↔ name ∈ header := by
  rw [rowOf_eq, mem_keys_ofList, map_map]
  exact iff_of_eq (congrArg (name ∈ ·) (zipIdx_map_fst ..))

theorem nodup_keys_rowOf (header fields : List Text) : ((rowOf header fields).map Prod.fst).Nodup :=
  (ascending_ofList _).nodup

/-- The row of a record: the names of the header, the cells of the fields that decide, and when it has a
document. -/
structure OfRecord (header fields : List Text) (r : Row) : Prop where
  nodup : (r.map Prod.fst).Nodup
  names : ∀ name, name ∈ r.map Prod.fst ↔ name ∈ header
  cells : ∀ name i, lastPlace? header name = some i → ∃ v, get? r name = some v ∧ Holds fields[i]? v
  printed : (Value.row r).toJson?.isSome = true ↔
    ∀ name i t, lastPlace? header name = some i → fields[i]? = some t → t.trim.toLower ∉ words

theorem ofRecord_rowOf (header fields : List Text) : OfRecord header fields (rowOf header fields) := by
  have hget {name : Text} {i : Nat} (hi : lastPlace? header name = some i) :
      get? (rowOf header fields) name = some (cellAt fields i) := by
    rw [get?_rowOf, hi]
    rfl
  have hnodup := nodup_keys_rowOf header fields
  refine ⟨hnodup, fun _ => mem_keys_rowOf, fun name i hi => ⟨_, hget hi, holds_cellAt fields i⟩, ?_⟩
  rw [Value.toJson?, Option.isSome_map, Value.isSome_toJsonFields?]
  constructor
  · intro h name i t hi ht
    exact (holds_cellAt fields i).isSome_toJson?.mp (h _ (mem_of_get? (hget hi))) t ht
  · intro h e he
    have hcell := get?_of_mem hnodup he
    rw [get?_rowOf] at hcell
    obtain ⟨i, hi, hvalue⟩ := Option.map_eq_some_iff.mp hcell
    exact hvalue ▸ (holds_cellAt fields i).isSome_toJson?.mpr fun t ht => h _ i t hi ht

/-- What is yielded for a record, or for what could not be read as one. -/
def Yielded (header : List Text) : Except Csv.Fault (List Text) → Except Failure Value → Prop
  | .ok fields, v => ∃ r, v = .ok (.row r) ∧ OfRecord header fields r
  | .error _, v => ∃ f, v = .error f

/-- **The rows of a file of comma-separated records have the names of the header, and each cell is empty, the
text of its field or a number; a row has a document exactly if no field that decides spells an infinity or what
is no number.** -/
theorem source_clean_iff {uri t : Text} {config : Row} {w w' : Workspace}
    {rest : List (Except Csv.Fault (List Text))} (hformat : (Location.parse uri).format = some .csv)
    (hopen : (openFile (Location.parse uri)).run.run w = (.ok (.file (.text t)), w'))
    (hrecords : Csv.records t = .ok header :: rest) :
    ∃ read vs, source uri config = .feed read ∧ read.run.run w = (.ok vs, w') ∧
      Forall₂ (Yielded header) rest vs := by
  obtain ⟨yield, hyield, hrun⟩ : ∃ yield : _ → _, (∀ r, Yielded header r (yield r)) ∧
      (csvRows (Location.parse uri)).run.run w = (.ok (rest.map yield), w') := by
    have hread : (Effect.ofExcept ((readText (Location.parse uri) (.file (.text t))).mapError
        (ioFailure (Location.parse uri)))).run.run w' = (.ok t, w') := rfl
    unfold csvRows
    rw [run_bind_ok hopen, run_bind_ok hread, hrecords]
    refine ⟨_, fun r => ?_, rfl⟩
    cases r with
    | ok fields => exact ⟨_, rfl, ofRecord_rowOf header fields⟩
    | error f => exact ⟨_, rfl⟩
  refine ⟨csvRows (Location.parse uri), _, by simp only [source, hformat], hrun, ?_⟩
  rw [forall₂_map_right_iff, forall₂_same]
  exact fun r _ => hyield r

/-- A file with a name twice, a short record, a hexadecimal number and words among the numbers. -/
def measured : Workspace := { files := .ofList [("m.csv", "id,x,x\n1,Inf,0x10\n a,2\n3,,-Infinity\n")] }

theorem source_clean_iff_measured : ∃ read vs, source "m.csv" [] = .feed read ∧
    read.run.run measured = (.ok vs, measured) ∧ Forall₂ (Yielded ["id", "x", "x"])
      [.ok ["1", "Inf", "0x10"], .ok [" a", "2"], .ok ["3", "", "-Infinity"]] vs :=
  source_clean_iff rfl rfl rfl

theorem source_yields_infinity : ∃ x : Float, x.isFinite = false ∧
    (csvRows (Location.parse "m.csv")).run.run { files := .ofList [("m.csv", "x\nInf\n")] } =
      (.ok [.ok (.row [("x", .float x)])], { files := .ofList [("m.csv", "x\nInf\n")] }) ∧
    (Value.row [("x", .float x)]).toJson? = none :=
  ⟨Float64.infinity, by decide +kernel, rfl, rfl⟩

end Connector

end Dataflow
