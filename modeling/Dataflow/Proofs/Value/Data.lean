import Dataflow.Proofs.Frame.Columns
import Dataflow.Proofs.Json.Accepted

/-!
# Data

Data are the values that documents can hold: null, truth values, UTF-8 texts, finite doubles, and lists and
rows of data.  Data are read back from their documents as they are (`Value.IsData.exists_writes`), and the
value of a document that is read is data (`Value.isData_of_toValue?`).  Lists and rows that were never made
are written as empty ones; `Value.made` puts these in their place.
-/

namespace Dataflow.Value

open List Option

/-- A value that documents can hold. -/
inductive IsData : Value → Prop
  | null : IsData null
  | bool (b : Bool) : IsData (bool b)
  | text {t : Text} (h : t.Valid) : IsData (text t)
  | float {x : Float} (h : x.isFinite = true) : IsData (float x)
  | list {xs : List Value} (h : ∀ x ∈ xs, IsData x) : IsData (list xs)
  | row {fs : Row} (hfs : Fields.Ascending fs) (hkeys : ∀ e ∈ fs, e.1.Valid) (h : ∀ e ∈ fs, IsData e.2) :
      IsData (row fs)

theorem isData_list_nil : (list []).IsData := .list (forall_mem_nil _)

theorem isData_row_nil : (row []).IsData := .row List.Pairwise.nil (forall_mem_nil _) (forall_mem_nil _)

mutual

/-- The value with empty lists and rows for those that were never made. -/
def made : Value → Value
  | noList => list []
  | noRow => row []
  | list xs => list (madeAll xs)
  | row fs => row (madeFields fs)
  | v => v

def madeAll : List Value → List Value
  | [] => []
  | v :: vs => made v :: madeAll vs

def madeFields : Row → Row
  | [] => []
  | (k, v) :: fs => (k, made v) :: madeFields fs

end

mutual

def depth : Value → Nat
  | list xs => depthAll xs + 1
  | row fs => depthFields fs + 1
  | _ => 0

def depthAll : List Value → Nat
  | [] => 0
  | v :: vs => max (depth v) (depthAll vs)

def depthFields : Row → Nat
  | [] => 0
  | (_, v) :: fs => max (depth v) (depthFields fs)

end

theorem depthFields_le_iff {fs : Row} {k : Nat} : depthFields fs ≤ k ↔ ∀ e ∈ fs, e.2.depth ≤ k := by
  induction fs with
  | nil => simp [depthFields]
  | cons e fs ih =>
    obtain ⟨key, v⟩ := e
    rw [depthFields, Nat.max_le, ih, forall_mem_cons]

/-! ### What is written -/

mutual

/-- Data have no list or row that was never made. -/
theorem made_eq (v : Value) (h : v.IsData) : v.made = v := by
  cases h with
  | null | bool | text | float => rfl
  | @list xs h => rw [made, madeAll_eq xs h]
  | @row fs hfs hkeys h => rw [made, madeFields_eq fs h]

theorem madeAll_eq (xs : List Value) (h : ∀ x ∈ xs, x.IsData) : madeAll xs = xs := by
  cases xs with
  | nil => rfl
  | cons x xs =>
    rw [forall_mem_cons] at h
    rw [madeAll, made_eq x h.1, madeAll_eq xs h.2]

theorem madeFields_eq (fs : Row) (h : ∀ e ∈ fs, e.2.IsData) : madeFields fs = fs := by
  cases fs with
  | nil => rfl
  | cons e fs =>
    obtain ⟨k, v⟩ := e
    rw [forall_mem_cons] at h
    rw [madeFields, made_eq v h.1, madeFields_eq fs h.2]

end

mutual

/-- A document can hold data as they are, but for lists and rows that were never made. -/
theorem displayable?_eq (v : Value) (h : v.made.IsData) : v.displayable? = some v.made := by
  cases v with
  | null | bool | text | float | noList | noRow => rfl
  | list xs =>
    rw [made] at h ⊢
    cases h with
    | list h => rw [displayable?, displayableAll?_eq xs h, map_some]
  | row fs =>
    rw [made] at h ⊢
    cases h with
    | row hfs hkeys h => rw [displayable?, displayableFields?_eq fs h, map_some]
  | _ => cases h

theorem displayableAll?_eq (xs : List Value) (h : ∀ x ∈ madeAll xs, x.IsData) :
    displayableAll? xs = some (madeAll xs) := by
  cases xs with
  | nil => rfl
  | cons x xs =>
    rw [madeAll, forall_mem_cons] at h
    rw [displayableAll?, displayable?_eq x h.1, displayableAll?_eq xs h.2]
    rfl

theorem displayableFields?_eq (fs : Row) (h : ∀ e ∈ madeFields fs, e.2.IsData) :
    displayableFields? fs = some (madeFields fs) := by
  cases fs with
  | nil => rfl
  | cons e fs =>
    obtain ⟨k, v⟩ := e
    rw [madeFields, forall_mem_cons] at h
    rw [displayableFields?, displayable?_eq v h.1, displayableFields?_eq fs h.2]
    rfl

end

/-- The document is what the value is written as, and the value is read back from it. -/
structure Writes (v : Value) (j : Json) : Prop where
  written : v.toJson? = some j
  displayed : j.displayed = j
  read : j.toValue? = some v
  depth : j.depth = v.depth

theorem writes_float {x : Float} (h : x.isFinite = true) :
    (float x).Writes (.number (NumberStyle.document.float x)) where
  written := if_pos h
  displayed := rfl
  read := by
    rw [Json.toValue?, NumberStyle.readFloat_float (by decide) h]
  depth := rfl

mutual

/-- **Data are read back from their documents.** -/
theorem IsData.exists_writes (v : Value) (h : v.IsData) : ∃ j, v.Writes j := by
  cases h with
  | null => exact ⟨.null, rfl, rfl, rfl, rfl⟩
  | bool b => exact ⟨.bool b, rfl, rfl, rfl, rfl⟩
  | @text t ht => exact ⟨.text t, rfl, congrArg Json.text ht, rfl, rfl⟩
  | float hx => exact ⟨_, writes_float hx⟩
  | @list xs h =>
    obtain ⟨js, hwritten, hdisplayed, hread, hdepth⟩ := IsData.exists_writesAll xs h
    refine ⟨.array js, ?_, ?_, ?_, ?_⟩
    · rw [toJson?, hwritten, map_some]
    · rw [Json.displayed, hdisplayed]
    · rw [Json.toValue?, hread, map_some]
    · rw [Json.depth, Value.depth, hdepth]
  | @row fs hfs hkeys h =>
    obtain ⟨ms, hwritten, hdisplayed, hread, hdepth⟩ := IsData.exists_writesFields fs hkeys h
    refine ⟨.object ms, ?_, ?_, ?_, ?_⟩
    · rw [toJson?, hwritten, map_some]
    · rw [Json.displayed, hdisplayed]
    · rw [Json.toValue?, hread, map_some, hfs.ofList_eq]
    · rw [Json.depth, Value.depth, hdepth]

theorem IsData.exists_writesAll (xs : List Value) (h : ∀ x ∈ xs, x.IsData) :
    ∃ js, toJsonAll? xs = some js ∧ Json.displayedAll js = js ∧ Json.toValues? js = some xs ∧
      Json.depthAll js = depthAll xs := by
  cases xs with
  | nil => exact ⟨[], rfl, rfl, rfl, rfl⟩
  | cons x xs =>
    rw [forall_mem_cons] at h
    obtain ⟨j, hj⟩ := IsData.exists_writes x h.1
    obtain ⟨js, hwritten, hdisplayed, hread, hdepth⟩ := IsData.exists_writesAll xs h.2
    refine ⟨j :: js, ?_, ?_, ?_, ?_⟩
    · rw [toJsonAll?, hj.written, hwritten]
      rfl
    · rw [Json.displayedAll, hj.displayed, hdisplayed]
    · rw [Json.toValues?, hj.read, hread]
      rfl
    · rw [Json.depthAll, depthAll, hj.depth, hdepth]

theorem IsData.exists_writesFields (fs : Row) (hkeys : ∀ e ∈ fs, e.1.Valid) (h : ∀ e ∈ fs, e.2.IsData) :
    ∃ ms, toJsonFields? fs = some ms ∧ Json.displayedMembers ms = ms ∧ Json.toFields? ms = some fs ∧
      Json.depthMembers ms = depthFields fs := by
  cases fs with
  | nil => exact ⟨[], rfl, rfl, rfl, rfl⟩
  | cons e fs =>
    obtain ⟨k, v⟩ := e
    rw [forall_mem_cons] at h hkeys
    obtain ⟨j, hj⟩ := IsData.exists_writes v h.1
    obtain ⟨ms, hwritten, hdisplayed, hread, hdepth⟩ := IsData.exists_writesFields fs hkeys.2 h.2
    refine ⟨(k, j) :: ms, ?_, ?_, ?_, ?_⟩
    · rw [toJsonFields?, hj.written, hwritten]
      rfl
    · have hkey : Text.ofString k.display = k := hkeys.1
      rw [Json.displayedMembers, hj.displayed, hdisplayed, hkey]
    · rw [Json.toFields?, hj.read, hread]
      rfl
    · rw [Json.depthMembers, depthFields, hj.depth, hdepth]

end

/-! ### What is read -/

mutual

/-- The value of a document that is read is data, and not deeper. -/
theorem isData_of_toValue? (j : Json) (hj : j.Accepted) {v : Value} (h : j.toValue? = some v) :
    v.IsData ∧ v.depth ≤ j.depth := by
  cases j with
  | null =>
    cases h
    exact ⟨.null, Nat.le_refl 0⟩
  | bool b =>
    cases h
    exact ⟨.bool b, Nat.le_refl 0⟩
  | text t =>
    cases h
    exact ⟨.text hj.legible, Nat.le_refl 0⟩
  | number t =>
    rw [Json.toValue?] at h
    split at h
    · next x hx =>
      cases h
      exact ⟨.float (NumberReader.isFinite_of_isNumber hj.numeric hx), Nat.le_refl 0⟩
    · cases h
  | array xs =>
    rw [Json.toValue?] at h
    obtain ⟨vs, hvs, rfl⟩ := map_eq_some_iff.mp h
    obtain ⟨hdata, hdepth⟩ := isData_of_toValues? xs (Json.accepted_array.mp hj) hvs
    exact ⟨.list hdata, Nat.succ_le_succ hdepth⟩
  | object ms =>
    rw [Json.toValue?] at h
    obtain ⟨fs, hfs, rfl⟩ := map_eq_some_iff.mp h
    obtain ⟨hdata, hdepth⟩ := isData_of_toFields? ms (Json.accepted_object.mp hj) hfs
    have hmem {e : Text × Value} (he : e ∈ Fields.ofList fs) : e ∈ fs := Fields.mem_ofList he
    refine ⟨.row (Fields.ascending_ofList fs) (fun e he => (hdata e (hmem he)).1)
      fun e he => (hdata e (hmem he)).2, Nat.succ_le_succ ?_⟩
    exact depthFields_le_iff.mpr fun e he => depthFields_le_iff.mp hdepth e (hmem he)

theorem isData_of_toValues? (xs : List Json) (hxs : ∀ x ∈ xs, x.Accepted) {vs : List Value}
    (h : Json.toValues? xs = some vs) : (∀ v ∈ vs, v.IsData) ∧ depthAll vs ≤ Json.depthAll xs := by
  cases xs with
  | nil =>
    cases h
    exact ⟨nofun, Nat.le_refl 0⟩
  | cons x xs =>
    rw [Json.toValues?] at h
    obtain ⟨v, hv, h⟩ := bind_eq_some_iff.mp h
    obtain ⟨vs, hvs, h⟩ := bind_eq_some_iff.mp h
    cases h
    rw [forall_mem_cons] at hxs
    obtain ⟨hdata, hdepth⟩ := isData_of_toValue? x hxs.1 hv
    obtain ⟨hdata', hdepth'⟩ := isData_of_toValues? xs hxs.2 hvs
    refine ⟨forall_mem_cons.mpr ⟨hdata, hdata'⟩, ?_⟩
    rw [depthAll, Json.depthAll]
    exact max_le_max hdepth hdepth'

theorem isData_of_toFields? (ms : List (Text × Json)) (hms : ∀ e ∈ ms, e.1.Valid ∧ e.2.Accepted) {fs : Row}
    (h : Json.toFields? ms = some fs) :
    (∀ e ∈ fs, e.1.Valid ∧ e.2.IsData) ∧ depthFields fs ≤ Json.depthMembers ms := by
  cases ms with
  | nil =>
    cases h
    exact ⟨nofun, Nat.le_refl 0⟩
  | cons m ms =>
    obtain ⟨k, x⟩ := m
    rw [Json.toFields?] at h
    obtain ⟨v, hv, h⟩ := bind_eq_some_iff.mp h
    obtain ⟨fs, hfs, h⟩ := bind_eq_some_iff.mp h
    cases h
    rw [forall_mem_cons] at hms
    obtain ⟨hdata, hdepth⟩ := isData_of_toValue? x hms.1.2 hv
    obtain ⟨hdata', hdepth'⟩ := isData_of_toFields? ms hms.2 hfs
    refine ⟨forall_mem_cons.mpr ⟨⟨hms.1.1, hdata⟩, hdata'⟩, ?_⟩
    rw [depthFields, Json.depthMembers]
    exact max_le_max hdepth hdepth'

end

end Dataflow.Value
