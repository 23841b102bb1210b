import Dataflow.Proofs.Decimal.Writing
import Dataflow.Proofs.Json.Reading

/-!
# Documents of values

The numbers in the document of a value are written as numbers of documents (`Value.numeric_toJson?`), so that
the document is read back from its text.
-/

namespace Dataflow

open Option

namespace Json

theorem numericMembers_iff {ms : List (Text × Json)} : NumericMembers ms ↔ ∀ e ∈ ms, e.2.Numeric := by
  induction ms with
  | nil => simp [NumericMembers]
  | cons e ms ih =>
    obtain ⟨k, x⟩ := e
    rw [NumericMembers, ih, List.forall_mem_cons]

theorem numericAll_iff {xs : List Json} : NumericAll xs ↔ ∀ x ∈ xs, x.Numeric := by
  induction xs with
  | nil => simp [NumericAll]
  | cons x xs ih => rw [NumericAll, ih, List.forall_mem_cons]

theorem numeric_ofInt (n : Int) : (ofInt n).Numeric := by
  show isNumber (Text.ofInt n) = true
  rw [← Numeral.ofInt_text, Numeral.isNumber_text (Numeral.wellFormed_ofInt n)]

end Json

namespace Value

theorem numeric_float {x : Float} {j : Json} (h : floatJson? x = some j) : j.Numeric := by
  unfold floatJson? at h
  split at h
  · next hx =>
    cases h
    exact NumberStyle.isNumber_float (by decide) hx
  · cases h

mutual

/-- The numbers in the document of a value are numbers of documents. -/
theorem numeric_toJson? (v : Value) {j : Json} (h : v.toJson? = some j) : j.Numeric := by
  cases v with
  | null | noList | noRow | bool b | text t | named _ t | error _ _ | noReference _ _ => cases h; trivial
  | complex _ _ | func _ | closure _ _ _ | fold _ | foldClosure _ _ | noFunc _ => cases h
  | stamp s =>
    obtain ⟨t, -, rfl⟩ := map_eq_some_iff.mp h
    trivial
  | float x => exact numeric_float h
  | int n | sized _ n => cases h; exact Json.numeric_ofInt _
  | single x =>
    rw [toJson?] at h
    split at h
    · next hx =>
      cases h
      exact NumberStyle.isNumber_float32 (by decide) hx
    · cases h
  | numeral t =>
    rw [toJson?] at h
    split at h
    · cases h
      exact (by decide : Json.isNumber "0" = true)
    · split at h
      · next hnumber =>
        cases h
        exact hnumber
      · cases h
  | list xs | sequence _ xs =>
    obtain ⟨js, hjs, rfl⟩ := map_eq_some_iff.mp h
    exact numeric_toJsonAll? xs hjs
  | row fields | lexicon _ _ fields | record _ fields =>
    obtain ⟨ms, hms, rfl⟩ := map_eq_some_iff.mp h
    exact numeric_toJsonFields? fields hms
  | dictionary _ entries =>
    obtain ⟨ms, hms, rfl⟩ := map_eq_some_iff.mp h
    refine Json.numericMembers_iff.mpr fun e he => ?_
    exact Json.numericMembers_iff.mp (numeric_toJsonEntries? entries hms) e
      ((List.mergeSort_perm ms _).mem_iff.mp he)
  | reference _ _ v => exact numeric_toJson? v h

theorem numeric_toJsonAll? (vs : List Value) {js : List Json} (h : toJsonAll? vs = some js) :
    Json.NumericAll js := by
  cases vs with
  | nil => cases h; trivial
  | cons v vs =>
    rw [toJsonAll?] at h
    obtain ⟨j, hj, h⟩ := bind_eq_some_iff.mp h
    obtain ⟨js', hjs, h⟩ := bind_eq_some_iff.mp h
    cases h
    exact ⟨numeric_toJson? v hj, numeric_toJsonAll? vs hjs⟩

theorem numeric_toJsonFields? (fields : List (Text × Value)) {ms : List (Text × Json)}
    (h : toJsonFields? fields = some ms) : Json.NumericMembers ms := by
  match fields with
  | [] => cases h; trivial
  | (k, v) :: fields =>
    rw [toJsonFields?] at h
    obtain ⟨j, hj, h⟩ := bind_eq_some_iff.mp h
    obtain ⟨ms', hms, h⟩ := bind_eq_some_iff.mp h
    cases h
    exact ⟨numeric_toJson? v hj, numeric_toJsonFields? fields hms⟩

theorem numeric_toJsonEntries? (entries : List (Value × Value)) {ms : List (Text × Json)}
    (h : toJsonEntries? entries = some ms) : Json.NumericMembers ms := by
  match entries with
  | [] => cases h; trivial
  | (k, v) :: entries =>
    rw [toJsonEntries?] at h
    obtain ⟨name, -, h⟩ := bind_eq_some_iff.mp h
    obtain ⟨j, hj, h⟩ := bind_eq_some_iff.mp h
    obtain ⟨ms', hms, h⟩ := bind_eq_some_iff.mp h
    cases h
    exact ⟨numeric_toJson? v hj, numeric_toJsonEntries? entries hms⟩

end

theorem isSome_toJsonAll? {xs : List Value} : (toJsonAll? xs).isSome ↔ ∀ x ∈ xs, x.toJson?.isSome := by
  induction xs with
  | nil => simp [toJsonAll?]
  | cons x xs ih =>
    rw [toJsonAll?, List.forall_mem_cons, ← ih]
    cases toJson? x <;> cases toJsonAll? xs <;> simp

theorem isSome_toJsonFields? {fs : Row} : (toJsonFields? fs).isSome ↔ ∀ e ∈ fs, e.2.toJson?.isSome := by
  induction fs with
  | nil => simp [toJsonFields?]
  | cons e fs ih =>
    rw [toJsonFields?, List.forall_mem_cons, ← ih]
    cases e.2.toJson? <;> cases toJsonFields? fs <;> simp

end Value

end Dataflow
