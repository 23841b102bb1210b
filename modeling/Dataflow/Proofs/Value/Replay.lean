import Dataflow.Json.Reader
import Dataflow.Proofs.Frame.Columns
import Dataflow.Proofs.Text.Valid
import Mathlib.Data.List.Forall2

/-!
# Values written and read back

A document keeps less than a value: a function is written as its name, numbers of all types are read back
as doubles, and stray bytes are replaced.  `Value.replay?` is what comes back of a value, and
`Row.Replays` relates a row with what comes back of it.  Under names of ASCII bytes the values come back
one by one (`Row.Replays.get?`).
-/

namespace Dataflow

open Option Json

namespace Value

/-- The document that a setting is written as. -/
def written? (v : Value) : Option Json := do
  let w ← v.displayable?
  w.toJson?

/-- What comes back of a setting that is written and read. -/
def replay? (v : Value) : Option Value := do
  let j ← v.written?
  j.displayed.toValue?

def Listed (v : Value) : Prop := ∃ js, v.written? = some (.array js)

@[simp] theorem replay?_text (t : Text) : (text t).replay? = some (text t.shown) := rfl

@[simp] theorem replay?_func (f : Func) : (func f).replay? = some (text f.text.shown) := rfl

@[simp] theorem replay?_fold (f : FoldFunc) : (fold f).replay? = some (text f.text.shown) := rfl

/-- A list, made or not. -/
inductive IsList : Value → Prop
  | list (xs : List Value) : IsList (list xs)
  | noList : IsList noList

theorem IsList.listed {v w : Value} (hv : v.IsList) (h : v.replay? = some w) : v.Listed := by
  cases hv with
  | list xs =>
    obtain ⟨j, hj, -⟩ := bind_eq_some_iff.mp h
    obtain ⟨u, hu, hj'⟩ := bind_eq_some_iff.mp hj
    rw [displayable?] at hu
    obtain ⟨us, -, rfl⟩ := map_eq_some_iff.mp hu
    rw [toJson?] at hj'
    obtain ⟨js, -, rfl⟩ := map_eq_some_iff.mp hj'
    exact ⟨js, hj⟩
  | noList => exact ⟨[], rfl⟩

/-- Only what is written as a list comes back as one. -/
theorem listed_of_replay? {v w : Value} (h : v.replay? = some w) (hw : w.IsList) : v.Listed := by
  obtain ⟨j, hj, h⟩ := bind_eq_some_iff.mp h
  cases j with
  | array js => exact ⟨js, hj⟩
  | number t =>
    simp only [displayed, toValue?] at h
    split at h
    · cases h
      cases hw
    · cases h
  | object ms =>
    rw [displayed, toValue?] at h
    obtain ⟨fs, -, rfl⟩ := map_eq_some_iff.mp h
    cases hw
  | null | bool b | text t => cases h; cases hw

end Value

/-- The second row is what comes back of the first. -/
def Row.Replays (r r' : Row) : Prop :=
  ∃ fs, List.Forall₂ (fun e e' => e'.1 = e.1.shown ∧ e.2.replay? = some e'.2) r fs ∧ r' = Fields.ofList fs

namespace Row

theorem replays_of_fields {r d : Row} {ms : List (Text × Json)} {fs : Row}
    (hd : Value.displayableFields? r = some d) (hms : Value.toJsonFields? d = some ms)
    (hfs : toFields? (displayedMembers ms) = some fs) : r.Replays (Fields.ofList fs) := by
  refine ⟨fs, ?_, rfl⟩
  induction r generalizing d ms fs with
  | nil =>
    cases hd
    cases hms
    cases hfs
    exact .nil
  | cons e r ih =>
    obtain ⟨k, v⟩ := e
    rw [Value.displayableFields?] at hd
    obtain ⟨w, hw, hd⟩ := bind_eq_some_iff.mp hd
    obtain ⟨ws, hws, hd⟩ := bind_eq_some_iff.mp hd
    cases hd
    rw [Value.toJsonFields?] at hms
    obtain ⟨j, hj, hms⟩ := bind_eq_some_iff.mp hms
    obtain ⟨js, hjs, hms⟩ := bind_eq_some_iff.mp hms
    cases hms
    rw [displayedMembers, toFields?] at hfs
    obtain ⟨v', hv', hfs⟩ := bind_eq_some_iff.mp hfs
    obtain ⟨fs', hfs', hfs⟩ := bind_eq_some_iff.mp hfs
    cases hfs
    refine .cons ⟨rfl, ?_⟩ (ih hws hjs hfs')
    simp only [Value.replay?, Value.written?, hw, hj, hv', bind_eq_bind, bind_some]

theorem exists_replays {r : Row} {v : Value} (h : (Value.row r).replay? = some v) :
    ∃ r', v = .row r' ∧ r.Replays r' := by
  obtain ⟨j, hj, h⟩ := bind_eq_some_iff.mp h
  obtain ⟨w, hw, hj⟩ := bind_eq_some_iff.mp hj
  rw [Value.displayable?] at hw
  obtain ⟨d, hd, rfl⟩ := map_eq_some_iff.mp hw
  rw [Value.toJson?] at hj
  obtain ⟨ms, hms, rfl⟩ := map_eq_some_iff.mp hj
  rw [displayed, toValue?] at h
  obtain ⟨fs, hfs, rfl⟩ := map_eq_some_iff.mp h
  exact ⟨_, rfl, replays_of_fields hd hms hfs⟩

abbrev Distinct (r : Row) : Prop := (r.map Prod.fst).Nodup

/-- Under a name of ASCII bytes stands what comes back of the value under it. -/
theorem Replays.get? {r r' : Row} (h : r.Replays r') (hr : r.Distinct) {key : Text} (hkey : key.Ascii) :
    Fields.get? r' key = (Fields.get? r key).bind Value.replay? := by
  obtain ⟨fs, hfs, rfl⟩ := h
  -- what the fields set so far have under the name is in use only if it is not set again
  have hset : ∀ acc : Row, Fields.get? (Fields.update acc fs) key =
      (Fields.get? r key).elim (Fields.get? acc key) Value.replay? := by
    induction hfs with
    | nil => exact fun acc => rfl
    | @cons e e' r fs he _ ih =>
      intro acc
      obtain ⟨k, v⟩ := e
      obtain ⟨k', v'⟩ := e'
      obtain ⟨hk, hv⟩ := he
      obtain ⟨hnew, hr⟩ := List.nodup_cons.mp hr
      show Fields.get? (Fields.update (Fields.set k' v' acc) fs) key = _
      rw [ih hr, Fields.get?_cons, Fields.get?_set]
      by_cases heq : k = key
      · subst heq
        have hshown : k' = k := hk.trans (Text.valid_of_ascii hkey)
        rw [Fields.get?_eq_none hnew, if_pos rfl, if_pos hshown]
        exact hv.symm
      · have hne : k' ≠ key := fun h => heq (Text.eq_of_shown_eq (hk.symm.trans h) hkey)
        rw [if_neg heq, if_neg hne]
  refine (hset []).trans ?_
  cases Fields.get? r key <;> rfl

end Row

namespace Value

theorem forall₂_replay? {xs ws : List Value} {js : List Json} {ys : List Value}
    (hws : displayableAll? xs = some ws) (hjs : toJsonAll? ws = some js)
    (hys : toValues? (displayedAll js) = some ys) :
    List.Forall₂ (fun x y => x.replay? = some y) xs ys := by
  induction xs generalizing ws js ys with
  | nil =>
    cases hws
    cases hjs
    cases hys
    exact .nil
  | cons x xs ih =>
    rw [displayableAll?] at hws
    obtain ⟨w, hw, hws⟩ := bind_eq_some_iff.mp hws
    obtain ⟨ws', hws', hws⟩ := bind_eq_some_iff.mp hws
    cases hws
    rw [toJsonAll?] at hjs
    obtain ⟨j, hj, hjs⟩ := bind_eq_some_iff.mp hjs
    obtain ⟨js', hjs', hjs⟩ := bind_eq_some_iff.mp hjs
    cases hjs
    rw [displayedAll, toValues?] at hys
    obtain ⟨y, hy, hys⟩ := bind_eq_some_iff.mp hys
    obtain ⟨ys', hys', hys⟩ := bind_eq_some_iff.mp hys
    cases hys
    refine .cons ?_ (ih hws' hjs' hys')
    simp only [replay?, written?, hw, hj, hy, bind_eq_bind, bind_some]

/-- A list comes back element by element. -/
theorem exists_forall₂_replay? {xs : List Value} {v : Value} (h : (list xs).replay? = some v) :
    ∃ ys, v = .list ys ∧ List.Forall₂ (fun x y => x.replay? = some y) xs ys := by
  obtain ⟨j, hj, h⟩ := bind_eq_some_iff.mp h
  obtain ⟨w, hw, hj⟩ := bind_eq_some_iff.mp hj
  rw [displayable?] at hw
  obtain ⟨ws, hws, rfl⟩ := map_eq_some_iff.mp hw
  rw [toJson?] at hj
  obtain ⟨js, hjs, rfl⟩ := map_eq_some_iff.mp hj
  rw [displayed, toValue?] at h
  obtain ⟨ys, hys, rfl⟩ := map_eq_some_iff.mp h
  exact ⟨ys, rfl, forall₂_replay? hws hjs hys⟩

end Value

end Dataflow
