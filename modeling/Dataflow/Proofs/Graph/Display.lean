import Dataflow.Proofs.Graph.Document

/-!
# Settings as documents show them

What a value is displayed as is `Shown`: null, a truth value, a text, a number of any type, or a list or row of
such values.  Only a reference to nothing of a type that writes its values has no display (`Value.Dangles`).  A
shown value is displayed as itself, and it is `Faulty`, that is, no document can hold it, only for a number that
is not finite or a numeral that is no number.  So displaying is a projection, and the document of a graph is
missing only for a faulty setting (`Graph.display_projects`).
-/

namespace Dataflow

open List Option

namespace Value

/-- What values are displayed as. -/
inductive Shown : Value → Prop
  | null : Shown null
  | bool (b : Bool) : Shown (bool b)
  | text (t : Text) : Shown (text t)
  | float (x : Float) : Shown (float x)
  | int (n : Int64) : Shown (int n)
  | sized (t : IntType) (n : Int) : Shown (sized t n)
  | single (x : Float32) : Shown (single x)
  | numeral (t : Text) : Shown (numeral t)
  | list {xs : List Value} (h : ∀ x ∈ xs, Shown x) : Shown (list xs)
  | row {fs : Row} (h : ∀ e ∈ fs, Shown e.2) : Shown (row fs)

/-- A reference to nothing stands in the value, where its display asks what it refers to for its text. -/
inductive Dangles : Value → Prop
  | here (type : Text) (writing : Writing) : Dangles (noReference type (some writing))
  | list {xs : List Value} {x : Value} (hx : x ∈ xs) (h : Dangles x) : Dangles (list xs)
  | sequence {type : Text} {xs : List Value} {x : Value} (hx : x ∈ xs) (h : Dangles x) : Dangles (sequence type xs)
  | row {fs : Row} {e : Text × Value} (he : e ∈ fs) (h : Dangles e.2) : Dangles (row fs)
  | lexicon {type : Text} {written : Text → Text} {fs : Row} {e : Text × Value} (he : e ∈ fs) (h : Dangles e.2) :
      Dangles (lexicon type written fs)
  | reference {type : Text} {place : Nat} {v : Value} (h : Dangles v) : Dangles (reference type place v)

/-- A shown value that no document can hold. -/
inductive Faulty : Value → Prop
  | float {x : Float} (h : x.isFinite = false) : Faulty (float x)
  | single {x : Float32} (h : x.isFinite = false) : Faulty (single x)
  | numeral {t : Text} (hne : t.isEmpty = false) (h : Json.isNumber t = false) : Faulty (numeral t)
  | list {xs : List Value} {x : Value} (hx : x ∈ xs) (h : Faulty x) : Faulty (list xs)
  | row {fs : Row} {e : Text × Value} (he : e ∈ fs) (h : Faulty e.2) : Faulty (row fs)

variable {R : Value → Value → Prop}

/-! ### Displays of parts -/

theorem exists_displayableAll {xs : List Value} (h : ∀ x ∈ xs, ∃ w, x.displayable? = some w ∧ R x w) :
    ∃ ws, displayableAll? xs = some ws ∧ Forall₂ R xs ws := by
  induction xs with
  | nil => exact ⟨[], rfl, .nil⟩
  | cons x xs ih =>
    obtain ⟨⟨w, hw, hR⟩, h⟩ := forall_mem_cons.mp h
    obtain ⟨ws, hws, hRs⟩ := ih h
    exact ⟨w :: ws, by rw [displayableAll?, hw, hws]; rfl, .cons hR hRs⟩

theorem exists_displayableFields {fs : Row} (h : ∀ k v, (k, v) ∈ fs → ∃ w, v.displayable? = some w ∧ R v w) :
    ∃ gs, displayableFields? fs = some gs ∧ Forall₂ (fun e e' => e.1 = e'.1 ∧ R e.2 e'.2) fs gs := by
  induction fs with
  | nil => exact ⟨[], rfl, .nil⟩
  | cons e fs ih =>
    obtain ⟨w, hw, hR⟩ := h e.1 e.2 mem_cons_self
    obtain ⟨gs, hgs, hRs⟩ := ih fun k v he => h k v (mem_cons_of_mem e he)
    exact ⟨(e.1, w) :: gs, by rw [displayableFields?, hw, hgs]; rfl, .cons ⟨rfl, hR⟩ hRs⟩

theorem exists_shownAll {xs : List Value} (h : ∀ x ∈ xs, ∃ w, x.displayable? = some w ∧ w.Shown) :
    ∃ w, (displayableAll? xs).map list = some w ∧ w.Shown := by
  obtain ⟨ws, hws, hshown⟩ := exists_displayableAll h
  refine ⟨_, by rw [hws, map_some], .list fun w hw => ?_⟩
  exact (exists_mem_of_forall₂ hshown.flip hw).elim fun _ h => h.2

theorem exists_shownFields {fs : Row} (h : ∀ k v, (k, v) ∈ fs → ∃ w, v.displayable? = some w ∧ w.Shown) :
    ∃ w, (displayableFields? fs).map row = some w ∧ w.Shown := by
  obtain ⟨gs, hgs, hshown⟩ := exists_displayableFields (R := fun _ w => w.Shown) h
  refine ⟨_, by rw [hgs, map_some], .row fun e he => ?_⟩
  exact (exists_mem_of_forall₂ hshown.flip he).elim fun _ h => h.2.2

/-- A value without dangling references is displayed as a shown one. -/
theorem exists_shown : (v : Value) → ¬ v.Dangles → ∃ w, v.displayable? = some w ∧ w.Shown
  | null, _ | noFunc _, _ | noReference _ none, _ => ⟨_, rfl, .null⟩
  | bool b, _ => ⟨_, rfl, .bool b⟩
  | float x, _ => ⟨_, rfl, .float x⟩
  | int n, _ => ⟨_, rfl, .int n⟩
  | sized t n, _ => ⟨_, rfl, .sized t n⟩
  | single x, _ => ⟨_, rfl, .single x⟩
  | numeral t, _ => ⟨_, rfl, .numeral t⟩
  | text _, _ | named _ _, _ | error _ _, _ | stamp _, _ | func _, _ | fold _, _ | closure _ _ _, _
  | foldClosure _ _, _ | record _ _, _ | dictionary _ _, _ | complex _ _, _ => ⟨_, rfl, .text _⟩
  | noList, _ => ⟨_, rfl, .list (forall_mem_nil _)⟩
  | noRow, _ => ⟨_, rfl, .row (forall_mem_nil _)⟩
  | noReference _ (some _), h => absurd (.here _ _) h
  | list xs, h => exists_shownAll fun x hx => exists_shown x fun hd => h (.list hx hd)
  | sequence _ xs, h => exists_shownAll fun x hx => exists_shown x fun hd => h (.sequence hx hd)
  | row fs, h => exists_shownFields fun k v he => exists_shown v fun hd => h (.row he hd)
  | lexicon _ _ fs, h => exists_shownFields fun k v he => exists_shown v fun hd => h (.lexicon he hd)
  | reference type _ v, h => by
    rw [displayable?]
    split
    · exact ⟨_, rfl, .text _⟩
    · exact exists_shown v fun hd => h (.reference hd)
termination_by v => v
decreasing_by
  all_goals
    try have hmem := sizeOf_lt_of_mem (by assumption)
    simp_all
    try omega

/-- A shown value is displayed as itself. -/
theorem Shown.displayable?_eq {w : Value} (h : w.Shown) : w.displayable? = some w := by
  induction h with
  | null | bool | text | float | int | sized | single | numeral => rfl
  | list _ ih =>
    obtain ⟨ws, hws, heq⟩ := exists_displayableAll (R := Eq) fun x hx => ⟨x, ih x hx, rfl⟩
    rw [forall₂_eq_eq_eq] at heq
    rw [displayable?, hws, map_some, heq]
  | row _ ih =>
    obtain ⟨gs, hgs, heq⟩ := exists_displayableFields (R := Eq) fun k v he => ⟨v, ih (k, v) he, rfl⟩
    have heq := heq.imp fun _ _ h => Prod.ext h.1 h.2
    rw [forall₂_eq_eq_eq] at heq
    rw [displayable?, hgs, map_some, heq]

/-! ### Documents of shown values -/

/-- A document can hold a shown value unless it is faulty. -/
theorem Shown.isSome_toJson?_iff {w : Value} (h : w.Shown) : w.toJson?.isSome ↔ ¬ w.Faulty := by
  induction h with
  | null | bool | text | int | sized => exact iff_of_true rfl fun h => by cases h
  | float x =>
    rw [toJson?, floatJson?]
    split
    · next hx => exact iff_of_true rfl fun h => by cases h; simp_all
    · next hx => exact iff_of_false (by simp) (not_not.mpr (.float (by simpa using hx)))
  | single x =>
    rw [toJson?]
    split
    · next hx => exact iff_of_true rfl fun h => by cases h; simp_all
    · next hx => exact iff_of_false (by simp) (not_not.mpr (.single (by simpa using hx)))
  | numeral t =>
    rw [toJson?]
    split
    · next ht => exact iff_of_true rfl fun h => by cases h; simp_all
    · next ht =>
      split
      · next hn => exact iff_of_true rfl fun h => by cases h; simp_all
      · next hn => exact iff_of_false (by simp) (not_not.mpr (.numeral (by simpa using ht) (by simpa using hn)))
  | list _ ih =>
    rw [toJson?, isSome_map, isSome_toJsonAll?]
    refine ⟨fun h hf => ?_, fun h x hx => (ih x hx).mpr fun hf => h (.list hx hf)⟩
    cases hf with
    | list hx hf => exact (ih _ hx).mp (h _ hx) hf
  | row _ ih =>
    rw [toJson?, isSome_map, isSome_toJsonFields?]
    refine ⟨fun h hf => ?_, fun h e he => (ih e he).mpr fun hf => h (.row he hf)⟩
    cases hf with
    | row he hf => exact (ih _ he).mp (h _ he) hf

end Value

namespace Graph

/-- The settings of a node are displayed, and no document can hold them only for a faulty one. -/
theorem exists_settings {n : Node} (h : ∀ e ∈ n.config, ¬ e.2.Dangles) : ∃ o, nodeJson? n = .ok o ∧
    (o = none ↔ ∃ e ∈ n.config, ∃ w, e.2.displayable? = some w ∧ w.Faulty) := by
  obtain ⟨fs, hfs, hall⟩ := Value.exists_displayableFields
    (R := fun v w => v.displayable? = some w ∧ w.Shown) fun k v he =>
      (v.exists_shown (h _ he)).imp fun w hw => ⟨hw.1, hw⟩
  have hshown : (Value.row fs).Shown :=
    .row fun e he => (exists_mem_of_forall₂ hall.flip he).elim fun _ h => h.2.2.2
  refine ⟨_, by rw [nodeJson?, Node.settings?, hfs]; rfl, ?_⟩
  rw [Option.map_eq_none_iff, ← Option.not_isSome_iff_eq_none, hshown.isSome_toJson?_iff, not_not]
  constructor
  · rintro (_ | _ | _ | _ | ⟨he, hf⟩)
    obtain ⟨e, hmem, -, hw, -⟩ := exists_mem_of_forall₂ hall.flip he
    exact ⟨e, hmem, _, hw, hf⟩
  · rintro ⟨e, he, w, hw, hf⟩
    obtain ⟨e', hmem, -, hw', -⟩ := exists_mem_of_forall₂ hall he
    exact .row hmem (Option.some.inj (hw.symm.trans hw') ▸ hf)

/-- **Displaying is a projection**: a value without dangling references is displayed as a shown one, which is
displayed as itself.  A graph of such settings always gets its document, but for a number that none can hold. -/
theorem display_projects (v : Value) (hv : ¬ v.Dangles) (g : Graph)
    (hg : ∀ n ∈ g.nodes, ∀ e ∈ n.config, ¬ e.2.Dangles) :
    (∃ w, v.displayable? = some w ∧ w.Shown ∧ w.displayable? = some w) ∧
      ∃ o, g.toJson? = .ok o ∧
        (o = none ↔ ∃ n ∈ g.nodes, ∃ e ∈ n.config, ∃ w, e.2.displayable? = some w ∧ w.Faulty) := by
  constructor
  · obtain ⟨w, hw, hshown⟩ := v.exists_shown hv
    exact ⟨w, hw, hshown, hshown.displayable?_eq⟩
  · choose! doc hdoc hfaulty using fun n hn => exists_settings (hg n hn)
    have hdocs : g.nodes.mapM nodeJson? = .ok (g.nodes.map doc) :=
      mapM_eq_pure (forall₂_map_right_iff.mpr (forall₂_same.mpr hdoc))
    refine ⟨_, by rw [toJson?, hdocs]; rfl, ?_⟩
    rw [ite_eq_right_iff, List.all_map]
    have hall : ¬ g.nodes.all (Option.isSome ∘ doc) = true ↔ ∃ n ∈ g.nodes, doc n = none := by simp
    constructor
    · intro hnone
      obtain ⟨n, hn, hdocn⟩ := hall.mp fun h => by cases hnone h
      exact ⟨n, hn, (hfaulty n hn).mp hdocn⟩
    · rintro ⟨n, hn, hex⟩ h
      exact absurd h (hall.mpr ⟨n, hn, (hfaulty n hn).mpr hex⟩)

theorem display_projects_rates :
    let v : Value := .sequence "[1]any" [.noFunc "func()"]
    let n : Node := { id := "n", op := .map, config := [("rate", .numeral "ten")] }
    let g : Graph := { id := "g", nodes := [n], edges_eq := rfl }
    (∃ w, v.displayable? = some w ∧ w.Shown ∧ w.displayable? = some w) ∧ g.toJson? = .ok none := by
  intro v n g
  have hv : ¬ v.Dangles := by
    intro h
    unfold v at h
    cases h with
    | sequence hx h =>
      cases mem_singleton.mp hx
      cases h
  have hg : ∀ n ∈ g.nodes, ∀ e ∈ n.config, ¬ e.2.Dangles := by
    simp only [g, n, mem_singleton, forall_eq]
    rintro ⟨⟩
  obtain ⟨hproj, o, ho, hnone⟩ := display_projects v hv g hg
  refine ⟨hproj, ho.trans (congrArg _ (hnone.mpr ⟨n, mem_cons_self, _, mem_cons_self, _, rfl, ?_⟩))⟩
  exact .numeral (by decide) (by decide)

end Graph

end Dataflow
