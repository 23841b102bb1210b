import Dataflow.Definition.Basic
import Mathlib.Data.List.Nodup
import Mathlib.Data.List.Perm.Subperm
import Mathlib.Logic.Relation

/-!
# Includes

Through a loader definitions include one another.  A `Trail` is a way from a root along includes, with all
definitions that were passed; it returns to one of them only if the includes are `Cyclic`
(`Trail.cyclic`).  A loader has no more definitions than it counts (`Loader.Counted`), so that a trail without
repetition is bounded (`Trail.length_le`).
-/

namespace Dataflow

open List

open Relation (ReflTransGen TransGen)

variable {fs : Files}

namespace Definition

/-- The second definition stands under a name that the first includes. -/
def Includes (l : Loader) (d e : Definition) : Prop := ∃ name ∈ d.includes, l.load name = .ok e

/-- Includes lead from the first definition to the second. -/
abbrev Leads (l : Loader) : Definition → Definition → Prop := ReflTransGen (Includes l)

/-- Includes lead from the root to a definition that includes itself, at once or through others. -/
def Cyclic (l : Loader) (root : Definition) : Prop := ∃ d, Leads l root d ∧ TransGen (Includes l) d d

/-- The definitions on a way from the root to a definition, without the last. -/
inductive Trail (l : Loader) (root : Definition) : List Definition → Definition → Prop
  | root : Trail l root [] root
  | step {path : List Definition} {d e : Definition} (h : Trail l root path d) (he : Includes l d e) :
      Trail l root (path ++ [d]) e

/-- The names that are included one after another on a way from the root to a definition. -/
inductive Follows (l : Loader) (root : Definition) : List Text → Definition → Prop
  | root : Follows l root [] root
  | step {names : List Text} {d e : Definition} {name : Text} (h : Follows l root names d)
      (hname : name ∈ d.includes) (he : l.load name = .ok e) : Follows l root (names ++ [name]) e

variable {l : Loader} {root d e : Definition} {path : List Definition}

theorem Trail.leads (h : Trail l root path d) : Leads l root d := by
  induction h with
  | root => exact .refl
  | step _ he ih => exact ih.tail he

theorem Trail.of_mem (h : Trail l root path d) (he : e ∈ path) :
    Leads l root e ∧ TransGen (Includes l) e d := by
  induction h with
  | root => cases he
  | step h hinc ih =>
    rcases mem_append.mp he with he | he
    · exact ⟨(ih he).1, (ih he).2.tail hinc⟩
    · obtain rfl := mem_singleton.mp he
      exact ⟨h.leads, .single hinc⟩

theorem Trail.cyclic (h : Trail l root path d) (hd : d ∈ path) : Cyclic l root := ⟨d, h.of_mem hd⟩

theorem Follows.leads {names : List Text} (h : Follows l root names d) : Leads l root d := by
  induction h with
  | root => exact .refl
  | step _ hname he ih => exact ih.tail ⟨_, hname, he⟩

theorem exists_follows (h : Leads l root d) : ∃ names, Follows l root names d := by
  induction h with
  | refl => exact ⟨[], .root⟩
  | tail _ hinc ih =>
    obtain ⟨names, h⟩ := ih
    obtain ⟨name, hname, hload⟩ := hinc
    exact ⟨names ++ [name], h.step hname hload⟩

theorem exists_append (root : Definition) (hde : TransGen (Includes l) d e) :
    ∃ name more, ∀ ns, Follows l root ns d → Follows l root (ns ++ name :: more) e := by
  induction hde with
  | single hinc =>
    obtain ⟨name, hname, hload⟩ := hinc
    exact ⟨name, [], fun _ hns => hns.step hname hload⟩
  | tail _ hinc ih =>
    obtain ⟨first, more, hmore⟩ := ih
    obtain ⟨name, hname, hload⟩ := hinc
    refine ⟨first, more ++ [name], fun ns hns => ?_⟩
    simpa using (hmore ns hns).step hname hload

theorem Follows.of_mem {names : List Text} {name : Text} (h : Follows l root names d) (hname : name ∈ names) :
    ∃ e, l.load name = .ok e ∧ Leads l root e ∧ Leads l e d := by
  induction h with
  | root => cases hname
  | step h hinc hload ih =>
    rcases mem_append.mp hname with hname | hname
    · obtain ⟨e, he, hroot, hlead⟩ := ih hname
      exact ⟨e, he, hroot, hlead.tail ⟨_, hinc, hload⟩⟩
    · obtain rfl := mem_singleton.mp hname
      exact ⟨_, hload, h.leads.tail ⟨_, hinc, hload⟩, .refl⟩

/-- No name comes twice on a way from the root exactly if includes are not cyclic: a cycle can be followed
again, and a name that comes again leads on from what it stands for to itself. -/
theorem follows_nodup_iff : (∀ names d, Follows l root names d → names.Nodup) ↔ ¬ Cyclic l root := by
  constructor
  · rintro h ⟨d, hlead, hcycle⟩
    obtain ⟨names, hnames⟩ := exists_follows hlead
    obtain ⟨name, more, hmore⟩ := exists_append root hcycle
    have hnodup := h _ d (hmore _ (hmore _ hnames))
    exact (nodup_append.mp hnodup).2.2 name (by simp) name (by simp) rfl
  · intro hacyclic names d h
    induction h with
    | root => exact .nil
    | @step names d e name h hname hload ih =>
      refine nodup_append_comm.mpr (nodup_cons.mpr ⟨fun hmem => ?_, ih⟩)
      obtain ⟨e', hload', hroot, hlead⟩ := h.of_mem hmem
      obtain rfl := Except.ok.inj (hload.symm.trans hload')
      exact hacyclic ⟨e, hroot, .tail' hlead ⟨_, hname, hload⟩⟩

/-- Includes are not cyclic if a measure descends along them. -/
theorem not_cyclic_of_descends (f : Definition → Nat)
    (h : ∀ d e, Leads l root d → Includes l d e → f e < f d) : ¬ Cyclic l root := by
  rintro ⟨d, hlead, hcycle⟩
  have hlt : ∀ e, TransGen (Includes l) d e → Leads l root e ∧ f e < f d := by
    intro e hde
    induction hde with
    | single hinc => exact ⟨hlead.tail hinc, h d _ hlead hinc⟩
    | tail _ hinc ih => exact ⟨ih.1.tail hinc, Nat.lt_trans (h _ _ ih.1 hinc) ih.2⟩
  exact absurd (hlt d hcycle).2 (Nat.lt_irrefl _)

end Definition

/-! ### Loaders -/

namespace Loader

open Definition (Trail)

/-- There are no more definitions to be found than are counted. -/
def Counted (l : Loader) : Prop :=
  ∃ ds : List Definition, ds.length ≤ l.count ∧ ∀ name d, l.load name = .ok d → d ∈ ds

theorem load_ofList_eq_ok {ds : List (Text × Definition)} {name : Text} {d : Definition} :
    (ofList ds).load name = .ok d ↔ Fields.get? ds name = some d := by
  simp only [ofList]
  cases Fields.get? ds name with
  | none => simp
  | some e => simp

theorem counted_ofList (ds : List (Text × Definition)) : (ofList ds).Counted := by
  refine ⟨ds.map Prod.snd, by simp [ofList], fun name d h => ?_⟩
  exact mem_map_of_mem (Fields.mem_of_get? (load_ofList_eq_ok.mp h))

def contents : Stored → Text
  | .text t => t
  | .table _ => ""

theorem exists_entry {parts : List Text} {f : Stored} (h : fs.entry? parts = some (.file f)) :
    ∃ e ∈ fs.entries, e.2 = f := by
  unfold Files.entry? at h
  split at h
  · next key g hfind =>
    cases h
    exact ⟨_, mem_of_find?_eq_some hfind, rfl⟩
  · split at h <;> cases h

theorem exists_entry_of_read {path t : Text} (h : fs.read path = .ok t) :
    ∃ e ∈ fs.entries, contents e.2 = t := by
  unfold Files.read Files.openAt Files.lookup at h
  cases hresolve : fs.resolve path with
  | error f =>
    rw [hresolve] at h
    cases h
  | ok parts =>
    rw [hresolve] at h
    cases hentry : fs.entry? parts with
    | none => simp [hentry, bind, Except.bind, Except.mapError] at h
    | some entry =>
      cases entry with
      | directory => simp [hentry, bind, Except.bind, Except.mapError] at h
      | file f =>
        obtain ⟨e, he, rfl⟩ := exists_entry hentry
        refine ⟨e, he, ?_⟩
        cases hstored : e.2 <;> simp [hentry, hstored, bind, Except.bind, Except.mapError] at h <;> exact h

theorem exists_load_of_firstOf {missing : Failure} {paths : List Text} {d : Definition}
    (h : firstOf fs missing paths = .ok d) : ∃ path, Definition.load fs path = .ok d := by
  induction paths with
  | nil => cases h
  | cons path paths ih =>
    rw [firstOf] at h
    cases hload : Definition.load fs path with
    | ok e =>
      rw [hload] at h
      cases h
      exact ⟨path, hload⟩
    | error f =>
      rw [hload] at h
      replace h : (if f.hasCode .notFound then firstOf fs missing paths else .error f) = .ok d := h
      split at h
      · exact ih h
      · cases h

theorem exists_parse_of_load {path : Text} {d : Definition} (h : Definition.load fs path = .ok d) :
    ∃ t, fs.read path = .ok t ∧ Definition.parse t = .ok d := by
  unfold Definition.load at h
  split at h
  · split at h <;> cases h
  · next t hread =>
    refine ⟨t, hread, ?_⟩
    cases hparse : Definition.parse t with
    | error f =>
      rw [hparse] at h
      cases h
    | ok e =>
      rw [hparse] at h
      cases h
      rfl

/-- Every definition in files is that of one of the files. -/
theorem counted_ofFiles (fs : Files) (dirs : List Text) : (ofFiles fs dirs).Counted := by
  refine ⟨fs.entries.filterMap fun e => (Definition.parse (contents e.2)).toOption,
    length_filterMap_le _ _, fun name d h => ?_⟩
  obtain ⟨path, hload⟩ := exists_load_of_firstOf h
  obtain ⟨t, hread, hparse⟩ := exists_parse_of_load hload
  obtain ⟨e, he, rfl⟩ := exists_entry_of_read hread
  exact mem_filterMap.mpr ⟨e, he, by rw [hparse]; rfl⟩

end Loader

open Definition in
theorem Definition.Trail.length_le {l : Loader} {root d : Definition} {path : List Definition}
    (h : Trail l root path d) (hl : l.Counted) (hpath : path.Nodup) : path.length ≤ l.count + 1 := by
  obtain ⟨ds, hlength, hds⟩ := hl
  have hsub : path ⊆ root :: ds := by
    clear hpath
    have hgen : ∀ e, e ∈ path ++ [d] → e ∈ root :: ds := by
      induction h with
      | root => simp
      | step _ hinc ih =>
        obtain ⟨name, -, hload⟩ := hinc
        rw [forall_mem_append, forall_mem_singleton]
        exact ⟨ih, mem_cons_of_mem _ (hds name _ hload)⟩
    exact fun e he => hgen e (mem_append_left _ he)
  have hle := (List.Nodup.subperm hpath hsub).length_le
  rw [length_cons] at hle
  omega

end Dataflow
