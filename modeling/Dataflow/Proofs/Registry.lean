import Dataflow.Registry
import Dataflow.Proofs.Frame.Columns
import Dataflow.Proofs.Text.Colon
import Mathlib.Algebra.Order.BigOperators.Group.List
import Mathlib.Algebra.Order.Group.Nat

/-!
# What a registry resolves

A registry is the outcome of the registrations that were made, one after another, and its tables hold the
latest factory of each name (`get?_plugins`, `get?_builtins`, `get?_families`).  Main statement
(`resolve_registered`): a name stands for the latest plugin of that name, else for the latest exact built-in
backend, else for the latest one of the family before its first colon; and a listed name can be resolved, where
a listed family stands for all its dialects exactly if the part before its first colon was registered as a
family (`Rooted`).

Names are cut at a colon at the end when they are registered, and at the first colon when they are looked up.
A family with a colon inside its name is therefore listed and not found (`entries_nested`).
-/

namespace Dataflow

open List Fields

/-! ### Registrations -/

structure Registration (β : Type) where
  origin : Origin
  name : Text
  factory : Factory β

namespace Registry

variable {β : Type}

def register (r : Registry β) (new : Registration β) : Registry β :=
  match new.origin with
  | .plugin => r.addPlugin new.name new.factory
  | .builtin => r.addBuiltin new.name new.factory

def ofHistory (history : List (Registration β)) : Registry β := history.foldl register {}

/-- The factory that was last registered under a name. -/
def latest? (history : List (Registration β)) (origin : Origin) (name : Text) : Option (Factory β) :=
  history.reverse.findSome? fun r => if r.origin = origin ∧ r.name = name then some r.factory else none

def Registered (history : List (Registration β)) (origin : Origin) (name : Text) : Prop :=
  ∃ r ∈ history, r.origin = origin ∧ r.name = name

variable {history : List (Registration β)} {origin : Origin} {name dialect family : Text} {f : Factory β}

theorem ofHistory_concat (history : List (Registration β)) (r : Registration β) :
    ofHistory (history ++ [r]) = (ofHistory history).register r := by
  rw [ofHistory, foldl_append]
  rfl

theorem latest?_concat (r : Registration β) : latest? (history ++ [r]) origin name =
    if r.origin = origin ∧ r.name = name then some r.factory else latest? history origin name := by
  rw [latest?, reverse_append, reverse_singleton, singleton_append, List.findSome?_cons]
  split <;> simp_all [latest?]

theorem isSome_latest?_iff :
    (latest? history origin name).isSome = true ↔ Registered history origin name := by
  rw [latest?, List.findSome?_isSome_iff]
  simp only [mem_reverse, Option.isSome_ite]
  rfl

theorem latest?_eq_none_iff : latest? history origin name = none ↔ ¬ Registered history origin name := by
  rw [← isSome_latest?_iff, Option.not_isSome_iff_eq_none]

/-! ### The tables -/

theorem addBuiltin_family (r : Registry β) (family : Text) (f : Factory β) :
    r.addBuiltin (family ++ ":") f = { r with families := set family f r.families } := by
  rw [addBuiltin, if_pos (Text.endsWith_colon_iff.mpr ⟨family, rfl⟩), Text.take_append_colon]

theorem get?_plugins :
    get? (ofHistory history).plugins name = latest? history .plugin name := by
  induction history using reverseRecOn with
  | nil => rfl
  | append_singleton history r ih =>
    obtain ⟨origin, name', f⟩ := r
    rw [ofHistory_concat, latest?_concat, ← ih]
    cases origin with
    | plugin => simp [register, addPlugin, get?_set]
    | builtin =>
      simp only [register, addBuiltin]
      split <;> simp

theorem get?_families :
    get? (ofHistory history).families family = latest? history .builtin (family ++ ":") := by
  induction history using reverseRecOn with
  | nil => rfl
  | append_singleton history r ih =>
    obtain ⟨origin, name, f⟩ := r
    rw [ofHistory_concat, latest?_concat, ← ih]
    cases origin with
    | plugin => simp [register, addPlugin]
    | builtin =>
      by_cases hname : ∃ stem : Text, name = stem ++ ":"
      · obtain ⟨stem, rfl⟩ := hname
        simp [register, addBuiltin_family, get?_set, Text.append_colon_inj]
      · have hne : name ≠ family ++ ":" := fun h => hname ⟨family, h⟩
        rw [← Text.endsWith_colon_iff] at hname
        simp [register, addBuiltin, hname, hne]

/-- Names that end in a colon are never exact. -/
theorem get?_builtins : get? (ofHistory history).builtins name =
    if name.endsWith ":" then none else latest? history .builtin name := by
  induction history using reverseRecOn with
  | nil => simp [ofHistory, latest?, get?]
  | append_singleton history r ih =>
    obtain ⟨origin, name', f⟩ := r
    rw [ofHistory_concat, latest?_concat]
    cases origin with
    | plugin => simpa [register, addPlugin] using ih
    | builtin =>
      by_cases hname : name'.endsWith ":" = true
      · have hne : name.endsWith ":" = false → name' ≠ name := by
          rintro hname' rfl
          simp_all
        simp only [register, addBuiltin, hname, if_true, ih]
        split <;> simp_all
      · simp only [register, addBuiltin, if_neg hname, get?_set, ih]
        by_cases hsame : name' = name <;> simp_all

theorem get?_builtins_eq_none_iff : get? (ofHistory history).builtins name = none ↔
    (Registered history .builtin name → name.endsWith ":") := by
  rw [get?_builtins]
  split
  · next h => simp [h]
  · next h =>
    rw [latest?_eq_none_iff]
    exact ⟨fun hnone hsome => absurd hsome hnone, fun hends hsome => h (hends hsome)⟩

/-! ### The factory of a name -/

/-- The factory that a name stands for and the dialect that it is called with, empty for none. -/
inductive Chosen (history : List (Registration β)) (name : Text) : Factory β → Text → Prop
  /-- The latest plugin of the name comes first. -/
  | plugin {f : Factory β} (h : latest? history .plugin name = some f) : Chosen history name f ""
  /-- Then comes the latest built-in backend of exactly that name. -/
  | exact {f : Factory β} (hplugin : ¬ Registered history .plugin name) (hname : ¬ name.endsWith ":")
      (h : latest? history .builtin name = some f) : Chosen history name f ""
  /-- Then comes the latest one of the family before the first colon, if a dialect follows. -/
  | family (family : Text) {f : Factory β} {dialect : Text} (hplugin : ¬ Registered history .plugin name)
      (hexact : Registered history .builtin name → name.endsWith ":")
      (hname : name = family ++ ":" ++ dialect) (hfamily : family.Colonless) (hdialect : dialect ≠ "")
      (h : latest? history .builtin (family ++ ":") = some f) : Chosen history name f dialect

theorem factory?_of_chosen (h : Chosen history name f dialect) :
    (ofHistory history).factory? name = some (f, dialect) := by
  unfold factory?
  rw [get?_plugins]
  cases h with
  | plugin h => rw [h]
  | exact hplugin hname h => rw [latest?_eq_none_iff.mpr hplugin, get?_builtins, if_neg hname, h]
  | family _ hplugin hexact hname hfamily hdialect h =>
    rw [latest?_eq_none_iff.mpr hplugin, get?_builtins_eq_none_iff.mpr hexact,
      Text.cut?_colon_iff.mpr ⟨hname, hfamily⟩]
    simp only [get?_families, h, Option.map_some]
    rw [if_neg (by rwa [Text.isEmpty_iff])]

theorem chosen_of_factory? (h : (ofHistory history).factory? name = some (f, dialect)) :
    Chosen history name f dialect := by
  unfold factory? at h
  split at h
  · next g hplugin =>
    cases h
    exact .plugin (get?_plugins ▸ hplugin)
  · next hplugin =>
    rw [get?_plugins, latest?_eq_none_iff] at hplugin
    split at h
    · next g hbuiltin =>
      cases h
      rw [get?_builtins] at hbuiltin
      split at hbuiltin
      · cases hbuiltin
      · next hname => exact .exact hplugin hname hbuiltin
    · next hbuiltin =>
      split at h
      · next family d hcut =>
        obtain ⟨hname, hfamily⟩ := Text.cut?_colon_iff.mp hcut
        split at h
        · cases h
        · next hd =>
          rw [Text.isEmpty_iff] at hd
          obtain ⟨g, hg, heq⟩ := Option.map_eq_some_iff.mp h
          cases heq
          exact .family family hplugin (get?_builtins_eq_none_iff.mp hbuiltin) hname hfamily hd
            (get?_families ▸ hg)
      · cases h

theorem isSome_factory?_iff :
    ((ofHistory history).factory? name).isSome = true ↔ ∃ f dialect, Chosen history name f dialect := by
  rw [Option.isSome_iff_exists]
  constructor
  · rintro ⟨⟨f, dialect⟩, h⟩
    exact ⟨f, dialect, chosen_of_factory? h⟩
  · rintro ⟨f, dialect, h⟩
    exact ⟨(f, dialect), factory?_of_chosen h⟩

/-- Wherever a family was registered whose name has no colon, it answers for each of its dialects, unless
a plugin or an exact name does. -/
theorem isSome_factory?_family (hfamily : family.Colonless) (hdialect : dialect ≠ "")
    (h : Registered history .builtin (family ++ ":")) :
    ((ofHistory history).factory? (family ++ ":" ++ dialect)).isSome = true := by
  unfold factory?
  split
  · rfl
  · split
    · rfl
    · rw [Text.cut?_colon_iff.mpr ⟨rfl, hfamily⟩]
      simp only
      rw [if_neg (by rwa [Text.isEmpty_iff]), Option.isSome_map, get?_families]
      exact isSome_latest?_iff.mpr h

/-- The part of the name before its first colon was registered as a family. -/
def Rooted (history : List (Registration β)) (family : Text) : Prop :=
  ∃ root rest : Text, family ++ ":" = root ++ ":" ++ rest ∧ root.Colonless ∧
    Registered history .builtin (root ++ ":")

/-- Some dialect is longer than all registered names. -/
theorem exists_long_dialect (history : List (Registration β)) :
    ∃ dialect : Text, dialect ≠ "" ∧ ∀ r ∈ history, r.name.length < dialect.length := by
  let longest := (history.map fun r => r.name.length).sum
  refine ⟨⟨List.replicate (longest + 1) (byte 'x')⟩, fun h => ?_, fun r hr => ?_⟩
  · have hbytes : List.replicate (longest + 1) (byte 'x') = [] := congrArg Text.bytes h
    simp at hbytes
  · have hle : r.name.length ≤ longest := single_le_sum (by simp) _ (mem_map_of_mem hr)
    simpa [Text.length] using Nat.lt_succ_of_le hle

/-- A family answers for all dialects exactly if it is rooted: a long dialect is not part of a name that
was registered itself. -/
theorem forall_dialect_iff : (∀ dialect : Text, dialect ≠ "" →
      ((ofHistory history).factory? (family ++ ":" ++ dialect)).isSome = true) ↔
      Rooted history family := by
  constructor
  · intro h
    obtain ⟨dialect, hdialect, hlong⟩ := exists_long_dialect history
    have hnew {g : Factory β} (origin : Origin) :
        latest? history origin (family ++ ":" ++ dialect) ≠ some g := fun hg => by
      obtain ⟨r, hr, -, heq⟩ := isSome_latest?_iff.mp (Option.isSome_of_eq_some hg)
      have := hlong r hr
      rw [heq, Text.length, Text.length, Text.bytes_append, length_append] at this
      omega
    obtain ⟨f, d, hchosen⟩ := isSome_factory?_iff.mp (h dialect hdialect)
    cases hchosen with
    | plugin hf => exact absurd hf (hnew .plugin)
    | exact _ _ hf => exact absurd hf (hnew .builtin)
    | family found _ _ hname hfound _ hf =>
      obtain ⟨root, rest, hroot, hout⟩ := Text.exists_cut_colon family
      have hcut : found ++ ":" ++ d = root ++ ":" ++ (rest ++ dialect) := by
        rw [← hname, hroot, Text.append_assoc (root ++ ":")]
      have heq := (Text.cut?_colon_iff.mpr ⟨rfl, hfound⟩).symm.trans
        (Text.cut?_colon_iff.mpr ⟨hcut, hout⟩)
      obtain rfl : found = root := by simpa using congrArg (Option.map Prod.fst) heq
      exact ⟨found, rest, hroot, hout, isSome_latest?_iff.mp (Option.isSome_of_eq_some hf)⟩
  · rintro ⟨root, rest, hroot, hout, hmem⟩ dialect hdialect
    rw [hroot, Text.append_assoc (root ++ ":")]
    refine isSome_factory?_family hout (fun h => hdialect ?_) hmem
    rw [← Text.isEmpty_iff] at h ⊢
    simp only [Text.isEmpty, Text.bytes_append, List.isEmpty_iff, append_eq_nil_iff] at h ⊢
    exact h.2

/-! ### The listed names -/

/-- Plugins are listed by their names, and so are exact built-in backends; families have an asterisk. -/
theorem mem_entries_iff : (name, origin) ∈ (ofHistory history).entries ↔
    (origin = .plugin ∧ Registered history .plugin name) ∨
    (origin = .builtin ∧ ((¬ name.endsWith ":" ∧ Registered history .builtin name) ∨
      ∃ family : Text, name = family ++ ":*" ∧ Registered history .builtin (family ++ ":"))) := by
  have hplugin : name ∈ (ofHistory history).plugins.map Prod.fst ↔ Registered history .plugin name := by
    rw [← isSome_get?_iff, get?_plugins, isSome_latest?_iff]
  have hfamily (family : Text) : family ∈ (ofHistory history).families.map Prod.fst ↔
      Registered history .builtin (family ++ ":") := by
    rw [← isSome_get?_iff, get?_families, isSome_latest?_iff]
  have hexact : name ∈ (ofHistory history).builtins.map Prod.fst ↔
      ¬ name.endsWith ":" ∧ Registered history .builtin name := by
    rw [← isSome_get?_iff, get?_builtins, ← isSome_latest?_iff]
    split <;> simp_all
  simp only [← hplugin, ← hfamily, ← hexact]
  simp only [entries, Text.sort, mem_append, mem_map, mem_mergeSort, Prod.mk.injEq]
  constructor
  · rintro (⟨n, hn, rfl, rfl⟩ | ⟨n, hn | ⟨e, he, rfl⟩, rfl, rfl⟩)
    · exact .inl ⟨rfl, hn⟩
    · exact .inr ⟨rfl, .inl hn⟩
    · exact .inr ⟨rfl, .inr ⟨e.1, rfl, e, he, rfl⟩⟩
  · rintro (⟨rfl, hn⟩ | ⟨rfl, hn | ⟨family, rfl, e, he, rfl⟩⟩)
    · exact .inl ⟨name, hn, rfl, rfl⟩
    · exact .inr ⟨name, .inl hn, rfl, rfl⟩
    · exact .inr ⟨_, .inr ⟨e, he, rfl⟩, rfl, rfl⟩

theorem isSome_factory?_of_mem_entries (h : (name, origin) ∈ (ofHistory history).entries)
    (hname : ∀ family : Text, name ≠ family ++ ":*") :
    ((ofHistory history).factory? name).isSome = true := by
  rw [isSome_factory?_iff]
  by_cases hplugin : Registered history .plugin name
  · obtain ⟨f, hf⟩ := Option.isSome_iff_exists.mp (isSome_latest?_iff.mpr hplugin)
    exact ⟨f, "", .plugin hf⟩
  · rcases mem_entries_iff.mp h with ⟨-, hmem⟩ | ⟨-, ⟨hends, hmem⟩ | ⟨family, heq, -⟩⟩
    · exact absurd hmem hplugin
    · obtain ⟨f, hf⟩ := Option.isSome_iff_exists.mp (isSome_latest?_iff.mpr hmem)
      exact ⟨f, "", .exact hplugin hends hf⟩
    · exact absurd heq (hname family)

/-- **What is listed and what is resolved.**  A name is resolved by the factory that is chosen for it, and
no other name is known.  Every registered family is listed, and known for all its dialects if its name has no
colon.  Of the listed names, those that are no families are known; a listed family is known for all its
dialects exactly if it is rooted. -/
theorem resolve_registered (history : List (Registration β)) :
    (∀ (name : Text) (config : Row),
      (∀ f dialect, Chosen history name f dialect → (ofHistory history).resolve name config =
        f (if dialect = "" then config else Fields.set "dialect" (.text dialect) config)) ∧
      ((∀ f dialect, ¬ Chosen history name f dialect) →
        (ofHistory history).resolve name config = .error (Failure.unknownBackend name))) ∧
    (∀ family : Text, Registered history .builtin (family ++ ":") →
      (family ++ ":*", .builtin) ∈ (ofHistory history).entries ∧
      (family.Colonless → ∀ dialect : Text, dialect ≠ "" →
        ((ofHistory history).factory? (family ++ ":" ++ dialect)).isSome = true)) ∧
    ∀ entry ∈ (ofHistory history).entries,
      ((∀ family : Text, entry.1 ≠ family ++ ":*") →
        ((ofHistory history).factory? entry.1).isSome = true) ∧
      ∀ family : Text, entry.1 = family ++ ":*" →
        ((∀ dialect : Text, dialect ≠ "" →
          ((ofHistory history).factory? (family ++ ":" ++ dialect)).isSome = true) ↔
          Rooted history family) := by
  refine ⟨fun name config => ⟨fun f dialect h => ?_, fun h => ?_⟩,
    fun family hmem => ⟨?_, fun hfamily dialect hdialect => ?_⟩, fun entry he => ⟨fun hname => ?_, ?_⟩⟩
  · simp only [resolve, factory?_of_chosen h, Text.isEmpty_iff]
  · have hnone : (ofHistory history).factory? name = none := by
      rw [← Option.not_isSome_iff_eq_none, isSome_factory?_iff]
      exact fun ⟨f, dialect, hchosen⟩ => h f dialect hchosen
    simp only [resolve, hnone]
  · exact mem_entries_iff.mpr (.inr ⟨rfl, .inr ⟨family, rfl, hmem⟩⟩)
  · exact isSome_factory?_family hfamily hdialect hmem
  · exact isSome_factory?_of_mem_entries he hname
  · exact fun family _ => forall_dialect_iff

/-- A family with a colon inside its name. -/
def nested : List (Registration Text) := [⟨.builtin, "a:b:", fun _ => .ok "nested"⟩]

/-- The family is listed, and its dialects are unknown. -/
theorem entries_nested :
    (ofHistory nested).entries = [(("a:b:*" : Text), .builtin)] ∧
      (ofHistory nested).factory? "a:b:c" = none ∧
      (ofHistory nested).resolve "a:b:c" [] = .error (Failure.unknownBackend "a:b:c") :=
  ⟨by decide +kernel, rfl, rfl⟩

end Registry

end Dataflow
