import Dataflow.Graph.Basic
import Mathlib.Data.Fintype.Order
import Mathlib.Data.List.Induction
import Mathlib.Data.List.Nodup
import Mathlib.Logic.Relation
import Mathlib.Order.WellFounded

/-!
# Orders that put parents first

`g.Reads id p`: the node `id` of the graph has the parent `p`, which need not be in the graph.  A node
is `Defective` if a chain of parents from it leaves the graph or runs into a cycle.

`g.Schedule ids`: the identifiers of nodes of the graph, each once and each after its parents.  A
schedule is closed under parents, so that none of its nodes is defective
(`Schedule.not_defective`).  `g.Ordered`: the insertion order is a schedule.  Adding a node after its
parents and absorbing an ordered graph keep a graph ordered.

What holds of schedules as lists holds of any relation in place of the parents (`Graded`).
-/

namespace Dataflow

open Relation List

/-! ### Graded lists -/

section Graded

variable {α : Type} {R : α → α → Prop} {xs ys : List α} {x y : α}

/-- Each once, and each after all that it leads to. -/
inductive Graded (R : α → α → Prop) : List α → Prop
  | nil : Graded R []
  | concat {xs : List α} {x : α} (h : Graded R xs) (hnew : x ∉ xs) (hleads : ∀ y, R x y → y ∈ xs) :
      Graded R (xs ++ [x])

namespace Graded

variable (h : Graded R xs)

include h

theorem nodup : xs.Nodup := by
  induction h with
  | nil => exact nodup_nil
  | concat _ hnew _ ih => exact nodup_append.mpr ⟨ih, by simp, by grind⟩

/-- Where something stands, all that it leads to stands before. -/
theorem mem_before {before after : List α} (heq : xs = before ++ x :: after) (hr : R x y) : y ∈ before := by
  induction h generalizing after with
  | nil => simp at heq
  | @concat xs z h hnew hleads ih =>
    rcases after.eq_nil_or_concat with rfl | ⟨after, u, rfl⟩
    · obtain ⟨rfl, hx⟩ := append_inj' heq rfl
      obtain rfl : z = x := by simpa using hx
      exact hleads y hr
    · have hinit : xs ++ [z] = (before ++ x :: after) ++ [u] := by simpa using heq
      exact ih (append_inj' hinit rfl).1

theorem mem_of_reaches (hx : x ∈ xs) (hr : ReflTransGen R x y) : y ∈ xs := by
  induction hr with
  | refl => exact hx
  | tail _ hstep ih =>
    obtain ⟨before, after, rfl⟩ := append_of_mem ih
    exact mem_append_left _ (h.mem_before rfl hstep)

theorem not_cyclic (hx : x ∈ xs) : ¬ TransGen R x x := by
  induction h with
  | nil => simp at hx
  | concat h hnew hleads ih =>
    rcases mem_append.mp hx with hx | hx
    · exact ih hx
    · -- from the last one a chain goes to earlier ones only, and stays there
      obtain rfl := mem_singleton.mp hx
      intro hcycle
      obtain ⟨z, hstep, hback⟩ := TransGen.head'_iff.mp hcycle
      exact hnew (h.mem_of_reaches (hleads z hstep) hback)

end Graded

variable [DecidableEq α]

/-- Adds at the end what is not there yet. -/
def insertLast (xs : List α) (x : α) : List α := if x ∈ xs then xs else xs ++ [x]

theorem mem_insertLast : y ∈ insertLast xs x ↔ y ∈ xs ∨ y = x := by
  unfold insertLast
  split <;> grind

theorem mem_foldl_insertLast : y ∈ ys.foldl insertLast xs ↔ y ∈ xs ∨ y ∈ ys := by
  induction ys generalizing xs with
  | nil => simp
  | cons z ys ih => rw [foldl_cons, ih, mem_insertLast, mem_cons, or_assoc]

theorem nodup_foldl_insertLast (h : xs.Nodup) : (ys.foldl insertLast xs).Nodup := by
  induction ys generalizing xs with
  | nil => exact h
  | cons y ys ih =>
    refine ih ?_
    unfold insertLast
    split
    · exact h
    · next hnew => exact concat_eq_append ▸ h.concat hnew

/-! ### Entries with keys -/

variable {β : Type} {key : β → α} {us vs : List β} {u v : β}

/-- Adds at the end what has a key that is not there yet. -/
def insertNew (key : β → α) (us : List β) (u : β) : List β := if key u ∈ us.map key then us else us ++ [u]

theorem foldl_any_eq (us vs : List (α × β)) : vs.foldl (fun us v => if us.any (·.1 = v.1) then us else us ++ [v]) us =
    vs.foldl (insertNew Prod.fst) us := by
  congr
  funext us v
  exact if_congr (by simp only [any_eq_true, mem_map, decide_eq_true_eq]) rfl rfl

/-- Entries with different keys are added in their order, but for those whose key is there. -/
theorem foldl_insertNew_eq (h : (vs.map key).Nodup) :
    vs.foldl (insertNew key) us = us ++ vs.filter (key · ∉ us.map key) := by
  induction vs generalizing us with
  | nil => simp
  | cons v vs ih =>
    obtain ⟨hv, hvs⟩ := nodup_cons.mp h
    rw [foldl_cons, ih hvs, insertNew]
    split
    · next hmem => rw [filter_cons_of_neg (by simpa using hmem)]
    · next hmem =>
      rw [filter_cons_of_pos (by simpa using hmem), append_assoc, singleton_append]
      congr 2
      refine filter_congr fun w hw => ?_
      have hne : key w ≠ key v := fun heq => hv (heq ▸ mem_map_of_mem hw)
      simp [hne]

theorem map_foldl_insertNew :
    (vs.foldl (insertNew key) us).map key = (vs.map key).foldl insertLast (us.map key) := by
  rw [foldl_map]
  refine (foldl_hom (map key) fun us u => ?_).symm
  rw [insertLast, insertNew, apply_ite (map key), map_append, map_singleton]

theorem mem_foldl_insertNew_left (h : u ∈ us) : u ∈ vs.foldl (insertNew key) us := by
  refine foldlRecOn (motive := (u ∈ ·)) vs _ h fun us hu v _ => ?_
  unfold insertNew
  split
  · exact hu
  · exact mem_append_left _ hu

theorem mem_or_of_mem_foldl_insertNew (h : u ∈ vs.foldl (insertNew key) us) : u ∈ us ∨ u ∈ vs := by
  refine foldlRecOn (motive := fun ws => u ∈ ws → u ∈ us ∨ u ∈ vs) vs _ .inl (fun ws ih v hv hu => ?_) h
  unfold insertNew at hu
  split at hu
  · exact ih hu
  · exact (mem_append.mp hu).elim ih fun hu => .inr (mem_singleton.mp hu ▸ hv)

/-- Where a key tells the entry, all entries are there in the end. -/
theorem mem_foldl_insertNew_right (hagree : ∀ u, u ∈ us ∨ u ∈ vs → key u = key v → u = v) (hv : v ∈ vs) :
    v ∈ vs.foldl (insertNew key) us := by
  have hkey : key v ∈ (vs.foldl (insertNew key) us).map key := by
    rw [map_foldl_insertNew]
    exact mem_foldl_insertLast.mpr (.inr (mem_map_of_mem hv))
  obtain ⟨u, hu, heq⟩ := mem_map.mp hkey
  exact hagree u (mem_or_of_mem_foldl_insertNew hu) heq ▸ hu

end Graded

end Dataflow

namespace Dataflow.Graph

open Relation List

variable {g g' other : Graph} {n m : Node} {ns : List Node} {id p : Text} {ids : List Text}

/-! ### Nodes by identifier -/

theorem eq_of_id_eq (hn : n ∈ g.nodes) (hm : m ∈ g.nodes) (h : n.id = m.id) : n = m :=
  inj_on_of_nodup_map g.nodup_ids hn hm h

theorem mem_ids_of_mem (hn : n ∈ g.nodes) : n.id ∈ g.ids := mem_map_of_mem hn

theorem exists_node_of_mem_ids (h : id ∈ g.ids) : ∃ n ∈ g.nodes, n.id = id := mem_map.mp h

theorem node?_eq_some_iff : g.node? id = some n ↔ n ∈ g.nodes ∧ n.id = id := by
  constructor
  · intro h
    exact ⟨mem_of_find?_eq_some h, by simpa using List.find?_some h⟩
  · rintro ⟨hn, rfl⟩
    cases hfind : g.node? n.id with
    | none => exact absurd (List.find?_eq_none.mp hfind n hn) (by simp)
    | some m =>
      have hm : m.id = n.id := by simpa using List.find?_some hfind
      rw [eq_of_id_eq (mem_of_find?_eq_some hfind) hn hm]

theorem node?_eq_none_iff : g.node? id = none ↔ id ∉ g.ids := by
  simp [node?, ids]

/-! ### Parents -/

/-- The node with an identifier has a parent. -/
def Reads (g : Graph) (id p : Text) : Prop := ∃ n ∈ g.nodes, n.id = id ∧ p ∈ n.parents

instance : Decidable (g.Reads id p) :=
  inferInstanceAs (Decidable (∃ n ∈ g.nodes, n.id = id ∧ p ∈ n.parents))

theorem reads_iff (hn : n ∈ g.nodes) : g.Reads n.id p ↔ p ∈ n.parents := by
  constructor
  · rintro ⟨m, hm, hid, hp⟩
    rwa [← eq_of_id_eq hm hn hid]
  · exact fun hp => ⟨n, hn, rfl, hp⟩

theorem Reads.mem_ids (h : g.Reads id p) : id ∈ g.ids := by
  obtain ⟨n, hn, rfl, -⟩ := h
  exact mem_ids_of_mem hn

theorem mem_edges_iff {e : Edge} : e ∈ g.edges ↔ g.Reads e.child e.parent := by
  rw [g.edges_eq, mem_flatMap]
  constructor
  · rintro ⟨n, hn, he⟩
    obtain ⟨p, hp, rfl⟩ := mem_map.mp he
    exact ⟨n, hn, rfl, hp⟩
  · rintro ⟨n, hn, hid, hp⟩
    exact ⟨n, hn, mem_map.mpr ⟨e.parent, hp, by rw [hid]⟩⟩

/-- A chain of parents from the node leaves the graph, or comes back to one of its nodes. -/
def Defective (g : Graph) (id : Text) : Prop :=
  ∃ p, ReflTransGen g.Reads id p ∧ (p ∉ g.ids ∨ TransGen g.Reads p p)

/-- A relation by which one never gets out of finitely many identifiers comes back to one of them. -/
theorem exists_transGen_self {r : Text → Text → Prop} (hne : ids ≠ [])
    (h : ∀ a ∈ ids, ∃ b ∈ ids, r a b) : ∃ a ∈ ids, TransGen r a a := by
  by_contra hacyclic
  push Not at hacyclic
  -- without a cycle, the identifiers have one that leads to no other
  let below (a b : { id // id ∈ ids }) : Prop := TransGen r b.1 a.1
  have : IsTrans _ below := ⟨fun _ _ _ hab hbc => hbc.trans hab⟩
  have : Std.Irrefl below := ⟨fun a => hacyclic a.1 a.2⟩
  have hwf : WellFounded below := Finite.wellFounded_of_trans_of_irrefl below
  obtain ⟨a, ha⟩ := exists_mem_of_ne_nil _ hne
  obtain ⟨⟨a, ha⟩, -, hmin⟩ := hwf.has_min Set.univ ⟨⟨a, ha⟩, trivial⟩
  obtain ⟨b, hb, hab⟩ := h a ha
  exact hmin ⟨b, hb⟩ trivial (.single hab)

/-! ### Schedules -/

/-- Nodes of a graph, each once and each after its parents. -/
inductive Schedule (g : Graph) : List Text → Prop
  | nil : Schedule g []
  | concat {ids : List Text} {n : Node} (h : Schedule g ids) (hn : n ∈ g.nodes) (hnew : n.id ∉ ids)
      (hp : ∀ p ∈ n.parents, p ∈ ids) : Schedule g (ids ++ [n.id])

namespace Schedule

section

variable (h : g.Schedule ids)

include h

theorem graded : Graded g.Reads ids := by
  induction h with
  | nil => exact .nil
  | concat _ hn hnew hp ih => exact ih.concat hnew fun p hr => hp p ((reads_iff hn).mp hr)

theorem nodup : ids.Nodup := h.graded.nodup

theorem subset_ids : ids ⊆ g.ids := by
  induction h with
  | nil => exact nil_subset _
  | concat _ hn _ _ ih => exact append_subset.mpr ⟨ih, by simpa using mem_ids_of_mem hn⟩

/-- Where a node stands in a schedule, its parents stand before. -/
theorem parents_before {before after : List Text} (heq : ids = before ++ id :: after) (hr : g.Reads id p) :
    p ∈ before := h.graded.mem_before heq hr

theorem mem_of_reaches (hid : id ∈ ids) (hr : ReflTransGen g.Reads id p) : p ∈ ids :=
  h.graded.mem_of_reaches hid hr

theorem mem_of_reads (hid : id ∈ ids) (hr : g.Reads id p) : p ∈ ids := h.mem_of_reaches hid (.single hr)

theorem not_cyclic (hid : id ∈ ids) : ¬ TransGen g.Reads id id := h.graded.not_cyclic hid

theorem not_defective (hid : id ∈ ids) : ¬ g.Defective id := by
  rintro ⟨p, hreach, hout | hcycle⟩
  · exact hout (h.subset_ids (h.mem_of_reaches hid hreach))
  · exact h.not_cyclic (h.mem_of_reaches hid hreach) hcycle

theorem mono (hsub : g.nodes ⊆ g'.nodes) : g'.Schedule ids := by
  induction h with
  | nil => exact nil
  | concat _ hn hnew hp ih => exact ih.concat (hsub hn) hnew hp

end

end Schedule

/-! ### Growth -/

/-- Every node was added after its parents. -/
def Ordered (g : Graph) : Prop := g.Schedule g.ids

theorem add_of_has (h : g.has n.id) : g.add n = g := dif_pos h

theorem nodes_add (h : ¬ g.has n.id) : (g.add n).nodes = g.nodes ++ [n] := by
  unfold add
  rw [dif_neg h]

theorem nodes_foldl_eq : (ns.foldl add g).nodes = ns.foldl (insertNew Node.id) g.nodes := by
  refine (foldl_hom nodes fun g n => ?_).symm
  unfold insertNew
  by_cases h : g.has n.id
  · rw [add_of_has h]
    exact if_pos (has_iff.mp h)
  · rw [nodes_add h]
    exact if_neg (has_iff.not.mp h)

theorem nodes_subset_foldl_add : g.nodes ⊆ (ns.foldl add g).nodes := by
  rw [nodes_foldl_eq]
  exact fun _ => mem_foldl_insertNew_left

theorem ids_subset_foldl_add : ns.map Node.id ⊆ (ns.foldl add g).ids := by
  rw [ids, nodes_foldl_eq, map_foldl_insertNew]
  exact fun _ h => mem_foldl_insertLast.mpr (.inr h)

theorem mem_foldl_add (hm : m ∈ (ns.foldl add g).nodes) : m ∈ g.nodes ∨ m ∈ ns :=
  mem_or_of_mem_foldl_insertNew (nodes_foldl_eq ▸ hm)

theorem nodes_subset_add : g.nodes ⊆ (g.add n).nodes :=
  (nodes_subset_foldl_add : g.nodes ⊆ ([n].foldl add g).nodes)

theorem mem_add_self (h : ¬ g.has n.id) : n ∈ (g.add n).nodes := by
  rw [nodes_add h]
  simp

theorem mem_add (hm : m ∈ (g.add n).nodes) : m ∈ g.nodes ∨ m = n := by
  simpa using (mem_foldl_add hm : m ∈ g.nodes ∨ m ∈ [n])

theorem Ordered.add (h : g.Ordered) (hp : ∀ p ∈ n.parents, p ∈ g.ids) : (g.add n).Ordered := by
  by_cases hn : g.has n.id
  · rwa [add_of_has hn]
  · have hids : (g.add n).ids = g.ids ++ [n.id] := by simp [ids, nodes_add hn]
    unfold Ordered
    rw [hids]
    exact (h.mono nodes_subset_add).concat (mem_add_self hn) (by rwa [← has_iff]) hp

theorem nodes_subset_absorb : g.nodes ⊆ (g.absorb other).nodes := nodes_subset_foldl_add

theorem mem_absorb (hm : m ∈ (g.absorb other).nodes) : m ∈ g.nodes ∨ m ∈ other.nodes :=
  mem_foldl_add hm

/-- Nodes of the absorbed graph are kept, unless another node has taken the identifier. -/
theorem nodes_subset_absorb_of_agree (hagree : ∀ n ∈ g.nodes, ∀ m ∈ other.nodes, n.id = m.id → n = m) :
    other.nodes ⊆ (g.absorb other).nodes := by
  intro m hm
  rw [absorb, nodes_foldl_eq]
  refine mem_foldl_insertNew_right (fun n hn hid => ?_) hm
  exact hn.elim (hagree n · m hm hid) (eq_of_id_eq · hm hid)

/-- The absorbed nodes come in their own order, so that each meets its parents. -/
theorem Ordered.absorb (h : g.Ordered) (ho : other.Ordered) : (g.absorb other).Ordered := by
  suffices hpre : ∀ pre rest, other.nodes = pre ++ rest → (pre.foldl Graph.add g).Ordered from
    hpre other.nodes [] (by simp)
  intro pre
  induction pre using reverseRecOn with
  | nil => exact fun _ _ => h
  | append_singleton pre n ih =>
    intro rest heq
    have hids : other.ids = pre.map Node.id ++ n.id :: rest.map Node.id := by simp [ids, heq]
    have hn : n ∈ other.nodes := by simp [heq]
    rw [foldl_append]
    refine (ih (n :: rest) (by simpa using heq)).add fun p hp => ids_subset_foldl_add ?_
    exact ho.parents_before hids ⟨n, hn, rfl, hp⟩

end Dataflow.Graph
