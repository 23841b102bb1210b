import Dataflow.Proofs.Graph.Levels

/-!
# Levels are depths

A chain of parents leads from a node to one without parents.  The depth of a node is the number of links
of the longest such chain (`g.Depth id k`).  A round takes the nodes of one depth: those it releases have
all their parents in the levels before, and one of them in the last (`Layers.depth`).

Main statements: levels are missing exactly where the graph is malformed, and otherwise hold every node
once, at its depth (`levels_exact`).  A round releases nodes in the order in which it comes to the last of
their parents, and only among those with the same last parent in the order of insertion
(`pairwise_released`).  So a level is in insertion order exactly where its nodes were inserted in the order
of their last parents (`levels_sublist_iff`).
-/

namespace Dataflow.Graph

open Relation List

variable {g : Graph} {done level l : List Text} {found : List (List Text)} {id p x y : Text} {i j k : Nat}

/-! ### Depth -/

/-- From the node a chain of `k` parents leads to a node without parents. -/
inductive Chain (g : Graph) : Text → Nat → Prop
  | source {id : Text} (hid : id ∈ g.ids) (hnone : ∀ p, ¬ g.Reads id p) : Chain g id 0
  | link {id p : Text} {k : Nat} (hr : g.Reads id p) (h : Chain g p k) : Chain g id (k + 1)

/-- The longest chain of parents from the node has `k` links. -/
def Depth (g : Graph) (id : Text) (k : Nat) : Prop := IsGreatest {k | g.Chain id k} k

theorem Depth.lt_of_reads (h : g.Depth id k) (hr : g.Reads id p) (hp : g.Depth p j) : j < k :=
  h.2 (Chain.link hr hp.1)

theorem Depth.mem_ids (h : g.Depth id k) : id ∈ g.ids := by
  cases h.1 with
  | source hid _ => exact hid
  | link hr _ => exact hr.mem_ids

theorem depth_zero (hid : id ∈ g.ids) (hnone : ∀ p, ¬ g.Reads id p) : g.Depth id 0 := by
  refine ⟨.source hid hnone, fun k hk => ?_⟩
  cases hk with
  | source => exact Nat.le_refl 0
  | link hr _ => exact absurd hr (hnone _)

theorem depth_succ (hr : g.Reads id p) (hp : g.Depth p k)
    (hle : ∀ q, g.Reads id q → ∃ j ≤ k, g.Depth q j) : g.Depth id (k + 1) := by
  refine ⟨.link hr hp.1, fun m hm => ?_⟩
  cases hm with
  | source => exact Nat.zero_le _
  | @link _ q m hq hchain =>
    obtain ⟨j, hj, hdepth⟩ := hle q hq
    exact Nat.succ_le_succ (Nat.le_trans (hdepth.2 hchain) hj)

theorem depth_of_mem_sources (hx : x ∈ g.sources.map Node.id) : g.Depth x 0 := by
  obtain ⟨n, hn, rfl⟩ := mem_map.mp hx
  obtain ⟨hn, hempty⟩ := mem_filter.mp hn
  refine depth_zero (mem_ids_of_mem hn) fun p hr => ?_
  rw [reads_iff hn, List.isEmpty_iff.mp hempty] at hr
  cases hr

/-- What a level of depth `k` releases has the depth `k + 1`. -/
theorem depth_of_mem_released (hdone : ∀ x ∈ done, ∃ j < k, g.Depth x j)
    (hlevel : ∀ x ∈ level, g.Depth x k) (hx : x ∈ g.released done level) : g.Depth x (k + 1) := by
  obtain ⟨hchild, hclosed⟩ := mem_released.mp hx
  obtain ⟨p, hp, hr⟩ := mem_children.mp hchild
  refine depth_succ hr (hlevel p hp) ?_
  rintro q ⟨n, hn, rfl, hq⟩
  rcases mem_append.mp ((openEdges_eq_zero_iff hn).mp hclosed q hq) with hq | hq
  · obtain ⟨j, hj, hdepth⟩ := hdone q hq
    exact ⟨j, Nat.le_of_lt hj, hdepth⟩
  · exact ⟨k, Nat.le_refl k, hlevel q hq⟩

namespace Layers

theorem depth (h : Layers g done level found) (hdone : ∀ x ∈ done, ∃ j < k, g.Depth x j)
    (hlevel : ∀ x ∈ level, g.Depth x k) (hl : found[i]? = some l) (hx : x ∈ l) : g.Depth x (k + i) := by
  induction h generalizing k i with
  | nil => simp at hl
  | cons _ _ _ ih =>
    cases i with
    | zero =>
      obtain rfl : _ = l := by simpa using hl
      exact hlevel x hx
    | succ i =>
      rw [Nat.add_comm i, ← Nat.add_assoc]
      refine ih (fun x hx => ?_) (fun x hx => depth_of_mem_released hdone hlevel hx) (by simpa using hl)
      rcases mem_append.mp hx with hx | hx
      · obtain ⟨j, hj, hdepth⟩ := hdone x hx
        exact ⟨j, Nat.lt_succ_of_lt hj, hdepth⟩
      · exact ⟨k, Nat.lt_succ_self k, hlevel x hx⟩

theorem ne_nil (h : Layers g done level found) (hl : l ∈ found) : l ≠ [] := by
  induction h with
  | nil => cases hl
  | cons _ hlevel _ ih =>
    rcases mem_cons.mp hl with rfl | hl
    · exact hlevel
    · exact ih hl

theorem length_le (h : Layers g done level found) : found.length ≤ found.flatten.length := by
  rw [length_flatten, ← length_map List.length]
  refine length_le_sum_of_one_le _ fun n hn => ?_
  obtain ⟨l, hl, rfl⟩ := mem_map.mp hn
  exact length_pos_iff.mpr (h.ne_nil hl)

end Layers

/-! ### Malformed graphs -/

/-- A parent is missing, or the parents have a cycle. -/
def Malformed (g : Graph) : Prop :=
  (∃ id p, g.Reads id p ∧ p ∉ g.ids) ∨ ∃ id, TransGen g.Reads id id

theorem find?_dangling_eq_none_iff :
    (g.edges.find? fun e => !g.has e.parent) = none ↔ ∀ id p, g.Reads id p → p ∈ g.ids := by
  rw [List.find?_eq_none]
  constructor
  · intro h id p hr
    simpa [has_iff] using h ⟨p, id⟩ (mem_edges_iff.mpr hr)
  · intro h e he
    simpa [has_iff] using h _ _ (mem_edges_iff.mp he)

/-- Rounds that leave a node over leave over a parent of it, and so on. -/
theorem Round.cycle (h : Round g done []) (hparents : ∀ id p, g.Reads id p → p ∈ g.ids)
    (hid : id ∈ g.ids) (hleft : id ∉ done) : ∃ id, TransGen g.Reads id id := by
  have hnext : ∀ x ∈ g.ids.filter (· ∉ done), ∃ p ∈ g.ids.filter (· ∉ done), g.Reads x p := fun x hx => by
    obtain ⟨hx, hout⟩ : x ∈ g.ids ∧ x ∉ done := by simpa using hx
    obtain ⟨n, hn, rfl⟩ := exists_node_of_mem_ids hx
    have hopen : ¬ ∀ p ∈ n.parents, p ∈ done := fun hall =>
      hout (by simpa using (h.mem_iff n.id).mpr ⟨hx, (openEdges_eq_zero_iff hn).mpr hall⟩)
    push Not at hopen
    obtain ⟨p, hp, hpout⟩ := hopen
    have hr : g.Reads n.id p := (reads_iff hn).mpr hp
    exact ⟨p, by simpa using ⟨hparents _ _ hr, hpout⟩, hr⟩
  have hne : g.ids.filter (· ∉ done) ≠ [] := ne_nil_of_mem (a := id) (by simpa using ⟨hid, hleft⟩)
  obtain ⟨x, -, hcycle⟩ := exists_transGen_self hne hnext
  exact ⟨x, hcycle⟩

/-- Depths fall along parents, so that no chain comes back. -/
theorem not_cyclic_of_depth (h : ∀ id ∈ g.ids, ∃ k, g.Depth id k) : ¬ TransGen g.Reads id id := by
  have hfalls {x y : Text} (hxy : TransGen g.Reads x y) {j k : Nat} (hx : g.Depth x k)
      (hy : g.Depth y j) : j < k := by
    induction hxy generalizing j with
    | single hr => exact hx.lt_of_reads hr hy
    | tail _ hr ih =>
      obtain ⟨m, hm⟩ := h _ hr.mem_ids
      exact Nat.lt_trans (hm.lt_of_reads hr hy) (ih hm)
  intro hcycle
  obtain ⟨y, hr, -⟩ := TransGen.head'_iff.mp hcycle
  obtain ⟨k, hk⟩ := h id hr.mem_ids
  exact Nat.lt_irrefl k (hfalls hcycle hk hk)

/-- How the levels of a graph come out. -/
theorem levels_cases (g : Graph) :
    (∃ f : Failure, g.levels = .error f ∧ f.code? = some .malformedGraph ∧ g.Malformed) ∨
    ∃ ls, g.levels = .ok ls ∧ Layers g [] (g.sources.map Node.id) ls ∧ ls.flatten.Perm g.ids ∧
      ∀ id p, g.Reads id p → p ∈ g.ids := by
  have hlayers := layers_levels (g := g)
  have hround := hlayers.round
  rw [nil_append] at hround
  have hsubperm := hround.nodup.sublist (sublist_append_left _ _) |>.subperm
    fun x hx => hround.subset_ids (mem_append_left _ hx)
  have hsize : g.ids.length = g.size := length_map _
  unfold Graph.levels
  cases hfind : g.edges.find? fun e => !g.has e.parent with
  | some e =>
    refine .inl ⟨_, rfl, rfl, .inl ⟨e.child, e.parent, ?_, ?_⟩⟩
    · exact mem_edges_iff.mp (mem_of_find?_eq_some hfind)
    · rw [← has_iff]
      simpa using List.find?_some hfind
  | none =>
    have hparents := find?_dangling_eq_none_iff.mp hfind
    simp only
    split
    · next hvisited =>
      exact .inr ⟨_, rfl, hlayers, hsubperm.perm_of_length_le (by omega), hparents⟩
    · next hvisited =>
      refine .inl ⟨_, rfl, rfl, .inr ?_⟩
      by_contra hacyclic
      have hall : g.ids ⊆ _ := fun id hid => by
        by_contra hleft
        exact hacyclic (hround.cycle hparents hid hleft)
      have hle := g.nodup_ids.length_le_of_subset hall
      exact hvisited (Nat.le_antisymm (hsize ▸ hsubperm.length_le) (hsize ▸ hle))

theorem layers_of_levels {ls : List (List Text)} (h : g.levels = .ok ls) :
    Layers g [] (g.sources.map Node.id) ls ∧ ls.flatten.Perm g.ids ∧ ∀ id p, g.Reads id p → p ∈ g.ids := by
  rcases levels_cases g with ⟨f, herror, -⟩ | ⟨ls', hok, hlayers⟩
  · rw [h] at herror
    cases herror
  · rw [h] at hok
    cases hok
    exact hlayers

/-- Levels group the nodes of every ordered graph. -/
theorem Ordered.levels (h : g.Ordered) : ∃ ls, g.levels = .ok ls := by
  rcases levels_cases g with ⟨f, -, -, ⟨id, p, hr, hout⟩ | ⟨id, hcycle⟩⟩ | ⟨ls, hok, -⟩
  · exact absurd (h.mem_of_reads hr.mem_ids hr) hout
  · obtain ⟨p, hr, -⟩ := TransGen.head'_iff.mp hcycle
    exact absurd hcycle (h.not_cyclic hr.mem_ids)
  · exact ⟨ls, hok⟩

section Levels

variable {ls : List (List Text)} (h : g.levels = .ok ls)

include h

theorem depth_of_mem_level (hl : ls[k]? = some l) (hx : x ∈ l) : g.Depth x k := by
  have hdepth := (layers_of_levels h).1.depth (forall_mem_nil _) (fun x => depth_of_mem_sources) hl hx
  rwa [Nat.zero_add] at hdepth

theorem exists_level (hx : x ∈ g.ids) : ∃ (k : Nat) (l : List Text), ls[k]? = some l ∧ x ∈ l := by
  obtain ⟨l, hl, hx⟩ := mem_flatten.mp ((layers_of_levels h).2.1.mem_iff.mpr hx)
  obtain ⟨k, hk⟩ := mem_iff_getElem?.mp hl
  exact ⟨k, l, hk, hx⟩

/-- The nodes of a depth are on the level of that number. -/
theorem exists_level_of_depth (hx : g.Depth x k) : ∃ l, ls[k]? = some l ∧ x ∈ l := by
  obtain ⟨j, l, hl, hmem⟩ := exists_level h hx.mem_ids
  obtain rfl : j = k := (depth_of_mem_level h hl hmem).unique hx
  exact ⟨l, hl, hmem⟩

theorem not_malformed_of_levels : ¬ g.Malformed := by
  have hparents := (layers_of_levels h).2.2
  rintro (⟨id, p, hr, hout⟩ | ⟨id, hcycle⟩)
  · exact hout (hparents id p hr)
  · refine not_cyclic_of_depth (fun x hx => ?_) hcycle
    obtain ⟨k, l, hl, hmem⟩ := exists_level h hx
    exact ⟨k, depth_of_mem_level h hl hmem⟩

end Levels

/-- **Levels are exact.**  The rounds end by themselves.  The levels of a graph are missing, with a report
of a malformed graph, exactly where a parent is missing or the parents have a cycle; otherwise they are not
empty, hold every node once, and each node is on the level of the longest chain of parents from it. -/
theorem levels_exact (g : Graph) :
    (∀ fuel ≥ g.size, g.levelsFrom fuel (g.nodes.map fun n => (n.id, n.parents.length))
        (g.sources.map Node.id) =
      g.levelsFrom g.size (g.nodes.map fun n => (n.id, n.parents.length)) (g.sources.map Node.id)) ∧
    ((∃ f : Failure, g.levels = .error f ∧ f.code? = some .malformedGraph) ↔ g.Malformed) ∧
    (¬ g.Malformed → ∃ ls, g.levels = .ok ls ∧ (∀ l ∈ ls, l ≠ []) ∧ ls.flatten.Perm g.ids ∧
      ∀ (k : Nat) (l : List Text), ls[k]? = some l → ∀ x ∈ l, g.Depth x k) := by
  refine ⟨fun fuel hfuel => ?_, ?_⟩
  · have hlayers := layers_levels (g := g)
    have hrounds := Nat.le_trans hlayers.length_le hlayers.round.length_le
    rw [← counts_nil] at hlayers hrounds ⊢
    exact hlayers.levelsFrom_eq (Nat.le_trans hrounds hfuel)
  · rcases levels_cases g with ⟨f, herror, hcode, hbad⟩ | ⟨ls, hok, hlayers, hperm, -⟩
    · exact ⟨⟨fun _ => hbad, fun _ => ⟨f, herror, hcode⟩⟩, fun hgood => absurd hbad hgood⟩
    · refine ⟨⟨?_, fun hbad => absurd hbad (not_malformed_of_levels hok)⟩, fun _ => ?_⟩
      · rintro ⟨f, herror, -⟩
        rw [hok] at herror
        cases herror
      · exact ⟨ls, hok, fun l hl => hlayers.ne_nil hl, hperm, fun k l hl x hx => depth_of_mem_level hok hl hx⟩

/-! ### Order -/

/-- The number of nodes that were inserted before the node. -/
def place (g : Graph) (id : Text) : Nat := g.ids.idxOf id

theorem pairwise_place : g.ids.Pairwise fun x y => g.place x < g.place y := by
  have hnodup : g.ids.Nodup := g.nodup_ids
  rw [pairwise_iff_getElem]
  intro i j hi hj hij
  rwa [place, place, hnodup.idxOf_getElem, hnodup.idxOf_getElem]

theorem sublist_ids_iff (hnodup : l.Nodup) (hsub : l ⊆ g.ids) :
    l.Sublist g.ids ↔ l.Pairwise fun x y => g.place x < g.place y := by
  constructor
  · exact fun h => pairwise_place.sublist h
  · intro h
    have : Std.Antisymm fun x y => g.place x < g.place y := ⟨fun x y hxy hyx => absurd hxy (Nat.lt_asymm hyx)⟩
    exact sublist_of_subperm_of_pairwise (hnodup.subperm hsub) h pairwise_place

theorem place_inj (hx : x ∈ g.ids) (h : g.place x = g.place y) : x = y :=
  idxOf_inj hx |>.mp h

/-- The nodes that read a node come in insertion order. -/
theorem pairwise_readers (p : Text) :
    ((g.edges.filter (·.parent = p)).map Edge.child).dedup.Pairwise fun x y => g.place x < g.place y := by
  have hplaces : g.edges.Pairwise fun e e' => g.place e.child ≤ g.place e'.child := by
    have hnodes := pairwise_place (g := g)
    rw [ids, pairwise_map] at hnodes
    rw [g.edges_eq, pairwise_flatMap]
    refine ⟨fun n _ => pairwise_map.mpr (pairwise_of_forall fun _ _ => Nat.le_refl _), ?_⟩
    refine hnodes.imp fun {n m} hlt e he e' he' => ?_
    obtain ⟨q, -, rfl⟩ := mem_map.mp he
    obtain ⟨q', -, rfl⟩ := mem_map.mp he'
    exact Nat.le_of_lt hlt
  have hreaders : ((g.edges.filter (·.parent = p)).map Edge.child).Pairwise fun x y =>
      g.place x ≤ g.place y := pairwise_map.mpr (hplaces.sublist filter_sublist)
  refine ((hreaders.sublist (dedup_sublist _)).and (nodup_dedup _)).imp_of_mem
    fun {x y} hx _ h => Nat.lt_of_le_of_ne h.1 fun heq => h.2 (place_inj ?_ heq)
  obtain ⟨e, he, rfl⟩ := mem_map.mp (mem_dedup.mp hx)
  exact (mem_edges_iff.mp (mem_of_mem_filter he)).mem_ids

/-- The level comes to the last parent of `x` no later than to that of `y`. -/
def NoLater (g : Graph) (level : List Text) (x y : Text) : Prop :=
  ∀ p ∈ level, g.Reads x p → ∃ q ∈ level, g.Reads y q ∧ level.idxOf p ≤ level.idxOf q

theorem idxOf_cons_of_mem (hp : p ∉ level) (hx : x ∈ level) :
    (p :: level).idxOf x = level.idxOf x + 1 :=
  idxOf_cons_ne _ fun heq => hp (heq ▸ hx)

/-- A node in front of the level is the last parent of no node that reads one of the level. -/
theorem noLater_cons_iff (hp : p ∉ level) (hy : y ∈ g.children level) :
    g.NoLater (p :: level) x y ↔ g.NoLater level x y := by
  constructor
  · intro h r hr hx
    obtain ⟨q, hq, hyq, hle⟩ := h r (mem_cons_of_mem p hr) hx
    rcases mem_cons.mp hq with rfl | hq
    · rw [idxOf_cons_of_mem hp hr, idxOf_cons_self] at hle
      omega
    · rw [idxOf_cons_of_mem hp hr, idxOf_cons_of_mem hp hq] at hle
      exact ⟨q, hq, hyq, by omega⟩
  · intro h r hr hx
    rcases mem_cons.mp hr with rfl | hr
    · obtain ⟨q, hq, hyq⟩ := mem_children.mp hy
      exact ⟨q, mem_cons_of_mem r hq, hyq, by simp⟩
    · obtain ⟨q, hq, hyq, hle⟩ := h r hr hx
      exact ⟨q, mem_cons_of_mem p hq, hyq, by
        rw [idxOf_cons_of_mem hp hr, idxOf_cons_of_mem hp hq]
        omega⟩

/-- The node in front of the level is the last parent of the nodes that read no other of the level. -/
theorem noLater_cons_of_not_mem (hx : x ∉ g.children level) (hy : y ∈ g.children (p :: level)) :
    g.NoLater (p :: level) x y := by
  intro r hr hxr
  obtain ⟨q, hq, hyq⟩ := mem_children.mp hy
  rcases mem_cons.mp hr with rfl | hr
  · exact ⟨q, hq, hyq, by simp⟩
  · exact absurd (mem_children.mpr ⟨r, hr, hxr⟩) hx

theorem not_noLater_cons (hp : p ∉ level) (hx : x ∉ g.children level) (hy : y ∈ g.children level) :
    ¬ g.NoLater (p :: level) y x := by
  intro h
  obtain ⟨q, hq, hyq⟩ := mem_children.mp hy
  obtain ⟨r, hr, hxr, hle⟩ := h q (mem_cons_of_mem p hq) hyq
  rcases mem_cons.mp hr with rfl | hr
  · rw [idxOf_cons_self, idxOf_cons_of_mem hp hq] at hle
    omega
  · exact hx (mem_children.mpr ⟨r, hr, hxr⟩)

theorem dedup_append_eq (xs ys : List Text) :
    (xs ++ ys).dedup = xs.dedup.filter (· ∉ ys) ++ ys.dedup := by
  induction xs with
  | nil => simp
  | cons x xs ih =>
    by_cases hx : x ∈ xs
    · rw [cons_append, dedup_cons_of_mem (mem_append_left _ hx), ih,
        dedup_cons_of_mem hx]
    · rw [cons_append, dedup_cons_of_notMem hx, filter_cons]
      by_cases hy : x ∈ ys
      · rw [dedup_cons_of_mem (mem_append_right _ hy), ih]
        simp [hy]
      · rw [dedup_cons_of_notMem (by simp [hx, hy]), ih]
        simp [hy]

/-- Nodes are met in the order of their last parents, and those with the same last parent in insertion
order. -/
theorem pairwise_children (hnodup : level.Nodup) : (g.children level).dedup.Pairwise fun x y =>
    g.NoLater level x y ∧ (g.NoLater level y x → g.place x < g.place y) := by
  induction level with
  | nil => simp [children]
  | cons p level ih =>
    obtain ⟨hp, hnodup⟩ := nodup_cons.mp hnodup
    have hcons : g.children (p :: level) =
        (g.edges.filter (·.parent = p)).map Edge.child ++ g.children level := by
      simp [children]
    have hfront {x : Text} (hx : x ∈ ((g.edges.filter (·.parent = p)).map Edge.child).dedup.filter
        (· ∉ g.children level)) : x ∈ g.children (p :: level) ∧ x ∉ g.children level := by
      obtain ⟨hmem, hout⟩ := mem_filter.mp hx
      rw [hcons]
      exact ⟨mem_append_left _ (mem_dedup.mp hmem), by simpa using hout⟩
    have hrest {x : Text} (hx : x ∈ g.children level) : x ∈ g.children (p :: level) :=
      hcons ▸ mem_append_right _ hx
    rw [hcons, dedup_append_eq, pairwise_append]
    refine ⟨?_, ?_, fun x hx y hy => ?_⟩
    · refine ((pairwise_readers p).filter _).imp_of_mem fun hx hy hlt => ⟨?_, fun _ => hlt⟩
      exact noLater_cons_of_not_mem (hfront hx).2 (hfront hy).1
    · refine (ih hnodup).imp_of_mem fun hx hy h => ?_
      rwa [noLater_cons_iff hp (mem_dedup.mp hy), noLater_cons_iff hp (mem_dedup.mp hx)]
    · rw [mem_dedup] at hy
      refine ⟨noLater_cons_of_not_mem (hfront hx).2 (hrest hy), fun h => ?_⟩
      exact absurd h (not_noLater_cons hp (hfront hx).2 hy)

theorem pairwise_released (hnodup : level.Nodup) : (g.released done level).Pairwise fun x y =>
    g.NoLater level x y ∧ (g.NoLater level y x → g.place x < g.place y) :=
  (pairwise_children hnodup).filter _

/-! ### Levels in insertion order -/

theorem Layers.first (h : Layers g done level found) (hl : found[0]? = some l) : l = level := by
  cases h with
  | nil => simp at hl
  | cons => simpa using hl.symm

/-- Each level but the first is what the level before releases. -/
theorem Layers.released {l' : List Text} (h : Layers g done level found) (hl : found[i]? = some l)
    (hl' : found[i + 1]? = some l') : ∃ done', (done' ++ l).Nodup ∧ l' = g.released done' l := by
  induction h generalizing i with
  | nil => simp at hl
  | @cons done level found h _ hrest ih =>
    cases i with
    | zero =>
      obtain rfl : level = l := by simpa using hl
      exact ⟨done, h.nodup, hrest.first (by simpa using hl')⟩
    | succ i => exact ih (by simpa using hl) (by simpa using hl')

theorem idxOf_le_iff (hl : l.Sublist g.ids) (hx : x ∈ l) (hy : y ∈ l) :
    l.idxOf x ≤ l.idxOf y ↔ g.place x ≤ g.place y := by
  have hplaces := pairwise_iff_getElem.mp (pairwise_place.sublist hl)
  have hnodup : l.Nodup := hl.nodup g.nodup_ids
  obtain ⟨i, hi, rfl⟩ := mem_iff_getElem.mp hx
  obtain ⟨j, hj, rfl⟩ := mem_iff_getElem.mp hy
  rw [hnodup.idxOf_getElem, hnodup.idxOf_getElem]
  rcases Nat.lt_trichotomy i j with hij | rfl | hji
  · have := hplaces i j hi hj hij
    omega
  · simp
  · have := hplaces j i hj hi hji
    omega

/-- Where a part of the nodes is in insertion order, two of them stand as they were inserted. -/
theorem rel_of_place_lt {r : Text → Text → Prop} (hl : l.Sublist g.ids) (hr : l.Pairwise r)
    (hx : x ∈ l) (hy : y ∈ l) (hlt : g.place x < g.place y) : r x y := by
  have hbefore : l.idxOf x < l.idxOf y := by
    rwa [← Nat.not_le, idxOf_le_iff hl hy hx, Nat.not_le]
  simpa using pairwise_iff_getElem.mp hr _ _ (idxOf_lt_length_iff.mpr hx) (idxOf_lt_length_iff.mpr hy) hbefore

/-- No parent of `x` of depth `k` was inserted after all those of `y`. -/
def ParentsInOrder (g : Graph) (k : Nat) (x y : Text) : Prop :=
  ∀ p, g.Reads x p → g.Depth p k → ∃ q, g.Reads y q ∧ g.Depth q k ∧ g.place p ≤ g.place q

/-- Nodes of one depth were inserted in the order of the last of their parents on the level before. -/
def Aligned (g : Graph) : Prop :=
  ∀ k x y, g.Depth x (k + 1) → g.Depth y (k + 1) → g.place x < g.place y → g.ParentsInOrder k x y

section Levels

variable {ls : List (List Text)} (h : g.levels = .ok ls)

include h

theorem mem_level_iff (hl : ls[k]? = some l) : x ∈ l ↔ g.Depth x k := by
  constructor
  · exact depth_of_mem_level h hl
  · intro hx
    obtain ⟨l', hl', hmem⟩ := exists_level_of_depth h hx
    rw [hl] at hl'
    cases hl'
    exact hmem

theorem noLater_iff (hl : ls[k]? = some l) (hsub : l.Sublist g.ids) :
    g.NoLater l x y ↔ g.ParentsInOrder k x y := by
  have hmem {p : Text} : p ∈ l ↔ g.Depth p k := mem_level_iff h hl
  constructor
  · intro hlater p hr hp
    obtain ⟨q, hq, hyq, hle⟩ := hlater p (hmem.mpr hp) hr
    exact ⟨q, hyq, hmem.mp hq, (idxOf_le_iff hsub (hmem.mpr hp) hq).mp hle⟩
  · intro horder p hp hr
    obtain ⟨q, hyq, hq, hle⟩ := horder p hr (hmem.mp hp)
    exact ⟨q, hmem.mpr hq, hyq, (idxOf_le_iff hsub hp (hmem.mpr hq)).mpr hle⟩

theorem exists_level_before (hl : ls[k + 1]? = some l) : ∃ l₀, ls[k]? = some l₀ ∧
    ∃ done, l = g.released done l₀ ∧ (g.released done l₀).Pairwise fun x y =>
      g.NoLater l₀ x y ∧ (g.NoLater l₀ y x → g.place x < g.place y) := by
  have hk := (List.getElem?_eq_some_iff.mp hl).1
  have hl₀ : ls[k]? = some ls[k] := List.getElem?_eq_getElem (by omega)
  obtain ⟨done, hnodup, heq⟩ := (layers_of_levels h).1.released hl₀ hl
  exact ⟨_, hl₀, done, heq, pairwise_released (nodup_append.mp hnodup).2.1⟩

theorem aligned_of_sublist (hsub : ∀ l ∈ ls, l.Sublist g.ids) : g.Aligned := by
  intro k x y hx hy hlt
  obtain ⟨l', hl', hxmem⟩ := exists_level_of_depth h hx
  have hymem := (mem_level_iff h hl').mpr hy
  obtain ⟨l, hl, done, rfl, hpairs⟩ := exists_level_before h hl'
  have hpair := rel_of_place_lt (hsub _ (mem_of_getElem? hl')) hpairs hxmem hymem hlt
  exact (noLater_iff h hl (hsub l (mem_of_getElem? hl))).mp hpair.1

theorem sublist_of_aligned (halign : g.Aligned) (hl : ls[k]? = some l) : l.Sublist g.ids := by
  induction k generalizing l with
  | zero =>
    rw [(layers_of_levels h).1.first hl]
    exact filter_sublist.map Node.id
  | succ k ih =>
    obtain ⟨l₀, hl₀, done, rfl, hpairs⟩ := exists_level_before h hl
    have hdepth {x : Text} (hx : x ∈ g.released done l₀) := depth_of_mem_level h hl hx
    have hdistinct : (g.released done l₀).Nodup := (nodup_dedup _).filter _
    rw [sublist_ids_iff hdistinct fun x hx => (hdepth hx).mem_ids]
    refine (hpairs.and hdistinct).imp_of_mem fun {x y} hx hy ⟨⟨_, hfirst⟩, hne⟩ => ?_
    by_contra hlt
    -- had `y` been inserted first, its last parent would not come after that of `x`
    have hswap : g.place y < g.place x :=
      Nat.lt_of_le_of_ne (Nat.le_of_not_lt hlt) fun heq => hne (place_inj (hdepth hy).mem_ids heq).symm
    exact hlt (hfirst ((noLater_iff h hl₀ (ih hl₀)).mpr (halign k y x (hdepth hy) (hdepth hx) hswap)))

end Levels

/-- **Levels are in insertion order exactly where their nodes were inserted in the order of their last
parents.** -/
theorem levels_sublist_iff {ls : List (List Text)} (h : g.levels = .ok ls) :
    (∀ l ∈ ls, l.Sublist g.ids) ↔ g.Aligned := by
  refine ⟨aligned_of_sublist h, fun halign l hl => ?_⟩
  obtain ⟨k, hk⟩ := List.mem_iff_getElem?.mp hl
  exact sublist_of_aligned h halign hk

/-- A node that was inserted before its parents, one of which it names twice. -/
def interleaved : Graph := .ofNodes "g"
  [{ id := "c", op := .union, parents := ["b", "a", "b"] }, { id := "a", op := .source },
   { id := "b", op := .source }, { id := "d", op := .map, parents := ["b"] },
   { id := "e", op := .union, parents := ["c", "a"] }]

theorem levels_sublist_iff_interleaved :
    let ls : List (List Text) := [["a", "b"], ["c", "d"], ["e"]]
    interleaved.levels = .ok ls ∧ (∀ l ∈ ls, l.Sublist interleaved.ids) ∧ interleaved.Aligned := by
  intro ls
  have h : interleaved.levels = .ok ls := rfl
  have hsub : ∀ l ∈ ls, l.Sublist interleaved.ids := by decide
  exact ⟨h, hsub, (levels_sublist_iff h).mp hsub⟩

/-- Two sources, and two nodes that read them in the opposite order. -/
def crossed : Graph := .ofNodes "g"
  [{ id := "a", op := .source }, { id := "b", op := .source }, { id := "c", op := .map, parents := ["b"] },
   { id := "d", op := .map, parents := ["a"] }]

/-- The second level is in the order of the parents and not in that of insertion. -/
theorem levels_crossed :
    let ls : List (List Text) := [["a", "b"], ["d", "c"]]
    crossed.levels = .ok ls ∧ crossed.ids = ["a", "b", "c", "d"] ∧ ¬ ∀ l ∈ ls, l.Sublist crossed.ids :=
  ⟨rfl, rfl, by decide⟩

end Dataflow.Graph
