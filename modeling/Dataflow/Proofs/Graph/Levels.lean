import Dataflow.Graph.Levels
import Dataflow.Proofs.Graph.Schedule
import Mathlib.Data.List.Count
import Mathlib.Data.List.Dedup

/-!
# Levels take in every node whose parents they hold

A round closes the edges out of one level.  `g.openEdges done id` counts the edges into a node that
do not come from the nodes `done`, which is what the counts of a round hold (`closeLevel_counts`).

`Round g done level`: the nodes before and in the level are those without open edges.  A round keeps
this for the next level (`Round.next`), and what all rounds find is a sequence of `Layers`
(`Round.layers`), in the end of which no node is left whose parents were all taken (`Layers.round`).
-/

namespace Dataflow.Graph

open List

variable {g : Graph} {done level cs ks : List Text} {id c x : Text} {f : Text → Nat}

/-! ### Closing edges -/

theorem map_lower : ((ks.map fun k => (k, f k)).map fun (id, n) => if id = c then (id, n - 1) else (id, n)) =
    ks.map fun k => (k, f k - [c].count k) := by
  rw [map_map]
  refine map_congr_left fun k _ => ?_
  by_cases hk : k = c
  · simp [hk]
  · simp [hk, Ne.symm hk]

theorem closeEdge_map (rel : List Text) : closeEdge c (ks.map fun k => (k, f k), rel) =
    (ks.map fun k => (k, f k - [c].count k), if c ∈ ks ∧ f c = 1 then rel ++ [c] else rel) := by
  have hleft : (((ks.map fun k => (k, f k)).find? (·.1 = c)).map Prod.snd).getD 0 =
      if c ∈ ks then f c else 0 := by
    induction ks with
    | nil => rfl
    | cons k ks ih =>
      by_cases hk : k = c
      · simp [hk]
      · simp only [map_cons, List.find?_cons, hk, decide_false, ih, mem_cons,
          Ne.symm hk, false_or]
  unfold closeEdge
  simp only [hleft, map_lower]
  by_cases hc : c ∈ ks <;> simp [hc]

/-- Closing edges into the nodes `cs`, of which there are no more than are open, lowers their counts and
releases each node whose count is used up, in the order of their last edges. -/
theorem foldl_closeEdge (ks cs : List Text) (f : Text → Nat) (rel : List Text)
    (hopen : ∀ x, cs.count x ≤ f x) :
    cs.foldl (fun state c => closeEdge c state) (ks.map fun k => (k, f k), rel) =
      (ks.map fun k => (k, f k - cs.count k),
        rel ++ cs.dedup.filter fun x => x ∈ ks ∧ f x = cs.count x) := by
  induction cs generalizing f rel with
  | nil => simp
  | cons c cs ih =>
    have hcount : ∀ k, (c :: cs).count k = [c].count k + cs.count k := fun k => by
      rw [← count_append, singleton_append]
    have hself : [c].count c = 1 := by simp
    have hrest : ∀ x, cs.count x ≤ f x - [c].count x := fun x => by
      have := hopen x
      rw [hcount x] at this
      omega
    have hkept (x : Text) : f x - [c].count x = cs.count x ↔ f x = (c :: cs).count x := by
      have := hopen x
      rw [hcount x] at this ⊢
      omega
    rw [foldl_cons, closeEdge_map, ih _ _ hrest]
    simp only [hkept, Nat.sub_sub, ← hcount]
    congr 1
    by_cases hmem : c ∈ cs
    · -- the edge is not the last one into its node
      have hmore : ¬ (c ∈ ks ∧ f c = 1) := fun h => by
        have hpos := count_pos_iff.mpr hmem
        have := hopen c
        rw [hcount c] at this
        omega
      rw [dedup_cons_of_mem hmem, if_neg hmore]
    · have hlast : (c :: cs).count c = 1 := by rw [hcount c, hself, count_eq_zero.mpr hmem]
      rw [dedup_cons_of_notMem hmem, filter_cons, hlast]
      by_cases hc : c ∈ ks ∧ f c = 1 <;> simp [hc]

/-! ### Open edges -/

/-- The number of edges into a node that do not come from the nodes `done`. -/
def openEdges (g : Graph) (done : List Text) (id : Text) : Nat :=
  g.edges.countP fun e => e.child = id ∧ e.parent ∉ done

/-- The nodes that the edges out of a level lead to, as often as they do. -/
def children (g : Graph) (level : List Text) : List Text :=
  level.flatMap fun id => (g.edges.filter (·.parent = id)).map Edge.child

theorem closeLevel_eq (counts : OpenEdges) : closeLevel g counts level =
      (g.children level).foldl (fun state c => closeEdge c state) (counts, []) := by
  simp only [closeLevel, children, foldl_flatMap, foldl_map]

theorem count_children (hnodup : level.Nodup) :
    (g.children level).count id = g.edges.countP fun e => e.child = id ∧ e.parent ∈ level := by
  induction level with
  | nil => simp [children]
  | cons i level ih =>
    obtain ⟨hi, hnodup⟩ := nodup_cons.mp hnodup
    have hcons : g.children (i :: level) =
        (g.edges.filter (·.parent = i)).map Edge.child ++ g.children level := by
      simp [children]
    rw [hcons, count_append, ih hnodup, count_eq_countP, countP_map,
      countP_filter, countP_eq_countP_filter_add g.edges
        (fun e => e.child = id ∧ e.parent ∈ i :: level) (·.parent = i),
      countP_filter, countP_filter]
    congr 1
    · refine countP_congr fun e _ => ?_
      grind
    · refine countP_congr fun e _ => ?_
      grind

theorem mem_children : x ∈ g.children level ↔ ∃ p ∈ level, g.Reads x p := by
  simp only [children, mem_flatMap, mem_map, mem_filter, decide_eq_true_eq]
  constructor
  · rintro ⟨p, hp, e, ⟨he, rfl⟩, rfl⟩
    exact ⟨_, hp, mem_edges_iff.mp he⟩
  · rintro ⟨p, hp, hr⟩
    exact ⟨p, hp, ⟨p, x⟩, ⟨mem_edges_iff.mpr hr, rfl⟩, rfl⟩

/-- The open edges into a node are those out of the level and those that stay open. -/
theorem openEdges_eq_add (hnodup : (done ++ level).Nodup) (id : Text) :
    g.openEdges done id = (g.children level).count id + g.openEdges (done ++ level) id := by
  obtain ⟨-, hlevel, hdisjoint⟩ := nodup_append.mp hnodup
  rw [count_children hlevel]
  unfold openEdges
  rw [countP_eq_countP_filter_add g.edges
      (fun e => e.child = id ∧ e.parent ∉ done) (·.parent ∈ level),
    countP_filter, countP_filter]
  congr 1
  · refine countP_congr fun e _ => ?_
    grind
  · refine countP_congr fun e _ => ?_
    grind

def counts (g : Graph) (done : List Text) : OpenEdges := g.ids.map fun k => (k, g.openEdges done k)

/-- The nodes whose last open edges come from the level, in the order of these edges. -/
def released (g : Graph) (done level : List Text) : List Text :=
  (g.children level).dedup.filter fun x => g.openEdges (done ++ level) x = 0

theorem mem_released :
    x ∈ g.released done level ↔ x ∈ g.children level ∧ g.openEdges (done ++ level) x = 0 := by
  simp [released]

theorem closeLevel_counts (hnodup : (done ++ level).Nodup) :
    closeLevel g (g.counts done) level = (g.counts (done ++ level), g.released done level) := by
  have hsplit := openEdges_eq_add (g := g) hnodup
  have hopen (x : Text) : (g.children level).count x ≤ g.openEdges done x := by
    have := hsplit x
    omega
  have hids (x : Text) (hx : x ∈ g.children level) : x ∈ g.ids := by
    obtain ⟨p, -, hr⟩ := mem_children.mp hx
    exact hr.mem_ids
  rw [closeLevel_eq, counts, foldl_closeEdge _ _ _ _ hopen, nil_append]
  refine Prod.ext ?_ (filter_congr fun x hx => ?_)
  · refine map_congr_left fun k _ => ?_
    have := hsplit k
    simp only [Prod.mk.injEq, true_and]
    omega
  · have := hsplit x
    simp only [hids x (mem_dedup.mp hx), true_and, decide_eq_decide]
    omega

theorem openEdges_eq_zero_iff {n : Node} (hn : n ∈ g.nodes) :
    g.openEdges done n.id = 0 ↔ ∀ p ∈ n.parents, p ∈ done := by
  unfold openEdges
  rw [countP_eq_zero]
  constructor
  · intro h p hp
    have hedge : (⟨p, n.id⟩ : Edge) ∈ g.edges := mem_edges_iff.mpr ((reads_iff hn).mpr hp)
    simpa using h _ hedge
  · intro h e he hopen
    obtain ⟨hid, hout⟩ : e.child = n.id ∧ e.parent ∉ done := by simpa using hopen
    exact hout (h e.parent ((reads_iff hn).mp (hid ▸ mem_edges_iff.mp he)))

/-! ### Rounds -/

/-- The nodes that were taken, up to the given level, are those without open edges. -/
structure Round (g : Graph) (done level : List Text) : Prop where
  nodup : (done ++ level).Nodup
  mem_iff : ∀ x, x ∈ done ++ level ↔ x ∈ g.ids ∧ g.openEdges done x = 0

namespace Round

theorem start : Round g [] (g.sources.map Node.id) := by
  constructor
  · rw [nil_append]
    exact g.nodup_ids.sublist (filter_sublist.map Node.id)
  · intro x
    rw [nil_append]
    constructor
    · intro hx
      obtain ⟨n, hn, rfl⟩ := mem_map.mp hx
      obtain ⟨hn, hempty⟩ := mem_filter.mp hn
      obtain hempty : n.parents = [] := by simpa using hempty
      exact ⟨mem_ids_of_mem hn, (openEdges_eq_zero_iff hn).mpr (by simp [hempty])⟩
    · rintro ⟨hx, hopen⟩
      obtain ⟨n, hn, rfl⟩ := exists_node_of_mem_ids hx
      have hempty : ∀ p, p ∉ n.parents := by simpa using (openEdges_eq_zero_iff hn).mp hopen
      refine mem_map_of_mem (mem_filter.mpr ⟨hn, ?_⟩)
      simpa [eq_nil_iff_forall_not_mem] using hempty

theorem next (h : Round g done level) : Round g (done ++ level) (g.released done level) := by
  have hsplit := openEdges_eq_add (g := g) h.nodup
  have hmem (x : Text) : x ∈ g.released done level ↔
      x ∈ g.ids ∧ 0 < g.openEdges done x ∧ g.openEdges (done ++ level) x = 0 := by
    rw [mem_released, ← count_pos_iff]
    constructor
    · rintro ⟨hpos, hclosed⟩
      obtain ⟨p, -, hr⟩ := mem_children.mp (count_pos_iff.mp hpos)
      exact ⟨hr.mem_ids, by have := hsplit x; omega, hclosed⟩
    · rintro ⟨-, hopen, hclosed⟩
      exact ⟨by have := hsplit x; omega, hclosed⟩
  constructor
  · refine nodup_append.mpr ⟨h.nodup, (nodup_dedup _).filter _, ?_⟩
    rintro x hx y hy rfl
    have hopen := ((hmem x).mp hy).2.1
    have hclosed := ((h.mem_iff x).mp hx).2
    omega
  · intro x
    rw [mem_append, h.mem_iff x, hmem x]
    have hle := hsplit x
    grind

theorem subset_ids (h : Round g done level) : done ++ level ⊆ g.ids :=
  fun x hx => ((h.mem_iff x).mp hx).1

theorem length_le (h : Round g done level) : done.length + level.length ≤ g.size := by
  have hle := h.nodup.length_le_of_subset h.subset_ids
  simpa [size, ids] using hle

end Round

/-- The levels that follow the nodes `done`: the given one, what it releases and so on, until nothing is
released. -/
inductive Layers (g : Graph) : List Text → List Text → List (List Text) → Prop
  | nil {done : List Text} (h : Round g done []) : Layers g done [] []
  | cons {done level : List Text} {found : List (List Text)} (h : Round g done level)
      (hlevel : level ≠ []) (hrest : Layers g (done ++ level) (g.released done level) found) :
      Layers g done level (level :: found)

/-- The rounds go on until no node is left that could be taken.  Each takes at least one, so that as
many rounds as there are nodes left are enough. -/
theorem Round.layers {fuel : Nat} (h : Round g done level) (hfuel : g.size ≤ fuel + done.length) :
    Layers g done level (g.levelsFrom fuel (g.counts done) level) := by
  induction fuel generalizing done level with
  | zero =>
    obtain rfl : level = [] := eq_nil_of_length_eq_zero (by have := h.length_le; omega)
    exact .nil h
  | succ fuel ih =>
    unfold Graph.levelsFrom
    by_cases hlevel : level = []
    · subst hlevel
      exact .nil h
    · have hpos : 0 < level.length := length_pos_iff.mpr hlevel
      have hrest := ih h.next (by rw [length_append]; omega)
      rw [if_neg (by simpa using hlevel), closeLevel_counts h.nodup]
      exact .cons h hlevel hrest

namespace Layers

variable {found : List (List Text)}

/-- In the end no node is left whose parents were all taken. -/
theorem round (h : Layers g done level found) : Round g (done ++ found.flatten) [] := by
  induction h with
  | nil h => simpa using h
  | cons _ _ _ ih => simpa using ih

/-- The rounds end by themselves: a bound on their number plays no part once it is large enough. -/
theorem levelsFrom_eq (h : Layers g done level found) {fuel : Nat} (hfuel : found.length ≤ fuel) :
    g.levelsFrom fuel (g.counts done) level = found := by
  induction h generalizing fuel with
  | nil => cases fuel <;> rfl
  | cons h hlevel _ ih =>
    cases fuel with
    | zero => simp at hfuel
    | succ fuel =>
      unfold Graph.levelsFrom
      rw [if_neg (by simpa using hlevel), closeLevel_counts h.nodup]
      exact congrArg _ (ih (by simpa using hfuel))

end Layers

/-- A node is entered by as many edges as it has parents. -/
theorem countP_edges {n : Node} (hn : n ∈ g.nodes) :
    g.edges.countP (fun e => e.child = n.id) = n.parents.length := by
  have hother : ∀ ms : List Node, n.id ∉ ms.map Node.id →
      (ms.flatMap Node.edges).countP (fun e => e.child = n.id) = 0 := by
    intro ms hms
    rw [countP_eq_zero]
    intro e he
    obtain ⟨m, hm, he⟩ := mem_flatMap.mp he
    obtain ⟨p, -, rfl⟩ := mem_map.mp he
    have hne : m.id ≠ n.id := fun heq => hms (heq ▸ mem_map_of_mem hm)
    simpa using hne
  have hself : n.edges.countP (fun e => e.child = n.id) = n.parents.length := by
    simp [Node.edges, countP_map]
  obtain ⟨before, after, hnodes⟩ := append_of_mem hn
  have hnodup := g.nodup_ids
  rw [hnodes, map_append, map_cons, nodup_middle, nodup_cons, mem_append,
    not_or] at hnodup
  rw [g.edges_eq, hnodes, flatMap_append, flatMap_cons, countP_append, countP_append,
    hother before hnodup.1.1, hother after hnodup.1.2, hself, Nat.zero_add, Nat.add_zero]

theorem counts_nil : g.counts [] = g.nodes.map fun n => (n.id, n.parents.length) := by
  unfold counts ids
  rw [map_map]
  refine map_congr_left fun n hn => ?_
  simp [openEdges, countP_edges hn]

theorem layers_levels : Layers g [] (g.sources.map Node.id)
    (levelsFrom g g.size (g.nodes.map fun n => (n.id, n.parents.length)) (g.sources.map Node.id)) := by
  rw [← counts_nil]
  exact Round.start.layers (Nat.le_add_right _ _)

end Dataflow.Graph
