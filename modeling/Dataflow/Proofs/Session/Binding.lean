import Dataflow.Proofs.Session.Operation

/-!
# What binding adds to a graph

Binding an operator comes to binding its leaves one after another, however they are nested in chains
(`bind_nested_chains`).  Each leaf that reads no other stream appends one node on top of the last, so that
the graph grows by a chain of nodes with the tags and settings of the leaves (`exists_bindAll`);
combining two streams of a graph appends one node on top of both tips (`exists_combineWith`).
-/

namespace Dataflow.Session

open List

variable {s t u : Session} {k ref r : Nat} {p q n : Node} {ns ms : List Node}

/-! ### Nested chains -/

/-- **Binding nested chains comes to binding their leaves one after another**, in whatever way they are
nested: the two end alike, with one and the same session.  If all streams that the leaves read have
been made, they end with a stream over the node of the last leaf. -/
theorem bind_nested_chains {supply : Nat → List Text}
    (hfresh : Function.Injective fun k => Text.concat (supply k)) (actions : List Action)
    (tree : Operator) (ref : Nat) :
    let s := run { supply } actions
    (∀ l ∈ tree.leaves, ∀ first more, l ≠ .chain first more) ∧
      (Session.bind tree ref).run.run s =
        (tree.leaves.foldlM (fun ref l => Session.bind l ref) ref).run.run s ∧
      (s.Live ref → (∀ l ∈ tree.leaves, ∀ o ∈ l.others, ∃ i, o = some i ∧ s.Live i) →
        ∃ r t, (Session.bind tree ref).run.run s = (.ok r, t) ∧ t.Live r) := by
  intro s
  refine ⟨fun l => leaf_ne_chain tree, ?_, fun href hothers => ?_⟩
  · rw [bind_eq_bindAll, bindAll_eq_foldlM]
  · rw [bind_eq_bindAll]
    obtain ⟨r, t, hrun, -, hr⟩ := (runs_bindAll_leaves (sound_run hfresh actions)
      fun l => leaf_ne_chain tree).exists_ok fun _ _ h => h.2 ⟨href, hothers⟩
    exact ⟨r, t, hrun, hr href⟩

/-- A join and a union over streams of other graphs, in a chain of chains. -/
def woven : Operator :=
  .chain (.chain (.window 2) [.join (some 1) "k"]) [.chain (.union [some 2, some 0]) [.sink "out"]]

theorem bind_nested_chains_woven :
    let s := run {} [.fromUri "a", .fromUri "b", .bind (.window 3) 1]
    woven.leaves = [.window 2, .join (some 1) "k", .union [some 2, some 0], .sink "out"] ∧
      ∃ r t, (Session.bind woven 0).run.run s = (.ok r, t) ∧
        (woven.leaves.foldlM (fun ref l => Session.bind l ref) 0).run.run s = (.ok r, t) ∧ t.Live r := by
  obtain ⟨-, heq, hlive⟩ := bind_nested_chains identifier_injective
    [.fromUri "a", .fromUri "b", .bind (.window 3) 1] woven 0
  have hothers : ∀ l ∈ woven.leaves, ∀ o ∈ l.others, ∃ i, o = some i ∧ i < 3 := by
    simp [woven, Operator.leaves, Operator.leavesAll, Operator.window, Operator.join, Operator.union,
      Operator.sink, Operator.others]
  obtain ⟨r, t, hrun, hr⟩ := hlive (by decide : 0 < 3) hothers
  exact ⟨rfl, r, t, hrun, heq ▸ hrun, hr⟩

/-! ### Growth -/

/-- Nodes were appended to a graph, and the streams there were are as before. -/
structure Grown (s : Session) (k : Nat) (ns : List Node) (t : Session) : Prop where
  sound : Sound t
  nodes : (t.graphAt k).nodes = (s.graphAt k).nodes ++ ns
  streams : ∀ (i : Nat) st, s.streams[i]? = some st → t.streams[i]? = some st

theorem Grown.refl (hs : Sound s) : Grown s k [] s := ⟨hs, by simp, fun _ _ h => h⟩

theorem Grown.trans (h : Grown s k ns t) (h' : Grown t k ms u) : Grown s k (ns ++ ms) u where
  sound := h'.sound
  nodes := by rw [h'.nodes, h.nodes, append_assoc]
  streams := fun i st hst => h'.streams i st (h.streams i st hst)

theorem grown_appended (hs : Sound s) (hid : n.id = s.nodeId (s.drawn + 1))
    (howner : s.owner? ref = some k) (hp : ∀ p ∈ n.parents, p ∈ (s.graphAt k).ids) :
    Grown s k [n] (s.appended n k) where
  sound := Step.sound hs (.append hid howner hp)
  nodes := by
    rw [graphAt_appended (hs.owner_lt howner), if_pos rfl, Graph.nodes_add (hs.not_has hid)]
  streams := by
    intro i st hst
    have hlt : i < s.streams.length := (List.getElem?_eq_some_iff.mp hst).1
    show (s.streams ++ [_])[i]? = _
    rwa [List.getElem?_append_left hlt]

theorem getElem?_appended (s : Session) (n : Node) (k : Nat) :
    (s.appended n k).streams[s.streams.length]? = some ⟨n, k⟩ := by
  show (s.streams ++ [_])[_]? = _
  simp

theorem Sound.tip_mem_ids (hs : Sound s) (h : s.streams[ref]? = some ⟨p, k⟩) :
    p.id ∈ (s.graphAt k).ids := Graph.mem_ids_of_mem (hs.tip_mem_graph h)

theorem Sound.tips_mem_ids (hs : Sound s) {a b : Nat} (ha : s.streams[a]? = some ⟨p, k⟩)
    (hb : s.streams[b]? = some ⟨q, k⟩) : ∀ x ∈ [p.id, q.id], x ∈ (s.graphAt k).ids := by
  rw [forall_mem_cons, forall_mem_singleton]
  exact ⟨hs.tip_mem_ids ha, hs.tip_mem_ids hb⟩

theorem run_stream {st : Stream} (h : s.streams[ref]? = some st) :
    (stream ref).run.run s = (.ok st, s) := by
  unfold stream
  rw [run_get_bind, h]
  rfl

theorem run_extend (h : s.streams[ref]? = some ⟨p, k⟩) (op : Op) (config : Row) :
    (extend op config ref).run.run s = (.ok s.streams.length,
      s.appended { id := s.nodeId (s.drawn + 1), op, config, parents := [p.id] } k) := by
  unfold extend
  rw [run_bind_ok run_newNodeId, run_bind_ok (run_stream (s := { s with drawn := s.drawn + 1 }) h)]
  rfl

theorem exists_extend (hs : Sound s) (h : s.streams[ref]? = some ⟨p, k⟩) (op : Op) (config : Row) :
    ∃ n r t, (extend op config ref).run.run s = (.ok r, t) ∧ n.part = (op, config) ∧
      n.parents = [p.id] ∧ Grown s k [n] t ∧ t.streams[r]? = some ⟨n, k⟩ := by
  refine ⟨_, _, _, run_extend h op config, rfl, rfl, ?_, getElem?_appended s _ k⟩
  exact grown_appended hs rfl (owner?_of_getElem? h) (forall_mem_singleton.mpr (hs.tip_mem_ids h))

/-- The node that a chain on top of `p` ends with. -/
def lastOf (p : Node) (ns : List Node) : Node := ns.getLast?.getD p

theorem lastOf_cons (p n : Node) (ns : List Node) : lastOf p (n :: ns) = lastOf n ns := by
  simp [lastOf, List.getLast?_cons]

/-- Leaves that read no other stream append a chain of nodes with their tags and settings. -/
theorem exists_bindAll (hs : Sound s) (h : s.streams[ref]? = some ⟨p, k⟩) {ls : List Operator}
    (hls : ∀ l ∈ ls, ∃ op config, l = .single op config) :
    ∃ ns r t, (bindAll ls ref).run.run s = (.ok r, t) ∧ ns.map Node.part = ls.map Operator.part ∧
      Chained p.id ns ∧ Grown s k ns t ∧ t.streams[r]? = some ⟨lastOf p ns, k⟩ := by
  induction ls generalizing s ref p with
  | nil => exact ⟨[], ref, s, rfl, rfl, .nil, .refl hs, h⟩
  | cons l ls ih =>
    obtain ⟨op, config, rfl⟩ := hls l mem_cons_self
    obtain ⟨n, r, t, hrun, hpart, hparents, hgrown, hr⟩ := exists_extend hs h op config
    obtain ⟨ns, r', u, hrun', hparts, hchained, hgrown', hr'⟩ :=
      ih hgrown.sound hr fun l hl => hls l (mem_cons_of_mem _ hl)
    refine ⟨n :: ns, r', u, ?_, ?_, .cons hparents hchained, hgrown.trans hgrown', ?_⟩
    · rw [bindAll, Session.bind, run_bind_ok hrun, hrun']
    · rw [map_cons, map_cons, hparts, hpart]
      rfl
    · rwa [lastOf_cons]

/-- Combining two streams unifies them and appends a node on top of their tips. -/
theorem run_combine {a b j k' : Nat} (hunify : (unify a b).run.run s = (.ok (), t))
    (ha : s.streams[a]? = some ⟨p, j⟩) (ha' : t.streams[a]? = some ⟨p, k⟩)
    (hb : t.streams[b]? = some ⟨q, k'⟩) (op : Op) (config : Row) :
    (combine op config a [some b]).run.run s = (.ok t.streams.length,
      t.appended { id := t.nodeId (t.drawn + 1), op, config, parents := [p.id, q.id] } k) := by
  have htips : (unifyAll a [some b]).run.run s = (.ok [q.id], t) := by
    unfold unifyAll
    rw [run_bind_ok hunify, run_bind_ok (run_stream hb)]
    rfl
  rw [combine, run_bind_ok (run_stream ha), run_bind_ok htips, run_bind_ok run_newNodeId,
    run_bind_ok (run_stream (s := { t with drawn := t.drawn + 1 }) ha')]
  rfl

/-- Combining two streams of one graph appends a node on top of their tips. -/
theorem exists_combineWith (hs : Sound s) {a b : Nat} (ha : s.streams[a]? = some ⟨p, k⟩)
    (hb : s.streams[b]? = some ⟨q, k⟩) {op : Op} (hop : op = .choice ∨ op = .ensemble) :
    ∃ n r t, (combineWith op a b).run.run s = (.ok r, t) ∧ n.part = (op, []) ∧
      n.parents = [p.id, q.id] ∧ Grown s k [n] t ∧ t.streams[r]? = some ⟨n, k⟩ := by
  have hcombine : combineWith op a b = combine op [] a [some b] := by
    rcases hop with rfl | rfl <;> rfl
  have hunify : (unify a b).run.run s = (.ok (), s) := by
    unfold unify
    rw [run_bind_ok (run_stream ha), run_bind_ok (run_stream hb)]
    simp
    rfl
  refine ⟨_, _, _, hcombine ▸ run_combine hunify ha ha hb op [], rfl, rfl, ?_, getElem?_appended s _ k⟩
  exact grown_appended hs rfl (owner?_of_getElem? ha) (hs.tips_mem_ids ha hb)

end Dataflow.Session
