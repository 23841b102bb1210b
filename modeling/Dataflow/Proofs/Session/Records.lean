import Dataflow.Proofs.Session.Binding

/-!
# All nodes of a session

`Records s ns` says that `ns` are the nodes that the graphs of `s` have between them, once each.  However
graphs absorb one another, an operation adds just the node that it appends (`Adds`).
-/

namespace Dataflow.Session

open List

variable {s t : Session} {a b k r ref : Nat} {p q n : Node} {ns ms : List Node}

/-- The nodes are those of the session's graphs, each once. -/
structure Records (s : Session) (ns : List Node) : Prop where
  sound : Sound s
  mem_iff : ∀ n, n ∈ ns ↔ ∃ k, n ∈ (s.graphAt k).nodes
  nodup : (ns.map Node.id).Nodup

/-- One node has been added, and a stream over it. -/
structure Adds (s : Session) (ns : List Node) (n : Node) (r : Nat) (t : Session) : Prop where
  records : Records t (ns ++ [n])
  tip : t.tip? r = some n
  reaches : Reaches s t

theorem records_empty : Records {} [] where
  sound := sound_empty identifier_injective
  mem_iff := fun _ => ⟨nofun, fun ⟨_, h⟩ => by cases h⟩
  nodup := .nil

theorem Records.perm (h : Records s ns) (hperm : ns.Perm ms) : Records s ms where
  sound := h.sound
  mem_iff := fun n => (hperm.mem_iff).symm.trans (h.mem_iff n)
  nodup := (hperm.map Node.id).nodup_iff.mp h.nodup

theorem exists_mem_graphAt {i : Nat} (h : n ∈ (s.view i).nodes) : ∃ k, n ∈ (s.graphAt k).nodes := by
  cases howner : s.owner? i with
  | none =>
    rw [view, howner] at h
    cases h
  | some k => exact ⟨k, view_of_owner? howner ▸ h⟩

theorem Step.exists_mem {e : Event} (hs : Sound s) (h : Step s e t) (hn : e.node? = some n) :
    ∃ k, n ∈ (t.graphAt k).nodes := by
  have htip : t.tip? s.streams.length = some n := by
    cases h with
    | draw | unify => cases hn
    | start =>
      cases hn
      rw [tip?_started, if_pos rfl]
    | append =>
      cases hn
      rw [tip?_appended, if_pos rfl]
  exact exists_mem_graphAt ((h.sound hs).tip_mem _ n htip)

/-- An update adds its node to the nodes there are. -/
theorem Records.step {e : Event} (h : Records s ns) (hstep : Step s e t) :
    Records t (ns ++ e.node?.toList) where
  sound := hstep.sound h.sound
  mem_iff := by
    intro n
    rw [mem_append, Option.mem_toList]
    constructor
    · rintro (hn | hn)
      · obtain ⟨k, hk⟩ := (h.mem_iff n).mp hn
        exact ⟨k, hstep.graphAt_subset h.sound hk⟩
      · exact hstep.exists_mem h.sound hn
    · rintro ⟨k, hk⟩
      exact (hstep.mem_graphAt h.sound hk).imp_left (h.mem_iff n).mpr
  nodup := by
    cases hnode : e.node? with
    | none => simpa using h.nodup
    | some n =>
      have hfree : n.id ∉ ns.map Node.id := by
        intro hmem
        obtain ⟨m, hm, heq⟩ := mem_map.mp hmem
        obtain ⟨k, hk⟩ := (h.mem_iff m).mp hm
        have hout := h.sound.not_has (k := k) (hstep.id_of_node? hnode).1
        rw [Graph.has_iff, ← heq] at hout
        exact hout (Graph.mem_ids_of_mem hk)
      rw [Option.toList_some, map_append, map_singleton, nodup_append_comm]
      exact nodup_cons.mpr ⟨hfree, h.nodup⟩

theorem Records.unified (h : Records s ns) (hunified : Unified s a b t) : Records t ns := by
  rcases hunified.cases with rfl | ⟨into, gone, habsorbs, rfl⟩
  · exact h
  · simpa [Event.node?] using h.step (.unify habsorbs)

theorem exists_getElem? (h : s.tip? ref = some p) : ∃ k, s.streams[ref]? = some ⟨p, k⟩ := by
  obtain ⟨st, hst, rfl⟩ := Option.map_eq_some_iff.mp h
  exact ⟨st.graph, hst⟩

/-! ### Operations -/

theorem Records.source (h : Records s ns) (config : Row) :
    ∃ n r t, (source config).run.run s = (.ok r, t) ∧ n.part = (.source, config) ∧ n.parents = [] ∧
      Adds s ns n r t := by
  let n : Node := { id := s.nodeId (s.drawn + 1), op := .source, config }
  have hstep : Step s (.start n) (s.started n) := .start rfl rfl
  exact ⟨n, _, _, run_source config, rfl, rfl, h.step hstep, by rw [tip?_started, if_pos rfl], .step hstep⟩

theorem Records.appended (h : Records s ns) (hid : n.id = s.nodeId (s.drawn + 1))
    (howner : s.owner? ref = some k) (hparents : ∀ p ∈ n.parents, p ∈ (s.graphAt k).ids) :
    Adds s ns n s.streams.length (s.appended n k) := by
  have hstep : Step s (.append n ref) (s.appended n k) := .append hid howner hparents
  exact ⟨h.step hstep, by rw [tip?_appended, if_pos rfl], .step hstep⟩

theorem Records.extend (h : Records s ns) (hp : s.tip? ref = some p) (op : Op) (config : Row) :
    ∃ n r t, (extend op config ref).run.run s = (.ok r, t) ∧ n.part = (op, config) ∧ n.parents = [p.id] ∧
      Adds s ns n r t := by
  obtain ⟨k, hk⟩ := exists_getElem? hp
  refine ⟨_, _, _, run_extend hk op config, rfl, rfl, h.appended rfl (owner?_of_getElem? hk) ?_⟩
  exact forall_mem_singleton.mpr (h.sound.tip_mem_ids hk)

theorem exists_unify (ha : s.Live a) (hb : s.Live b) :
    ∃ t, (unify a b).run.run s = (.ok (), t) ∧ Unified s a b t := by
  obtain ⟨⟨⟩, t, hrun, hunified⟩ := runs_unify.exists_ok fun _ _ h => h.2 ⟨ha, hb⟩
  exact ⟨t, hrun, hunified⟩

/-- Merging two streams appends one node on top of both tips, whatever their graphs. -/
theorem Records.merge (h : Records s ns) (hp : s.tip? a = some p) (hq : s.tip? b = some q) :
    ∃ n r t, (combineWith .merge a b).run.run s = (.ok r, t) ∧ n.part = (.merge, []) ∧
      n.parents = [p.id, q.id] ∧ Adds s ns n r t := by
  obtain ⟨t, hunify, hunified⟩ := exists_unify (lt_of_tip? hp) (lt_of_tip? hq)
  obtain ⟨j, hj⟩ := exists_getElem? hp
  obtain ⟨k, hk⟩ := exists_getElem? (hunified.tip?_eq.trans hp)
  obtain ⟨k', hk'⟩ := exists_getElem? (hunified.tip?_eq.trans hq)
  have hshare : k' = k := by
    obtain ⟨i, hi, hi'⟩ := hunified.share
    rw [owner?_of_getElem? hk] at hi
    rw [owner?_of_getElem? hk'] at hi'
    exact (Option.some.inj hi').trans (Option.some.inj hi).symm
  subst hshare
  have hrecords := h.unified hunified
  let n : Node := { id := t.nodeId (t.drawn + 1), op := .merge, config := [], parents := [p.id, q.id] }
  have hadds : Adds t ns n t.streams.length (t.appended n k') :=
    hrecords.appended rfl (owner?_of_getElem? hk) (hrecords.sound.tips_mem_ids hk hk')
  exact ⟨n, _, _, run_combine hunify hj hk hk' .merge [], rfl, rfl, hadds.records, hadds.tip,
    hunified.reaches.trans hadds.reaches⟩

end Dataflow.Session
