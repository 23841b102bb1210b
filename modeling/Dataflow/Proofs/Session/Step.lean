import Dataflow.Stream
import Dataflow.Proofs.Graph.Schedule

/-!
# Updates of a session

Whatever is done with streams comes down to four updates of the session: a draw, a new graph with a
source, a node appended to the graph of a stream, and a graph that absorbs another.  `Step s e t`
says what the update `e` makes of `s`, and under what conditions it is made.

`Sound s`: the identifiers that were drawn tell nodes apart, every graph is ordered, and the tip of
every stream is in its graph.  Every update keeps this (`Step.sound`), and none takes a node away
from the graph of a stream (`Step.view_subset`).
-/

namespace Dataflow.Session

open Dataflow.Graph Option

/-! ### Streams and their graphs -/

def owner? (s : Session) (i : Nat) : Option Nat := s.streams[i]?.map Stream.graph

def tip? (s : Session) (i : Nat) : Option Node := s.streams[i]?.map Stream.tip

def Live (s : Session) (i : Nat) : Prop := i < s.streams.length

def view (s : Session) (i : Nat) : Graph := (s.owner? i).elim default s.graphAt

def Share (s : Session) (i j : Nat) : Prop := ∃ k ∈ s.owner? i, s.owner? j = some k

/-! ### Updates -/

/-- An update of a session. -/
inductive Event where
  | draw
  /-- A new graph starts with a node. -/
  | start (n : Node)
  /-- A node is appended to the graph of a stream. -/
  | append (n : Node) (ref : Nat)
  /-- The graph of one stream absorbs that of the other. -/
  | unify (a b : Nat)

/-- The two streams belong to different graphs, and `into` is the one with more nodes; on a tie it
is that of the first stream. -/
structure Absorbs (s : Session) (a b into gone : Nat) : Prop where
  ne : into ≠ gone
  owners : (s.owner? a = some into ∧ s.owner? b = some gone ∧
      (s.graphAt gone).size ≤ (s.graphAt into).size) ∨
    (s.owner? a = some gone ∧ s.owner? b = some into ∧
      (s.graphAt gone).size < (s.graphAt into).size)

def started (s : Session) (n : Node) : Session :=
  { s with
    drawn := s.drawn + 2
    graphs := s.graphs ++ [(empty (s.graphId (s.drawn + 2))).add n]
    streams := s.streams ++ [⟨n, s.graphs.length⟩] }

def appended (s : Session) (n : Node) (k : Nat) : Session :=
  { s with
    drawn := s.drawn + 1
    graphs := s.graphs.modify k (·.add n)
    streams := s.streams ++ [⟨n, k⟩] }

/-- What an update makes of a session.  New nodes have the identifier of the next draw, and their
parents are in the graph they are added to. -/
inductive Step (s : Session) : Event → Session → Prop
  | draw : Step s .draw { s with drawn := s.drawn + 1 }
  | start {n : Node} (hid : n.id = s.nodeId (s.drawn + 1)) (hp : n.parents = []) :
      Step s (.start n) (s.started n)
  | append {n : Node} {ref k : Nat} (hid : n.id = s.nodeId (s.drawn + 1))
      (howner : s.owner? ref = some k) (hp : ∀ p ∈ n.parents, p ∈ (s.graphAt k).ids) :
      Step s (.append n ref) (s.appended n k)
  | unify {a b into gone : Nat} (h : s.Absorbs a b into gone) :
      Step s (.unify a b) (s.merge into gone a b)

inductive Path : Session → List Event → Session → Prop
  | nil {s : Session} : Path s [] s
  | cons {s t u : Session} {e : Event} {es : List Event} (h : Step s e t) (hrest : Path t es u) :
      Path s (e :: es) u

variable {s t u : Session} {i j k a b into gone ref : Nat} {n m : Node}

/-- A unification parts two streams of one graph if it moves one of them, and not the other, to the
graph that absorbs theirs. -/
structure Parts (s : Session) (a b into gone i j : Nat) : Prop where
  absorbs : s.Absorbs a b into gone
  owner : s.owner? i = some gone
  one : ¬ (i = a ∨ i = b ↔ j = a ∨ j = b)

theorem Path.append {es fs : List Event} (h : Path s es t) (h' : Path t fs u) : Path s (es ++ fs) u := by
  induction h with
  | nil => exact h'
  | cons hstep _ ih => exact .cons hstep (ih h')

theorem Path.single {e : Event} (h : Step s e t) : Path s [e] t := .cons h .nil

/-! ### What updates do to graphs and streams -/

theorem view_of_owner? (h : s.owner? i = some k) : s.view i = s.graphAt k := by
  rw [view, h]
  rfl

theorem lt_of_owner? (h : s.owner? i = some k) : i < s.streams.length := by
  obtain ⟨st, hst, -⟩ := map_eq_some_iff.mp h
  exact (List.getElem?_eq_some_iff.mp hst).1

theorem lt_of_tip? (h : s.tip? i = some n) : i < s.streams.length := by
  obtain ⟨st, hst, -⟩ := map_eq_some_iff.mp h
  exact (List.getElem?_eq_some_iff.mp hst).1

theorem getElem?_concat {α : Type} (l : List α) (x : α) :
    (l ++ [x])[i]? = if i = l.length then some x else l[i]? := by
  by_cases hi : i < l.length
  · rw [List.getElem?_append_left hi, if_neg (by omega)]
  · rw [List.getElem?_append_right (by omega), List.getElem?_singleton]
    by_cases heq : i = l.length
    · simp [heq]
    · rw [if_neg (by omega), if_neg heq, List.getElem?_eq_none (by omega)]

theorem graphAt_started : (s.started n).graphAt k =
    if k = s.graphs.length then add { id := s.graphId (s.drawn + 2) } n else s.graphAt k := by
  simp only [graphAt, started, List.getD_eq_getElem?_getD, getElem?_concat]
  split <;> rfl

theorem graphAt_appended (hk : k < s.graphs.length) :
    (s.appended n k).graphAt j = if j = k then (s.graphAt k).add n else s.graphAt j := by
  simp only [graphAt, appended, List.getD_eq_getElem?_getD, List.getElem?_modify]
  by_cases heq : j = k
  · subst heq
    simp [List.getElem?_eq_getElem hk]
  · simp [heq, Ne.symm heq]

theorem graphAt_merge (hinto : into < s.graphs.length) : (s.merge into gone a b).graphAt j =
    if j = into then (s.graphAt into).absorb (s.graphAt gone) else s.graphAt j := by
  simp only [graphAt, merge, List.getD_eq_getElem?_getD, List.getElem?_set]
  by_cases heq : j = into
  · simp [heq, hinto]
  · simp [heq, Ne.symm heq]

theorem owner?_started : (s.started n).owner? i =
    if i = s.streams.length then some s.graphs.length else s.owner? i := by
  simp only [owner?, started, getElem?_concat]
  split <;> rfl

theorem owner?_appended : (s.appended n k).owner? i =
    if i = s.streams.length then some k else s.owner? i := by
  simp only [owner?, appended, getElem?_concat]
  split <;> rfl

theorem owner?_started_of_some (h : s.owner? i = some k) : (s.started n).owner? i = some k := by
  have hlt := lt_of_owner? h
  rwa [owner?_started, if_neg (by omega)]

theorem owner?_appended_of_some (h : s.owner? i = some j) : (s.appended n k).owner? i = some j := by
  have hlt := lt_of_owner? h
  rwa [owner?_appended, if_neg (by omega)]

theorem getElem?_streams_merge : (s.merge into gone a b).streams[i]? =
    s.streams[i]?.map fun st => if i = a ∨ i = b then { st with graph := into } else st := by
  simp only [merge, List.getElem?_modify]
  cases s.streams[i]? with
  | none => rfl
  | some st =>
    simp only [map_some]
    grind

theorem live_merge : (s.merge into gone a b).Live i ↔ s.Live i := by
  simp [Live, merge]

theorem owner?_merge : (s.merge into gone a b).owner? i =
    if i = a ∨ i = b then (s.owner? i).map fun _ => into else s.owner? i := by
  simp only [owner?, getElem?_streams_merge, map_map]
  by_cases hi : i = a ∨ i = b
  · simp only [hi, if_true]
    rfl
  · simp only [hi, if_false]
    rfl

theorem tip?_merge : (s.merge into gone a b).tip? i = s.tip? i := by
  simp only [tip?, getElem?_streams_merge, map_map]
  congr 1
  funext st
  by_cases hi : i = a ∨ i = b <;> simp [hi]

theorem tip?_started : (s.started n).tip? i = if i = s.streams.length then some n else s.tip? i := by
  simp only [tip?, started, getElem?_concat]
  split <;> rfl

theorem tip?_appended : (s.appended n k).tip? i = if i = s.streams.length then some n else s.tip? i := by
  simp only [tip?, appended, getElem?_concat]
  split <;> rfl

/-! ### Soundness -/

/-- What holds of every session that was built by updates. -/
structure Sound (s : Session) : Prop where
  /-- Identifiers are fresh. -/
  fresh : Function.Injective s.nodeId
  ordered : ∀ k, (s.graphAt k).Ordered
  tip_mem : ∀ i n, s.tip? i = some n → n ∈ (s.view i).nodes
  /-- Nodes have identifiers that were drawn. -/
  drawn : ∀ k, ∀ n ∈ (s.graphAt k).nodes, ∃ d ≤ s.drawn, n.id = s.nodeId d
  /-- An identifier means the same node in all graphs. -/
  agree : ∀ j k, ∀ n ∈ (s.graphAt j).nodes, ∀ m ∈ (s.graphAt k).nodes, n.id = m.id → n = m

theorem sound_empty {supply : Nat → List Text}
    (hfresh : Function.Injective fun k => Text.concat (supply k)) : Sound { supply } where
  fresh := hfresh
  ordered := fun _ => .nil
  tip_mem := fun _ _ h => by cases h
  drawn := fun _ _ h => by cases h
  agree := fun _ _ _ h => by cases h

theorem lt_of_mem_graphAt (h : n ∈ (s.graphAt k).nodes) : k < s.graphs.length := by
  by_contra hk
  have hdefault : s.graphAt k = default := by
    rw [graphAt, List.getD_eq_getElem?_getD, List.getElem?_eq_none (by omega)]
    rfl
  rw [hdefault] at h
  cases h

theorem Sound.owner_lt (hs : Sound s) (h : s.owner? i = some k) : k < s.graphs.length := by
  obtain ⟨st, hst, rfl⟩ := map_eq_some_iff.mp h
  have htip : s.tip? i = some st.tip := map_eq_some_iff.mpr ⟨st, hst, rfl⟩
  have hmem := hs.tip_mem i st.tip htip
  rw [view_of_owner? h] at hmem
  exact lt_of_mem_graphAt hmem

theorem Absorbs.owner_into (h : s.Absorbs a b into gone) : ∃ i, s.owner? i = some into := by
  rcases h.owners with ⟨ha, -, -⟩ | ⟨-, hb, -⟩
  · exact ⟨a, ha⟩
  · exact ⟨b, hb⟩

theorem Absorbs.owner_of_mem (h : s.Absorbs a b into gone) (hi : i = a ∨ i = b) :
    s.owner? i = some into ∨ s.owner? i = some gone := by
  rcases h.owners with ⟨ha, hb, -⟩ | ⟨ha, hb, -⟩ <;> rcases hi with rfl | rfl
  · exact .inl ha
  · exact .inr hb
  · exact .inr ha
  · exact .inl hb

/-- The identifier of the next draw is free in every graph. -/
theorem Sound.not_has (hs : Sound s) (hid : n.id = s.nodeId (s.drawn + 1)) :
    ¬ (s.graphAt k).has n.id := by
  rw [has_iff]
  intro hmem
  obtain ⟨m, hm, heq⟩ := exists_node_of_mem_ids hmem
  obtain ⟨d, hd, hmid⟩ := hs.drawn k m hm
  have hsame : d = s.drawn + 1 := hs.fresh (by rw [← hmid, ← hid, heq])
  omega

def Event.node? : Event → Option Node
  | .start n | .append n _ => some n
  | .draw | .unify _ _ => none

namespace Step

variable {e : Event}

theorem nodeId_eq (h : Step s e t) : t.nodeId = s.nodeId := by
  cases h <;> rfl

theorem drawn_le (h : Step s e t) : s.drawn ≤ t.drawn := by
  cases h with
  | draw | append => exact Nat.le_succ _
  | start => exact Nat.le_add_right _ 2
  | unify => exact Nat.le_refl _

/-- An added node takes an identifier that was not drawn before. -/
theorem id_of_node? (h : Step s e t) (hn : e.node? = some n) :
    n.id = s.nodeId (s.drawn + 1) ∧ s.drawn + 1 ≤ t.drawn := by
  cases h with
  | draw | unify => cases hn
  | start hid => cases hn; exact ⟨hid, Nat.le_succ _⟩
  | append hid => cases hn; exact ⟨hid, Nat.le_refl _⟩

section

variable (hs : Sound s) (h : Step s e t)

include hs h

/-- Nodes come from the graphs there were, or are added. -/
theorem mem_graphAt (hm : m ∈ (t.graphAt k).nodes) :
    (∃ j, m ∈ (s.graphAt j).nodes) ∨ e.node? = some m := by
  cases h with
  | draw => exact .inl ⟨k, hm⟩
  | @start n hid hp =>
    rw [graphAt_started] at hm
    split at hm
    · rcases mem_add hm with hm | rfl
      · cases hm
      · exact .inr rfl
    · exact .inl ⟨k, hm⟩
  | @append n ref l hid howner hp =>
    rw [graphAt_appended (hs.owner_lt howner)] at hm
    split at hm
    · rcases mem_add hm with hm | rfl
      · exact .inl ⟨l, hm⟩
      · exact .inr rfl
    · exact .inl ⟨k, hm⟩
  | @unify a b into gone h =>
    obtain ⟨i, hi⟩ := h.owner_into
    rw [graphAt_merge (hs.owner_lt hi)] at hm
    split at hm
    · rcases mem_absorb hm with hm | hm
      · exact .inl ⟨into, hm⟩
      · exact .inl ⟨gone, hm⟩
    · exact .inl ⟨k, hm⟩

theorem ordered : (t.graphAt k).Ordered := by
  cases h with
  | draw => exact hs.ordered k
  | start hid hp =>
    rw [graphAt_started]
    split
    · exact Graph.Ordered.add .nil (by simp [hp])
    · exact hs.ordered k
  | append hid howner hp =>
    rw [graphAt_appended (hs.owner_lt howner)]
    split
    · exact (hs.ordered _).add hp
    · exact hs.ordered k
  | unify h =>
    obtain ⟨i, hi⟩ := h.owner_into
    rw [graphAt_merge (hs.owner_lt hi)]
    split
    · exact (hs.ordered _).absorb (hs.ordered _)
    · exact hs.ordered k

/-- No update takes a node away from a graph. -/
theorem graphAt_subset : (s.graphAt k).nodes ⊆ (t.graphAt k).nodes := by
  cases h with
  | draw => exact fun _ hn => hn
  | start =>
    intro m hm
    have hk := lt_of_mem_graphAt hm
    rwa [graphAt_started, if_neg (by omega)]
  | append hid howner hp =>
    rw [graphAt_appended (hs.owner_lt howner)]
    split
    · next heq => exact heq ▸ nodes_subset_add
    · exact fun _ hn => hn
  | unify h =>
    obtain ⟨i, hi⟩ := h.owner_into
    rw [graphAt_merge (hs.owner_lt hi)]
    split
    · next heq => exact heq ▸ nodes_subset_absorb
    · exact fun _ hn => hn

/-- Nor from what is seen through a stream. -/
theorem view_subset : (s.view i).nodes ⊆ (t.view i).nodes := by
  cases howner : s.owner? i with
  | none =>
    rw [view, howner]
    exact List.nil_subset _
  | some k =>
    rw [view_of_owner? howner]
    have hgraph := graphAt_subset (k := k) hs h
    cases h with
    | draw => rwa [view_of_owner? (s := { s with drawn := s.drawn + 1 }) howner]
    | start => rwa [view_of_owner? (owner?_started_of_some howner)]
    | append => rwa [view_of_owner? (owner?_appended_of_some howner)]
    | @unify a b into gone h =>
      by_cases hi : i = a ∨ i = b
      · -- a moved stream goes to the graph that took its nodes in
        obtain ⟨l, hl⟩ := h.owner_into
        rw [view_of_owner? (k := into) (by rw [owner?_merge, if_pos hi, howner]; rfl),
          graphAt_merge (hs.owner_lt hl), if_pos rfl]
        rcases h.owner_of_mem hi with heq | heq <;> obtain rfl := some.inj (howner.symm.trans heq)
        · exact nodes_subset_absorb
        · exact nodes_subset_absorb_of_agree (hs.agree into k)
      · rwa [view_of_owner? (by rw [owner?_merge, if_neg hi, howner])]

end

theorem live (h : Step s e t) (hi : s.Live i) : t.Live i := by
  unfold Live at hi ⊢
  cases h with
  | draw => exact hi
  | start | append => exact Nat.lt_of_lt_of_le hi (by simp [started, appended])
  | unify => exact live_merge.mpr hi

theorem tip?_eq (h : Step s e t) (hn : s.tip? i = some n) : t.tip? i = some n := by
  have hlt := lt_of_tip? hn
  cases h with
  | draw => exact hn
  | start => rwa [tip?_started, if_neg (by omega)]
  | append => rwa [tip?_appended, if_neg (by omega)]
  | unify => rwa [tip?_merge]

/-- Tips stay what they were, or are added. -/
theorem tip_mem (hs : Sound s) (h : Step s e t) (hn : t.tip? i = some n) : n ∈ (t.view i).nodes := by
  cases hold : s.tip? i with
  | some m =>
    obtain rfl : m = n := some.inj ((h.tip?_eq hold).symm.trans hn)
    exact view_subset hs h (hs.tip_mem i m hold)
  | none =>
    cases h with
    | draw => exact absurd (hold.symm.trans hn) (by simp)
    | unify => exact absurd (hold.symm.trans (tip?_merge.symm.trans hn)) (by simp)
    | start hid =>
      rw [tip?_started] at hn
      split at hn
      · next hi =>
        cases hn
        rw [view_of_owner? (by rw [owner?_started, if_pos hi]), graphAt_started, if_pos rfl]
        exact mem_add_self (by simp [has])
      · exact absurd (hold.symm.trans hn) (by simp)
    | append hid howner =>
      rw [tip?_appended] at hn
      split at hn
      · next hi =>
        cases hn
        rw [view_of_owner? (by rw [owner?_appended, if_pos hi]), graphAt_appended (hs.owner_lt howner),
          if_pos rfl]
        exact mem_add_self (hs.not_has hid)
      · exact absurd (hold.symm.trans hn) (by simp)

theorem sound (hs : Sound s) (h : Step s e t) : Sound t where
  fresh := h.nodeId_eq ▸ hs.fresh
  ordered := fun _ => ordered hs h
  tip_mem := fun _ _ => tip_mem hs h
  drawn := by
    intro k n hn
    rw [h.nodeId_eq]
    rcases mem_graphAt hs h hn with ⟨j, hj⟩ | hnew
    · obtain ⟨d, hd, hid⟩ := hs.drawn j n hj
      exact ⟨d, Nat.le_trans hd h.drawn_le, hid⟩
    · obtain ⟨hid, hd⟩ := h.id_of_node? hnew
      exact ⟨_, hd, hid⟩
  agree := by
    intro j k n hn m hm heq
    rcases mem_graphAt hs h hn with ⟨j', hn⟩ | hn <;> rcases mem_graphAt hs h hm with ⟨k', hm⟩ | hm
    · exact hs.agree j' k' n hn m hm heq
    · have hfree := hs.not_has (k := j') (h.id_of_node? hm).1
      rw [has_iff, ← heq] at hfree
      exact absurd (mem_ids_of_mem hn) hfree
    · have hfree := hs.not_has (k := k') (h.id_of_node? hn).1
      rw [has_iff, heq] at hfree
      exact absurd (mem_ids_of_mem hm) hfree
    · exact some.inj (hn.symm.trans hm)

end Step

namespace Path

variable {es : List Event}

theorem view_subset (hs : Sound s) (h : Path s es t) : (s.view i).nodes ⊆ (t.view i).nodes := by
  induction h with
  | nil => exact fun _ hn => hn
  | cons hstep _ ih => exact List.Subset.trans (hstep.view_subset hs) (ih (hstep.sound hs))

end Path

/-! ### Sharing -/

theorem Share.view_eq (h : s.Share i j) : s.view i = s.view j := by
  obtain ⟨k, hi, hj⟩ := h
  rw [view_of_owner? hi, view_of_owner? hj]

/-- Unification keeps two streams of one graph together unless it parts them. -/
theorem share_merge_iff (h : s.Share i j) (ha : s.Absorbs a b into gone) :
    (s.merge into gone a b).Share i j ↔ ¬ s.Parts a b into gone i j := by
  obtain ⟨k, hi, hj⟩ := h
  have hmove : ∀ l, s.owner? l = some k →
      (s.merge into gone a b).owner? l = some (if l = a ∨ l = b then into else k) := by
    intro l hl
    rw [owner?_merge, hl]
    split <;> rfl
  have hshare : (s.merge into gone a b).Share i j ↔
      (if i = a ∨ i = b then into else k) = if j = a ∨ j = b then into else k := by
    simp [Share, hmove i hi, hmove j hj, eq_comm]
  rw [hshare]
  constructor
  · intro heq hparts
    obtain rfl : k = gone := some.inj (hi.symm.trans hparts.owner)
    have hne := ha.ne
    have hone := hparts.one
    by_cases hia : i = a ∨ i = b <;> by_cases hja : j = a ∨ j = b <;> simp_all
  · intro hparts
    by_cases hone : i = a ∨ i = b ↔ j = a ∨ j = b
    · simp only [hone]
    · -- the graph of the one that is moved is not absorbed, so it is the one that absorbs
      have hk : k ≠ gone := fun heq => hparts ⟨ha, heq ▸ hi, hone⟩
      have hinto : ∀ l, s.owner? l = some k → l = a ∨ l = b → k = into := by
        intro l hl hmem
        rcases ha.owner_of_mem hmem with h | h
        · exact some.inj (hl.symm.trans h)
        · exact absurd (some.inj (hl.symm.trans h)) hk
      obtain rfl : k = into := by
        by_cases hia : i = a ∨ i = b
        · exact hinto i hi hia
        · exact hinto j hj (not_not.mp fun hja => hone (iff_of_false hia hja))
      simp

theorem Share.mono (h : s.Share i j) (howner : ∀ l k, s.owner? l = some k → t.owner? l = some k) :
    t.Share i j := by
  obtain ⟨k, hi, hj⟩ := h
  exact ⟨k, howner i k hi, howner j k hj⟩

/-- Only a unification can part two streams. -/
theorem Step.share {e : Event} (h : Step s e t) (hshare : s.Share i j) :
    t.Share i j ∨ ∃ a b into gone, e = .unify a b ∧ s.Parts a b into gone i j := by
  cases h with
  | draw => exact .inl hshare
  | start => exact .inl (hshare.mono fun _ _ => owner?_started_of_some)
  | append => exact .inl (hshare.mono fun _ _ => owner?_appended_of_some)
  | @unify a b into gone h =>
    by_cases hparts : s.Parts a b into gone i j
    · exact .inr ⟨a, b, into, gone, rfl, hparts⟩
    · exact .inl ((share_merge_iff hshare h).mpr hparts)

/-- Streams that share a graph go on doing so until a unification parts them. -/
theorem Path.share {es : List Event} (h : Path s es t) (hshare : s.Share i j) :
    t.Share i j ∨ ∃ before a b after u into gone, es = before ++ .unify a b :: after ∧
      Path s before u ∧ u.Share i j ∧ u.Parts a b into gone i j := by
  induction h with
  | nil => exact .inl hshare
  | @cons s t u e es hstep hrest ih =>
    rcases hstep.share hshare with hshare' | ⟨a, b, into, gone, rfl, hparts⟩
    · rcases ih hshare' with hend | ⟨before, a, b, after, v, into, gone, rfl, hpath, hv, hparts⟩
      · exact .inl hend
      · exact .inr ⟨e :: before, a, b, after, v, into, gone, rfl, .cons hstep hpath, hv, hparts⟩
    · exact .inr ⟨[], a, b, es, s, into, gone, rfl, .nil, hshare, hparts⟩

end Dataflow.Session
