import Dataflow.Proofs.Graph.Branches
import Dataflow.Proofs.Run
import Dataflow.Proofs.Session.Step

/-!
# Stream operations as updates

An `Action` is an operation on streams, and `run` performs actions one after another; one that fails
leaves what it did before it failed.  Every operation on a sound session comes down to updates
(`reaches_perform`), so that a session that is built by a run from nothing is sound (`sound_run`).
Operations that combine streams also bring the graphs of all of them into that of the result
(`runs_combine`).
-/

namespace Dataflow.Session

open List Session

variable {others : List (Option Nat)}

/-- An operation on streams, which are given by their numbers. -/
inductive Action where
  | fromUri (uri : Text)
  | fromPayload (v : Value)
  | fromItems (vs : List Value)
  | bind (o : Operator) (ref : Nat)
  | combineWith (op : Op) (a b : Nat)

/-- Performs an operation; the number of the new stream. -/
def perform : Action → Building Nat
  | .fromUri uri => fromUri uri
  | .fromPayload v => fromPayload v
  | .fromItems vs => fromItems vs
  | .bind o ref => bind o ref
  | .combineWith op a b => combineWith op a b

def run (s : Session) (actions : List Action) : Session :=
  actions.foldl (fun s action => ((perform action).run.run s).2) s

/-- One session comes from another by updates. -/
def Reaches (s t : Session) : Prop := ∃ es, Path s es t

variable {s t u : Session} {i j k a b r ref : Nat} {n : Node}

theorem Reaches.refl : Reaches s s := ⟨[], .nil⟩

theorem Reaches.trans (h : Reaches s t) (h' : Reaches t u) : Reaches s u := by
  obtain ⟨es, hes⟩ := h
  obtain ⟨fs, hfs⟩ := h'
  exact ⟨es ++ fs, hes.append hfs⟩

theorem Reaches.step {e : Event} (h : Step s e t) : Reaches s t := ⟨[e], .single h⟩

/-- What every update keeps. -/
theorem Reaches.keeps {Q : Session → Prop} (h : Reaches s t) (hs : Q s)
    (hstep : ∀ {s e t}, Step s e t → Q s → Q t) : Q t := by
  obtain ⟨es, h⟩ := h
  induction h with
  | nil => exact hs
  | cons hst _ ih => exact ih (hstep hst hs)

theorem Reaches.nodeId_eq (h : Reaches s t) : t.nodeId = s.nodeId :=
  h.keeps (Q := fun t => t.nodeId = s.nodeId) rfl fun hstep heq => hstep.nodeId_eq.trans heq

theorem Reaches.sound (hs : Sound s) (h : Reaches s t) : Sound t :=
  h.keeps hs fun hstep hs => hstep.sound hs

theorem Reaches.view_subset (hs : Sound s) (h : Reaches s t) : (s.view i).nodes ⊆ (t.view i).nodes := by
  obtain ⟨es, hes⟩ := h
  exact hes.view_subset hs

theorem Reaches.graphAt_subset (hs : Sound s) (h : Reaches s t) :
    (s.graphAt k).nodes ⊆ (t.graphAt k).nodes := by
  have hkeeps := h.keeps (Q := fun t => Sound t ∧ (s.graphAt k).nodes ⊆ (t.graphAt k).nodes)
    ⟨hs, fun _ hn => hn⟩ fun hstep ht => ⟨hstep.sound ht.1, List.Subset.trans ht.2 (hstep.graphAt_subset ht.1)⟩
  exact hkeeps.2

theorem Reaches.live (h : Reaches s t) (hi : s.Live i) : t.Live i :=
  h.keeps (Q := fun t => t.Live i) hi Step.live

theorem Reaches.tip?_eq (h : Reaches s t) (hn : s.tip? i = some n) : t.tip? i = some n :=
  h.keeps (Q := fun t => t.tip? i = some n) hn Step.tip?_eq

/-! ### Single operations -/

theorem run_newNodeId :
    newNodeId.run.run s = (.ok (s.nodeId (s.drawn + 1)), { s with drawn := s.drawn + 1 }) := rfl

theorem run_newStream : (newStream n k).run.run { s with drawn := s.drawn + 1 } =
    (.ok s.streams.length, s.appended n k) := rfl

theorem runs_stream {Q : Stream → Session → Prop} {E : Stop → Session → Prop}
    (hQ : ∀ st, s.streams[ref]? = some st → Q st s) (hE : ¬ s.Live ref → E .crash s) :
    Runs (stream ref) s Q E := by
  unfold stream
  refine runs_bind (runs_get ?_)
  cases hst : s.streams[ref]? with
  | none => exact runs_throw (hE (Nat.not_lt.mpr (List.getElem?_eq_none_iff.mp hst)))
  | some st => exact runs_pure (hQ st hst)

theorem owner?_of_getElem? {st : Stream} (h : s.streams[i]? = some st) : s.owner? i = some st.graph := by
  rw [owner?, h]
  rfl

theorem view_eq {st : Stream} (h : s.streams[i]? = some st) : s.view i = s.graphAt st.graph :=
  view_of_owner? (owner?_of_getElem? h)

theorem tip?_of_getElem? {st : Stream} (h : s.streams[i]? = some st) : s.tip? i = some st.tip := by
  rw [tip?, h]
  rfl

theorem Sound.tip_mem_graph (hs : Sound s) {st : Stream} (h : s.streams[i]? = some st) :
    st.tip ∈ (s.graphAt st.graph).nodes := by
  rw [← view_eq h]
  exact hs.tip_mem i st.tip (tip?_of_getElem? h)

theorem run_source (config : Row) : (source config).run.run s =
    (.ok s.streams.length, s.started { id := s.nodeId (s.drawn + 1), op := .source, config }) := by
  have hmodify : ∀ g : Graph, (s.graphs ++ [g]).modify s.graphs.length (·.add
      { id := s.nodeId (s.drawn + 1), op := .source, config }) =
      s.graphs ++ [g.add { id := s.nodeId (s.drawn + 1), op := .source, config }] := by
    intro g
    simp [modify_eq_take_cons_drop]
  unfold started
  rw [← hmodify]
  rfl

theorem reaches_source (config : Row) :
    Runs (source config) s (fun _ t => Reaches s t) fun _ t => Reaches s t := by
  unfold Runs
  rw [run_source]
  exact .step (.start rfl rfl)

/-! ### Unification -/

theorem share_merge_self {into gone : Nat} (h : s.Absorbs a b into gone) :
    (s.merge into gone a b).Share a b := by
  refine ⟨into, ?_, ?_⟩
  · rw [owner?_merge, if_pos (.inl rfl)]
    rcases h.owners with ⟨ha, -, -⟩ | ⟨ha, -, -⟩ <;> rw [ha] <;> rfl
  · rw [owner?_merge, if_pos (.inr rfl)]
    rcases h.owners with ⟨-, hb, -⟩ | ⟨-, hb, -⟩ <;> rw [hb] <;> rfl

/-- Unification leaves two streams with one graph: they had one before, or one graph absorbs the
other. -/
structure Unified (s : Session) (a b : Nat) (t : Session) : Prop where
  share : t.Share a b
  cases : t = s ∨ ∃ into gone, s.Absorbs a b into gone ∧ t = s.merge into gone a b

theorem runs_unify : Runs (unify a b) s (fun _ t => Unified s a b t)
    (fun _ t => t = s ∧ ¬ (s.Live a ∧ s.Live b)) := by
  unfold unify
  refine runs_bind (runs_stream (fun sa ha => ?_) fun h => ⟨rfl, fun hlive => h hlive.1⟩)
  refine runs_bind (runs_stream (fun sb hb => ?_) fun h => ⟨rfl, fun hlive => h hlive.2⟩)
  replace ha := owner?_of_getElem? ha
  replace hb := owner?_of_getElem? hb
  by_cases hne : sa.graph ≠ sb.graph
  · rw [if_pos hne]
    refine runs_modify ?_
    by_cases hsize : (s.graphAt sa.graph).size < (s.graphAt sb.graph).size
    · rw [if_pos hsize]
      have habsorbs : s.Absorbs a b sb.graph sa.graph := ⟨hne.symm, .inr ⟨ha, hb, hsize⟩⟩
      exact ⟨share_merge_self habsorbs, .inr ⟨_, _, habsorbs, rfl⟩⟩
    · rw [if_neg hsize]
      have habsorbs : s.Absorbs a b sa.graph sb.graph := ⟨hne, .inl ⟨ha, hb, Nat.le_of_not_lt hsize⟩⟩
      exact ⟨share_merge_self habsorbs, .inr ⟨_, _, habsorbs, rfl⟩⟩
  · rw [if_neg hne]
    refine runs_pure ⟨⟨sa.graph, ha, ?_⟩, .inl rfl⟩
    rw [hb, not_not.mp hne]

theorem Unified.reaches (h : Unified s a b t) : Reaches s t := by
  rcases h.cases with rfl | ⟨into, gone, habsorbs, rfl⟩
  · exact .refl
  · exact .step (.unify habsorbs)

theorem Unified.tip?_eq (h : Unified s a b t) : t.tip? i = s.tip? i := by
  rcases h.cases with rfl | ⟨into, gone, habsorbs, rfl⟩
  · rfl
  · exact tip?_merge

theorem Unified.live_iff (h : Unified s a b t) : t.Live i ↔ s.Live i := by
  rcases h.cases with rfl | ⟨into, gone, habsorbs, rfl⟩
  · exact Iff.rfl
  · exact live_merge

theorem Unified.owner?_eq (h : Unified s a b t) (ha : i ≠ a) (hb : i ≠ b) : t.owner? i = s.owner? i := by
  rcases h.cases with rfl | ⟨into, gone, habsorbs, rfl⟩
  · rfl
  · rw [owner?_merge, if_neg (by simp [ha, hb])]

/-- The stream `o` had the graph of `ref`, until a unification of `ref` with another of the given
streams parted them. -/
def LeftBehind (s : Session) (ref o : Nat) (others : List (Option Nat)) (t : Session) : Prop :=
  ∃ u x into gone, Reaches s u ∧ u.Share ref o ∧ some x ∈ others ∧ u.Parts ref x into gone ref o ∧
    Reaches (u.merge into gone ref x) t

theorem LeftBehind.head {o : Nat} {x : Option Nat} (hst : Reaches s t)
    (h : LeftBehind t ref o others u) : LeftBehind s ref o (x :: others) u := by
  obtain ⟨v, y, into, gone, htv, hshare, hy, hparts, hvu⟩ := h
  exact ⟨v, y, into, gone, hst.trans htv, hshare, mem_cons_of_mem _ hy, hparts, hvu⟩

/-- What unification with other streams in turn comes to: their graphs go into that of `ref`, and no
other stream is moved.  The last of them has the graph of `ref` in the end; the others have it too
unless they were left behind. -/
structure Gathers (s : Session) (ref : Nat) (others : List (Option Nat)) (tips : List Text)
    (t : Session) : Prop where
  reaches : Reaches s t
  eq_of_nil : others = [] → t = s
  tips : ∀ p ∈ tips, ∃ o n, some o ∈ others ∧ s.tip? o = some n ∧ p = n.id
  views : ∀ o, some o ∈ others → (s.view o).nodes ⊆ (t.view ref).nodes
  owners : ∀ i, i ≠ ref → some i ∉ others → t.owner? i = s.owner? i
  kept : ∀ i, s.Share ref i → t.Share ref i ∨ LeftBehind s ref i others t
  operands : ∀ o, some o ∈ others → t.Share ref o ∨ LeftBehind s ref o others t
  last : ∀ o, others.getLast? = some (some o) → t.Share ref o

theorem Gathers.nil : Gathers s ref [] [] s where
  reaches := .refl
  eq_of_nil := fun _ => rfl
  tips := by simp
  views := by simp
  owners := fun _ _ _ => rfl
  kept := fun _ h => .inl h
  operands := by simp
  last := by simp

theorem Gathers.cons {o : Nat} {tips : List Text} (hs : Sound s)
    (hunified : Unified s ref o t) (hn : t.tip? o = some n) (h : Gathers t ref others tips u) :
    Gathers s ref (some o :: others) (n.id :: tips) u := by
  have hst := hunified.reaches
  have hkept : ∀ i, t.Share ref i →
      u.Share ref i ∨ LeftBehind s ref i (some o :: others) u := fun i hi =>
    (h.kept i hi).imp_right fun hleft => hleft.head hst
  constructor
  case reaches => exact hst.trans h.reaches
  case eq_of_nil => simp
  case tips =>
    intro p hp
    rcases mem_cons.mp hp with rfl | hp
    · exact ⟨o, n, mem_cons_self, by rwa [← hunified.tip?_eq], rfl⟩
    · obtain ⟨i, m, hi, hm, hid⟩ := h.tips p hp
      exact ⟨i, m, mem_cons_of_mem _ hi, by rwa [← hunified.tip?_eq], hid⟩
  case views =>
    intro i hi
    rcases mem_cons.mp hi with hi | hi
    · cases hi
      refine List.Subset.trans (hst.view_subset hs) ?_
      rw [← hunified.share.view_eq]
      exact h.reaches.view_subset (hst.sound hs)
    · exact List.Subset.trans (hst.view_subset hs) (h.views i hi)
  case owners =>
    intro i href hi
    rw [mem_cons, not_or] at hi
    rw [h.owners i href hi.2, hunified.owner?_eq href fun heq => hi.1 (congrArg some heq)]
  case kept =>
    intro i hi
    rcases hunified.cases with rfl | ⟨into, gone, habsorbs, rfl⟩
    · exact hkept i hi
    · by_cases hparts : s.Parts ref o into gone ref i
      · exact .inr ⟨s, o, into, gone, .refl, hi, mem_cons_self, hparts, h.reaches⟩
      · exact hkept i ((share_merge_iff hi habsorbs).mpr hparts)
  case operands =>
    intro i hi
    rcases mem_cons.mp hi with hi | hi
    · cases hi
      exact hkept o hunified.share
    · exact (h.operands i hi).imp_right fun hleft => hleft.head hst
  case last =>
    intro i hi
    cases others with
    | nil =>
      obtain rfl : o = i := by simpa using hi
      rw [h.eq_of_nil rfl]
      exact hunified.share
    | cons x others => exact h.last i (by simpa using hi)

/-- All streams of an operation have been made. -/
def Usable (s : Session) (ref : Nat) (others : List (Option Nat)) : Prop :=
  s.Live ref ∧ ∀ o ∈ others, ∃ i, o = some i ∧ s.Live i

theorem runs_unifyAll (hs : Sound s) : Runs (unifyAll ref others) s
    (fun tips t => Gathers s ref others tips t) fun _ t => Reaches s t ∧ ¬ s.Usable ref others := by
  induction others generalizing s with
  | nil => exact runs_pure .nil
  | cons o others ih =>
    cases o with
    | none =>
      refine runs_throw ⟨.refl, fun husable => ?_⟩
      obtain ⟨i, hi, -⟩ := husable.2 none mem_cons_self
      cases hi
    | some o =>
      have hlive : s.Usable ref (some o :: others) → s.Live ref ∧ s.Live o := by
        rintro ⟨href, hothers⟩
        obtain ⟨i, hi, hio⟩ := hothers (some o) mem_cons_self
        cases hi
        exact ⟨href, hio⟩
      refine runs_bind (runs_unify.mono (fun _ t hunified => ?_) ?_)
      · have hst := hunified.reaches
        refine runs_bind (runs_stream (fun st hstream => ?_) fun hdead => ⟨hst, fun husable => ?_⟩)
        · refine runs_bind ((ih (hst.sound hs)).mono (fun tips u h => runs_pure ?_) ?_)
          · exact .cons hs hunified (tip?_of_getElem? hstream) h
          · rintro e u ⟨htu, hunusable⟩
            refine ⟨hst.trans htu, fun husable => hunusable ⟨?_, fun x hx => ?_⟩⟩
            · exact hunified.live_iff.mpr husable.1
            · obtain ⟨i, hi, hlive⟩ := husable.2 x (mem_cons_of_mem _ hx)
              exact ⟨i, hi, hunified.live_iff.mpr hlive⟩
        · exact hdead (hunified.live_iff.mpr (hlive husable).2)
      · rintro e t ⟨rfl, hdead⟩
        exact ⟨.refl, fun husable => hdead (hlive husable)⟩

/-! ### Operations that append a node -/

/-- The node `n` is appended through the stream `ref` to its graph, and `r` is the new stream over
it. -/
structure Appends (s : Session) (ref : Nat) (n : Node) (k r : Nat) (t : Session) : Prop where
  id_eq : n.id = s.nodeId (s.drawn + 1)
  owner : s.owner? ref = some k
  parents : ∀ p ∈ n.parents, p ∈ (s.graphAt k).ids
  eq : t = s.appended n k
  new : r = s.streams.length

namespace Appends

section

variable (h : Appends s ref n k r t)

include h

theorem step : Step s (.append n ref) t :=
  h.eq ▸ .append h.id_eq h.owner h.parents

theorem reaches : Reaches s t := .step h.step

theorem tip : t.tip? r = some n := by
  rw [h.eq, tip?_appended, if_pos h.new]

theorem owner?_eq (hi : s.owner? i = some j) : t.owner? i = some j := by
  rw [h.eq]
  exact owner?_appended_of_some hi

theorem share : t.Share ref r :=
  ⟨k, h.owner?_eq h.owner, by rw [h.eq, owner?_appended, if_pos h.new]⟩

end

end Appends

/-- The end of every operation that appends a node: a draw, and a stream over the node `f` makes. -/
theorem runs_append (f : Text → Stream → Node) (hid : ∀ id st, (f id st).id = id)
    (hp : ∀ id st, s.streams[ref]? = some st → ∀ p ∈ (f id st).parents, p ∈ (s.view ref).ids) :
    Runs (do let id ← newNodeId; let st ← stream ref; newStream (f id st) st.graph) s
      (fun r t => ∃ n k, Appends s ref n k r t) fun _ t => Reaches s t ∧ ¬ s.Live ref := by
  refine runs_bind ?_
  unfold Runs
  rw [run_newNodeId]
  refine runs_bind (runs_stream (fun st hst => ?_) fun hdead => ⟨.step .draw, hdead⟩)
  unfold Runs
  rw [run_newStream]
  have howner := owner?_of_getElem? (s := s) hst
  refine ⟨f (s.nodeId (s.drawn + 1)) st, st.graph, hid _ _, howner, ?_, rfl, rfl⟩
  rw [← view_of_owner? howner]
  exact hp _ st hst

/-- An operation through `ref` with some operands: they are gathered, and a node is appended. -/
def Combines (s : Session) (ref : Nat) (others : List (Option Nat)) (r : Nat) (u : Session) : Prop :=
  ∃ tips t n k, Gathers s ref others tips t ∧ Appends t ref n k r u

theorem Combines.reaches (h : Combines s ref others r u) : Reaches s u := by
  obtain ⟨tips, t, n, k, hgathers, happends⟩ := h
  exact hgathers.reaches.trans happends.reaches

theorem runs_extend (hs : Sound s) (op : Op) (config : Row) : Runs (extend op config ref) s
    (fun r t => Combines s ref [] r t) fun _ t => Reaches s t ∧ ¬ s.Usable ref [] := by
  refine (runs_append (fun id st => { id, op, config, parents := [st.tip.id] }) (fun _ _ => rfl) ?_).mono
    (fun r t ⟨n, k, h⟩ => ⟨[], s, n, k, .nil, h⟩)
    fun _ t ⟨h, hdead⟩ => ⟨h, fun husable => hdead husable.1⟩
  intro id st hst p hp
  obtain rfl : p = st.tip.id := by simpa using hp
  exact Graph.mem_ids_of_mem (hs.tip_mem ref st.tip (tip?_of_getElem? hst))

theorem runs_combine (hs : Sound s) (op : Op) (config : Row) (others : List (Option Nat)) :
    Runs (combine op config ref others) s (fun r u => Combines s ref others r u)
      fun _ t => Reaches s t ∧ ¬ s.Usable ref others := by
  unfold combine
  refine runs_bind (runs_stream (fun first hfirst => ?_) fun hdead =>
    ⟨.refl, fun husable => hdead husable.1⟩)
  refine (runs_unifyAll hs).bind fun tips t hgathers => ?_
  refine (runs_append (fun id _ => { id, op, config, parents := first.tip.id :: tips }) (fun _ _ => rfl)
    ?_).mono (fun r u ⟨n, k, h⟩ => ⟨tips, t, n, k, hgathers, h⟩) fun _ u ⟨h, hdead⟩ =>
      ⟨hgathers.reaches.trans h, fun husable => hdead (hgathers.reaches.live husable.1)⟩
  -- the tip of the first stream is in its graph, and those of the others have been gathered there
  intro id st hst p hp
  rcases mem_cons.mp hp with rfl | hp
  · have hmem := hs.tip_mem ref first.tip (tip?_of_getElem? hfirst)
    exact Graph.mem_ids_of_mem (hgathers.reaches.view_subset hs hmem)
  · obtain ⟨o, n, ho, hn, rfl⟩ := hgathers.tips p hp
    exact Graph.mem_ids_of_mem (hgathers.views o ho (hs.tip_mem o n hn))

/-! ### Leaves -/

theorem bindAll_eq_foldlM (os : List Operator) (ref : Nat) :
    bindAll os ref = os.foldlM (fun ref o => bind o ref) ref := by
  induction os generalizing ref with
  | nil => rfl
  | cons o os ih =>
    rw [bindAll, foldlM_cons]
    exact bind_congr fun r => ih r

theorem bindAll_append (xs ys : List Operator) (ref : Nat) :
    bindAll (xs ++ ys) ref = (do let r ← bindAll xs ref; bindAll ys r) := by
  simp only [bindAll_eq_foldlM, foldlM_append]

mutual

/-- Binding an operator is binding its leaves in order. -/
theorem bind_eq_bindAll (o : Operator) (ref : Nat) : bind o ref = bindAll o.leaves ref := by
  cases o with
  | single | multi =>
    show _ = bindAll [_] ref
    rw [bindAll]
    exact (bind_pure _).symm
  | chain first more =>
    rw [bind, Operator.leaves, bindAll_append, bind_eq_bindAll first ref]
    exact bind_congr fun r => bindAll_eq_bindAll more r

theorem bindAll_eq_bindAll (os : List Operator) (ref : Nat) :
    bindAll os ref = bindAll (Operator.leavesAll os) ref := by
  cases os with
  | nil => rfl
  | cons o os =>
    rw [bindAll, Operator.leavesAll, bindAll_append, bind_eq_bindAll o ref]
    exact bind_congr fun r => bindAll_eq_bindAll os r

end

/-- No leaf is a chain. -/
theorem leaf_ne_chain {l : Operator} (o : Operator) (h : l ∈ o.leaves) :
    ∀ first more, l ≠ .chain first more := by
  cases o with
  | single op config | multi op config others =>
    obtain rfl := mem_singleton.mp h
    exact fun _ _ => nofun
  | chain first more =>
    have hall : l ∈ Operator.leavesAll (first :: more) := h
    exact Operator.forall_mem_leavesAll (fun o ho l => leaf_ne_chain o) l hall
termination_by sizeOf o
decreasing_by
  subst_vars
  decreasing_tactic

/-- A leaf is bound to a new stream, unless a stream that it reads has not been made. -/
theorem runs_bind_leaf (hs : Sound s) {l : Operator} (hl : ∀ first more, l ≠ .chain first more) :
    Runs (bind l ref) s (fun r t => Reaches s t ∧ t.Live r)
      fun _ t => Reaches s t ∧ ¬ s.Usable ref l.others := by
  have hnew {others r t} (h : Combines s ref others r t) : Reaches s t ∧ t.Live r := by
    obtain ⟨tips, u, n, k, -, happends⟩ := id h
    exact ⟨h.reaches, lt_of_tip? happends.tip⟩
  cases l with
  | single op config =>
    rw [bind]
    exact (runs_extend hs op config).mono (fun _ _ => hnew) fun _ _ h => h
  | multi op config others =>
    rw [bind]
    exact (runs_combine hs op config others).mono (fun _ _ => hnew) fun _ _ h => h
  | chain first more => exact absurd rfl (hl first more)

theorem runs_bindAll_leaves (hs : Sound s) {ls : List Operator}
    (hls : ∀ l ∈ ls, ∀ first more, l ≠ .chain first more) :
    Runs (bindAll ls ref) s (fun r t => Reaches s t ∧ (s.Live ref → t.Live r)) fun _ t =>
      Reaches s t ∧ ¬ (s.Live ref ∧ ∀ l ∈ ls, ∀ o ∈ l.others, ∃ i, o = some i ∧ s.Live i) := by
  induction ls generalizing s ref with
  | nil => exact runs_pure ⟨.refl, id⟩
  | cons l ls ih =>
    rw [forall_mem_cons] at hls ⊢
    rw [bindAll]
    refine runs_bind ((runs_bind_leaf hs hls.1).mono ?_ ?_)
    · rintro r t ⟨hst, hr⟩
      refine (ih (hst.sound hs) hls.2).mono (fun _ _ h => ⟨hst.trans h.1, fun _ => h.2 hr⟩) fun _ u h => ?_
      refine ⟨hst.trans h.1, fun husable => h.2 ⟨hr, fun l hl o ho => ?_⟩⟩
      obtain ⟨i, hi, hlive⟩ := husable.2.2 l hl o ho
      exact ⟨i, hi, hst.live hlive⟩
    · exact fun _ _ h => ⟨h.1, fun husable => h.2 ⟨husable.1, husable.2.1⟩⟩

/-! ### All operations -/

theorem reaches_bind (o : Operator) (hs : Sound s) :
    Runs (bind o ref) s (fun _ t => Reaches s t) fun _ t => Reaches s t := by
  rw [bind_eq_bindAll]
  exact (runs_bindAll_leaves hs fun l => leaf_ne_chain o).mono (fun _ _ h => h.1) fun _ _ h => h.1

theorem reaches_combineWith (hs : Sound s) (op : Op) :
    Runs (combineWith op a b) s (fun _ t => Reaches s t) fun _ t => Reaches s t := by
  unfold combineWith
  split
  case h_4 => exact runs_throw .refl
  all_goals exact (runs_combine hs _ _ _).mono (fun _ _ h => h.reaches) fun _ _ h => h.1

theorem reaches_perform (action : Action) (hs : Sound s) :
    Runs (perform action) s (fun _ t => Reaches s t) fun _ t => Reaches s t := by
  cases action with
  | fromUri | fromPayload | fromItems => exact reaches_source _
  | bind o ref => exact reaches_bind o hs
  | combineWith op a b => exact reaches_combineWith hs op

theorem reaches_run (actions : List Action) (hs : Sound s) : Reaches s (s.run actions) :=
  foldlRecOn actions _ (motive := Reaches s) .refl fun _ ht a _ =>
    ht.trans (reaches_perform a (ht.sound hs)).state

/-- What is built from nothing, with fresh identifiers, is sound. -/
theorem sound_run {supply : Nat → List Text}
    (hfresh : Function.Injective fun k => Text.concat (supply k)) (actions : List Action) :
    Sound (run { supply } actions) :=
  (reaches_run actions (sound_empty hfresh)).sound (sound_empty hfresh)

end Dataflow.Session
