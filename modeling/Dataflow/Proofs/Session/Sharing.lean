import Dataflow.Proofs.Session.Operation

/-!
# How long streams share a graph

Streams of one graph see each other's nodes.  They do not share it for good (`share_lost`): when
their graph is absorbed, only the two streams that are being unified are moved.  `share_run` says
what does hold.  Along every run, two streams that share a graph go on doing so until such a
unification parts them; what a stream sees is never lost; and an operation leaves its result with
the graph of the stream it went through, which has taken in all that was seen through the operands.
-/

namespace Dataflow.Session

variable {s t u : Session} {i j k r ref : Nat} {others : List (Option Nat)}

theorem Share.trans (h : s.Share i j) (h' : s.Share j k) : s.Share i k := by
  obtain ⟨l, hi, hj⟩ := h
  obtain ⟨m, hj', hk⟩ := h'
  obtain rfl : l = m := Option.some.inj (hj.symm.trans hj')
  exact ⟨l, hi, hk⟩

/-- A session that was built from nothing, with fresh identifiers. -/
def Built (s : Session) : Prop :=
  ∃ supply actions, Function.Injective (fun k => Text.concat (supply k)) ∧ s = run { supply } actions

theorem Built.sound (h : s.Built) : Sound s := by
  obtain ⟨supply, actions, hfresh, rfl⟩ := h
  exact sound_run hfresh actions

/-- The stream that an operation goes through and the operands it combines it with; an operator that
binds several nodes is several operations. -/
def Action.takes : Action → Option (Nat × List (Option Nat))
  | .bind (.single _ _) ref => some (ref, [])
  | .bind (.multi _ _ others) ref => some (ref, others)
  | .combineWith .choice a b | .combineWith .ensemble a b | .combineWith .merge a b =>
    some (a, [some b])
  | _ => none

/-- What an operation through `ref` with some operands leaves: the new stream `r` over a new node. -/
structure Extends (s : Session) (ref : Nat) (others : List (Option Nat)) (r : Nat) (t : Session) :
    Prop where
  new : s.tip? r = none
  share : t.Share ref r
  last : ∀ o, others.getLast? = some (some o) → t.Share o r
  operands : ∀ o, some o ∈ others → t.Share o r ∨ LeftBehind s ref o others t
  views : ∀ o, some o ∈ others → (s.view o).nodes ⊆ (t.view r).nodes
  /-- No stream is moved that does not take part, and none if there is nothing to combine. -/
  owners : ∀ i k, s.owner? i = some k →
    t.owner? i = some k ∨ some i ∈ others ∨ (i = ref ∧ others ≠ [])
  /-- The new node is seen through every stream with the graph. -/
  node : ∃ n, t.tip? r = some n ∧ (∀ k, n ∉ (s.graphAt k).nodes) ∧
    ∀ j, t.Share r j → n ∈ (t.view j).nodes

theorem Combines.extends (hs : Sound s) (h : Combines s ref others r u) :
    Extends s ref others r u := by
  obtain ⟨tips, t, n, k, hgathers, happends⟩ := h
  have ht := hgathers.reaches.sound hs
  have hjoin : ∀ o, t.Share ref o → u.Share o r := by
    rintro o ⟨l, href, ho⟩
    have hshare : u.Share o ref := ⟨l, happends.owner?_eq ho, happends.owner?_eq href⟩
    exact hshare.trans happends.share
  constructor
  case new =>
    cases hold : s.tip? r with
    | none => rfl
    | some m =>
      have hlt := lt_of_tip? (hgathers.reaches.tip?_eq hold)
      have hnew := happends.new
      omega
  case share => exact happends.share
  case last => exact fun o ho => hjoin o (hgathers.last o ho)
  case operands =>
    intro o ho
    rcases hgathers.operands o ho with hshare | ⟨v, x, into, gone, hsv, hv, hx, hparts, hvt⟩
    · exact .inl (hjoin o hshare)
    · exact .inr ⟨v, x, into, gone, hsv, hv, hx, hparts, hvt.trans happends.reaches⟩
  case views =>
    intro o ho
    rw [← happends.share.view_eq]
    exact List.Subset.trans (hgathers.views o ho) (happends.reaches.view_subset ht)
  case owners =>
    intro i l hi
    by_cases hmem : some i ∈ others
    · exact .inr (.inl hmem)
    · by_cases href : i = ref
      · by_cases hnil : others = []
        · exact .inl (happends.owner?_eq (by rw [hgathers.eq_of_nil hnil, hi]))
        · exact .inr (.inr ⟨href, hnil⟩)
      · exact .inl (happends.owner?_eq (by rw [hgathers.owners i href hmem, hi]))
  case node =>
    refine ⟨n, happends.tip, fun l hmem => ?_, fun j hj => ?_⟩
    · have hfree := ht.not_has (k := l) happends.id_eq
      rw [Graph.has_iff] at hfree
      exact hfree (Graph.mem_ids_of_mem (hgathers.reaches.graphAt_subset hs hmem))
    · rw [← hj.view_eq]
      exact (happends.reaches.sound ht).tip_mem r n happends.tip

theorem runs_perform_of_takes (hs : Sound s) {action : Action}
    (htakes : action.takes = some (ref, others)) :
    Runs (perform action) s (fun r t => Combines s ref others r t)
      fun _ t => Reaches s t ∧ ¬ s.Usable ref others := by
  unfold Action.takes at htakes
  split at htakes
  · cases htakes
    rw [perform, Session.bind]
    exact runs_extend hs _ _
  · cases htakes
    rw [perform, Session.bind]
    exact runs_combine hs _ _ _
  · cases htakes
    exact runs_combine hs .choice [] _
  · cases htakes
    exact runs_combine hs .ensemble [] _
  · cases htakes
    exact runs_combine hs .merge [] _
  · cases htakes

/-- On streams that have been made an operation gives its result. -/
theorem exists_perform (hs : Sound s) {action : Action} (htakes : action.takes = some (ref, others))
    (husable : s.Usable ref others) :
    ∃ r t, (perform action).run.run s = (.ok r, t) ∧ Extends s ref others r t := by
  obtain ⟨r, t, hrun, hcombines⟩ := (runs_perform_of_takes hs htakes).exists_ok fun _ _ h => h.2 husable
  exact ⟨r, t, hrun, hcombines.extends hs⟩

/-- **Sharing lasts until a unification parts the streams.**  A run comes down to updates; streams
that share a graph share it at its end, unless one of the updates is a unification that moves just
one of them away from the graph they share.  No stream loses a node from view.  And an operation
through a stream gives a result, and leaves what `Extends` says. -/
theorem share_run (hs : s.Built) (actions : List Action) :
    (∃ es, Path s es (s.run actions) ∧
      ∀ i j, s.Share i j → (s.run actions).Share i j ∨
        ∃ before a b after u into gone, es = before ++ .unify a b :: after ∧ Path s before u ∧
          u.Share i j ∧ u.Parts a b into gone i j) ∧
    (∀ i, (s.view i).nodes ⊆ ((s.run actions).view i).nodes) ∧
    ∀ action ref others, action.takes = some (ref, others) → s.Usable ref others →
      ∃ r t, (perform action).run.run s = (.ok r, t) ∧ Extends s ref others r t := by
  obtain ⟨es, hes⟩ := reaches_run actions hs.sound
  refine ⟨⟨es, hes, fun i j => hes.share⟩, fun i => hes.view_subset hs.sound, ?_⟩
  intro action ref others htakes husable
  exact exists_perform hs.sound htakes husable

/-- Two streams of a graph with two nodes, and three of a graph with three nodes. -/
def forked : List Action :=
  [.fromUri "a", .bind (.window 2) 0, .fromUri "b", .bind (.window 2) 2, .bind (.window 3) 3]

/-- Unites the first stream with the second and the last. -/
def united : Action := .bind (.union [some 1, some 4]) 0

theorem run_united :
    (perform united).run.run (run {} forked) = (.ok 5, run {} (forked ++ [united])) := by
  have hok : ((perform united).run.run (run {} forked)).1 = .ok 5 := rfl
  have hrun : run {} (forked ++ [united]) = ((perform united).run.run (run {} forked)).2 := by
    rw [run, List.foldl_append]
    rfl
  exact Prod.ext hok hrun.symm

theorem share_run_forked :
    (run {} forked).Built ∧ united.takes = some (0, [some 1, some 4]) ∧
      (run {} forked).Usable 0 [some 1, some 4] ∧
      (run {} (forked ++ [united])).Share 0 5 ∧ (run {} (forked ++ [united])).Share 4 5 := by
  have hbuilt : (run {} forked).Built := ⟨identifier, forked, identifier_injective, rfl⟩
  have hlength : (run {} forked).streams.length = 5 := rfl
  have husable : (run {} forked).Usable 0 [some 1, some 4] := by
    simp [Usable, Live, hlength]
  obtain ⟨r, t, hrun, hextends⟩ := (share_run hbuilt []).2.2 united 0 [some 1, some 4] rfl husable
  obtain ⟨rfl, rfl⟩ : r = 5 ∧ t = run {} (forked ++ [united]) := by
    rw [run_united] at hrun
    cases hrun
    exact ⟨rfl, rfl⟩
  exact ⟨hbuilt, rfl, husable, hextends.share, hextends.last 4 rfl⟩

/-- Two streams share a graph, and no longer do after they were united with a third: the graph of
the third is larger, and the first operand stays with the graph that was absorbed.  The new node is
not seen through it. -/
theorem share_lost :
    (run {} forked).Share 0 1 ∧ ¬ (run {} (forked ++ [united])).Share 0 1 ∧
      ¬ (run {} (forked ++ [united])).Share 1 5 ∧
      ∃ n, (run {} (forked ++ [united])).tip? 5 = some n ∧
        n.id ∉ ((run {} (forked ++ [united])).view 1).ids := by
  have howners : ((run {} forked).owner? 0, (run {} forked).owner? 1) = (some 0, some 0) := rfl
  have howners' : ((run {} (forked ++ [united])).owner? 0, (run {} (forked ++ [united])).owner? 1,
      (run {} (forked ++ [united])).owner? 5) = (some 1, some 0, some 1) := rfl
  have hunseen : ((run {} (forked ++ [united])).tip? 5).any
      (fun n => !((run {} (forked ++ [united])).view 1).has n.id) = true := rfl
  simp only [Prod.mk.injEq] at howners howners'
  obtain ⟨h0, h1, h5⟩ := howners'
  refine ⟨⟨0, howners.1, howners.2⟩, ?_, ?_, ?_⟩
  · rintro ⟨k, hi, hj⟩
    rw [h0] at hi
    rw [h1] at hj
    cases hi
    cases hj
  · rintro ⟨k, hi, hj⟩
    rw [h1] at hi
    rw [h5] at hj
    cases hi
    cases hj
  · obtain ⟨n, hn, hout⟩ := (Option.any_eq_true _ _).mp hunseen
    refine ⟨n, hn, ?_⟩
    simpa [← Graph.has_iff] using hout

end Dataflow.Session
