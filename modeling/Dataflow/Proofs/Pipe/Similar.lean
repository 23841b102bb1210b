import Dataflow.Pipe.Basic
import Dataflow.Proofs.Parallel

/-!
# Pipelines that differ in their failures

`Similar p q`: two pipelines pull the same values in step and end alike, from every state of the run and
for every bound on the number of steps; only what their failures say may differ.  A relation between
their cursors carries this along a pass (`Simulates`).  Every stage keeps pipelines similar if its
functions fail on the same values; so do whole passes (`Similar.collect`).
-/

namespace Dataflow

/-- The same value, or both at the end, or both failed. -/
inductive Pull.Alike : Pull → Pull → Prop
  | item (v : Value) : Alike (.item v) (.item v)
  | done : Alike .done .done
  | failed (f f' : Failure) : Alike (.failed f) (.failed f')

theorem Pull.Alike.refl : ∀ r : Pull, r.Alike r
  | .item v => .item v
  | .done => .done
  | .failed f => .failed f f

namespace Pipe

variable {α β : Type} {R : α → β → Prop}

/-- Two computations over live cursors that break off alike. -/
abbrev InStep (R : α → β → Prop) (x : Run α) (y : Run β) : Prop := Tracks Eq R x y

/-- Related results, or two failures. -/
abbrev Settles (R : α → β → Prop) : Except Failure α → Except Failure β → Prop :=
  Matches (fun _ _ => True) R

/-- The same values up to the end of both, or up to failures of both. -/
def Ends (r r' : List Value × Option Failure) : Prop := r.1 = r'.1 ∧ r.2.isSome = r'.2.isSome

theorem inStep_settle {o : Outcome α} {o' : Outcome β} (h : Matches Stop.Kin R o o') :
    InStep (Settles R) (settle o) (settle o') := by
  cases h with
  | ok h => exact tracks_pure (.ok h)
  | error h =>
    cases h with
    | failure f f' => exact tracks_pure (.error trivial)
    | crash => exact tracks_throw rfl

/-- A computation goes on in step after results that settle alike. -/
theorem InStep.settle {γ δ : Type} {S : γ → δ → Prop} {o o' : Outcome α}
    {k : Except Failure α → Run γ} {k' : Except Failure α → Run δ} (h : Matches Stop.Kin Eq o o')
    (hok : ∀ a, InStep S (k (.ok a)) (k' (.ok a)))
    (herror : ∀ f f', InStep S (k (.error f)) (k' (.error f'))) :
    InStep S (settle o >>= k) (settle o' >>= k') := by
  refine (inStep_settle h).bind fun a b hab => ?_
  cases hab with
  | ok hab => exact hab ▸ hok _
  | error => exact herror _ _

theorem inStep_effect {e : Effect α} {e' : Effect β} (h : Tracks Stop.Kin R e e') :
    InStep (Settles R) (effect e) (effect e') := by
  intro live
  unfold effect
  rw [run_get_bind, run_get_bind]
  obtain ⟨w, ⟨s, s', hx, hy, hkin⟩ | ⟨a, b, hx, hy, hab⟩⟩ := h.run_eq live.workspace <;> simp only [hx, hy]
  · cases hkin with
    | failure f f' => exact ⟨rfl, .ok (.error trivial)⟩
    | crash => exact ⟨rfl, .error rfl⟩
  · exact ⟨rfl, .ok (.ok hab)⟩

/-- A relation between the cursors of two pipelines that starting, pulling and finishing keep. -/
structure Simulates (p q : Pipe) (R : p.State → q.State → Prop) : Prop where
  start : InStep R p.start q.start
  next : ∀ limit s t, R s t →
    InStep (fun a b => a.1.Alike b.1 ∧ R a.2 b.2) (next limit p s) (next limit q t)
  finish : ∀ limit s t, R s t → InStep (fun _ _ => True) (finish limit p s) (finish limit q t)

/-- The pipelines give the same values and end alike. -/
def Similar (p q : Pipe) : Prop := ∃ R, Simulates p q R

theorem similar_refl (p : Pipe) : Similar p p := by
  refine ⟨Eq, tracks_refl (fun _ => rfl) _, fun limit s t h => ?_, fun limit s t h => ?_⟩
  · subst h
    exact (tracks_refl (fun _ => rfl) _).mono fun a b hab => hab ▸ ⟨Pull.Alike.refl _, rfl⟩
  · subst h
    exact (tracks_refl (fun _ => rfl) _).mono fun _ _ _ => trivial

variable {p q p' q' : Pipe}

/-! ### Loops -/

section Loops

variable {σ τ : Type} {step : σ → Run (Pull × σ)} {step' : τ → Run (Pull × τ)} {Q : σ → τ → Prop}

/-- A computation goes on in step after pulls that are alike. -/
theorem InStep.pull {x : Run (Pull × σ)} {y : Run (Pull × τ)} {k : Pull × σ → Run α}
    {k' : Pull × τ → Run β} (h : InStep (fun a b => a.1.Alike b.1 ∧ Q a.2 b.2) x y)
    (hitem : ∀ v s t, Q s t → InStep R (k (.item v, s)) (k' (.item v, t)))
    (hdone : ∀ s t, Q s t → InStep R (k (.done, s)) (k' (.done, t)))
    (hfailed : ∀ f f' s t, Q s t → InStep R (k (.failed f, s)) (k' (.failed f', t))) :
    InStep R (x >>= k) (y >>= k') := by
  refine h.bind ?_
  rintro ⟨r, s⟩ ⟨r', t⟩ ⟨hr, hst⟩
  cases hr with
  | item v => exact hitem v s t hst
  | done => exact hdone s t hst
  | failed f f' => exact hfailed f f' s t hst

variable (h : ∀ s t, Q s t → InStep (fun a b => a.1.Alike b.1 ∧ Q a.2 b.2) (step s) (step' t))

include h

theorem inStep_drain (limit : Nat) (seen : List Value) {s : σ} {t : τ} (hst : Q s t) :
    InStep (fun a b => Ends a.1 b.1 ∧ Q a.2 b.2) (drain step limit seen s) (drain step' limit seen t) := by
  induction limit generalizing seen s t with
  | zero => exact tracks_throw rfl
  | succ limit ih =>
    exact (h s t hst).pull (fun v s t hst => ih (v :: seen) hst)
      (fun _ _ hst => tracks_pure ⟨⟨rfl, rfl⟩, hst⟩) fun _ _ _ _ hst => tracks_pure ⟨⟨rfl, rfl⟩, hst⟩

theorem inStep_fill (n : Nat) (seen : List Value) {s : σ} {t : τ} (hst : Q s t) :
    InStep (fun a b => Settles Eq a.1 b.1 ∧ Q a.2 b.2) (fill step n seen s) (fill step' n seen t) := by
  induction n generalizing seen s t with
  | zero => exact tracks_pure ⟨.ok rfl, hst⟩
  | succ n ih =>
    exact (h s t hst).pull (fun v s t hst => ih (v :: seen) hst)
      (fun _ _ hst => tracks_pure ⟨.ok rfl, hst⟩) fun _ _ _ _ hst => tracks_pure ⟨.error trivial, hst⟩

end Loops

/-- A computation goes on in step after whole passes. -/
theorem Simulates.pass {Q : p.State → q.State → Prop} (h : Simulates p q Q) (limit : Nat)
    {k : (List Value × Option Failure) × p.State → Unit → Run α}
    {k' : (List Value × Option Failure) × q.State → Unit → Run β}
    (hok : ∀ vs s t, InStep R (k ((vs, none), s) ()) (k' ((vs, none), t) ()))
    (hfailed : ∀ vs f f' s t, InStep R (k ((vs, some f), s) ()) (k' ((vs, some f'), t) ())) :
    InStep R
      (p.start >>= fun s => drain (Pipe.next limit p) limit [] s >>= fun r => Pipe.finish limit p r.2 >>= k r)
      (q.start >>= fun t => drain (Pipe.next limit q) limit [] t >>= fun r => Pipe.finish limit q r.2 >>= k' r) := by
  refine h.start.bind fun s t hst => (inStep_drain (h.next limit) limit [] hst).bind ?_
  rintro ⟨⟨vs, e⟩, s⟩ ⟨⟨_, e'⟩, t⟩ ⟨⟨rfl, he⟩, hst⟩
  refine (h.finish limit s t hst).bind fun _ _ _ => ?_
  match e, e', he with
  | none, none, _ => exact hok vs s t
  | some f, some f', _ => exact hfailed vs f f' s t

theorem Similar.collect (h : Similar p q) (limit : Nat) :
    InStep Ends (p.collect limit) (q.collect limit) := by
  obtain ⟨R, h⟩ := h
  exact h.pass limit (fun vs _ _ => tracks_pure ⟨rfl, rfl⟩) fun vs _ _ _ _ => tracks_pure ⟨rfl, rfl⟩

theorem Similar.collected (h : Similar p q) (limit : Nat) :
    Tracks Eq Ends (p.collected limit) (q.collected limit) := by
  intro w
  unfold Pipe.collected
  rw [run_get_bind, run_get_bind]
  obtain ⟨live, ⟨e, _, hx, hy, rfl⟩ | ⟨a, b, hx, hy, hab⟩⟩ := (h.collect limit).run_eq { workspace := w } <;>
    simp only [hx, hy]
  · exact ⟨trivial, .error rfl⟩
  · exact ⟨rfl, .ok hab⟩

/-! ### Stages -/

/-- With a bound of zero both stop alike, so that the step to the next bound is left. -/
theorem similar_of_succ (R : p.State → q.State → Prop) (hstart : InStep R p.start q.start)
    (hnext : ∀ limit, (∀ s t, R s t →
        InStep (fun a b => a.1.Alike b.1 ∧ R a.2 b.2) (next limit p s) (next limit q t)) →
      ∀ s t, R s t →
        InStep (fun a b => a.1.Alike b.1 ∧ R a.2 b.2) (next (limit + 1) p s) (next (limit + 1) q t))
    (hfinish : ∀ limit s t, R s t →
      InStep (fun _ _ => True) (finish (limit + 1) p s) (finish (limit + 1) q t)) : Similar p q := by
  refine ⟨R, hstart, fun limit => ?_, fun limit s t hst => ?_⟩
  · induction limit with
    | zero =>
      intro s t _
      rw [Pipe.next, Pipe.next]
      exact tracks_throw rfl
    | succ limit ih => exact hnext limit ih
  · cases limit with
    | zero =>
      rw [Pipe.finish, Pipe.finish]
      exact tracks_throw rfl
    | succ limit => exact hfinish limit s t hst

section

variable (h : Similar p q)

include h

theorem Similar.map {f g : Value → Outcome Value}
    (hfg : ∀ v, Matches Stop.Kin Eq (f v) (g v)) : Similar (map p f) (map q g) := by
  obtain ⟨R, h⟩ := h
  refine similar_of_succ R h.start (fun limit _ s t hst => ?_) fun limit s t hst => ?_
  · exact (h.next limit s t hst).pull
      (fun v s t hst => .settle (hfg v) (fun w => tracks_pure ⟨.item w, hst⟩)
        fun f f' => tracks_pure ⟨.failed f f', hst⟩)
      (fun _ _ hst => tracks_pure ⟨.done, hst⟩) fun f f' _ _ hst => tracks_pure ⟨.failed f f', hst⟩
  · exact h.finish limit s t hst

theorem Similar.filter {f g : Value → Outcome Bool}
    (hfg : ∀ v, Matches Stop.Kin Eq (f v) (g v)) : Similar (filter p f) (filter q g) := by
  obtain ⟨R, h⟩ := h
  refine similar_of_succ R h.start (fun limit ih s t hst => ?_) fun limit s t hst => ?_
  · refine (h.next limit s t hst).pull (fun v s t hst => ?_) (fun _ _ hst => tracks_pure ⟨.done, hst⟩)
      fun f f' _ _ hst => tracks_pure ⟨.failed f f', hst⟩
    refine .settle (hfg v) (fun keep => ?_) fun f f' => tracks_pure ⟨.failed f f', hst⟩
    cases keep with
    | true => exact tracks_pure ⟨.item v, hst⟩
    | false => exact ih s t hst
  · exact h.finish limit s t hst

theorem Similar.reduce (init : Value) {f g : Value → Value → Outcome Value}
    (hfg : ∀ acc v, Matches Stop.Kin Eq (f acc v) (g acc v)) :
    Similar (reduce p init f) (reduce q init g) := by
  obtain ⟨R, h⟩ := h
  refine similar_of_succ (fun s t => s.1 = t.1 ∧ R s.2 t.2) ?_
    (fun limit ih s t hst => ?_) fun limit s t hst => ?_
  · exact h.start.bind fun s t hst => tracks_pure ⟨rfl, hst⟩
  · obtain ⟨acc, s⟩ := s
    obtain ⟨_, t⟩ := t
    obtain ⟨rfl, hst⟩ := hst
    cases acc with
    | none => exact tracks_pure ⟨.done, rfl, hst⟩
    | some acc =>
      exact (h.next limit s t hst).pull
        (fun v s t hst => .settle (hfg acc v) (fun a => ih (some a, s) (some a, t) ⟨rfl, hst⟩)
          fun f f' => tracks_pure ⟨.failed f f', rfl, hst⟩)
        (fun _ _ hst => tracks_pure ⟨.item acc, rfl, hst⟩)
        fun f f' _ _ hst => tracks_pure ⟨.failed f f', rfl, hst⟩
  · exact h.finish limit s.2 t.2 hst.2

theorem Similar.sliding (size : Int) : Similar (sliding p size) (sliding q size) := by
  obtain ⟨R, h⟩ := h
  refine similar_of_succ (fun s t => s.1 = t.1 ∧ R s.2 t.2) ?_
    (fun limit ih s t hst => ?_) fun limit s t hst => ?_
  · exact h.start.bind fun s t hst => tracks_pure ⟨rfl, hst⟩
  · obtain ⟨window, s⟩ := s
    obtain ⟨_, t⟩ := t
    obtain ⟨rfl, hst⟩ := hst
    refine (h.next limit s t hst).pull (fun v s t hst => ?_)
      (fun _ _ hst => tracks_pure ⟨.done, rfl, hst⟩) fun f f' _ _ hst => tracks_pure ⟨.failed f f', rfl, hst⟩
    show InStep _ (if _ then _ else _) (if _ then _ else _)
    split
    · exact tracks_pure ⟨.item _, rfl, hst⟩
    · exact ih (_, s) (_, t) ⟨rfl, hst⟩
  · exact h.finish limit s.2 t.2 hst.2

theorem Similar.batched (size : Nat) {f g : Value → Outcome Value}
    (hfg : ∀ v, Matches Stop.Kin Eq (f v) (g v)) : Similar (batched p size f) (batched q size g) := by
  obtain ⟨R, h⟩ := h
  refine similar_of_succ (fun s t => s.1 = t.1 ∧ s.2.1 = t.2.1 ∧ R s.2.2 t.2.2) ?_
    (fun limit _ s t hst => ?_) fun limit s t hst => ?_
  · exact h.start.bind fun s t hst => tracks_pure ⟨rfl, rfl, hst⟩
  · obtain ⟨ready, ended, s⟩ := s
    obtain ⟨_, _, t⟩ := t
    obtain ⟨rfl, rfl, hst⟩ := hst
    rcases ready with _ | ⟨v, ready⟩
    · cases ended with
      | true => exact tracks_pure ⟨.done, rfl, rfl, hst⟩
      | false =>
        by_cases hroom : maxBatch < size
        · simp only [Pipe.next, hroom, if_true]
          exact tracks_throw rfl
        simp only [Pipe.next, hroom, if_false]
        refine (inStep_fill (h.next limit) size [] hst).bind ?_
        rintro ⟨r, s⟩ ⟨r', t⟩ ⟨hr, hst⟩
        cases hr with
        | error => exact tracks_pure ⟨.failed _ _, rfl, rfl, hst⟩
        | @ok a b hab =>
          subst hab
          refine InStep.settle (matches_mapM hfg a.1) (fun ws => ?_)
            fun f f' => tracks_pure ⟨.failed f f', rfl, rfl, hst⟩
          cases ws with
          | nil => exact tracks_pure ⟨.done, rfl, rfl, hst⟩
          | cons v ready => exact tracks_pure ⟨.item v, rfl, rfl, hst⟩
    · cases ended <;> exact tracks_pure ⟨.item v, rfl, rfl, hst⟩
  · exact h.finish limit s.2.2 t.2.2 hst.2.2

end

/-- The next of the values that were loaded, or the failure to load them. -/
def hand : Except Failure (List Value) → Run (Pull × Option (List Value))
  | .error f => return (.failed f, some [])
  | .ok xs => do
    let (r, xs) ← takeItem xs
    return (r, some xs)

theorem inStep_hand {a b : Except Failure (List Value)} (h : Settles Eq a b) :
    InStep (fun a b => a.1.Alike b.1 ∧ a.2 = b.2) (hand a) (hand b) := by
  cases h with
  | error => exact tracks_pure ⟨.failed _ _, rfl⟩
  | @ok xs ys h =>
    subst h
    exact .after (fun _ => rfl) (takeItem xs) fun r => tracks_pure ⟨Pull.Alike.refl _, rfl⟩

theorem Similar.gather (h : Similar p q) {f g : List Value → Effect (List Value)}
    (hfg : ∀ vs, Tracks Stop.Kin Eq (f vs) (g vs)) : Similar (gather p f) (gather q g) := by
  obtain ⟨R, h⟩ := h
  refine similar_of_succ Eq (tracks_pure rfl) (fun limit _ s t hst => ?_) fun limit s t hst => ?_
  · cases hst
    cases s with
    | some xs => exact inStep_hand (.ok rfl)
    | none =>
      exact h.pass limit (fun vs _ _ => (inStep_effect (hfg vs)).bind fun a b hab => inStep_hand hab)
        fun _ _ _ _ _ => inStep_hand (.error trivial)
  · exact tracks_pure trivial

/-- Cursors of two pipelines with fallbacks that stand at related places. -/
inductive Attempt.Rel {σ τ σ' τ' : Type} (R : σ → σ' → Prop) (Q : τ → τ' → Prop) :
    Attempt σ τ → Attempt σ' τ' → Prop
  | primary (committed : Bool) {s : σ} {s' : σ'} (h : R s s') :
      Rel R Q (.primary committed s) (.primary committed s')
  | secondary {t : τ} {t' : τ'} (h : Q t t') : Rel R Q (.secondary t) (.secondary t')

theorem Similar.fallback (hp : Similar p p') (hq : Similar q q') :
    Similar (fallback p q) (fallback p' q') := by
  obtain ⟨R, hp⟩ := hp
  obtain ⟨Q, hq⟩ := hq
  refine similar_of_succ (Attempt.Rel R Q) ?_ (fun limit ih s t hst => ?_) fun limit s t hst => ?_
  · exact hp.start.bind fun s t hst => tracks_pure (.primary false hst)
  · -- after a first pull without a value both go over to their fallback
    have hover : ∀ s s', R s s' → InStep (fun a b => a.1.Alike b.1 ∧ Attempt.Rel R Q a.2 b.2)
        (do Pipe.finish limit p s; let t ← q.start; Pipe.next limit (.fallback p q) (.secondary t))
        (do Pipe.finish limit p' s'; let t ← q'.start; Pipe.next limit (.fallback p' q') (.secondary t)) :=
      fun s s' hs => (hp.finish limit s s' hs).bind fun _ _ _ =>
        hq.start.bind fun t t' ht => ih _ _ (.secondary ht)
    cases hst with
    | @primary committed s s' hs =>
      cases committed with
      | true => exact (hp.next limit s s' hs).bind fun _ _ h => tracks_pure ⟨h.1, .primary true h.2⟩
      | false =>
        exact (hp.next limit s s' hs).pull (fun v _ _ hs => tracks_pure ⟨.item v, .primary true hs⟩)
          hover fun _ _ => hover
    | @secondary t t' ht =>
      exact (hq.next limit t t' ht).bind fun _ _ h => tracks_pure ⟨h.1, .secondary h.2⟩
  · cases hst with
    | primary committed hs => exact hp.finish limit _ _ hs
    | secondary ht => exact hq.finish limit _ _ ht

theorem Similar.zip (hp : Similar p p') (hq : Similar q q') (f : Value → Value → Value) :
    Similar (zip p q f) (zip p' q' f) := by
  obtain ⟨R, hp⟩ := hp
  obtain ⟨Q, hq⟩ := hq
  refine similar_of_succ (fun s t => R s.1 t.1 ∧ Q s.2 t.2) ?_
    (fun limit _ s s' hst => ?_) fun limit s s' hst => ?_
  · exact hp.start.bind fun s s' hs => hq.start.bind fun t t' ht => tracks_pure ⟨hs, ht⟩
  · obtain ⟨s, t⟩ := s
    obtain ⟨s', t'⟩ := s'
    obtain ⟨hs, ht⟩ := hst
    refine (hp.next limit s s' hs).pull (fun v s s' hs => ?_)
      (fun _ _ hs => tracks_pure ⟨.done, hs, ht⟩) fun f f' _ _ hs => tracks_pure ⟨.failed f f', hs, ht⟩
    exact (hq.next limit t t' ht).pull (fun w _ _ ht => tracks_pure ⟨.item _, hs, ht⟩)
      (fun _ _ ht => tracks_pure ⟨.done, hs, ht⟩) fun f f' _ _ ht => tracks_pure ⟨.failed f f', hs, ht⟩
  · exact (hp.finish limit _ _ hst.1).bind fun _ _ _ => hq.finish limit _ _ hst.2

/-- Cursors of two appended pipelines that stand at related places. -/
inductive Leg.Rel {σ τ σ' τ' : Type} (R : σ → σ' → Prop) (Q : τ → τ' → Prop) : Leg σ τ → Leg σ' τ' → Prop
  | before : Rel R Q .before .before
  | first {s : σ} {s' : σ'} (h : R s s') : Rel R Q (.first s) (.first s')
  | second {t : τ} {t' : τ'} (h : Q t t') : Rel R Q (.second t) (.second t')

theorem Similar.append (hp : Similar p p') (hq : Similar q q') :
    Similar (append p q) (append p' q') := by
  obtain ⟨R, hp⟩ := hp
  obtain ⟨Q, hq⟩ := hq
  refine similar_of_succ (Leg.Rel R Q) (tracks_pure .before)
    (fun limit ih s t hst => ?_) fun limit s t hst => ?_
  · cases hst with
    | before => exact hp.start.bind fun s s' hs => ih _ _ (.first hs)
    | @first s s' hs =>
      refine (hp.next limit s s' hs).pull (fun v _ _ hs => tracks_pure ⟨.item v, .first hs⟩)
        (fun s s' hs => ?_) fun f f' _ _ hs => tracks_pure ⟨.failed f f', .first hs⟩
      exact (hp.finish limit s s' hs).bind fun _ _ _ => hq.start.bind fun t t' ht => ih _ _ (.second ht)
    | @second t t' ht =>
      exact (hq.next limit t t' ht).bind fun _ _ h => tracks_pure ⟨h.1, .second h.2⟩
  · cases hst with
    | before => exact tracks_pure trivial
    | first hs => exact hp.finish limit _ _ hs
    | second ht => exact hq.finish limit _ _ ht

theorem Similar.concat {ps qs : List Pipe} (h : List.Forall₂ Similar ps qs) :
    Similar (concat ps) (concat qs) := by
  induction h with
  | nil => exact similar_refl _
  | cons hp _ ih => exact hp.append ih

theorem Similar.join (hp : Similar p p') (hq : Similar q q') (key : Value → Outcome (Option Text))
    (f : Value → Value → Value) : Similar (join p q key f) (join p' q' key f) := by
  obtain ⟨R, hp⟩ := hp
  obtain ⟨Q, hq⟩ := hq
  refine similar_of_succ (fun s t => s.1 = t.1 ∧ s.2.1 = t.2.1 ∧ R s.2.2 t.2.2) ?_
    (fun limit ih s t hst => ?_) fun limit s t hst => ?_
  · exact hp.start.bind fun s t hst => tracks_pure ⟨rfl, rfl, hst⟩
  · obtain ⟨table, pending, s⟩ := s
    obtain ⟨_, _, s'⟩ := t
    obtain ⟨rfl, rfl, hs⟩ := hst
    cases table with
    | none =>
      refine hq.pass limit (fun rows _ _ => ?_) fun _ f f' _ _ => tracks_pure ⟨.failed f f', rfl, rfl, hs⟩
      exact .settle (Matches.refl Stop.Kin.refl _) (fun a => ih (some a, pending, s) _ ⟨rfl, rfl, hs⟩)
        fun f f' => tracks_pure ⟨.failed f f', rfl, rfl, hs⟩
    | some table =>
      cases pending with
      | cons v pending => exact tracks_pure ⟨.item v, rfl, rfl, hs⟩
      | nil =>
        refine (hp.next limit s s' hs).pull (fun v s s' hs => ?_)
          (fun _ _ hs => tracks_pure ⟨.done, rfl, rfl, hs⟩)
          fun f f' _ _ hs => tracks_pure ⟨.failed f f', rfl, rfl, hs⟩
        refine .settle (Matches.refl Stop.Kin.refl (key v)) (fun k => ?_)
          fun f f' => tracks_pure ⟨.failed f f', rfl, rfl, hs⟩
        cases k with
        | none => exact ih (some table, [], s) (some table, [], s') ⟨rfl, rfl, hs⟩
        | some k => exact ih (some table, _, s) (some table, _, s') ⟨rfl, rfl, hs⟩
  · exact hp.finish limit s.2.2 t.2.2 hst.2.2

end Pipe

end Dataflow
