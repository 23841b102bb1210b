import Dataflow.Proofs.Pipe.Meaning
import Dataflow.Proofs.Run

/-!
# Passes

A computation over cursors takes a bound on its steps.  `Gives I x r`: with every bound from some
point on, and wherever `I` holds, `x` ends in `r` and `I` holds again.

`Yields I step s m`: pulling from the cursor `s`, one pull after another, gives the values of `m` and
then ends as `m` does.  `Resumes I step t x` says that a pull at `t` goes on as `x`; the rules that
follow it take a pull apart, and `Yields.stage` is the one induction over a pass for all stages that
work on one value at a time; most of them have no state of their own (`Yields.through`).

`Denotes I p m`: a cursor of `p` can be opened, yields `m`, and can be given back whenever one likes.
Then a whole pass gives `m` (`Denotes.collect`).
-/

namespace Dataflow.Pipe

variable {α β σ τ ι : Type} {I : Surroundings} {step : Nat → σ → Run (Pull × σ)} {step' : Nat → τ → Run (Pull × τ)}
  {s t : σ} {m : Meaning}

/-! ### Computations with enough steps -/

/-- With enough steps, `x` ends in `r` in all surroundings, and does not leave them. -/
def Gives (I : Surroundings) (x : Nat → Run α) (r : Except Halt α) : Prop :=
  ∃ bound, ∀ limit, bound ≤ limit → ∀ live : Live, I.Holds live.workspace →
    ∃ w, I.Holds w ∧ (x limit).run.run live = (r, { live with workspace := w })

theorem gives_pure (a : α) : Gives I (fun _ => pure a) (.ok a) :=
  ⟨0, fun _ _ live h => ⟨live.workspace, h, rfl⟩⟩

theorem gives_throw (e : Halt) : Gives I (fun _ => (throw e : Run α)) (.error e) :=
  ⟨0, fun _ _ live h => ⟨live.workspace, h, rfl⟩⟩

section Gives

variable {x y : Nat → Run α} {f : Nat → α → Run β} {a : α} {r : Except Halt α}
  {r' : Except Halt β} {e : Halt}

theorem Gives.bind (hx : Gives I x (.ok a)) (hf : Gives I (fun l => f l a) r') :
    Gives I (fun l => x l >>= f l) r' := by
  obtain ⟨b, hx⟩ := hx
  obtain ⟨b', hf⟩ := hf
  refine ⟨max b b', fun l hl live hlive => ?_⟩
  obtain ⟨w, hw, hrun⟩ := hx l (by omega) live hlive
  obtain ⟨w', hw', hrun'⟩ := hf l (by omega) { live with workspace := w } hw
  exact ⟨w', hw', by rw [run_bind_ok hrun, hrun']⟩

theorem Gives.bind_error (hx : Gives I x (.error e)) : Gives I (fun l => x l >>= f l) (.error e) := by
  obtain ⟨b, hx⟩ := hx
  refine ⟨b, fun l hl live hlive => ?_⟩
  obtain ⟨w, hw, hrun⟩ := hx l hl live hlive
  exact ⟨w, hw, run_bind_error hrun⟩

theorem Gives.congr (h : Gives I y r) (b : Nat) (hxy : ∀ l, b ≤ l → x l = y l) : Gives I x r := by
  obtain ⟨b', h⟩ := h
  refine ⟨max b b', fun l hl => ?_⟩
  rw [hxy l (by omega)]
  exact h l (by omega)

theorem Gives.succ (h : Gives I (fun l => x (l + 1)) r) : Gives I x r := by
  obtain ⟨b, h⟩ := h
  refine ⟨b + 1, fun l hl => ?_⟩
  obtain ⟨k, rfl⟩ : ∃ k, l = k + 1 := ⟨l - 1, by omega⟩
  exact h k (by omega)

end Gives

/-- A result as part of a run: a failure is a value, a crash is not. -/
def settled : Outcome α → Except Halt (Except Failure α)
  | .ok a => .ok (.ok a)
  | .error (.failure f) => .ok (.error f)
  | .error .crash => .error .crash

theorem gives_settle (o : Outcome α) : Gives I (fun _ => settle o) (settled o) := by
  rcases o with (f | _) | a
  · exact gives_pure _
  · exact gives_throw _
  · exact gives_pure _

theorem gives_effect {w : Workspace} {e : Effect α} (h : Steady I w e) :
    Gives I (fun _ => effect e) (settled (e.run.run w).1) := by
  refine ⟨0, fun _ _ live hlive => ?_⟩
  obtain ⟨hsame, hkeeps⟩ := h live.workspace hlive
  refine ⟨_, hkeeps, ?_⟩
  rw [← hsame]
  unfold effect
  rw [run_get_bind]
  rcases e.run.run live.workspace with ⟨(f | _) | a, w'⟩ <;> rfl

theorem gives_isCancelled : Gives I (fun _ => isCancelled) (.ok false) := by
  refine ⟨0, fun _ _ _ hlive => ⟨_, hlive, ?_⟩⟩
  unfold isCancelled
  rw [run_get_bind, I.live _ hlive]
  rfl

theorem gives_note (h : ∀ v n, I.Holds v → I.Holds { v with notes := v.notes ++ [n] }) (n : Note) :
    Gives I (fun _ => note n) (.ok ()) :=
  ⟨0, fun _ _ _ hlive => ⟨_, h _ n hlive, rfl⟩⟩

theorem gives_takeItem_nil : Gives I (fun _ => takeItem []) (.ok (.done, [])) := by
  unfold takeItem
  exact gives_isCancelled.bind (gives_pure _)

theorem gives_takeItem_cons (x : Value) (xs : List Value) :
    Gives I (fun _ => takeItem (x :: xs)) (.ok (.item x, xs)) := by
  unfold takeItem
  exact gives_isCancelled.bind (gives_pure _)

/-! ### Pulls -/

/-- Pulls from a cursor give the values of a meaning and end as it does. -/
inductive Yields (I : Surroundings) (step : Nat → σ → Run (Pull × σ)) : σ → Meaning → Prop
  | done {s s' : σ} (h : Gives I (step · s) (.ok (.done, s'))) : Yields I step s (.ofList [])
  | failed {s s' : σ} {f : Failure} (h : Gives I (step · s) (.ok (.failed f, s'))) :
    Yields I step s (.stopped (.failure f))
  | crashed {s : σ} (h : Gives I (step · s) (.error .crash)) : Yields I step s (.stopped .crash)
  | item {s s' : σ} {v : Value} {m : Meaning} (h : Gives I (step · s) (.ok (.item v, s')))
    (hm : Yields I step s' m) : Yields I step s (m.cons v)

/-- A pull at `t` goes on as `x`. -/
def Resumes (I : Surroundings) (step : Nat → σ → Run (Pull × σ)) (t : σ)
    (x : Nat → Run (Pull × σ)) : Prop :=
  ∀ r, Gives I x r → Gives I (step · t) r

section Resumes

variable {t' : σ} {x : Nat → Run α}
  {c : Nat → α → Run (Pull × σ)}

theorem resumes_of_eq {x : Nat → Run (Pull × σ)} (h : ∀ l, step (l + 1) t = x l) :
    Resumes I step t x := by
  intro r hr
  refine Gives.succ ?_
  simpa only [h] using hr

theorem Resumes.bind {a : α} (h : Resumes I step t fun l => x l >>= c l) (hx : Gives I x (.ok a)) :
    Resumes I step t fun l => c l a :=
  fun r hr => h r (hx.bind hr)

theorem Resumes.crashed (h : Resumes I step t fun l => x l >>= c l) (hx : Gives I x (.error .crash)) :
    Yields I step t (.stopped .crash) :=
  .crashed (h _ hx.bind_error)

theorem Resumes.done (h : Resumes I step t fun _ => pure (.done, t')) : Yields I step t (.ofList []) :=
  .done (h _ (gives_pure _))

theorem Resumes.failed {f : Failure} (h : Resumes I step t fun _ => pure (.failed f, t')) :
    Yields I step t (.stopped (.failure f)) :=
  .failed (h _ (gives_pure _))

theorem Resumes.item {v : Value} (h : Resumes I step t fun _ => pure (.item v, t'))
    (hm : Yields I step t' m) : Yields I step t (m.cons v) :=
  .item (h _ (gives_pure _)) hm

/-- A pull that goes on as one at another cursor. -/
theorem Resumes.yields (h : Resumes I step t (step · t')) (hm : Yields I step t' m) :
    Yields I step t m := by
  cases hm with
  | done hs => exact .done (h _ hs)
  | failed hs => exact .failed (h _ hs)
  | crashed hs => exact .crashed (h _ hs)
  | item hs hm => exact .item (h _ hs) hm

/-- A pull that waits for a result and reports its failure. -/
theorem Resumes.after {o : Outcome α} {x : Nat → Run (Except Failure α)}
    {c : Nat → Except Failure α → Run (Pull × σ)} {next : α → Meaning}
    (h : Resumes I step t fun l => x l >>= c l) (hx : Gives I x (settled o))
    (hfail : ∀ e, ∃ t', ∀ l, c l (.error e) = pure (.failed e, t'))
    (hok : ∀ a, Resumes I step t (fun l => c l (.ok a)) → Yields I step t (next a)) :
    Yields I step t (.after o next) := by
  rcases o with (e | _) | a
  · obtain ⟨t', ht'⟩ := hfail e
    have hres := h.bind hx
    simp only [ht'] at hres
    exact hres.failed
  · exact h.crashed hx
  · exact hok a (h.bind hx)

end Resumes

/-- A pass of a stage that pulls one value at a time and passes the end on.  The stage has a state of
its own, the index; what it does with a value is told by `hitem`. -/
theorem Yields.stage (e : ι → σ → τ) (F : ι → Meaning → Meaning) (k : ι → Nat → Pull × σ → Run (Pull × τ))
    (hstep : ∀ i s, Resumes I step' (e i s) fun l => step l s >>= k i l)
    (hdone : ∀ i s, ∃ t, ∀ l, k i l (.done, s) = pure (.done, t))
    (hfailed : ∀ i f s, ∃ t, ∀ l, k i l (.failed f, s) = pure (.failed f, t))
    (hnil : ∀ i stop, F i ⟨[], stop⟩ = ⟨[], stop⟩)
    (hitem : ∀ i t s' v m, Resumes I step' t (fun l => k i l (.item v, s')) →
      (∀ j, Yields I step' (e j s') (F j m)) → Yields I step' t (F i (m.cons v)))
    (h : Yields I step s m) (i : ι) : Yields I step' (e i s) (F i m) := by
  induction h generalizing i with
  | @done s s' h =>
    have hres := (hstep i s).bind h
    obtain ⟨t, ht⟩ := hdone i s'
    simp only [ht] at hres
    exact (hnil i none).symm ▸ hres.done
  | @failed s s' f h =>
    have hres := (hstep i s).bind h
    obtain ⟨t, ht⟩ := hfailed i f s'
    simp only [ht] at hres
    exact (hnil i (some (.failure f))).symm ▸ hres.failed
  | @crashed s h => exact (hnil i (some .crash)).symm ▸ (hstep i s).crashed h
  | @item s s' v m h _ ih => exact hitem i _ s' v m ((hstep i s).bind h) ih

/-- A pass of a stage that has no state of its own. -/
theorem Yields.through (e : σ → τ) (F : Meaning → Meaning) (k : Nat → Pull × σ → Run (Pull × τ))
    (hstep : ∀ s, Resumes I step' (e s) fun l => step l s >>= k l)
    (hdone : ∀ s, ∃ t, ∀ l, k l (.done, s) = pure (.done, t))
    (hfailed : ∀ f s, ∃ t, ∀ l, k l (.failed f, s) = pure (.failed f, t))
    (hnil : ∀ stop, F ⟨[], stop⟩ = ⟨[], stop⟩)
    (hitem : ∀ t s' v m, Resumes I step' t (fun l => k l (.item v, s')) →
      Yields I step' (e s') (F m) → Yields I step' t (F (m.cons v)))
    (h : Yields I step s m) : Yields I step' (e s) (F m) :=
  h.stage (ι := Unit) (fun _ => e) (fun _ => F) (fun _ => k) (fun _ => hstep) (fun _ => hdone)
    (fun _ => hfailed) (fun _ => hnil) (fun _ t s' v m hres ih => hitem t s' v m hres (ih ())) ()

/-- A pass over a cursor under another name. -/
theorem Yields.relabel (e : σ → τ)
    (hstep : ∀ s, Resumes I step' (e s) fun l => step l s >>= fun r => pure (r.1, e r.2))
    (h : Yields I step s m) : Yields I step' (e s) m :=
  h.through e (fun m => m) (fun _ r => pure (r.1, e r.2)) hstep (fun s => ⟨e s, fun _ => rfl⟩)
    (fun _ s => ⟨e s, fun _ => rfl⟩) (fun _ => rfl) fun _ _ _ _ hres hm => hres.item hm

/-! ### Whole passes -/

/-- A cursor can be opened and yields the meaning; any cursor can be given back. -/
structure Denotes (I : Surroundings) (p : Pipe) (m : Meaning) : Prop where
  opens : ∃ s, Gives I (fun _ => start p) (.ok s) ∧ Yields I (fun l => next l p) s m
  closes : ∀ s, Gives I (fun l => finish l p s) (.ok ())

/-- Draining begins with a pull. -/
theorem gives_drain {seen : List Value} {fuel : Nat → Nat}
    {b : Nat} {r : Except Halt ((List Value × Option Failure) × σ)} (hfuel : ∀ l, b ≤ l → 0 < fuel l)
    (h : Gives I (fun l => do
      match ← step l s with
      | (.item v, s) => drain (step l) (fuel l - 1) (v :: seen) s
      | (.done, s) => return ((seen.reverse, none), s)
      | (.failed f, s) => return ((seen.reverse, some f), s)) r) :
    Gives I (fun l => drain (step l) (fuel l) seen s) r := by
  refine h.congr b fun l hl => ?_
  obtain ⟨k, hk⟩ : ∃ k, fuel l = k + 1 := ⟨fuel l - 1, by have := hfuel l hl; omega⟩
  rw [hk]
  rfl

/-- Draining a cursor takes one step for each value and one for the end. -/
theorem Yields.drain (h : Yields I step s m)
    (seen : List Value) (fuel : Nat → Nat) (b : Nat) (hfuel : ∀ l, b ≤ l → m.values.length < fuel l) :
    ∃ s', Gives I (fun l => Pipe.drain (step l) (fuel l) seen s)
      ((m.prepend seen.reverse).result.map fun r => (r, s')) := by
  induction h generalizing seen fuel with
  | @done s s' h =>
    refine ⟨s', gives_drain hfuel ?_⟩
    have hresult : ((Meaning.ofList []).prepend seen.reverse).result = .ok (seen.reverse, none) := by
      simp [Meaning.result, Meaning.ending, Meaning.prepend, Meaning.ofList]
    rw [hresult]
    exact h.bind (gives_pure _)
  | @failed s s' f h =>
    refine ⟨s', gives_drain hfuel ?_⟩
    have hresult : ((Meaning.stopped (.failure f)).prepend seen.reverse).result =
        .ok (seen.reverse, some f) := by
      simp [Meaning.result, Meaning.ending, Meaning.prepend, Meaning.stopped]
    rw [hresult]
    exact h.bind (gives_pure _)
  | @crashed s h => exact ⟨s, gives_drain hfuel h.bind_error⟩
  | @item s s' v m h _ ih =>
    have hlength : ∀ l, b ≤ l → m.values.length + 1 < fuel l := hfuel
    obtain ⟨s'', hs''⟩ := ih (v :: seen) (fun l => fuel l - 1)
      fun l hl => by have := hlength l hl; omega
    have hresult : (m.cons v).prepend seen.reverse = m.prepend (v :: seen).reverse := by
      simp [Meaning.prepend, Meaning.cons]
    rw [hresult]
    exact ⟨s'', gives_drain (fun l hl => Nat.zero_lt_of_lt (hlength l hl)) (h.bind hs'')⟩

theorem Denotes.collect {p : Pipe} (h : Denotes I p m) : Gives I (fun l => p.collect l) m.result := by
  obtain ⟨s, hs, hm⟩ := h.opens
  obtain ⟨s', hs'⟩ := hm.drain [] id (m.values.length + 1) fun l hl => hl
  unfold Pipe.collect
  refine hs.bind ?_
  rw [show m.prepend [].reverse = m from rfl] at hs'
  cases hresult : m.result with
  | ok r =>
    rw [hresult] at hs'
    exact hs'.bind ((h.closes s').bind (gives_pure r))
  | error e =>
    rw [hresult] at hs'
    exact hs'.bind_error

/-- A pass as an effect of its own. -/
theorem Denotes.collected {p : Pipe} (h : Denotes I p m) :
    ∃ bound, ∀ limit, bound ≤ limit → ∀ w, I.Holds w → ∃ w', I.Holds w' ∧
      (p.collected limit).run.run w = (m.outcome, w') := by
  obtain ⟨bound, hbound⟩ := h.collect
  refine ⟨bound, fun limit hlimit w hw => ?_⟩
  obtain ⟨w', hw', hrun⟩ := hbound limit hlimit { workspace := w } hw
  refine ⟨w', hw', ?_⟩
  unfold Pipe.collected
  rw [run_get_bind, hrun]
  unfold Meaning.result Meaning.outcome Meaning.ending
  rcases m.stop with _ | (f | _) <;> rfl

theorem collect_bind (l : Nat) (p : Pipe) (k : List Value × Option Failure → Run α) :
    p.collect l >>= k = start p >>= fun s => drain (next l p) l [] s >>= fun r =>
      finish l p r.2 >>= fun _ => k r.1 := by
  simp only [Pipe.collect, bind_assoc, pure_bind]

/-- A pull that makes a whole pass first and reports its failure. -/
theorem Resumes.whole {p : Pipe}
    {c : Nat → List Value × Option Failure → Run (Pull × σ)} {next : List Value → Meaning}
    (h : Resumes I step t fun l => p.collect l >>= c l) (hp : Denotes I p m)
    (hfail : ∀ vs e, ∃ t', ∀ l, c l (vs, some e) = pure (.failed e, t'))
    (hok : Resumes I step t (fun l => c l (m.values, none)) → Yields I step t (next m.values)) :
    Yields I step t (m.whole next) := by
  have hp := hp.collect
  unfold Meaning.result Meaning.ending at hp
  unfold Meaning.whole
  rcases hstop : m.stop with _ | (e | _) <;> rw [hstop] at hp
  · exact hok (h.bind hp)
  · obtain ⟨t', ht'⟩ := hfail m.values e
    have hres := h.bind hp
    simp only [ht'] at hres
    exact hres.failed
  · exact h.crashed hp

end Dataflow.Pipe
