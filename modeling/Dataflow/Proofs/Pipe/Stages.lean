import Dataflow.Proofs.Pipe.Pass

/-!
# The stages of pipelines

One statement for each stage: if the pipelines it is built on denote meanings, the stage denotes the
operation on meanings that stands for it.  By induction on the pipeline, one all of whose stages start afresh
and have steady effects denotes its meaning.  So a pass ends, and with the values of the meaning and its
failure (`Pipe.collect_refines`).
-/

namespace Dataflow.Pipe

open List Resumes
open Meaning (width slide after_map zip_nil zip_cons_nil expand_cons windowsAfter matching ofList)

variable {I : Surroundings} {w : Workspace} {p q : Pipe} {m m' : Meaning}

/-! ### Sources -/

theorem denotes_items (xs : List Value) : Denotes I (items xs) (.ofList xs) := by
  have hyields : ∀ ys : List Value, Yields I (fun l => next l (items xs)) ys (.ofList ys) := by
    intro ys
    induction ys with
    | nil => exact .done (.succ gives_takeItem_nil)
    | cons y ys ih => exact .item (.succ (gives_takeItem_cons y ys)) ih
  exact ⟨⟨xs, gives_pure xs, hyields xs⟩, fun _ => .succ (gives_pure ())⟩

theorem denotes_nothing : Denotes I nothing (.ofList []) :=
  ⟨⟨(), gives_pure (), .done (.succ (gives_pure _))⟩, fun _ => .succ (gives_pure ())⟩

theorem denotes_failing (xs : List Value) (f : Failure) :
    Denotes I (failing xs f) ⟨xs, some (.failure f)⟩ := by
  have hyields : ∀ ys : List Value,
      Yields I (fun l => next l (failing xs f)) ys ⟨ys, some (.failure f)⟩ := by
    intro ys
    induction ys with
    | nil => exact .failed (.succ (gives_pure _))
    | cons y ys ih => exact .item (.succ (gives_pure _)) ih
  exact ⟨⟨xs, gives_pure xs, hyields xs⟩, fun _ => .succ (gives_pure ())⟩

theorem denotes_feed {load : Effect (List (Except Failure Value))} (h : Steady I w load) :
    Denotes I (feed load) (.after (load.run.run w).1 .ofResults) := by
  have hyields : ∀ rs, Yields I (fun l => next l (feed load)) (some rs) (.ofResults rs) := by
    intro rs
    induction rs with
    | nil => exact .done (.succ (gives_isCancelled.bind (gives_pure _)))
    | cons r rs ih =>
      cases r with
      | ok v => exact .item (.succ (gives_isCancelled.bind (gives_pure _))) ih
      | error f => exact .failed (.succ (gives_isCancelled.bind (gives_pure _)))
  refine ⟨⟨none, gives_pure none, ?_⟩, fun _ => .succ (gives_pure ())⟩
  have hres : Resumes I (fun l => next l (feed load)) none _ :=
    bind (resumes_of_eq fun l => rfl) gives_isCancelled
  refine after hres (gives_effect h) (fun e => ⟨some [], fun _ => rfl⟩) fun rs hres => ?_
  rcases rs with _ | ⟨f | v, rs⟩
  · exact hres.done
  · exact hres.failed
  · exact hres.item (hyields rs)

/-- A pull that goes on over values at hand, kept as the cursor from then on. -/
theorem Resumes.loaded {step : Nat → Option (List Value) → Run (Pull × Option (List Value))}
    {t : Option (List Value)} {xs : List Value}
    (hstep : ∀ l ys, step (l + 1) (some ys) = takeItem ys >>= fun r => pure (r.1, some r.2))
    (h : Resumes I step t fun _ => takeItem xs >>= fun r => pure (r.1, some r.2)) :
    Yields I step t (.ofList xs) := by
  induction xs generalizing t with
  | nil => exact (h.bind gives_takeItem_nil).done
  | cons x xs ih =>
    exact (h.bind (gives_takeItem_cons x xs)).item (ih (resumes_of_eq fun l => hstep l xs))

theorem denotes_deferred {load : Effect (List Value)} (h : Steady I w load) :
    Denotes I (deferred load) (.after (load.run.run w).1 .ofList) := by
  refine ⟨⟨none, gives_pure none, ?_⟩, fun _ => .succ (gives_pure ())⟩
  have hres : Resumes I (fun l => next l (deferred load)) none _ := resumes_of_eq fun l => rfl
  refine after hres (gives_effect h) (fun e => ⟨some [], fun _ => rfl⟩) fun xs hres => ?_
  exact hres.loaded fun l ys => rfl

/-- The first pull of a gathering stage is a pass over the pipeline, and one over what is made of it. -/
theorem resumes_gather (p : Pipe) (f : List Value → Effect (List Value)) :
    Resumes I (fun l => next l (gather p f)) none fun l => p.collect l >>= fun r =>
      match r with
      | (_, some e) => pure (.failed e, some [])
      | (xs, none) => effect (f xs) >>= fun loaded =>
        match loaded with
        | .error e => pure (.failed e, some [])
        | .ok xs => takeItem xs >>= fun r => pure (r.1, some r.2) := by
  refine resumes_of_eq fun l => ?_
  rw [collect_bind]
  rfl

theorem Denotes.gather {f : List Value → Effect (List Value)} (hp : Denotes I p m)
    (hf : ∀ vs, Steady I w (f vs)) :
    Denotes I (gather p f) (m.whole fun vs => .after ((f vs).run.run w).1 .ofList) := by
  refine ⟨⟨none, gives_pure none, ?_⟩, fun _ => .succ (gives_pure ())⟩
  refine (resumes_gather p f).whole hp (fun vs e => ⟨some [], fun _ => rfl⟩) fun hres => ?_
  refine after hres (gives_effect (hf m.values)) (fun e => ⟨some [], fun _ => rfl⟩)
    fun xs hres => ?_
  exact hres.loaded fun l ys => rfl

/-! ### One value at a time -/

theorem Denotes.observed (hp : Denotes I p m) (name : Text)
    (hnotes : ∀ v n, I.Holds v → I.Holds { v with notes := v.notes ++ [n] }) :
    Denotes I (observed name p) m := by
  obtain ⟨s, hs, hm⟩ := hp.opens
  have hnote := gives_note hnotes
  refine ⟨⟨s, (hnote (.said ("open " ++ name))).bind hs, ?_⟩, fun s =>
    .succ ((hnote (.said ("close " ++ name))).bind (hp.closes s))⟩
  refine hm.relabel id fun s => ?_
  have hres : Resumes I (fun l => next l (Pipe.observed name p)) s _ :=
    bind (resumes_of_eq fun l => rfl) (hnote (.said ("next " ++ name)))
  intro r (hr : Gives I (fun l => next l p s >>= pure) r)
  have hr : Gives I (fun l => next l p s) r := by simpa only [bind_pure] using hr
  exact hres r hr

theorem resumes_buffer (p : Pipe) (size : Int) (s : p.State) :
    Resumes I (fun l => next l (buffer p size)) (false, s) fun l => next l p s >>= fun r =>
      match r with
      | (.item v, s) => pure (.item v, (false, s))
      | (r, s) => pure (r, (true, s)) := by
  have hres : Resumes I (fun l => next l (buffer p size)) (false, s) _ :=
    bind (resumes_of_eq fun l => rfl) gives_isCancelled
  exact hres

section

variable (hp : Denotes I p m)

include hp

theorem Denotes.buffer {size : Int} (hsize : size ≤ maxBuffer) :
    Denotes I (buffer p size) m := by
  obtain ⟨s, hs, hm⟩ := hp.opens
  have hroom : ¬ maxBuffer < size := Int.not_lt.mpr hsize
  refine ⟨⟨(false, s), hs.bind ((gives_pure _).congr 0 fun _ _ => if_neg hroom), ?_⟩, fun s =>
    .succ (hp.closes s.2)⟩
  exact hm.through (fun s => (false, s)) (fun m => m) _ (resumes_buffer p size) (fun s => ⟨(true, s), fun _ => rfl⟩)
    (fun _ s => ⟨(true, s), fun _ => rfl⟩) (fun _ => rfl) fun _ _ _ _ hres hm => hres.item hm

theorem Denotes.map (f : Value → Outcome Value) : Denotes I (map p f) (m.map f) := by
  obtain ⟨s, hs, hm⟩ := hp.opens
  refine ⟨⟨s, hs, ?_⟩, fun s => .succ (hp.closes s)⟩
  refine hm.through (fun s => s) (fun m => m.map f) _ (fun s => resumes_of_eq fun l => rfl)
    (fun s => ⟨s, fun _ => rfl⟩) (fun _ s => ⟨s, fun _ => rfl⟩) (fun _ => rfl) ?_
  intro _ s' v m hres hm
  rw [Meaning.map_cons]
  exact after hres (gives_settle (f v)) (fun e => ⟨s', fun _ => rfl⟩)
    fun v' hres => hres.item hm

theorem Denotes.filter (f : Value → Outcome Bool) :
    Denotes I (filter p f) (m.filter f) := by
  obtain ⟨s, hs, hm⟩ := hp.opens
  refine ⟨⟨s, hs, ?_⟩, fun s => .succ (hp.closes s)⟩
  refine hm.through (fun s => s) (fun m => m.filter f) _ (fun s => resumes_of_eq fun l => rfl)
    (fun s => ⟨s, fun _ => rfl⟩) (fun _ s => ⟨s, fun _ => rfl⟩) (fun _ => rfl) ?_
  intro _ s' v m hres hm
  rw [Meaning.filter, expand_cons, after_map]
  refine after hres (gives_settle (f v)) (fun e => ⟨s', fun _ => rfl⟩) fun keep hres => ?_
  cases keep with
  | true => exact hres.item hm
  | false => exact hres.yields hm

theorem Denotes.tap (f : Value → Outcome Value)
    (hnotes : ∀ v n, I.Holds v → I.Holds { v with notes := v.notes ++ [n] }) :
    Denotes I (tap p f) (m.map fun v => (f v).map fun _ => v) := by
  obtain ⟨s, hs, hm⟩ := hp.opens
  refine ⟨⟨s, hs, ?_⟩, fun s => .succ (hp.closes s)⟩
  refine hm.through (fun s => s) (fun m => m.map fun v => (f v).map fun _ => v) _ (fun s => resumes_of_eq fun l => rfl)
    (fun s => ⟨s, fun _ => rfl⟩) (fun _ s => ⟨s, fun _ => rfl⟩) (fun _ => rfl) ?_
  intro _ s' v m hres hm
  rw [Meaning.map_cons, after_map]
  exact after (hres.bind (gives_note hnotes (.saw v))) (gives_settle (f v))
    (fun e => ⟨s', fun _ => rfl⟩) fun _ hres => hres.item hm

theorem Denotes.reduce (init : Value) (f : Value → Value → Outcome Value) :
    Denotes I (reduce p init f) (m.reduce init f) := by
  obtain ⟨s, hs, hm⟩ := hp.opens
  refine ⟨⟨(some init, s), hs.bind (gives_pure _), ?_⟩, fun s => .succ (hp.closes s.2)⟩
  suffices ∀ acc, Yields I (fun l => next l (Pipe.reduce p init f)) (some acc, s) (m.reduce acc f) from
    this init
  intro acc
  clear hp hs
  have hstep : ∀ acc s, Resumes I (fun l => next l (Pipe.reduce p init f)) (some acc, s) _ :=
    fun acc s => resumes_of_eq fun l => rfl
  induction hm generalizing acc with
  | @done s s' h =>
    have hlast : Yields I (fun l => next l (Pipe.reduce p init f)) (none, s') (.ofList []) :=
      .done (.succ (gives_pure _))
    exact ((hstep acc s).bind h).item hlast
  | @failed s s' e h => exact ((hstep acc s).bind h).failed
  | @crashed s h => exact (hstep acc s).crashed h
  | @item s s' v m h _ ih =>
    rw [Meaning.reduce_cons]
    exact after ((hstep acc s).bind h) (gives_settle (f acc v))
      (fun e => ⟨(some .null, s'), fun _ => rfl⟩) fun acc hres => hres.yields (ih acc)

theorem Denotes.sliding (size : Int) :
    Denotes I (sliding p size) (m.sliding size) := by
  obtain ⟨s, hs, hm⟩ := hp.opens
  refine ⟨⟨([], s), hs.bind (gives_pure _), ?_⟩, fun s => .succ (hp.closes s.2)⟩
  have hwidth := Meaning.width_pos size
  have hstep : ∀ b s, Resumes I (fun l => next l (Pipe.sliding p size)) (b, s) _ :=
    fun b s => resumes_of_eq fun l => rfl
  have hyields := hm.stage (fun b s => (b, s))
    (fun b m => ⟨(windowsAfter (width size) b m.values).map .list, m.stop⟩) _ hstep
    (fun b s => ⟨(b, s), fun _ => rfl⟩) (fun b _ s => ⟨(b, s), fun _ => rfl⟩) ?_ ?_ []
  · simp only [windowsAfter, drop_nil, nil_append] at hyields
    exact hyields
  · intro b stop
    rw [Meaning.windowsAfter_nil hwidth, map_nil]
  · intro b t s' v m hres ih
    have hres : Resumes I (fun l => next l (Pipe.sliding p size)) t fun l =>
        if (slide (width size) b v).length = width size then
          pure (.item (.list (slide (width size) b v)),
            (slide (width size) b v, s'))
        else next l (Pipe.sliding p size) (slide (width size) b v, s') := hres
    rw [Meaning.cons, Meaning.windowsAfter_cons hwidth]
    split at hres
    · next hfull =>
      rw [if_pos hfull]
      exact hres.item (ih _)
    · next hfull =>
      rw [if_neg hfull]
      exact hres.yields (ih _)

/-! ### Several pipelines -/

theorem Denotes.append (hq : Denotes I q m') : Denotes I (append p q) (m.append m') := by
  obtain ⟨s, hs, hm⟩ := hp.opens
  obtain ⟨t, ht, hm'⟩ := hq.opens
  refine ⟨⟨.before, gives_pure _, ?_⟩, ?_⟩
  · have hsecond : Yields I (fun l => next l (Pipe.append p q)) (.second t) m' :=
      hm'.relabel Leg.second fun t => resumes_of_eq fun l => rfl
    have hfirst : Yields I (fun l => next l (Pipe.append p q)) (.first s) (m.append m') := by
      have hstep : ∀ s, Resumes I (fun l => next l (Pipe.append p q)) (.first s) _ :=
        fun s => resumes_of_eq fun l => rfl
      have hcloses := hp.closes
      clear hp hs
      induction hm with
      | @done s s' h => exact ((((hstep s).bind h).bind (hcloses s')).bind ht).yields hsecond
      | @failed s s' f h => exact ((hstep s).bind h).failed
      | @crashed s h => exact (hstep s).crashed h
      | @item s s' v m h _ ih => exact Meaning.append_cons v m m' ▸ ((hstep s).bind h).item ih
    have hres : Resumes I (fun l => next l (Pipe.append p q)) .before _ :=
      bind (resumes_of_eq fun l => rfl) hs
    exact hres.yields hfirst
  · rintro (_ | s | t)
    · exact .succ (gives_pure ())
    · exact .succ (hp.closes s)
    · exact .succ (hq.closes t)

theorem Denotes.fallback (hq : Denotes I q m') :
    Denotes I (fallback p q) (m.fallback m') := by
  obtain ⟨s, hs, hm⟩ := hp.opens
  obtain ⟨t, ht, hm'⟩ := hq.opens
  refine ⟨⟨.primary false s, hs.bind (gives_pure _), ?_⟩, ?_⟩
  · have hsecond : Yields I (fun l => next l (Pipe.fallback p q)) (.secondary t) m' :=
      hm'.relabel Attempt.secondary fun t => resumes_of_eq fun l => rfl
    have hstep : ∀ s, Resumes I (fun l => next l (Pipe.fallback p q)) (.primary false s) _ :=
      fun s => resumes_of_eq fun l => rfl
    cases hm with
    | @done s s' h | @failed s s' f h =>
      exact ((((hstep s).bind h).bind (hp.closes s')).bind ht).yields hsecond
    | @crashed s h => exact (hstep s).crashed h
    | @item s s' v m h hm =>
      have hcommitted : Yields I (fun l => next l (Pipe.fallback p q)) (.primary true s') m :=
        hm.relabel (Attempt.primary true) fun s => resumes_of_eq fun l => rfl
      exact ((hstep s).bind h).item hcommitted
  · rintro (⟨_, s⟩ | t)
    · exact .succ (hp.closes s)
    · exact .succ (hq.closes t)

theorem Denotes.zip (hq : Denotes I q m') (f : Value → Value → Value) :
    Denotes I (zip p q f) (m.zip f m') := by
  obtain ⟨s, hs, hm⟩ := hp.opens
  obtain ⟨t, ht, hm'⟩ := hq.opens
  refine ⟨⟨(s, t), hs.bind (ht.bind (gives_pure _)), ?_⟩, fun s =>
    .succ ((hp.closes s.1).bind (hq.closes s.2))⟩
  have hstep : ∀ s t, Resumes I (fun l => next l (Pipe.zip p q f)) (s, t) _ :=
    fun s t => resumes_of_eq fun l => rfl
  clear hp hq hs ht
  induction hm generalizing t m' with
  | @done s s' h => exact zip_nil f none m' ▸ ((hstep s t).bind h).done
  | @failed s s' e h => exact zip_nil f (some (.failure e)) m' ▸ ((hstep s t).bind h).failed
  | @crashed s h => exact zip_nil f (some .crash) m' ▸ (hstep s t).crashed h
  | @item s s' v m h _ ih =>
    have hres := (hstep s t).bind h
    cases hm' with
    | done h' => exact zip_cons_nil f v m none ▸ (bind hres h').done
    | @failed _ _ e h' =>
      exact zip_cons_nil f v m (some (.failure e)) ▸ (bind hres h').failed
    | crashed h' => exact zip_cons_nil f v m (some .crash) ▸ crashed hres h'
    | @item _ t' v' m' h' hm' =>
      exact Meaning.zip_cons_cons f v v' m m' ▸ (bind hres h').item (ih t' hm')

end

/-- Values kept ready in the cursor come before the rest. -/
theorem Yields.prepend {σ : Type} {step : Nat → σ → Run (Pull × σ)} {e : List Value → σ}
    (hstep : ∀ l v vs, step (l + 1) (e (v :: vs)) = pure (.item v, e vs))
    (h : Yields I step (e []) m) (vs : List Value) : Yields I step (e vs) (m.prepend vs) := by
  induction vs with
  | nil => exact h
  | cons v vs ih => exact (resumes_of_eq fun l => hstep l v vs).item ih

/-- The first pull of a join is a pass over the right pipeline, and one with the table of its rows. -/
theorem resumes_hashJoin (p q : Pipe) (leftKey rightKey : Value → Outcome (Option Text))
    (f : Value → Value → Value) (s : p.State) :
    Resumes I (fun l => next l (hashJoin p q leftKey rightKey f)) (none, [], s)
      fun l => q.collect l >>= fun r =>
        match r.2 with
        | some e => pure (.failed e, (none, [], s))
        | none =>
          settle (r.1.filterMapM fun r => return (← rightKey r).map (·, r)) >>= fun table =>
            match table with
            | .error e => pure (.failed e, (none, [], s))
            | .ok table => next l (hashJoin p q leftKey rightKey f) (some table, [], s) := by
  refine resumes_of_eq fun l => ?_
  rw [collect_bind]
  rfl

theorem Denotes.hashJoin (hp : Denotes I p m) (hq : Denotes I q m')
    (leftKey rightKey : Value → Outcome (Option Text)) (f : Value → Value → Value) :
    Denotes I (hashJoin p q leftKey rightKey f) (m.join leftKey rightKey f m') := by
  obtain ⟨s, hs, hm⟩ := hp.opens
  refine ⟨⟨(none, [], s), hs.bind (gives_pure _), ?_⟩, fun s => .succ (hp.closes s.2.2)⟩
  have htable : ∀ table, Yields I (fun l => next l (Pipe.hashJoin p q leftKey rightKey f))
      (some table, [], s) (m.expand fun v => (leftKey v).map (matching f table v)) := by
    intro table
    refine hm.through (fun s => (some table, [], s))
      (fun m => m.expand fun v => (leftKey v).map (matching f table v)) _
      (fun s => resumes_of_eq fun l => rfl) (fun s => ⟨(some table, [], s), fun _ => rfl⟩)
      (fun _ s => ⟨(some table, [], s), fun _ => rfl⟩) (fun _ => rfl) ?_
    intro _ s' v m hres hm
    rw [expand_cons, after_map]
    refine after hres (gives_settle (leftKey v)) (fun e => ⟨(some table, [], s'), fun _ => rfl⟩)
      fun k hres => ?_
    cases k with
    | none => exact hres.yields hm
    | some k =>
      exact hres.yields (Yields.prepend (e := fun vs => (some table, vs, s')) (fun l v vs => rfl) hm _)
  refine (resumes_hashJoin p q leftKey rightKey f s).whole hq (fun vs e => ⟨(none, [], s), fun _ => rfl⟩) fun hres => ?_
  exact after hres (gives_settle _) (fun e => ⟨(none, [], s), fun _ => rfl⟩)
    fun table hres => hres.yields (htable table)

/-! ### Batches -/

section Fill

variable {σ : Type} {step : Nat → σ → Run (Pull × σ)} {s : σ}

/-- With enough values to come, a batch is filled. -/
theorem Yields.fill (h : Yields I step s m) {n : Nat} (hn : n ≤ m.values.length) (seen : List Value) :
    ∃ s', Gives I (fun l => Pipe.fill (step l) n seen s)
        (.ok (.ok (seen.reverse ++ m.values.take n, false), s')) ∧
      Yields I step s' ⟨m.values.drop n, m.stop⟩ := by
  induction n generalizing s m seen with
  | zero =>
    rw [take_zero, append_nil]
    exact ⟨s, gives_pure _, h⟩
  | succ n ih =>
    cases h with
    | done _ => simp [ofList] at hn
    | failed _ | crashed _ => simp [Meaning.stopped] at hn
    | @item _ s' v m h hm =>
      obtain ⟨s'', hfill, hrest⟩ := ih hm (Nat.le_of_succ_le_succ hn) (v :: seen)
      refine ⟨s'', h.bind ?_, hrest⟩
      simpa [Meaning.cons] using hfill

/-- How filling a batch ends if the pass ends first. -/
def cutShort (seen : List Value) (stop : Option Stop) (s : σ) :
    Except Halt (Except Failure (List Value × Bool) × σ) :=
  match stop with
  | none => .ok (.ok (seen, true), s)
  | some (.failure f) => .ok (.error f, s)
  | some .crash => .error .crash

theorem Yields.fill_cutShort (h : Yields I step s m) {n : Nat} (hn : m.values.length < n)
    (seen : List Value) : ∃ s', Gives I (fun l => Pipe.fill (step l) n seen s)
      (cutShort (seen.reverse ++ m.values) m.stop s') := by
  obtain ⟨n, rfl⟩ : ∃ k, n = k + 1 := ⟨n - 1, by omega⟩
  induction h generalizing n seen with
  | @done s s' h =>
    rw [ofList, append_nil]
    exact ⟨s', h.bind (gives_pure _)⟩
  | @failed s s' f h => exact ⟨s', h.bind (gives_pure _)⟩
  | @crashed s h => exact ⟨s, h.bind_error⟩
  | @item s s' v m h _ ih =>
    have hn : m.values.length + 1 < n + 1 := hn
    obtain ⟨n, rfl⟩ : ∃ k, n = k + 1 := ⟨n - 1, by omega⟩
    obtain ⟨s'', hfill⟩ := ih (v :: seen) n (Nat.lt_of_succ_lt_succ hn)
    refine ⟨s'', h.bind ?_⟩
    simpa [Meaning.cons] using hfill

end Fill

/-- A pull that transforms a batch and keeps the values ready.  Only the last batch may be empty. -/
theorem Resumes.batch {σ : Type} {step : Nat → σ → Run (Pull × σ)} {t : σ} {e : List Value → σ}
    {o : Outcome (List Value)}
    (hstep : ∀ l v vs, step (l + 1) (e (v :: vs)) = pure (.item v, e vs))
    (hm : Yields I step (e []) m) (hlast : o = .ok [] → m = .ofList [])
    (hres : Resumes I step t fun _ => settle o >>= fun r =>
      match r with
      | .error f => pure (.failed f, e [])
      | .ok [] => pure (.done, e [])
      | .ok (v :: ready) => pure (.item v, e ready)) :
    Yields I step t (.after o m.prepend) := by
  rcases o with (f | _) | _ | ⟨w, ws⟩
  · exact (hres.bind (gives_settle _)).failed
  · exact hres.crashed (gives_settle _)
  · rw [hlast rfl]
    exact (hres.bind (gives_settle _)).done
  · exact (hres.bind (gives_settle _)).item (hm.prepend hstep ws)

/-- A pass that fills one batch after another, by number, and transforms each as a whole.  What holds of
the last batch, and of a full one before what it holds of, holds of the pass. -/
theorem Yields.inBatches {σ τ : Type} {pull : Nat → σ → Run (Pull × σ)}
    {step : Nat → τ → Run (Pull × τ)} {e : Nat → List Value → Bool → σ → τ} {size : Nat}
    {g : Nat → List Value → Outcome (List Value)} {P : Nat → List Value → Meaning → Prop}
    (hready : ∀ l k v vs ended s, step (l + 1) (e k (v :: vs) ended s) = pure (.item v, e k vs ended s))
    (hended : ∀ l k s, step (l + 1) (e k [] true s) = pure (.done, e k [] true s))
    (hfill : ∀ k s, Resumes I step (e k [] false s) fun l => Pipe.fill (pull l) size [] s >>= fun r =>
      match r with
      | (.error f, s) => pure (.failed f, e k [] false s)
      | (.ok (batch, ended), s) => settle (g k batch) >>= fun r =>
        match r with
        | .error f => pure (.failed f, e (k + 1) [] ended s)
        | .ok [] => pure (.done, e (k + 1) [] ended s)
        | .ok (v :: ready) => pure (.item v, e (k + 1) ready ended s))
    (hsize : size ≠ 0) (hg : ∀ k vs ws, g k vs = .ok ws → ws.length = vs.length)
    {stop : Option Stop} (hlast : ∀ k vs, vs.length < size →
      P k vs ((⟨vs, stop⟩ : Meaning).whole fun vs => .after (g k vs) .ofList))
    (hfull : ∀ k vs m', size ≤ vs.length → P (k + 1) (vs.drop size) m' →
      P k vs (.after (g k (vs.take size)) m'.prepend))
    {s : σ} {vs : List Value} (hm : Yields I pull s ⟨vs, stop⟩) (k : Nat) :
    ∃ m', Yields I step (e k [] false s) m' ∧ P k vs m' := by
  -- the induction is on the number of values to come, of which every full batch takes some
  induction hlength : vs.length using Nat.strongRecOn generalizing s vs k with
  | ind n ih =>
    by_cases hshort : vs.length < size
    · refine ⟨_, ?_, hlast k vs hshort⟩
      obtain ⟨s', hend⟩ := hm.fill_cutShort hshort []
      rcases stop with _ | (f | _)
      · have hdone : Yields I step (e (k + 1) [] true s') (.ofList []) :=
          (resumes_of_eq fun l => hended l (k + 1) s').done
        have hbatch := batch (e := fun ready => e (k + 1) ready true s')
          (fun l v vs => hready l (k + 1) v vs true s') hdone (fun _ => rfl) ((hfill k s).bind hend)
        simp only [Meaning.prepend_nil] at hbatch
        exact hbatch
      · exact ((hfill k s).bind hend).failed
      · exact (hfill k s).crashed hend
    · have hle := Nat.le_of_not_lt hshort
      obtain ⟨s', hbatch, hrest⟩ := hm.fill hle []
      have hfewer : (vs.drop size).length < n := by
        rw [length_drop]
        omega
      obtain ⟨m', hm', hP⟩ := ih _ hfewer hrest (k + 1) rfl
      refine ⟨_, batch (e := fun ready => e (k + 1) ready false s')
        (fun l v vs => hready l (k + 1) v vs false s') hm' (fun hnil => ?_) ((hfill k s).bind hbatch),
        hfull k vs m' hle hP⟩
      have hempty := hg _ _ _ hnil
      rw [reverse_nil, nil_append, length_take_of_le hle] at hempty
      exact absurd hempty.symm hsize

theorem Yields.batched {s : State p} (hm : Yields I (fun l => next l p) s m) {size : Nat}
    (hroom : ¬ maxBatch < size) (f : Value → Outcome Value) :
    Yields I (fun l => next l (batched p size f)) ([], false, s)
      (.batched size f m.stop m.values) := by
  by_cases hsize : size = 0
  · have hres : Resumes I (fun l => next l (Pipe.batched p size f)) ([], false, s) _ :=
      resumes_of_eq fun _ => if_neg hroom
    subst hsize
    obtain ⟨s', hbatch, -⟩ := hm.fill (Nat.zero_le _) []
    rw [Meaning.batched_zero]
    exact (bind (hres.bind hbatch) (gives_settle (.ok []))).done
  · have hbatches : ∃ m', Yields I (fun l => next l (Pipe.batched p size f)) ([], false, s) m' ∧
        m' = .batched size f m.stop m.values := by
      refine Yields.inBatches (e := fun _ ready ended s => (ready, ended, s)) (g := fun _ vs => vs.mapM f)
        (P := fun _ vs m' => m' = .batched size f m.stop vs) (fun _ _ _ _ _ _ => rfl)
        (fun _ _ _ => rfl) (fun _ s => resumes_of_eq fun l => ?_) hsize
        (fun _ _ _ h => (forall₂_of_mapM h).length_eq.symm)
        (fun _ _ hshort => (Meaning.batched_of_length_lt hsize hshort).symm)
        (fun _ _ _ hle h => h ▸ (Meaning.batched_of_le hsize hle).symm) hm 0
      refine (if_neg hroom).trans (bind_congr fun r => ?_)
      rcases r with ⟨e | ⟨batch, ended⟩, s⟩
      · rfl
      · refine bind_congr fun r => ?_
        rcases r with e | _ | ⟨v, ready⟩ <;> rfl
    obtain ⟨_, hyields, rfl⟩ := hbatches
    exact hyields

theorem Denotes.batched (hp : Denotes I p m) (size : Nat) (f : Value → Outcome Value) :
    Denotes I (batched p size f)
      (if maxBatch < size then .stopped .crash else .batched size f m.stop m.values) := by
  obtain ⟨s, hs, hm⟩ := hp.opens
  refine ⟨⟨([], false, s), hs.bind (gives_pure _), ?_⟩, fun s => .succ (hp.closes s.2.2)⟩
  by_cases hroom : maxBatch < size
  · rw [if_pos hroom]
    refine .crashed (.succ ?_)
    simp only [next, hroom, if_true]
    exact gives_throw _
  · rw [if_neg hroom]
    exact hm.batched hroom f

/-! ### Passes -/

theorem Repeatable.denotes {I : Surroundings} {w : Workspace} {p : Pipe} (h : p.Repeatable I w) :
    Denotes I p (p.meaning w) := by
  induction p with
  | items xs => exact denotes_items xs
  | failing xs f => exact denotes_failing xs f
  | feed load => exact denotes_feed h
  | deferred load => exact denotes_deferred h
  | gather p f ih => exact (ih h.2).gather h.1
  | shared n => exact h.elim
  | observed name p ih => exact (ih h.2).observed name h.1
  | map p f ih => exact (ih h.2).map f
  | filter p f ih => exact (ih h.2).filter f
  | tap p f ih => exact (ih h.2).tap f h.1
  | reduce p init f ih => exact (ih h.2).reduce init f
  | nothing => exact denotes_nothing
  | append p q ihp ihq => exact (ihp h.2.1).append (ihq h.2.2)
  | fallback p q ihp ihq => exact (ihp h.2.1).fallback (ihq h.2.2)
  | zip p q f ihp ihq => exact (ihp h.2.1).zip (ihq h.2.2) f
  | sliding p size ih => exact (ih h.2).sliding size
  | hashJoin p q leftKey rightKey f ihp ihq =>
    exact (ihp h.2.1).hashJoin (ihq h.2.2) leftKey rightKey f
  | buffer p size ih => exact (ih h.2).buffer h.1
  | batched p size f ih => exact (ih h.2).batched size f

/-- A pass over a repeatable pipeline ends, with every bound on its steps from some point on, and gives
the values of the meaning and the failure it stops with; a crash if the meaning stops with one. -/
theorem collect_refines (I : Surroundings) (p : Pipe) (live : Live) (hlive : I.Holds live.workspace)
    (hp : p.Repeatable I live.workspace) :
    ∃ bound, ∀ limit, bound ≤ limit → ∃ w, I.Holds w ∧
      (p.collect limit).run.run live =
        ((p.meaning live.workspace).result, { live with workspace := w }) := by
  obtain ⟨bound, hbound⟩ := hp.denotes.collect
  exact ⟨bound, fun limit hlimit => hbound limit hlimit live hlive⟩

/-- A pipeline of all kinds of stages, over sources that need nothing of the workspace. -/
def tangle : Pipe :=
  let label : Value → Outcome (Option Text)
    | .list (.text t :: _) => .ok (some t)
    | .text t => .ok (some t)
    | _ => .ok none
  let letters := fallback (filter (items [.null]) fun _ => .ok false)
    (items [.text "a", .text "b", .text "c"])
  let windows := sliding (failing [.null, .bool true, .null] (.plain "lost")) 2
  append (reduce (map (items [.text "b", .text "a"]) fun v => .ok (.list [v])) .null fun _ v => .ok v)
    (hashJoin (zip letters windows fun v w => .list [v, w]) (items [.text "b", .null, .text "b"])
      label label fun v w => .list [v, w])

/-- The letter `a` has no partner, `b` has two, and the windows are lost before `c`. -/
theorem collect_refines_tangle :
    ∃ bound, ∀ limit, bound ≤ limit → ∃ w : Workspace, w.cancelled = false ∧
      (tangle.collect limit).run.run {} =
        (.ok ([.list [.text "a"],
            .list [.list [.text "b", .list [.bool true, .null]], .text "b"],
            .list [.list [.text "b", .list [.bool true, .null]], .text "b"]],
          some (.plain "lost")), { workspace := w }) := by
  have hrepeats : tangle.Repeatable .running {} := by
    simp [tangle, Repeatable, Every, RepeatsAt]
  exact collect_refines .running tangle {} rfl hrepeats

end Dataflow.Pipe
