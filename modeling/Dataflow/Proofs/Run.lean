import Dataflow.Workspace
import Mathlib.Data.List.Forall2

/-!
# Running computations that keep a state and may fail

`Runs x s Q E` says how the run of `x` from the state `s` ends: with a result and a state that satisfy
`Q`, or with a failure and a state that satisfy `E`.  The rules below take a computation apart at its
binds; `runs_mapM` is the rule for traversals, with an invariant over what has been traversed.
-/

namespace Dataflow

open List

variable {ε σ α β : Type} {x : ExceptT ε (StateM σ) α} {a : α} {e : ε}
  {f : β → ExceptT ε (StateM σ) α}

theorem forall₂_of_mapM {f : α → Except ε β} {xs : List α} {ys : List β}
    (h : xs.mapM f = .ok ys) : Forall₂ (fun x y => f x = .ok y) xs ys := by
  induction xs generalizing ys with
  | nil =>
    cases h
    exact .nil
  | cons x xs ih =>
    rw [mapM_cons] at h
    obtain ⟨y, hy, h⟩ := Outcome.bind_eq_ok h
    obtain ⟨ys', hys, h⟩ := Outcome.bind_eq_ok h
    cases h
    exact .cons hy (ih hys)

theorem mapM_eq_some_iff {f : α → Option β} {xs : List α} {ys : List β} :
    xs.mapM f = some ys ↔ Forall₂ (fun x y => f x = some y) xs ys := by
  induction xs generalizing ys with
  | nil => simp [eq_comm]
  | cons x xs ih =>
    rw [mapM_cons, forall₂_cons_left_iff]
    simp only [Option.bind_eq_bind, Option.bind_eq_some_iff, ih]
    simp [eq_comm]

theorem exists_forall₂ {R : α → β → Prop} {xs : List α} (h : ∀ x ∈ xs, ∃ y, R x y) :
    ∃ ys, Forall₂ R xs ys := by
  induction xs with
  | nil => exact ⟨[], .nil⟩
  | cons x xs ih =>
    rw [forall_mem_cons] at h
    obtain ⟨y, hy⟩ := h.1
    obtain ⟨ys, hys⟩ := ih h.2
    exact ⟨y :: ys, .cons hy hys⟩

/-- Along lists that correspond, what all pairs have is a list that corresponds to both. -/
theorem exists_forall₂_along {γ : Type} {R : α → β → Prop} {S : α → γ → Prop} {T : β → γ → Prop} {xs : List α}
    {ys : List β} (h : Forall₂ R xs ys) (hz : ∀ x ∈ xs, ∀ y ∈ ys, R x y → ∃ z, S x z ∧ T y z) :
    ∃ zs, Forall₂ S xs zs ∧ Forall₂ T ys zs := by
  induction h with
  | nil => exact ⟨[], .nil, .nil⟩
  | cons hxy _ ih =>
    obtain ⟨z, hS, hT⟩ := hz _ mem_cons_self _ mem_cons_self hxy
    obtain ⟨zs, hSs, hTs⟩ := ih fun x hx y hy => hz x (mem_cons_of_mem _ hx) y (mem_cons_of_mem _ hy)
    exact ⟨z :: zs, .cons hS hSs, .cons hT hTs⟩

theorem exists_mem_of_forall₂ {R : α → β → Prop} {xs : List α} {ys : List β} {x : α}
    (h : Forall₂ R xs ys) (hx : x ∈ xs) : ∃ y ∈ ys, R x y := by
  induction h with
  | nil => simp at hx
  | cons hxy _ ih =>
    rcases mem_cons.mp hx with rfl | hx
    · exact ⟨_, mem_cons_self, hxy⟩
    · obtain ⟨y, hy, hxy⟩ := ih hx
      exact ⟨y, mem_cons_of_mem _ hy, hxy⟩

/-- The run of `x` from `s` ends in `Q`, or fails in `E`. -/
def Runs (x : ExceptT ε (StateM σ) α) (s : σ) (Q : α → σ → Prop) (E : ε → σ → Prop) : Prop :=
  match x.run.run s with
  | (.ok a, s') => Q a s'
  | (.error e, s') => E e s'

section Rules

variable {s s' : σ} {Q Q' : α → σ → Prop} {E E' : ε → σ → Prop} {h : ε → ExceptT ε (StateM σ) α}

theorem Runs.ok (h : Runs x s Q E)
    (hx : x.run.run s = (.ok a, s')) : Q a s' := by
  unfold Runs at h
  rwa [hx] at h

theorem Runs.error (h : Runs x s Q E)
    (hx : x.run.run s = (.error e, s')) : E e s' := by
  unfold Runs at h
  rwa [hx] at h

/-- Every run ends in what it ends in. -/
theorem runs_self (x : ExceptT ε (StateM σ) α) (s : σ) :
    Runs x s (fun a t => x.run.run s = (.ok a, t)) (fun e t => x.run.run s = (.error e, t)) := by
  unfold Runs
  split <;> assumption

theorem Runs.mono (h : Runs x s Q E) (hQ : ∀ a t, Q a t → Q' a t)
    (hE : ∀ e t, E e t → E' e t) : Runs x s Q' E' := by
  unfold Runs at h ⊢
  split at h
  · exact hQ _ _ h
  · exact hE _ _ h

theorem runs_pure (h : Q a s) : Runs (pure a) s Q E := h

theorem runs_throw (h : E e s) : Runs (throw e : ExceptT ε (StateM σ) α) s Q E := h

theorem runs_get {Q : σ → σ → Prop} (h : Q s s) : Runs (get : ExceptT ε (StateM σ) σ) s Q E := h

theorem runs_modify {Q : PUnit → σ → Prop} {f : σ → σ} (h : Q ⟨⟩ (f s)) :
    Runs (modify f : ExceptT ε (StateM σ) PUnit) s Q E := h

theorem run_get_bind (f : σ → ExceptT ε (StateM σ) α) : (get >>= f).run.run s = (f s).run.run s := rfl

theorem run_bind_ok {x : ExceptT ε (StateM σ) β} {b : β}
    (h : x.run.run s = (.ok b, s')) : (x >>= f).run.run s = (f b).run.run s' := by
  simp only [ExceptT.run_bind, StateT.run_bind, h]
  rfl

theorem run_bind_error {x : ExceptT ε (StateM σ) β}
    (h : x.run.run s = (.error e, s')) : (x >>= f).run.run s = (.error e, s') := by
  simp only [ExceptT.run_bind, StateT.run_bind, h]
  rfl

theorem run_map (f : α → β) (x : ExceptT ε (StateM σ) α) (s : σ) :
    (f <$> x).run.run s = ((x.run.run s).1.map f, (x.run.run s).2) := by
  rw [map_eq_pure_bind]
  rcases hx : x.run.run s with ⟨e | a, s'⟩
  · rw [run_bind_error hx]
    rfl
  · rw [run_bind_ok hx]
    rfl

theorem run_tryCatch_ok
    (hx : x.run.run s = (.ok a, s')) : (tryCatch x h).run.run s = (.ok a, s') := by
  have hx : StateT.run x s = (.ok a, s') := hx
  simp only [tryCatch, tryCatchThe, MonadExceptOf.tryCatch, ExceptT.tryCatch, ExceptT.run_mk,
    StateT.run_bind, hx]
  rfl

theorem run_tryCatch_error
    (hx : x.run.run s = (.error e, s')) : (tryCatch x h).run.run s = (h e).run.run s' := by
  have hx : StateT.run x s = (.error e, s') := hx
  simp only [tryCatch, tryCatchThe, MonadExceptOf.tryCatch, ExceptT.tryCatch, ExceptT.run_mk,
    StateT.run_bind, hx]
  rfl

theorem runs_bind {x : ExceptT ε (StateM σ) β}
    (h : Runs x s (fun b t => Runs (f b) t Q E) E) : Runs (x >>= f) s Q E := by
  unfold Runs at h ⊢
  split at h
  · next b t hx => rwa [run_bind_ok hx]
  · next e t hx => rwa [run_bind_error hx]

theorem Runs.bind {x : ExceptT ε (StateM σ) β} {P : β → σ → Prop} (h : Runs x s P E)
    (hf : ∀ b t, P b t → Runs (f b) t Q E) : Runs (x >>= f) s Q E :=
  runs_bind (h.mono hf fun _ _ he => he)

theorem Runs.state {P : σ → Prop} (h : Runs x s (fun _ t => P t) fun _ t => P t) : P (x.run.run s).2 := by
  unfold Runs at h
  split at h <;> next hx => rwa [hx]

theorem Runs.exists_ok (h : Runs x s Q E) (hE : ∀ e t, ¬ E e t) : ∃ a t, x.run.run s = (.ok a, t) ∧ Q a t := by
  rcases hx : x.run.run s with ⟨e | a, t⟩
  · exact absurd (h.error hx) (hE e t)
  · exact ⟨a, t, rfl, h.ok hx⟩

/-- A traversal keeps an invariant over the elements that were traversed and their results, if every
element does. -/
theorem runs_mapM {E : ε → σ → Prop} (I : List β → List α → σ → Prop)
    (bs : List β) (hstep : ∀ b ∈ bs, ∀ done ys t, I done ys t →
      Runs (f b) t (fun a t' => I (done ++ [b]) (ys ++ [a]) t') E) (h : I [] [] s) :
    Runs (bs.mapM f) s (fun ys t => I bs ys t) E := by
  suffices hgen : ∀ done ys s, I done ys s →
      Runs (bs.mapM f) s (fun zs t => I (done ++ bs) (ys ++ zs) t) E from hgen [] [] s h
  clear h
  induction bs with
  | nil =>
    intro done ys s h
    rw [mapM_nil]
    exact runs_pure (by simpa using h)
  | cons b bs ih =>
    intro done ys s h
    rw [mapM_cons]
    refine (hstep b mem_cons_self done ys s h).bind fun a t ha => ?_
    refine (ih (fun c hc => hstep c (mem_cons_of_mem b hc)) _ _ _ ha).bind fun zs u hz => runs_pure ?_
    simpa using hz

end Rules

/-! ### A second state

Computations that keep a state of their own on top of the other, which outlives a failure. -/

section Stacked

variable {τ : Type} {s : σ} {t : τ} {Q : α × τ → σ → Prop} {E : ε → σ → Prop}

theorem runs_stateT_bind {x : StateT τ (ExceptT ε (StateM σ)) β} {f : β → StateT τ (ExceptT ε (StateM σ)) α}
    (h : Runs (x.run t) s (fun bt s' => Runs ((f bt.1).run bt.2) s' Q E) E) :
    Runs ((x >>= f).run t) s Q E := by
  rw [StateT.run_bind]
  exact runs_bind h

theorem runs_stateT_lift (h : Runs x s (fun a s' => Q (a, t) s') E) :
    Runs ((liftM x : StateT τ (ExceptT ε (StateM σ)) α).run t) s Q E :=
  runs_bind h

theorem runs_stateT_get {Q : τ × τ → σ → Prop} (h : Q (t, t) s) :
    Runs ((get : StateT τ (ExceptT ε (StateM σ)) τ).run t) s Q E := h

/-- A fold keeps an invariant over the elements that were passed, if every element does. -/
theorem runs_stateT_foldlM {f : α → β → StateT τ (ExceptT ε (StateM σ)) α} (I : List β → α × τ → σ → Prop)
    (bs : List β) (hstep : ∀ b ∈ bs, ∀ done a t s, I done (a, t) s →
      Runs ((f a b).run t) s (fun at' s' => I (done ++ [b]) at' s') E) (h : I [] (a, t) s) :
    Runs ((bs.foldlM f a).run t) s (fun at' s' => I bs at' s') E := by
  suffices hgen : ∀ done a t s, I done (a, t) s →
      Runs ((bs.foldlM f a).run t) s (fun at' s' => I (done ++ bs) at' s') E from hgen [] a t s h
  clear h
  induction bs with
  | nil =>
    intro done a t s h
    rw [foldlM_nil]
    exact runs_pure (by simpa using h)
  | cons b bs ih =>
    intro done a t s h
    rw [foldlM_cons]
    refine runs_stateT_bind ((hstep b mem_cons_self done a t s h).mono (fun bt s' hb => ?_) fun _ _ he => he)
    simpa using ih (fun c hc => hstep c (mem_cons_of_mem b hc)) _ bt.1 bt.2 s' hb

end Stacked

end Dataflow
