import Dataflow.Compile
import Dataflow.Proofs.Run

/-!
# Computations that run in parallel

Two computations that fail differently and agree in all else.  `Matches E R` relates results by `R` and
failures by `E`, and `Tracks E R` says that two computations, from every state, leave the same state
and give results that match.  `Stop.Kin` is the coarse relation of failures: what they say does not
count, but a crash is not taken for a failure.

The step of a node is its tree of branches.  `Step.Rel P C` relates two such trees node by node: plain
nodes by `P` and composite ones by `C`.  A relation that goes with sequences of effects and with lowering
plain nodes (`Congruent`) goes with lowering by steps (`Congruent.along`).
-/

namespace Dataflow

open List

variable {ε σ ι κ α β γ δ : Type} {is : List ι} {ks : List κ} {a : α} {b : β} {E : ε → ε → Prop}
  {R : α → β → Prop} {S : γ → δ → Prop}

/-- Both failed, or both broke off. -/
inductive Stop.Kin : Stop → Stop → Prop
  | failure (f f' : Failure) : Kin (.failure f) (.failure f')
  | crash : Kin .crash .crash

theorem Stop.Kin.refl : ∀ s : Stop, s.Kin s
  | .failure f => .failure f f
  | .crash => .crash

/-! ### Results -/

/-- Related results, or related failures. -/
inductive Matches (E : ε → ε → Prop) (R : α → β → Prop) : Except ε α → Except ε β → Prop
  | ok {a : α} {b : β} (h : R a b) : Matches E R (.ok a) (.ok b)
  | error {e e' : ε} (h : E e e') : Matches E R (.error e) (.error e')

namespace Matches

variable {x : Except ε α} {y : Except ε β}

theorem refl (hE : ∀ e, E e e) (x : Except ε α) : Matches E Eq x x := by
  cases x with
  | ok a => exact .ok rfl
  | error e => exact .error (hE e)

theorem eq {x y : Except ε α} (h : Matches Eq Eq x y) : x = y := by
  cases h with
  | ok h | error h => rw [h]

theorem mono {R' : α → β → Prop} (h : Matches E R x y) (hR : ∀ a b, R a b → R' a b) :
    Matches E R' x y := by
  cases h with
  | ok h => exact .ok (hR _ _ h)
  | error h => exact .error h

theorem bind {f : α → Except ε γ} {g : β → Except ε δ} (h : Matches E R x y)
    (hfg : ∀ a b, R a b → Matches E S (f a) (g b)) : Matches E S (x >>= f) (y >>= g) := by
  cases h with
  | ok h => exact hfg _ _ h
  | error h => exact .error h

end Matches

/-- Folds over lists that are related element by element. -/
theorem matches_foldlM {P : ι → κ → Prop} {f : α → ι → Except ε α} {g : β → κ → Except ε β}
    (h : Forall₂ P is ks) (hfg : ∀ i k, P i k → ∀ a b, R a b → Matches E R (f a i) (g b k)) (hab : R a b) :
    Matches E R (is.foldlM f a) (ks.foldlM g b) := by
  induction h generalizing a b with
  | nil => exact .ok hab
  | cons hik _ ih =>
    rw [foldlM_cons, foldlM_cons]
    exact (hfg _ _ hik a b hab).bind fun a' b' hab' => ih hab'

theorem matches_mapM₂ {f : ι → Except ε α} {g : κ → Except ε β}
    (h : Forall₂ (fun i k => Matches E R (f i) (g k)) is ks) :
    Matches E (Forall₂ R) (is.mapM f) (ks.mapM g) := by
  induction h with
  | nil => exact .ok .nil
  | cons hik _ ih =>
    rw [mapM_cons, mapM_cons]
    exact hik.bind fun a b hab => ih.bind fun as bs habs => .ok (.cons hab habs)

theorem matches_mapM {f g : ι → Except ε α} (hfg : ∀ i, Matches E Eq (f i) (g i)) (is : List ι) :
    Matches E Eq (is.mapM f) (is.mapM g) := by
  have hall := matches_mapM₂ (forall₂_same.mpr fun i (_ : i ∈ is) => hfg i)
  rwa [forall₂_eq_eq_eq] at hall

/-! ### Runs -/

/-- From every state the two computations leave the same state, with results that match. -/
def Tracks (E : ε → ε → Prop) (R : α → β → Prop) (x : ExceptT ε (StateM σ) α)
    (y : ExceptT ε (StateM σ) β) : Prop :=
  ∀ s, (x.run.run s).2 = (y.run.run s).2 ∧ Matches E R (x.run.run s).1 (y.run.run s).1

section Rules

variable {x : ExceptT ε (StateM σ) α} {y : ExceptT ε (StateM σ) β}

theorem tracks_refl (hE : ∀ e, E e e) (x : ExceptT ε (StateM σ) α) : Tracks E Eq x x :=
  fun _ => ⟨rfl, .refl hE _⟩

theorem tracks_pure (h : R a b) : Tracks E R (pure a : ExceptT ε (StateM σ) α) (pure b) := fun _ => ⟨rfl, .ok h⟩

theorem tracks_throw {e e' : ε} (h : E e e') :
    Tracks E R (throw e : ExceptT ε (StateM σ) α) (throw e') := fun _ => ⟨rfl, .error h⟩

theorem Tracks.mono {R' : α → β → Prop} (h : Tracks E R x y) (hR : ∀ a b, R a b → R' a b) :
    Tracks E R' x y := fun s => ⟨(h s).1, (h s).2.mono hR⟩

theorem Tracks.run_eq (h : Tracks E R x y) (s : σ) :
    ∃ s', (∃ e e', x.run.run s = (.error e, s') ∧ y.run.run s = (.error e', s') ∧ E e e') ∨
      ∃ a b, x.run.run s = (.ok a, s') ∧ y.run.run s = (.ok b, s') ∧ R a b := by
  obtain ⟨hstate, hresult⟩ := h s
  rcases hx : x.run.run s with ⟨e | a, s₁⟩ <;> rcases hy : y.run.run s with ⟨e' | b, s₂⟩ <;>
    rw [hx, hy] at hstate hresult <;> cases hresult <;> obtain rfl : s₁ = s₂ := hstate
  · exact ⟨s₁, .inl ⟨e, e', rfl, rfl, ‹_›⟩⟩
  · exact ⟨s₁, .inr ⟨a, b, rfl, rfl, ‹_›⟩⟩

theorem Tracks.bind {f : α → ExceptT ε (StateM σ) γ} {g : β → ExceptT ε (StateM σ) δ}
    (h : Tracks E R x y) (hfg : ∀ a b, R a b → Tracks E S (f a) (g b)) :
    Tracks E S (x >>= f) (y >>= g) := by
  intro s
  obtain ⟨s', ⟨e, e', hx, hy, he⟩ | ⟨a, b, hx, hy, hab⟩⟩ := h.run_eq s
  · rw [run_bind_error hx, run_bind_error hy]
    exact ⟨rfl, .error he⟩
  · rw [run_bind_ok hx, run_bind_ok hy]
    exact hfg a b hab s'

/-- The same step before both. -/
theorem Tracks.after (hE : ∀ e, E e e) (z : ExceptT ε (StateM σ) γ) {f : γ → ExceptT ε (StateM σ) α}
    {g : γ → ExceptT ε (StateM σ) β} (hfg : ∀ c, Tracks E R (f c) (g c)) :
    Tracks E R (z >>= f) (z >>= g) :=
  (tracks_refl hE z).bind fun c _ hc => hc ▸ hfg c

theorem Tracks.tryCatch {E' : ε → ε → Prop} {f : ε → ExceptT ε (StateM σ) α} {g : ε → ExceptT ε (StateM σ) β}
    (h : Tracks E R x y) (hfg : ∀ e e', E e e' → Tracks E' R (f e) (g e')) :
    Tracks E' R (tryCatch x f) (tryCatch y g) := by
  intro s
  obtain ⟨s', ⟨e, e', hx, hy, he⟩ | ⟨a, b, hx, hy, hab⟩⟩ := h.run_eq s
  · rw [run_tryCatch_error hx, run_tryCatch_error hy]
    exact hfg e e' he s'
  · rw [run_tryCatch_ok hx, run_tryCatch_ok hy]
    exact ⟨rfl, .ok hab⟩

theorem tracks_mapM {f : ι → ExceptT ε (StateM σ) α} {g : κ → ExceptT ε (StateM σ) α}
    (h : Forall₂ (fun i k => Tracks E Eq (f i) (g k)) is ks) : Tracks E Eq (is.mapM f) (ks.mapM g) := by
  induction h with
  | nil => exact tracks_pure rfl
  | cons hik _ ih =>
    rw [mapM_cons, mapM_cons]
    refine hik.bind fun a b hab => ih.bind fun as bs habs => ?_
    exact tracks_pure (by rw [hab, habs])

end Rules

/-- An outcome taken into a workspace. -/
theorem tracks_ofOutcome {o : Outcome α} {o' : Outcome β} (h : Matches Stop.Kin R o o') :
    Tracks Stop.Kin R (Effect.ofOutcome o) (Effect.ofOutcome o') := by
  cases h with
  | ok h => exact tracks_pure h
  | error h => exact tracks_throw h

theorem tracks_mapFailure (e : Effect α) (f g : Failure → Failure) :
    Tracks Stop.Kin Eq (e.mapFailure f) (e.mapFailure g) := by
  refine Tracks.tryCatch (E := Eq) (tracks_refl (fun _ => rfl) e) fun s s' hs => ?_
  subst hs
  cases s with
  | failure => exact tracks_throw (.failure _ _)
  | crash => exact tracks_throw .crash

/-! ### Steps of the same shape -/

mutual

/-- Steps of the same shape, with related nodes. -/
inductive Step.Rel (P C : Node → Node → Prop) : Step → Step → Prop
  | single {n n' : Node} (h : P n n') : Step.Rel P C (.single n) (.single n')
  | broken {n n' : Node} (h : C n n') (s : Stop) : Step.Rel P C (.broken n s) (.broken n' s)
  | composite {n n' : Node} {left left' right right' : List Step} (h : C n n')
      (hleft : Step.RelAll P C left left') (hright : Step.RelAll P C right right') :
      Step.Rel P C (.composite n left right) (.composite n' left' right')

inductive Step.RelAll (P C : Node → Node → Prop) : List Step → List Step → Prop
  | nil : Step.RelAll P C [] []
  | cons {s s' : Step} {ss ss' : List Step} (h : Step.Rel P C s s') (hrest : Step.RelAll P C ss ss') :
      Step.RelAll P C (s :: ss) (s' :: ss')

end

mutual

theorem Step.rel_eq : ∀ s : Step, Step.Rel Eq Eq s s
  | .single _ => .single rfl
  | .broken _ s => .broken rfl s
  | .composite _ left right => .composite rfl (relAll_eq left) (relAll_eq right)

theorem Step.relAll_eq : ∀ ss : List Step, Step.RelAll Eq Eq ss ss
  | [] => .nil
  | s :: ss => .cons (rel_eq s) (relAll_eq ss)

end

namespace Backend

/-- The node that joins the two branches of a composite node. -/
def joint (n : Node) : Node := { id := n.id, op := n.op, parents := ["left", "right"] }

/-- The backend that lowers nodes by the steps that are given for them. -/
def along (step : Node → Step) (name : Text) (lower : Node → List α → Effect α)
    (explain : Node → Stop → Stop) : Backend α where
  name := name
  lower n parents :=
    match step n, parents with
    | .single n, parents => lower n parents
    | s, input :: _ => lowerStep lower explain s input
    | _, [] => lower n []

variable {name : Text} {lower : Node → List α → Effect α} {lower' : Node → List β → Effect β}
  {explain : Node → Stop → Stop} {P C : Node → Node → Prop} {T : Effect α → Effect β → Prop}

theorem along_step : along Node.step name lower explain = branching name lower explain := rfl

/-- The relation `T` between effects goes with the relation `R` between results, and lowering related
nodes on top of related inputs gives related effects. -/
structure Congruent (P C : Node → Node → Prop) (R : α → β → Prop) (T : Effect α → Effect β → Prop)
    (lower : Node → List α → Effect α) (lower' : Node → List β → Effect β) (explain : Node → Stop → Stop) :
    Prop where
  pure : ∀ {a b}, R a b → T (pure a) (pure b)
  throw : ∀ {n n'} s, C n n' → T (throw (explain n s)) (throw (explain n' s))
  bind : ∀ {x y f g}, T x y → (∀ a b, R a b → T (f a) (g b)) → T (x >>= f) (y >>= g)
  plain : ∀ {n n' xs ys}, P n n' → Forall₂ R xs ys → T (lower n xs) (lower' n' ys)
  joint : ∀ {n n'}, C n n' → P (joint n) (joint n')

namespace Congruent

variable (hT : Congruent P C R T lower lower' explain)

include hT

mutual

/-- What is related node by node is related step by step. -/
theorem lowerStep {s s' : Step} (h : Step.Rel P C s s') {a : α} {b : β} (hab : R a b) :
    T (Backend.lowerStep lower explain s a) (Backend.lowerStep lower' explain s' b) := by
  cases h with
  | single h =>
    unfold Backend.lowerStep
    exact hT.plain h (.cons hab .nil)
  | broken h s =>
    unfold Backend.lowerStep
    exact hT.throw s h
  | composite h hleft hright =>
    unfold Backend.lowerStep
    refine hT.bind (lowerSteps hleft hab) fun l l' hl => ?_
    refine hT.bind (lowerSteps hright hab) fun r r' hr => ?_
    exact hT.plain (hT.joint h) (.cons hl (.cons hr .nil))

theorem lowerSteps {ss ss' : List Step} (h : Step.RelAll P C ss ss') {a : α} {b : β} (hab : R a b) :
    T (Backend.lowerSteps lower explain ss a) (Backend.lowerSteps lower' explain ss' b) := by
  cases h with
  | nil =>
    unfold Backend.lowerSteps
    exact hT.pure hab
  | cons h hrest =>
    unfold Backend.lowerSteps
    exact hT.bind (lowerStep h hab) fun a' b' hab' => lowerSteps hrest hab'

end

theorem along {step step' : Node → Step} {n n' : Node} (hn : P n n')
    (hstep : Step.Rel P C (step n) (step' n')) {xs : List α} {ys : List β} (hxy : Forall₂ R xs ys) :
    T ((along step name lower explain).lower n xs) ((along step' name lower' explain).lower n' ys) := by
  simp only [Backend.along]
  generalize step n = s at hstep
  generalize step' n' = s' at hstep
  have hdeep := fun {a b} (hab : R a b) => lowerStep hT hstep hab
  cases hstep with
  | single h => exact hT.plain h hxy
  | broken | composite =>
    cases hxy with
    | nil => exact hT.plain hn .nil
    | cons hab _ => exact hdeep hab

end Congruent

end Backend

end Dataflow
