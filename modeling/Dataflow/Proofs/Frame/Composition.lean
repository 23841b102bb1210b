import Dataflow.Frame.Lower
import Dataflow.Proofs.Compile.Composition

/-!
# Columnar evaluation does not look at identifiers

Nodes that are alike, on top of lazy frames that evaluate alike, are lowered to lazy frames that evaluate
alike: the identifier of a node stands in its failures only (`Columnar.resembles_lower`).  So the columnar
backend composes (`Columnar.composing_backend`).
-/

namespace Dataflow

open List Effect Stop.Kin

/-- Lazy frames that differ in what their failures say. -/
structure LazyFrame.Similar (f g : LazyFrame) : Prop where
  source : Tracks Stop.Kin Eq f.source g.source
  steps : Forall₂ (fun s t => ∀ frame, Tracks Stop.Kin Eq (s frame) (t frame)) f.steps g.steps

namespace LazyFrame

theorem similar_refl (f : LazyFrame) : f.Similar f :=
  ⟨tracks_refl refl _, forall₂_same.mpr fun _ _ _ => tracks_refl refl _⟩

theorem similar_of_source {e e' : Effect Frame} (h : Tracks Stop.Kin Eq e e') :
    Similar { source := e } { source := e' } := ⟨h, .nil⟩

variable {f g : LazyFrame}

theorem Similar.andThen (h : f.Similar g) {s t : Frame → Effect Frame}
    (hst : ∀ frame, Tracks Stop.Kin Eq (s frame) (t frame)) : (f.andThen s).Similar (g.andThen t) :=
  ⟨h.source, rel_append h.steps (.cons hst .nil)⟩

theorem tracks_advance {ss ts : List (Frame → Effect Frame)}
    (h : Forall₂ (fun s t => ∀ frame, Tracks Stop.Kin Eq (s frame) (t frame)) ss ts) (frame : Frame) :
    Tracks Stop.Kin Eq (advance ss frame) (advance ts frame) := by
  induction h generalizing frame with
  | nil => exact tracks_pure rfl
  | cons hst _ ih =>
    unfold advance
    refine .after refl Effect.checkpoint fun _ => ?_
    refine (hst frame).bind fun a b hab => ?_
    subst hab
    exact ih a

theorem Similar.materialize (h : f.Similar g) : Tracks Stop.Kin Eq f.materialize g.materialize := by
  refine h.source.bind fun a b hab => ?_
  subst hab
  exact tracks_advance h.steps a

end LazyFrame

/-! ### Artifacts -/

namespace Tabular

/-- Artifacts that differ in what their failures say. -/
inductive Similar : Tabular → Tabular → Prop
  | lazy {f g : LazyFrame} (h : f.Similar g) : Similar (.lazy f) (.lazy g)
  | action {f g : LazyFrame} {uri : Text} {write write' : Frame → Effect Unit} (h : f.Similar g)
      (hwrite : ∀ frame, Tracks Stop.Kin Eq (write frame) (write' frame)) :
      Similar (.action ⟨uri, f, write⟩) (.action ⟨uri, g, write'⟩)

theorem similar_refl : ∀ x : Tabular, x.Similar x
  | .lazy f => .lazy f.similar_refl
  | .action ⟨_, f, _⟩ => .action f.similar_refl fun _ => tracks_refl refl _

/-- Evaluates the artifact: the frame, or that of a sink after it has been written. -/
def run : Tabular → Effect Frame
  | lazy f => f.materialize
  | action a => a.run

variable {x y : Tabular}

theorem Similar.run (h : x.Similar y) : Tracks Stop.Kin Eq x.run y.run := by
  cases h with
  | lazy h => exact h.materialize
  | action h hwrite =>
    refine h.materialize.bind fun a b hab => ?_
    subst hab
    exact (hwrite a).bind fun _ _ _ => tracks_pure rfl

theorem Similar.input (h : x.Similar y) : x.input.Similar y.input := by
  have hrun := h.run
  cases h with
  | lazy h => exact h
  | action h hwrite => exact LazyFrame.similar_of_source hrun

end Tabular

/-! ### Nodes -/

namespace Columnar

variable (lib : Library) (n n' : Node)

theorem tracks_filterRows (f : Func) (frame : Frame) : Tracks Stop.Kin Eq
    (Effect.ofOutcome (filterRows lib n f frame)) (Effect.ofOutcome (filterRows lib n' f frame)) := by
  refine tracks_ofOutcome ((matches_mapM (fun r => matches_mapError _ _ _) _).bind fun kept kept' h => ?_)
  exact .ok (by rw [h])

theorem tracks_mapRows (f : Func) (frame : Frame) : Tracks Stop.Kin Eq
    (Effect.ofOutcome (mapRows lib n f frame)) (Effect.ofOutcome (mapRows lib n' f frame)) := by
  have hrow : ∀ r, Matches Stop.Kin Eq
      (do let v ← atNode n (f.call lib (.row r)); return Fields.update r (Connector.asRow "payload" v))
      (do let v ← atNode n' (f.call lib (.row r)); return Fields.update r (Connector.asRow "payload" v)) :=
    fun r => (matches_mapError _ _ _).bind fun v v' hv => .ok (by rw [hv])
  refine tracks_ofOutcome ((matches_mapM hrow _).bind fun rows rows' h => ?_)
  subst h
  exact .refl refl _

theorem tracks_foldRows (f : FoldCode) (init : Value) (frame : Frame) : Tracks Stop.Kin Eq
    (Effect.ofOutcome (foldRows lib n f init frame)) (Effect.ofOutcome (foldRows lib n' f init frame)) := by
  have hstep : ∀ r r', r = r' → ∀ acc acc', acc = acc' → Matches Stop.Kin Eq
      (atNode n (f.call lib acc (.row r))) (atNode n' (f.call lib acc' (.row r'))) := by
    rintro r _ rfl acc _ rfl
    exact matches_mapError _ _ _
  refine tracks_ofOutcome (Matches.bind
    (matches_foldlM (forall₂_same.mpr fun r _ => rfl) hstep rfl) fun acc acc' h => ?_)
  subst h
  exact .refl refl _

theorem tracks_store (uri : Text) (frame : Frame) :
    Tracks Stop.Kin Eq (store n uri frame) (store n' uri frame) := by
  unfold store
  split
  · exact tracks_refl refl _
  · exact tracks_mapFailure _ _ _

theorem tracks_firstWithRows {f g f' g' : LazyFrame} (hf : f.Similar f') (hg : g.Similar g') :
    Tracks Stop.Kin Eq (firstWithRows f g) (firstWithRows f' g') := by
  unfold firstWithRows
  refine Tracks.bind (R := Eq) (Tracks.tryCatch (E := Stop.Kin) ?_ fun s s' hs => ?_) fun l l' hl => ?_
  · exact hf.materialize.bind fun a b hab => tracks_pure (by rw [hab])
  · cases hs with
    | failure => exact tracks_pure rfl
    | crash => exact tracks_throw .crash
  · subst hl
    cases l with
    | none => exact hg.materialize
    | some frame =>
      show Tracks _ _ (if _ then _ else _) (if _ then _ else _)
      split
      · exact tracks_pure rfl
      · exact hg.materialize

variable {n n'}

theorem resembles_custom (h : n.Like n') {x y : Tabular} (hxy : x.Similar y) :
    Effect.Resembles Tabular.Similar (custom n x) (custom n' y) := by
  obtain ⟨op, config, id, parents, id', parents', rfl, rfl⟩ := h.exists_fields
  unfold custom
  refine .after fun kind => ?_
  split
  · exact (resembles_log _ _).bind fun _ _ _ => resembles_pure hxy
  · next k hk =>
    refine .after fun params => resembles_pure ?_
    exact .lazy (hxy.input.andThen fun frame => tracks_refl refl _)

theorem materialize_inputs {xs ys : List Tabular} (h : Forall₂ Tabular.Similar xs ys) :
    Forall₂ (fun f g => Tracks Stop.Kin Eq f.materialize g.materialize) (xs.map Tabular.input)
      (ys.map Tabular.input) :=
  forall₂_map_left_iff.mpr (forall₂_map_right_iff.mpr (h.imp fun _ _ hxy => hxy.input.materialize))

/-- What a node is lowered to does not depend on its identifier, up to what failures say. -/
theorem resembles_lower (chunk : Int) (h : n.Like n') {xs ys : List Tabular}
    (hxy : Forall₂ Tabular.Similar xs ys) :
    Effect.Resembles Tabular.Similar (lower lib chunk n xs) (lower lib chunk n' ys) := by
  have hcustom := fun {x y} => resembles_custom h (x := x) (y := y)
  obtain ⟨op, config, id, parents, id', parents', rfl, rfl⟩ := h.exists_fields
  by_cases hsource : op = .source
  · subst hsource
    refine .after fun uri => ?_
    exact resembles_pure (Tabular.similar_refl _)
  by_cases hwindow : op = .window
  · subst hwindow
    exact resembles_throw (.failure _ _)
  cases hxy with
  | nil =>
    simp only [lower, if_neg hsource, if_neg hwindow]
    exact resembles_throw (.failure _ _)
  | cons hx hrest =>
    cases op with
    | source => exact absurd rfl hsource
    | window => exact absurd rfl hwindow
    | map =>
      refine .after fun f => ?_
      cases f with
      | none => exact resembles_pure (.lazy hx.input)
      | some f =>
        exact resembles_pure (.lazy (hx.input.andThen fun frame => tracks_mapRows lib _ _ f frame))
    | filter =>
      refine .after fun f => ?_
      cases f with
      | none => exact resembles_pure (.lazy hx.input)
      | some f =>
        exact resembles_pure (.lazy (hx.input.andThen fun frame => tracks_filterRows lib _ _ f frame))
    | reduce =>
      refine .after fun f => ?_
      split
      · exact resembles_pure (.lazy hx.input)
      · exact resembles_pure (.lazy (hx.input.andThen fun frame => tracks_foldRows lib _ _ _ _ frame))
    | join =>
      cases hrest with
      | nil => exact resembles_throw (.failure _ _)
      | cons hy _ =>
        refine .after fun on => ?_
        refine resembles_pure (.lazy (LazyFrame.similar_of_source ?_))
        refine hx.input.materialize.bind fun l l' hl => hy.input.materialize.bind fun r r' hr => ?_
        subst hl hr
        exact tracks_refl refl _
    | sink =>
      refine .after fun uri => ?_
      exact resembles_pure (.action hx.input fun frame => tracks_store _ _ uri frame)
    | union | merge =>
      refine resembles_pure (.lazy (LazyFrame.similar_of_source ?_))
      refine (tracks_mapM (materialize_inputs (.cons hx hrest))).bind fun fs fs' hfs => ?_
      exact tracks_pure (by rw [hfs])
    | choice =>
      cases hrest with
      | nil => exact resembles_pure (.lazy hx.input)
      | cons hy _ =>
        exact resembles_pure (.lazy (LazyFrame.similar_of_source (tracks_firstWithRows hx.input hy.input)))
    | ensemble =>
      cases hrest with
      | nil => exact resembles_pure (.lazy hx.input)
      | cons hy _ =>
        refine resembles_pure (.lazy (LazyFrame.similar_of_source ?_))
        refine hx.input.materialize.bind fun l l' hl => hy.input.materialize.bind fun r r' hr => ?_
        exact tracks_pure (by rw [hl, hr])
    | custom => exact hcustom hx
    | other name => exact resembles_pure (.lazy hx.input)

theorem composing_backend (chunk : Int) : (backend lib chunk).Composing Tabular.Similar :=
  Backend.composing_branching Tabular.similar_refl (fun _ _ _ _ => rfl) fun h hxy =>
    resembles_lower lib chunk h hxy

end Columnar

end Dataflow
