import Dataflow.Proofs.Compile.Composition
import Dataflow.Proofs.Pipe.Similar
import Dataflow.Proofs.Streaming.Workers

/-!
# Streaming does not look at identifiers

Nodes that are alike, on top of flows that give the same values, are lowered to flows that give the same
values: the identifier of a node stands in its failures only (`Streaming.resembles_lower`).  So the
streaming backend composes (`Streaming.composing_backend`).
-/

namespace Dataflow

open Effect

namespace Flow

/-- Flows that differ in what their failures say. -/
inductive Similar : Flow → Flow → Prop
  | pipe {p q : Pipe} (h : p.Similar q) : Similar (.pipe p) (.pipe q)
  | sink {p q : Pipe} {deliver deliver' : List Value → Effect Unit} (h : p.Similar q)
      (hdeliver : ∀ vs, Tracks Stop.Kin Eq (deliver vs) (deliver' vs)) :
      Similar (.sink p deliver) (.sink q deliver')

theorem similar_refl : ∀ x : Flow, Similar x x
  | .pipe p => .pipe (Pipe.similar_refl p)
  | .sink p _ => .sink (Pipe.similar_refl p) fun _ => tracks_refl Stop.Kin.refl _

namespace Similar

variable {x y : Flow}

theorem input (h : x.Similar y) : x.input.Similar y.input := by
  cases h with
  | pipe h => exact h
  | sink h hdeliver =>
    exact h.gather fun vs => (hdeliver vs).bind fun _ _ _ => tracks_pure rfl

theorem run (h : x.Similar y) (limit : Nat) : Tracks Eq Pipe.Ends (x.run limit) (y.run limit) := by
  cases h with
  | pipe h => exact h.collected limit
  | sink h hdeliver =>
    refine (h.collected limit).bind ?_
    rintro ⟨vs, e⟩ ⟨vs', e'⟩ ⟨hvs, he⟩
    obtain rfl : vs = vs' := hvs
    cases e with
    | some e =>
      cases e' with
      | none => cases he
      | some e' => exact tracks_pure ⟨rfl, rfl⟩
    | none =>
      cases e' with
      | some e' => cases he
      | none =>
        refine Tracks.tryCatch (E := Stop.Kin) ?_ fun s s' hs => ?_
        · exact (hdeliver vs).bind fun _ _ _ => tracks_pure ⟨rfl, rfl⟩
        · cases hs with
          | failure f f' => exact tracks_pure ⟨rfl, rfl⟩
          | crash => exact tracks_throw rfl

/-- On every run both succeed with the same values, or both fail. -/
theorem agree (h : x.Similar y) (limit : Nat) (w : Workspace) :
    Agree ((x.run limit).run.run w).1 ((y.run limit).run.run w).1 := by
  have hruns := (h.run limit w).2
  generalize ((x.run limit).run.run w).1 = r at hruns
  generalize ((y.run limit).run.run w).1 = r' at hruns
  cases hruns with
  | error h => exact .inl (congrArg _ h)
  | @ok a b h =>
    obtain ⟨vs, e⟩ := a
    obtain ⟨vs', e'⟩ := b
    obtain rfl : vs = vs' := h.1
    have he : e.isSome = e'.isSome := h.2
    cases e with
    | none =>
      cases e' with
      | none => exact .inl rfl
      | some e' => cases he
    | some e =>
      cases e' with
      | none => cases he
      | some e' => exact .inr ⟨vs, e, vs, e', rfl, rfl⟩

end Similar

end Flow

namespace Streaming

theorem tracks_store (n n' : Node) (uri : Text) (vs : List Value) :
    Tracks Stop.Kin Eq (store n uri vs) (store n' uri vs) := by
  unfold store
  refine Tracks.tryCatch (E := Eq) (tracks_refl (fun _ => rfl) _) fun s s' hs => ?_
  subst hs
  cases s with
  | crash => exact tracks_throw .crash
  | failure f =>
    show Tracks _ _ (if _ then _ else _) (if _ then _ else _)
    split
    · exact tracks_throw (.failure _ _)
    · exact tracks_refl Stop.Kin.refl _

theorem tracks_deliver (o : Options) (n n' : Node) (uri : Text) (vs : List Value) :
    Tracks Stop.Kin Eq (deliver o n uri vs) (deliver o n' uri vs) := by
  unfold deliver
  split
  · exact tracks_refl Stop.Kin.refl _
  · by_cases hkept : uri.isEmpty ∨ uri = "memory" ∨ uri = "collect"
    · simp only [hkept, if_true]
      exact tracks_refl Stop.Kin.refl _
    · simp only [hkept, if_false]
      split
      · exact (tracks_store n n' uri vs).bind fun _ _ _ => tracks_refl Stop.Kin.refl _
      · exact (tracks_store n n' uri vs).bind fun _ _ _ => tracks_refl Stop.Kin.refl _

theorem similar_parallel {p q : Pipe} (h : p.Similar q) (workers : Int) {f g : Value → Outcome Value}
    (hfg : ∀ v, Matches Stop.Kin Eq (f v) (g v)) :
    (p.parallel workers f).Similar (q.parallel workers g) := by
  unfold Pipe.parallel
  split
  · exact h.map hfg
  · exact h.batched _ hfg

theorem resembles_custom {n n' : Node} (h : n.Like n') {x y : Flow} (hxy : x.Similar y) :
    Effect.Resembles Flow.Similar (custom n x) (custom n' y) := by
  obtain ⟨op, config, id, parents, id', parents', rfl, rfl⟩ := h.exists_fields
  unfold custom
  refine .after fun kind => ?_
  split
  · exact (resembles_log _ _).bind fun _ _ _ => resembles_pure hxy
  · next k hk =>
    refine .after fun params => resembles_pure ?_
    refine .pipe (hxy.input.gather fun vs => tracks_ofOutcome ?_)
    refine (matches_mapError _ _ _).bind fun rows rows' hrows => ?_
    subst hrows
    refine ((Matches.refl Stop.Kin.refl _).mapFailure _ _).bind fun rows rows' hrows => ?_
    exact .ok (congrArg _ hrows)

theorem similar_inputs {xs ys : List Flow} (h : List.Forall₂ Flow.Similar xs ys) :
    List.Forall₂ Pipe.Similar (xs.map Flow.input) (ys.map Flow.input) :=
  List.forall₂_map_left_iff.mpr (List.forall₂_map_right_iff.mpr (h.imp fun _ _ => Flow.Similar.input))

/-- What a node is lowered to does not depend on its identifier, up to what failures say. -/
theorem resembles_lower (lib : Library) (o : Options) {n n' : Node} (h : n.Like n') {xs ys : List Flow}
    (hxy : List.Forall₂ Flow.Similar xs ys) :
    Effect.Resembles Flow.Similar (lower lib o n xs) (lower lib o n' ys) := by
  have hcustom := fun {x y} => resembles_custom h (x := x) (y := y)
  obtain ⟨op, config, id, parents, id', parents', rfl, rfl⟩ := h.exists_fields
  by_cases hsource : op = .source
  · subst hsource
    refine .after fun uri => ?_
    exact resembles_pure (Flow.similar_refl _)
  cases hxy with
  | nil =>
    simp only [lower, if_neg hsource]
    exact resembles_throw (.failure _ _)
  | cons hx hrest =>
    cases op with
    | source => exact absurd rfl hsource
    | map =>
      refine .after fun f => ?_
      cases f with
      | none => exact resembles_pure (.pipe hx.input)
      | some f =>
        exact resembles_pure (.pipe (similar_parallel hx.input _ fun v => matches_mapError _ _ _))
    | filter =>
      refine .after fun f => ?_
      cases f with
      | none => exact resembles_pure (.pipe hx.input)
      | some f => exact resembles_pure (.pipe (hx.input.filter fun v => matches_mapError _ _ _))
    | reduce =>
      refine .after fun f => ?_
      split
      · exact resembles_pure (.pipe hx.input)
      · exact resembles_pure (.pipe (hx.input.reduce _ fun acc v => matches_mapError _ _ _))
    | window =>
      let size := Node.int { id, op := .window, config, parents } "size" 1
      show Effect.Resembles _ (if size < 1 then Effect.fail _ else pure _)
        (if size < 1 then Effect.fail _ else pure _)
      split
      · exact resembles_throw (.failure _ _)
      · exact resembles_pure (.pipe (hx.input.sliding _))
    | join =>
      cases hrest with
      | nil => exact resembles_throw (.failure _ _)
      | cons hy _ =>
        refine .after fun on => ?_
        exact resembles_pure (.pipe (hx.input.join hy.input _ _))
    | sink =>
      refine .after fun uri => ?_
      exact resembles_pure (.sink hx.input fun vs => tracks_deliver o _ _ uri vs)
    | union | merge =>
      exact resembles_pure (.pipe (Pipe.Similar.concat (.cons hx.input (similar_inputs hrest))))
    | choice =>
      cases hrest with
      | nil => exact resembles_pure (.pipe hx.input)
      | cons hy _ => exact resembles_pure (.pipe (hx.input.fallback hy.input))
    | ensemble =>
      cases hrest with
      | nil => exact resembles_pure (.pipe hx.input)
      | cons hy _ => exact resembles_pure (.pipe (hx.input.zip hy.input _))
    | custom => exact hcustom hx
    | other name => exact resembles_pure (.pipe hx.input)

theorem composing_backend (lib : Library) (o : Options) : (backend lib o).Composing Flow.Similar :=
  Backend.composing_branching Flow.similar_refl (fun _ _ _ _ => rfl) fun h hxy => resembles_lower lib o h hxy

end Streaming

end Dataflow
