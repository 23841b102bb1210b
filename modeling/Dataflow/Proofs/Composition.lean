import Dataflow.Proofs.Frame.Composition
import Dataflow.Proofs.Outline
import Dataflow.Proofs.Session.Sharing
import Dataflow.Proofs.Streaming.Composition

/-!
# Composing operators and combining streams

Binding a choice or an ensemble of two operators to a stream, and combining the two streams that the
operators make of it, are two programs with different graphs.  Main statement (`compose_fork_alike`): the
graphs compile to the same outline, and to flows and lazy frames that on every run succeed with the same
values or both fail.
-/

namespace Dataflow

open Backend (Each compile)

/-- Both evaluate to the same frame, or both fail. -/
def Tabular.Agree (r r' : Outcome Frame) : Prop :=
  r = r' ∨ ∃ f f', r = .error (.failure f) ∧ r' = .error (.failure f')

theorem Tabular.Similar.agree {x y : Tabular} (h : x.Similar y) (w : Workspace) :
    Tabular.Agree (x.run.run.run w).1 (y.run.run.run w).1 := by
  have hruns := (h.run w).2
  generalize (x.run.run.run w).1 = r at hruns
  generalize (y.run.run.run w).1 = r' at hruns
  cases hruns with
  | ok h => exact .inl (congrArg _ h)
  | error h =>
    cases h with
    | failure f f' => exact .inr ⟨f, f', rfl, rfl⟩
    | crash => exact .inl rfl

theorem Backend.Each.mono {α : Type} {R S : α → α → Prop} (hRS : ∀ a b, R a b → S a b)
    {ts ts' : List (Text × α)} (h : Each R ts ts') : Each S ts ts' := by
  obtain ⟨t, t', hts, hts', h⟩ := h
  exact ⟨t, t', hts, hts', hRS _ _ h⟩

/-- In a workspace the two graphs compile to one artifact each, or both fail.  The artifacts agree: they
are the same outline, which is there unless the run has been called off, or they give the same on every
run, with every bound on the number of steps. -/
structure CompileAlike (lib : Library) (o : Streaming.Options) (chunk : Int) (g g' : Graph)
    (w : Workspace) : Prop where
  outline : Matches Stop.Kin (Each Eq) (compile Outline.backend g w).1 (compile Outline.backend g' w).1
  drawn : w.cancelled = false → ∃ k k' text, (compile Outline.backend g w).1 = .ok [(k, text)] ∧
    (compile Outline.backend g' w).1 = .ok [(k', text)]
  streaming : Matches Stop.Kin
    (Each fun x y => ∀ limit v, Flow.Agree ((x.run limit).run.run v).1 ((y.run limit).run.run v).1)
    (compile (Streaming.backend lib o) g w).1 (compile (Streaming.backend lib o) g' w).1
  columnar : Matches Stop.Kin
    (Each fun x y => ∀ v, Tabular.Agree (x.run.run.run v).1 (y.run.run.run v).1)
    (compile (Columnar.backend lib chunk) g w).1 (compile (Columnar.backend lib chunk) g' w).1

namespace Session

theorem compileAlike_of_shapes (lib : Library) (o : Streaming.Options) (chunk : Int) {origin : Origin}
    {op : Op} (hop : op = .choice ∨ op = .ensemble) {a b : Operator} (ha : a.Staged) (hb : b.Staged)
    {uri : Text} {g g' : Graph} {src c k src' c' k' : Node} {as bs : List Node}
    (hg : Composed origin op a b uri g src c k) (hg' : Combined origin op a b uri g' src' c' k' as bs)
    (w : Workspace) : CompileAlike lib o chunk g g' w := by
  have houtline := Outline.composing_backend.matches_compile hop ha hb hg hg' w
  have hstreaming := (Streaming.composing_backend lib o).matches_compile hop ha hb hg hg' w
  have hcolumnar := (Columnar.composing_backend lib chunk).matches_compile hop ha hb hg hg' w
  refine ⟨houtline, fun hw => ?_, ?_, ?_⟩
  · obtain ⟨text, htext⟩ := Outline.exists_compile hop ha hb hg hw
    rw [htext] at houtline ⊢
    generalize (compile Outline.backend g' w).1 = r' at houtline ⊢
    cases houtline with
    | ok h =>
      obtain ⟨t, t', ht, rfl, heq⟩ := h
      cases ht
      exact ⟨k.id, t'.1, text, rfl, by rw [show text = t'.2 from heq]⟩
  · exact hstreaming.mono fun _ _ => Each.mono fun _ _ h => h.agree
  · exact hcolumnar.mono fun _ _ => Each.mono fun _ _ h => h.agree

/-- **Composing operators is combining streams.**  Both programs run to their end in every session, and
their graphs compile alike in every workspace. -/
theorem compose_fork_alike (lib : Library) (o : Streaming.Options) (chunk : Int) {s s' : Session}
    (hs : s.Built) (hs' : s'.Built) (origin : Origin) {op : Op} (hop : op = .choice ∨ op = .ensemble)
    {a b : Operator} (ha : a.Staged) (hb : b.Staged) (uri : Text) :
    ∃ r t r' t', (compose origin op a b uri).run.run s = (.ok r, t) ∧
      (fork origin op a b uri).run.run s' = (.ok r', t') ∧
      ∀ w, CompileAlike lib o chunk (t.view r) (t'.view r') w := by
  obtain ⟨r, t, src, c, k, hrun, hg⟩ := exists_composed hs.sound origin op a b uri
  obtain ⟨r', t', src', c', k', as, bs, hrun', hg'⟩ :=
    exists_combined hs'.sound origin hop ha.exists_single hb.exists_single uri
  exact ⟨r, t, r', t', hrun, hrun', compileAlike_of_shapes lib o chunk hop ha hb hg hg'⟩

/-- A chain that ends with an ensemble of a chain and a filter. -/
def tangled : Operator :=
  .chain (.map ⟨"up", "x+1", some (.supplied 0)⟩)
    [.ensemble (.chain (.window 2) [.custom "lag" [("n", .int 1)]]) (.filter ⟨"keep", "", none⟩)]

theorem compose_fork_alike_tangled :
    ({} : Session).Built ∧ tangled.Staged ∧ (Operator.window 3).Staged ∧
      ∃ r t r' t', (compose (.items [.int 1, .int 2]) .choice tangled (.window 3) "out").run.run {} = (.ok r, t) ∧
        (fork (.items [.int 1, .int 2]) .choice tangled (.window 3) "out").run.run {} = (.ok r', t') ∧
        ∀ w, CompileAlike .empty { workers := 2 } 0 (t.view r) (t'.view r') w := by
  have hbuilt : ({} : Session).Built := ⟨identifier, [], identifier_injective, rfl⟩
  have htangled : tangled.Staged := by
    refine .chain (.leaf (.map _)) (List.forall_mem_singleton.mpr (.ensemble ?_ (.leaf (.filter _))))
    exact .chain (.leaf (.window 2)) (List.forall_mem_singleton.mpr (.leaf (.custom "lag" rfl)))
  have hwindow : (Operator.window 3).Staged := .leaf (.window 3)
  exact ⟨hbuilt, htangled, hwindow,
    compose_fork_alike .empty { workers := 2 } 0 hbuilt hbuilt _ (.inl rfl) htangled hwindow "out"⟩

end Session

end Dataflow
