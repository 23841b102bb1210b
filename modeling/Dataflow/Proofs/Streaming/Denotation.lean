import Dataflow.Pipe.Lower
import Dataflow.Proofs.Compile.Implementation
import Dataflow.Proofs.Pipe.Stages

/-!
# What nodes denote

A node over values in memory denotes an operation on meanings, that is on lists of values with the
reason why they end early (`denote`); a graph of such nodes is read by recursion on their parents, with
`Graph.evaluate`.  No cursor, no flow and no workspace takes part in it.

Main statement (`implements_denote`): with one worker the streaming backend implements this reading.  A
flow `Means` a meaning if passes over it give the meaning, wherever it stands, and however often.
-/

namespace Dataflow

variable {m : Meaning} {n : Node}

namespace Meaning

/-- One after the other, up to the first that stops. -/
def concat (ms : List Meaning) : Meaning := ms.foldr append (.ofList [])

end Meaning

namespace Pipe

theorem denotes_concat {I : Surroundings} {ps : List Pipe} {ms : List Meaning}
    (h : List.Forall₂ (Denotes I) ps ms) : Denotes I (concat ps) (.concat ms) := by
  induction h with
  | nil => exact denotes_nothing
  | cons hp _ ih => exact hp.append ih

end Pipe

namespace Flow

/-- Every run of the flow that is not called off gives the outcome of the meaning, and can be followed by
another one. -/
def Computes (x : Flow) (m : Meaning) : Prop :=
  ∃ bound, ∀ limit, bound ≤ limit → ∀ w : Workspace, w.cancelled = false →
    ∃ w', w'.cancelled = false ∧ (x.run limit).run.run w = (m.outcome, w')

/-- The delivery always succeeds, and does not call the run off. -/
def Delivers (e : Effect Unit) : Prop :=
  ∀ w : Workspace, w.cancelled = false → ∃ w', w'.cancelled = false ∧ e.run.run w = (.ok (), w')

/-- The meaning of a flow: that of its passes, and for a sink all of the values or only the failure. -/
def Means : Flow → Meaning → Prop
  | pipe p, m => Pipe.Denotes .running p m
  | sink p deliver, m =>
    (∃ k, Pipe.Denotes .running p k ∧ m = k.whole .ofList) ∧ ∀ vs, Delivers (deliver vs)

theorem Means.input {x : Flow} (h : x.Means m) : Pipe.Denotes .running x.input m := by
  cases x with
  | pipe p => exact h
  | sink p deliver =>
    obtain ⟨⟨k, hk, rfl⟩, hdeliver⟩ := h
    have hrun (vs : List Value) (w : Workspace) (hw : w.cancelled = false) : ∃ w', w'.cancelled = false ∧
        (do deliver vs; return vs : Effect (List Value)).run.run w = (.ok vs, w') := by
      obtain ⟨w', hw', hd⟩ := hdeliver vs w hw
      exact ⟨w', hw', run_bind_ok hd⟩
    have hsteady (vs : List Value) : Steady .running {} (do deliver vs; return vs) := by
      intro w hw
      obtain ⟨w', hw', hvs⟩ := hrun vs w hw
      obtain ⟨w'', -, hvs'⟩ := hrun vs {} rfl
      exact ⟨by rw [hvs, hvs'], by rw [hvs]; exact hw'⟩
    have hall : (fun vs => Meaning.after ((do deliver vs; return vs : Effect _).run.run {}).1 .ofList) =
        Meaning.ofList := by
      funext vs
      obtain ⟨w', -, hvs⟩ := hrun vs {} rfl
      rw [hvs]
      rfl
    exact hall ▸ hk.gather hsteady

theorem Means.computes {x : Flow} (h : x.Means m) : x.Computes m := by
  cases x with
  | pipe p => exact Pipe.Denotes.collected h
  | sink p deliver =>
    obtain ⟨⟨k, hk, rfl⟩, hdeliver⟩ := h
    obtain ⟨bound, hbound⟩ := hk.collected
    refine ⟨bound, fun limit hlimit w hw => ?_⟩
    obtain ⟨w', hw', hrun⟩ := hbound limit hlimit w hw
    unfold Meaning.outcome Meaning.ending at hrun
    unfold run Meaning.whole
    rcases hstop : k.stop with _ | (f | _) <;> rw [hstop] at hrun
    · obtain ⟨w'', hw'', hd⟩ := hdeliver k.values w' hw'
      refine ⟨w'', hw'', ?_⟩
      rw [run_bind_ok hrun]
      exact run_tryCatch_ok (run_bind_ok hd)
    · exact ⟨w', hw', run_bind_ok hrun⟩
    · exact ⟨w', hw', run_bind_error hrun⟩

end Flow

/-- The location is one of values in memory. -/
def Location.InMemory (l : Location) : Prop :=
  l.format = none ∧ (l.scheme = "memory" ∨ l.scheme = "payload")

/-- The node works on values in memory: its settings can be read, and it has as many parents as its
operation takes. -/
def Node.InMemory (n : Node) : Prop :=
  match n.op with
  | .source => n.parents = [] ∧ ∃ uri, n.text "uri" "" = .ok uri ∧ (Location.parse uri).InMemory
  | .map => n.parents.length = 1 ∧ ∃ f, n.func? "fn" = .ok f
  | .filter => n.parents.length = 1 ∧ ∃ f, n.func? "predicate" = .ok f
  | .window => n.parents.length = 1 ∧ 1 ≤ n.int "size" 1
  | .reduce => n.parents.length = 1 ∧ ∃ f, n.fold? "fn" = .ok f
  | .join => n.parents.length = 2 ∧ ∃ on, n.text "on" "" = .ok on
  | .union => n.parents ≠ []
  | .choice | .ensemble | .merge => n.parents.length = 2
  | .custom => n.parents.length = 1 ∧ ∃ kind, n.kind = .ok kind ∧ Indicator.lookup? kind = none
  | .sink => n.parents.length = 1 ∧
    ∃ uri, n.text "uri" "" = .ok uri ∧ uri ∈ [("" : Text), "memory", "collect"]
  | .other _ => False

namespace Streaming

/-- What a node makes of what its parents denote.  A map, filter or reduction without a function passes
its input on, and so does a custom node. -/
def denote (lib : Library) (n : Node) (inputs : List Meaning) : Outcome Meaning :=
  match n.op, inputs with
  | .source, _ => do
    let uri ← n.text "uri" ""
    return .ofList <|
      if (Location.parse uri).scheme = "payload" then [(n.value? "payload").getD .null]
      else Connector.items ((n.value? "data").getD .null)
  | .map, [m] => do
    match ← n.func? "fn" with
    | none => return m
    | some f => return m.map fun v => atNode n (f.call lib v)
  | .filter, [m] => do
    match ← n.func? "predicate" with
    | none => return m
    | some f => return m.filter fun v => atNode n (f.test lib v)
  | .window, [m] => return m.sliding (n.int "size" 1).toInt
  | .reduce, [m] => do
    match (← n.fold? "fn").bind FoldFunc.code with
    | none => return m
    | some f => return m.reduce ((n.value? "init").getD .null) fun acc v => atNode n (f.call lib acc v)
  | .join, [m, m'] => do
    let on ← n.text "on" ""
    return m.join (joinKey on) (joinKey on) mergeRows m'
  | .union, ms | .merge, ms => return .concat ms
  | .choice, [m, m'] => return m.fallback m'
  | .ensemble, [m, m'] => return m.zip (fun l r => .list [l, r]) m'
  | .custom, [m] => return m
  | .sink, [m] => return m.whole .ofList
  | _, _ => Outcome.crash

theorem delivers_deliver (o : Options) (n : Node) {uri : Text}
    (huri : uri ∈ [("" : Text), "memory", "collect"]) (vs : List Value) :
    Flow.Delivers (deliver o n uri vs) := by
  have hcases : ∀ t ∈ [("" : Text), "memory", "collect"], ¬ (t = "stdout" ∨ t = "console") ∧
      (t.isEmpty ∨ t = "memory" ∨ t = "collect") := by decide
  obtain ⟨hprint, hkeep⟩ := hcases uri huri
  intro w hw
  unfold deliver
  rw [if_neg hprint, if_pos hkeep]
  cases o.echo with
  | false => exact ⟨w, hw, rfl⟩
  | true => exact ⟨{ w with printed := w.printed ++ Text.concat (vs.map line) }, hw, rfl⟩

theorem denotes_source {uri : Text} (h : (Location.parse uri).InMemory) (n : Node) :
    Pipe.Denotes .running (Connector.source uri n.config) (.ofList <|
      if (Location.parse uri).scheme = "payload" then [(n.value? "payload").getD .null]
      else Connector.items ((n.value? "data").getD .null)) := by
  unfold Connector.source
  simp only [h.1]
  rcases h.2 with hscheme | hscheme
  · rw [if_pos hscheme, if_neg (by rw [hscheme]; decide)]
    exact Pipe.denotes_items _
  · rw [if_neg (by rw [hscheme]; decide), if_pos hscheme, if_pos hscheme]
    exact Pipe.denotes_items _

/-- A custom node of an unknown kind is lowered to its input, with a warning. -/
theorem run_custom (x : Flow) {kind : Text} (hkind : n.kind = .ok kind)
    (hunknown : Indicator.lookup? kind = none) {w : Workspace} (hw : w.cancelled = false) :
    ∃ w', w'.cancelled = false ∧ (custom n x).run.run w = (.ok x, w') := by
  have hread : (Effect.ofOutcome n.kind).run.run w = (.ok kind, w) := by
    rw [hkind]
    rfl
  unfold custom
  rw [run_bind_ok hread]
  simp only [hunknown]
  exact ⟨((n.warnUnknown name kind).run.run w).2, hw, rfl⟩

section Inputs

variable {xs : List Flow} {ms : List Meaning} (h : List.Forall₂ Flow.Means xs ms)

include h

theorem exists_single (hlength : ms.length = 1) : ∃ x m, xs = [x] ∧ ms = [m] ∧ x.Means m := by
  cases h with
  | nil => cases hlength
  | cons hx h =>
    cases h with
    | nil => exact ⟨_, _, rfl, rfl, hx⟩
    | cons _ _ => simp at hlength

theorem exists_pair (hlength : ms.length = 2) :
    ∃ x y m k, xs = [x, y] ∧ ms = [m, k] ∧ x.Means m ∧ y.Means k := by
  cases h with
  | nil => cases hlength
  | cons hx h =>
    obtain ⟨y, k, rfl, rfl, hy⟩ := exists_single h (by simpa using hlength)
    exact ⟨_, y, _, k, rfl, rfl, hx, hy⟩

theorem denotes_inputs : Pipe.Denotes .running (.concat (xs.map Flow.input)) (.concat ms) := by
  refine Pipe.denotes_concat ?_
  rw [List.forall₂_map_left_iff]
  exact h.imp fun _ _ => Flow.Means.input

end Inputs

/-- A node in memory is lowered to a flow of what it denotes. -/
theorem lower_denote (lib : Library) (echo : Bool) (hn : n.InMemory) {xs : List Flow}
    {ms : List Meaning} (h : List.Forall₂ Flow.Means xs ms) (hlength : ms.length = n.parents.length)
    {w : Workspace} (hw : w.cancelled = false) :
    ∃ x m w', (lower lib { workers := 1, echo } n xs).run.run w = (.ok x, w') ∧ w'.cancelled = false ∧
      denote lib n ms = .ok m ∧ x.Means m := by
  have hsingle := fun hone => exists_single h (hlength.trans hone)
  unfold Node.InMemory at hn
  unfold lower denote
  cases hop : n.op <;> simp only [hop, reduceCtorEq, if_true, if_false] at hn ⊢
  case source =>
    obtain ⟨-, uri, huri, hmemory⟩ := hn
    simp only [huri]
    exact ⟨_, _, w, rfl, hw, rfl, denotes_source hmemory n⟩
  case map =>
    obtain ⟨hone, f, hf⟩ := hn
    obtain ⟨x, m, rfl, rfl, hx⟩ := hsingle hone
    simp only [hf]
    cases f with
    | none => exact ⟨_, _, w, rfl, hw, rfl, hx.input⟩
    | some f => exact ⟨_, _, w, rfl, hw, rfl, hx.input.map _⟩
  case filter =>
    obtain ⟨hone, f, hf⟩ := hn
    obtain ⟨x, m, rfl, rfl, hx⟩ := hsingle hone
    simp only [hf]
    cases f with
    | none => exact ⟨_, _, w, rfl, hw, rfl, hx.input⟩
    | some f => exact ⟨_, _, w, rfl, hw, rfl, hx.input.filter _⟩
  case window =>
    obtain ⟨hone, hsize⟩ := hn
    obtain ⟨x, m, rfl, rfl, hx⟩ := hsingle hone
    simp only [Int64.not_lt.mpr hsize, if_false]
    exact ⟨_, _, w, rfl, hw, rfl, hx.input.sliding _⟩
  case reduce =>
    obtain ⟨hone, f, hf⟩ := hn
    obtain ⟨x, m, rfl, rfl, hx⟩ := hsingle hone
    simp only [hf]
    rcases f with _ | ⟨_, _, _ | code⟩
    · exact ⟨_, _, w, rfl, hw, rfl, hx.input⟩
    · exact ⟨_, _, w, rfl, hw, rfl, hx.input⟩
    · exact ⟨_, _, w, rfl, hw, rfl, hx.input.reduce _ _⟩
  case join =>
    obtain ⟨htwo, on, hon⟩ := hn
    obtain ⟨x, y, m, k, rfl, rfl, hx, hy⟩ := exists_pair h (hlength.trans htwo)
    simp only [hon]
    exact ⟨_, _, w, rfl, hw, rfl, hx.input.hashJoin hy.input _ _ _⟩
  case union =>
    cases h with
    | nil => exact absurd (List.length_eq_zero_iff.mp hlength.symm) hn
    | cons hx h => exact ⟨_, _, w, rfl, hw, rfl, denotes_inputs (.cons hx h)⟩
  case merge =>
    cases h with
    | nil => simp [hn] at hlength
    | cons hx h => exact ⟨_, _, w, rfl, hw, rfl, denotes_inputs (.cons hx h)⟩
  case choice =>
    obtain ⟨x, y, m, k, rfl, rfl, hx, hy⟩ := exists_pair h (hlength.trans hn)
    exact ⟨_, _, w, rfl, hw, rfl, hx.input.fallback hy.input⟩
  case ensemble =>
    obtain ⟨x, y, m, k, rfl, rfl, hx, hy⟩ := exists_pair h (hlength.trans hn)
    exact ⟨_, _, w, rfl, hw, rfl, hx.input.zip hy.input _⟩
  case custom =>
    obtain ⟨hone, kind, hkind, hunknown⟩ := hn
    obtain ⟨x, m, rfl, rfl, hx⟩ := hsingle hone
    obtain ⟨w', hw', hrun⟩ := run_custom x hkind hunknown hw
    exact ⟨x, m, w', hrun, hw', rfl, hx⟩
  case sink =>
    obtain ⟨hone, uri, huri, hmemory⟩ := hn
    obtain ⟨x, m, rfl, rfl, hx⟩ := hsingle hone
    simp only [huri]
    exact ⟨_, _, w, rfl, hw, rfl, ⟨m, hx.input, rfl⟩, delivers_deliver _ n hmemory⟩

theorem step_eq_single (hn : n.InMemory) : n.step = .single n := by
  have hplain : n.isOperatorComposite = false := by
    unfold Node.InMemory at hn
    unfold Node.isOperatorComposite
    cases hop : n.op with
    | choice | ensemble =>
      simp only [hop] at hn
      simp [hn]
    | _ => simp
  rw [Node.step, hplain]
  rfl

/-- **With one worker the streaming backend implements what nodes in memory denote.** -/
theorem implements_denote (lib : Library) (echo : Bool) {g : Graph} (hg : ∀ n ∈ g.nodes, n.InMemory) :
    (backend lib { workers := 1, echo }).Implements g (denote lib) Flow.Means := by
  intro n hn xs ms w h hlength hw
  have hlower : (backend lib { workers := 1, echo }).lower n xs =
      lower lib { workers := 1, echo } n xs := by
    simp only [backend, Backend.branching, step_eq_single (hg n hn)]
  rw [hlower]
  exact lower_denote lib echo (hg n hn) h hlength hw

end Streaming

end Dataflow
