import Dataflow.Proofs.Compile.Evaluation

/-!
# Which graphs compile

The walk ends on every graph.  `enter` is one visit with the visits of the parents left open, and
`unrolled call k` nests `k` of them, with `call` in place of what would be nested deeper.  However
`call` is chosen, as many levels as the graph has nodes, and one more, give the walk: no run nests
deeper (`unrolled_eq_visit`).

With a backend that never fails, compiling a graph that has nodes fails exactly if a target is
defective, that is if a chain of parents from it leaves the graph or comes back to one of its nodes
(`walk_classifies`).  The memo cannot hide a cycle: its nodes form a schedule.

Whatever the backend does, an ordered graph is never to blame (`lower_malformed_of_compile`).
-/

namespace Dataflow.Backend

variable {α : Type}

/-! ### Termination -/

section Unrolling

variable (b : Backend α) (g : Graph)

/-- One visit; parents are visited by `call`. -/
def enter (call : List Text → Text → Text → Compiling α α) (active : List Text) (id child : Text) :
    Compiling α α := do
  match (← get).artifact? id with
  | some a => return a
  | none =>
    match g.node? id with
    | none => throw (.failure (Failure.danglingParent child id))
    | some n =>
      if id ∈ active then
        throw (.failure ((Failure.malformedGraph ("cycle through node " ++ n.shortId)).withDetail
          "node" (.text id)))
      else
        let inputs ← n.parents.mapM fun p => call (id :: active) p id
        b.lowerAt n inputs

/-- Visits nested `k` deep; `call` stands for deeper ones. -/
def unrolled (call : List Text → Text → Text → Compiling α α) :
    Nat → List Text → Text → Text → Compiling α α
  | 0 => call
  | k + 1 => enter b g (unrolled call k)

variable {b g} {active : List Text} {id child : Text}

theorem visit_eq_enter : visit b g active id child = enter b g (visit b g) active id child := by
  funext c
  show (visit b g active id child).run.run c = (enter b g (visit b g) active id child).run.run c
  rw [run_visit]
  unfold enter
  rw [run_get_bind]
  cases c.artifact? id with
  | some a => rfl
  | none =>
    cases g.node? id with
    | none => rfl
    | some n =>
      by_cases hactive : id ∈ active
      · simp only [if_pos hactive]
        rfl
      · simp only [if_neg hactive]

/-- Calls that agree on the nodes a visit may enter next lead to the same visit. -/
theorem enter_congr {call call' : List Text → Text → Text → Compiling α α}
    (h : ∀ n, g.node? id = some n → id ∉ active →
      ∀ p, call (id :: active) p id = call' (id :: active) p id) :
    enter b g call active id child = enter b g call' active id child := by
  unfold enter
  congr 1
  funext c
  cases c.artifact? id with
  | some a => rfl
  | none =>
    cases hn : g.node? id with
    | none => rfl
    | some n =>
      by_cases hactive : id ∈ active
      · simp only [if_pos hactive]
      · simp only [if_neg hactive, h n hn hactive]

theorem unrolled_eq_visit (call : List Text → Text → Text → Compiling α α) {k : Nat}
    (hk : (g.inactive active).length < k) :
    unrolled b g call k active id child = visit b g active id child := by
  induction k generalizing active id child with
  | zero => omega
  | succ k ih =>
    rw [visit_eq_enter]
    refine enter_congr fun n hn hactive p => ih ?_
    have hlt := g.length_inactive_lt hn hactive
    omega

theorem length_inactive_le : (g.inactive active).length ≤ g.size := by
  simpa [Graph.inactive, Graph.size, Graph.ids] using List.length_filter_le _ g.ids

end Unrolling

/-! ### Classification -/

/-- The backend lowers every node, and does not call the run off. -/
def Unfailing (b : Backend α) : Prop :=
  ∀ n inputs (w : Workspace), w.cancelled = false →
    ∃ a w', (b.lower n inputs).run.run w = (.ok a, w') ∧ w'.cancelled = false

variable {b : Backend α} {g : Graph}

/-- The walk has not been called off. -/
def Live (c : Compilation α) : Prop := c.workspace.cancelled = false

/-- The backend does so for the nodes of the graph. -/
def Lowers (b : Backend α) (g : Graph) : Prop :=
  ∀ n ∈ g.nodes, ∀ inputs (w : Workspace), w.cancelled = false →
    ∃ a w', (b.lower n inputs).run.run w = (.ok a, w') ∧ w'.cancelled = false

theorem Unfailing.lowers (hb : b.Unfailing) : b.Lowers g := fun n _ => hb n

/-- In states with the property, every ready node is lowered, and the property is kept. -/
def Succeeds (b : Backend α) (g : Graph) (I : Compilation α → Prop) : Prop :=
  ∀ n inputs c, Ready g c n inputs → I c → Live c ∧
    ∃ a w, (b.lower n inputs).run.run c.workspace = (.ok a, w) ∧ I ⟨c.memo ++ [(n.id, a)], w⟩

/-- Then only the graph can stop the compilation. -/
theorem Succeeds.compile_ends {I : Compilation α → Prop} (h : Succeeds b g I) (hne : g.nodes ≠ [])
    {w : Workspace} (hI : I { workspace := w }) :
    (∃ ts c, (compile b g w).1 = .ok ts ∧ List.Forall₂ (IsEntry c) g.targets ts ∧ Lowered b g c.memo ∧ I c) ∨
      ∃ s, (compile b g w).1 = .error s ∧ ∃ t ∈ g.targets, g.Blocked [] t.id s := by
  have hkeeps : Keeps b g I := by
    intro n inputs c a c' hready hc hrun
    obtain ⟨-, hlower, hmemo⟩ := lowerAt_ok hrun
    obtain ⟨-, a', w', hlower', hI'⟩ := h n inputs c hready hc
    cases hlower.symm.trans hlower'
    rw [← hmemo] at hI'
    exact hI'
  rcases Backend.compile_ends hkeeps hI with
    hok | ⟨s, hs, (⟨hempty, -⟩ | hblocked) | ⟨c, n, inputs, d, hready, hd, hlower⟩⟩
  · exact .inl hok
  · exact absurd hempty hne
  · exact .inr ⟨s, hs, hblocked⟩
  · obtain ⟨hlive, a, w', hlower', -⟩ := h n inputs d hready hd
    rcases lowerAt_error hlower with ⟨hcancelled, -⟩ | ⟨s', w, hfail, -⟩
    · cases hlive.symm.trans hcancelled
    · cases hlower'.symm.trans hfail

theorem Lowers.succeeds (hb : b.Lowers g) : Succeeds b g Live := fun n inputs c hready hc =>
  ⟨hc, hb n hready.mem inputs c.workspace hc⟩

/-- How a compilation ends that only the graph can stop. -/
theorem Lowers.compile_cases (hb : b.Lowers g) (hne : g.nodes ≠ []) {w : Workspace}
    (hlive : w.cancelled = false) :
    (∃ ts, (compile b g w).1 = .ok ts ∧ ts.map Prod.fst = g.targets.map Node.id ∧
      ∀ t ∈ g.targets, ¬ g.Defective t.id) ∨
    ∃ f : Failure, (compile b g w).1 = .error (.failure f) ∧ f.code? = some .malformedGraph ∧
      ∃ t ∈ g.targets, g.Defective t.id := by
  rcases hb.succeeds.compile_ends hne (w := w) hlive with ⟨ts, c, hts, hentries, hlowered, -⟩ |
    ⟨s, hs, t, ht, hblocked⟩
  · refine .inl ⟨ts, hts, map_fst_of_entries hentries, fun t ht => ?_⟩
    -- a target that was lowered stands in a schedule
    obtain ⟨entry, -, -, ha⟩ := exists_mem_of_forall₂ hentries ht
    exact hlowered.schedule.not_defective (List.mem_map_of_mem (Compilation.mem_of_artifact? ha))
  · obtain ⟨f, rfl, hcode⟩ := hblocked.1
    exact .inr ⟨f, hs, hcode, t, ht, hblocked.defective⟩

/-- An ordered graph is refused as malformed only by the backend. -/
theorem lower_malformed_of_compile (hord : g.Ordered) (hne : g.nodes ≠ []) {w : Workspace} {f : Failure}
    (h : (compile b g w).1 = .error (.failure f)) (hcode : f.code? = some .malformedGraph) :
    ∃ n ∈ g.nodes, ∃ inputs v v' f', (b.lower n inputs).run.run v = (.error (.failure f'), v') ∧
      f'.code? = some .malformedGraph ∧ f = f'.atNode b.name n.id := by
  rcases compile_ends (b := b) (g := g) (w := w) keeps_true trivial with ⟨ts, c, hts, -⟩ |
    ⟨s, hstop, (⟨hempty, -⟩ | ⟨t, ht, hblocked⟩) | ⟨c, n, inputs, d, hready, -, hlower⟩⟩
  · cases h.symm.trans hts
  · exact absurd hempty hne
  · have hmem := Graph.mem_ids_of_mem (Graph.mem_of_mem_targets ht)
    exact absurd hblocked.defective (hord.not_defective hmem)
  · cases h.symm.trans hstop
    rcases lowerAt_error hlower with ⟨-, hs⟩ | ⟨s | _, v, hs, heq⟩
    · cases hs
      rw [code?_atNode] at hcode
      cases hcode
    · cases heq
      rw [code?_atNode] at hcode
      refine ⟨n, hready.mem, inputs, d.workspace, v, s, hs, ?_, rfl⟩
      cases hs' : s.code? with
      | none => rw [hs'] at hcode; cases hcode
      | some code => rw [hs'] at hcode; exact hcode
    · cases heq

/-- **The walk ends on every graph and tells apart which graphs compile.** -/
theorem walk_classifies (b : Backend α) (g : Graph) :
    (∀ call active id child,
      unrolled b g call (g.size + 1) active id child = visit b g active id child) ∧
    (b.Unfailing → g.nodes ≠ [] → ∀ w : Workspace, w.cancelled = false →
      ((∃ f : Failure, (compile b g w).1 = .error (.failure f) ∧ f.code? = some .malformedGraph) ↔
        ∃ t ∈ g.targets, g.Defective t.id) ∧
      ((¬ ∃ t ∈ g.targets, g.Defective t.id) →
        ∃ ts, (compile b g w).1 = .ok ts ∧ ts.map Prod.fst = g.targets.map Node.id)) := by
  refine ⟨fun call active id child => ?_, ?_⟩
  · exact unrolled_eq_visit call (Nat.lt_succ_of_le length_inactive_le)
  intro hb hne w hlive
  rcases hb.lowers.compile_cases hne hlive with ⟨ts, hok, hids, hsound⟩ | ⟨f, herror, hcode, hdefective⟩
  · refine ⟨⟨?_, ?_⟩, fun _ => ⟨ts, hok, hids⟩⟩
    · rintro ⟨f, herror, -⟩
      rw [hok] at herror
      cases herror
    · rintro ⟨t, ht, hdefective⟩
      exact absurd hdefective (hsound t ht)
  · exact ⟨⟨fun _ => hdefective, fun _ => ⟨f, herror, hcode⟩⟩, fun hsound => absurd hdefective hsound⟩

theorem unfailing_recording {name : Text} {f : Node → List α → Outcome α}
    (hf : ∀ n inputs, ∃ a, f n inputs = .ok a) : (recording name f).Unfailing := by
  intro n inputs w hlive
  obtain ⟨a, ha⟩ := hf n inputs
  refine ⟨a, { w with notes := w.notes ++ [.said n.id] }, ?_, hlive⟩
  rw [run_recording, ha]

/-- Two sinks over one node; the second also leads to two nodes that read each other. -/
def knotted : Graph := .ofNodes "g"
  [{ id := "s", op := .source }, { id := "a", op := .map, parents := ["s"] },
   { id := "o", op := .sink, parents := ["a", "a"] },
   { id := "x", op := .union, parents := ["a", "y"] }, { id := "y", op := .map, parents := ["x"] },
   { id := "p", op := .sink, parents := ["a", "x"] }]

theorem defective_knotted : knotted.Defective "p" := by
  have hpx : knotted.Reads "p" "x" := by decide
  have hxy : knotted.Reads "x" "y" := by decide
  have hyx : knotted.Reads "y" "x" := by decide
  exact ⟨"x", .single hpx, .inr ((Relation.TransGen.single hxy).tail hyx)⟩

theorem nodes_knotted : knotted.nodes ≠ [] := List.ne_nil_of_length_pos (by decide)

theorem unfailing_joined : (recording "joined" joined).Unfailing := unfailing_recording fun _ _ => ⟨_, rfl⟩

/-- The first sink is lowered before the knot is met, and the compilation fails all the same. -/
theorem walk_classifies_knotted :
    (recording "joined" joined).Unfailing ∧ knotted.nodes ≠ [] ∧
      ∃ f : Failure, ((recording "joined" joined).compile knotted {}).1 = .error (.failure f) ∧
        f.code? = some .malformedGraph := by
  obtain ⟨t, ht, hid⟩ : ∃ t ∈ knotted.targets, t.id = "p" := by decide
  refine ⟨unfailing_joined, nodes_knotted,
    ((walk_classifies _ _).2 unfailing_joined nodes_knotted {} rfl).1.mpr ⟨t, ht, ?_⟩⟩
  rw [hid]
  exact defective_knotted

end Dataflow.Backend
