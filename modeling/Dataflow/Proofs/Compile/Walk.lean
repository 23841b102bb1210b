import Dataflow.Proofs.Parallel
import Dataflow.Proofs.Graph.Schedule

/-!
# What a walk does

A walk lowers nodes one at a time.  When it does, the node is `Ready`: some target leads to it, it
has not been lowered yet, and the inputs are what its parents were lowered to.  `runs_visit` is the
one induction over the walk.  It says, for any property of walk states that lowering ready nodes
keeps, how a visit ends: with the artifact of the node, with a failure that a defect of the graph
explains (`Blocked`), both with the property kept, or with the failure of lowering a ready node.
`runs_artifacts` is the same for all targets.

A property that lowering a node gives to its artifact, if the inputs have it, is a property of all artifacts of
a compilation: it holds of the memo throughout the walk (`Passes.compile`).
-/

namespace Dataflow

open Relation List

variable {g : Graph} {t : Node} {id p : Text} {s : Stop}

/-- Some target leads to the node. -/
def Graph.Needed (g : Graph) (id : Text) : Prop := ∃ t ∈ g.targets, ReflTransGen g.Reads t.id id

theorem Graph.Needed.of_reads (h : g.Needed id) (hr : g.Reads id p) : g.Needed p := by
  obtain ⟨t, ht, hreach⟩ := h
  exact ⟨t, ht, hreach.tail hr⟩

theorem Graph.needed_target (ht : t ∈ g.targets) : g.Needed t.id :=
  ⟨t, ht, .refl⟩

theorem Graph.mem_of_mem_targets (ht : t ∈ g.targets) : t ∈ g.nodes := by
  unfold targets at ht
  split at ht
  · exact mem_of_mem_filter ht
  · exact mem_of_mem_filter ht

/-- A visit that stops for the graph's sake: the failure blames the graph, and a chain of parents
leaves the graph, meets an active node or runs into a cycle. -/
def Graph.Blocked (g : Graph) (active : List Text) (id : Text) (s : Stop) : Prop :=
  (∃ f : Failure, s = .failure f ∧ f.code? = some .malformedGraph) ∧
    ∃ p, ReflTransGen g.Reads id p ∧ (p ∉ g.ids ∨ p ∈ active ∨ TransGen g.Reads p p)

/-- What blocks a parent blocks the node: an active node that is the node itself closes a cycle. -/
theorem Graph.Blocked.of_reads {active : List Text}
    (h : g.Blocked (id :: active) p s) (hr : g.Reads id p) : g.Blocked active id s := by
  obtain ⟨hs, q, hpq, hq⟩ := h
  refine ⟨hs, ?_⟩
  rcases hq with hout | hactive | hcycle
  · exact ⟨q, hpq.head hr, .inl hout⟩
  · rcases mem_cons.mp hactive with rfl | hactive
    · exact ⟨q, .refl, .inr (.inr (.head' hr hpq))⟩
    · exact ⟨q, hpq.head hr, .inr (.inl hactive)⟩
  · exact ⟨q, hpq.head hr, .inr (.inr hcycle)⟩

theorem Graph.Blocked.defective (h : g.Blocked [] id s) : g.Defective id := by
  obtain ⟨-, p, hp, hout | hactive | hcycle⟩ := h
  · exact ⟨p, hp, .inl hout⟩
  · simp at hactive
  · exact ⟨p, hp, .inr hcycle⟩

variable {α : Type}

/-! ### The memo -/

namespace Compilation

variable {c d e : Compilation α} {id x : Text} {a : α} {active : List Text}

theorem artifact?_eq_none_iff : c.artifact? id = none ↔ id ∉ c.memo.map Prod.fst := by
  simp only [artifact?, Option.map_eq_none_iff, List.find?_eq_none, mem_map, not_exists, not_and]
  exact ⟨fun h e he heq => h e he (by simpa using heq), fun h e he heq => h e he (by simpa using heq)⟩

theorem mem_of_artifact? (h : c.artifact? id = some a) : (id, a) ∈ c.memo := by
  obtain ⟨⟨k, v⟩, hfind, rfl⟩ := Option.map_eq_some_iff.mp h
  have hk : k = id := by simpa using List.find?_some hfind
  exact hk ▸ mem_of_find?_eq_some hfind

/-- The memo grows at its end, and takes no active node in. -/
structure Grows (active : List Text) (c d : Compilation α) : Prop where
  memo : c.memo <+: d.memo
  active : ∀ x ∈ active, c.artifact? x = none → d.artifact? x = none

theorem Grows.refl : Grows active c c := ⟨prefix_refl _, fun _ _ h => h⟩

theorem Grows.trans (h₁ : Grows active c d) (h₂ : Grows active d e) : Grows active c e :=
  ⟨h₁.memo.trans h₂.memo, fun x hx h => h₂.active x hx (h₁.active x hx h)⟩

theorem Grows.artifact? (h : Grows active c d) (ha : c.artifact? id = some a) :
    d.artifact? id = some a := by
  obtain ⟨more, hmore⟩ := h.memo
  unfold Compilation.artifact? at ha ⊢
  obtain ⟨e, he, rfl⟩ := Option.map_eq_some_iff.mp ha
  rw [← hmore, List.find?_append, he]
  rfl

end Compilation

/-- A node that a walk may lower with the given inputs. -/
structure Ready (g : Graph) (c : Compilation α) (n : Node) (inputs : List α) : Prop where
  mem : n ∈ g.nodes
  needed : g.Needed n.id
  new : c.artifact? n.id = none
  inputs : Forall₂ (fun p x => c.artifact? p = some x) n.parents inputs

namespace Backend

variable {b : Backend α} {n : Node} {inputs : List α} {a : α} {c c' : Compilation α} {w : Workspace}
  {targets : List Node} {ts : List (Text × α)}

/-! ### Lowering one node -/

theorem run_lowerAt : (b.lowerAt n inputs).run.run c =
    match (do Effect.checkpoint; b.lower n inputs : Effect α).run.run c.workspace with
    | (.ok a, w) => (.ok a, { memo := c.memo ++ [(n.id, a)], workspace := w })
    | (.error (.failure f), w) => (.error (.failure (f.atNode b.name n.id)), { c with workspace := w })
    | (.error .crash, _) => (.error .crash, c) := by
  unfold lowerAt
  rw [run_get_bind]
  rcases (do Effect.checkpoint; b.lower n inputs : Effect α).run.run c.workspace with ⟨s | a, w⟩
  · cases s <;> rfl
  · rfl

theorem run_checkpoint {x : Effect α} : (do Effect.checkpoint; x : Effect α).run.run w =
      if w.cancelled then (.error (.failure .cancelled), w) else x.run.run w := by
  unfold Effect.checkpoint
  by_cases h : w.cancelled
  · rw [run_bind_error, if_pos h]
    rw [run_get_bind, if_pos h]
    rfl
  · rw [run_bind_ok, if_neg h]
    rw [run_get_bind, if_neg h]
    rfl

theorem lowerAt_ok (h : (b.lowerAt n inputs).run.run c = (.ok a, c')) :
    c.workspace.cancelled = false ∧ (b.lower n inputs).run.run c.workspace = (.ok a, c'.workspace) ∧
      c'.memo = c.memo ++ [(n.id, a)] := by
  rw [run_lowerAt, run_checkpoint] at h
  by_cases hc : c.workspace.cancelled
  · rw [if_pos hc] at h
    cases h
  · rw [if_neg hc] at h
    rcases hx : (b.lower n inputs).run.run c.workspace with ⟨(f | _) | a', w⟩ <;>
      rw [hx] at h <;> cases h
    exact ⟨by simpa using hc, rfl, rfl⟩

theorem lowerAt_error (h : (b.lowerAt n inputs).run.run c = (.error s, c')) :
    (c.workspace.cancelled = true ∧ s = .failure (Failure.cancelled.atNode b.name n.id)) ∨
      ∃ s' w, (b.lower n inputs).run.run c.workspace = (.error s', w) ∧
        s = match s' with
          | .failure f => .failure (f.atNode b.name n.id)
          | .crash => .crash := by
  rw [run_lowerAt, run_checkpoint] at h
  by_cases hc : c.workspace.cancelled
  · rw [if_pos hc] at h
    cases h
    exact .inl ⟨hc, rfl⟩
  · rw [if_neg hc] at h
    rcases hx : (b.lower n inputs).run.run c.workspace with ⟨(f | _) | a, w⟩ <;>
      rw [hx] at h <;> cases h
    · exact .inr ⟨.failure f, w, rfl, rfl⟩
    · exact .inr ⟨.crash, w, rfl, rfl⟩

@[simp] theorem code_orDetail (r : Failure.Report) (key : Text) (v : Value) : (r.orDetail key v).code = r.code := by
  unfold Failure.Report.orDetail
  split <;> rfl

theorem code?_atNode (f : Failure) (backend node : Text) :
    Failure.code? (f.atNode backend node) = some (f.code?.getD .backendExecution) := by
  unfold Failure.atNode Failure.code?
  cases f.report? with
  | none => rfl
  | some r =>
    by_cases hb : backend.isEmpty
    · simp only [if_pos hb]
      exact congrArg some (code_orDetail r _ _)
    · simp only [if_neg hb]
      exact congrArg some ((code_orDetail _ _ _).trans (code_orDetail r _ _))

/-! ### Visiting a node -/

theorem run_visit {active : List Text} {id child : Text} :
    (visit b g active id child).run.run c =
      match c.artifact? id with
      | some a => (.ok a, c)
      | none => match g.node? id with
        | none => (.error (.failure (Failure.danglingParent child id)), c)
        | some n =>
          if id ∈ active then
            (.error (.failure ((Failure.malformedGraph ("cycle through node " ++ n.shortId)).withDetail
              "node" (.text id))), c)
          else (do
            let inputs ← n.parents.mapM fun p => visit b g (id :: active) p id
            b.lowerAt n inputs : Compiling α α).run.run c := by
  rw [visit, run_get_bind]
  cases hc : c.artifact? id with
  | some a => rfl
  | none =>
    simp only
    split
    · next hn => rw [hn]; rfl
    · next n hn =>
      rw [hn]
      by_cases ha : id ∈ active
      · simp only [dif_pos ha, if_pos ha]
        rfl
      · simp only [dif_neg ha, if_neg ha]

/-- A property of walk states that lowering a ready node keeps. -/
def Keeps (b : Backend α) (g : Graph) (I : Compilation α → Prop) : Prop :=
  ∀ {n inputs c a c'}, Ready g c n inputs → I c → (b.lowerAt n inputs).run.run c = (.ok a, c') → I c'

/-- The walk stopped in `c'` because a ready node could not be lowered. -/
def LoweringFails (b : Backend α) (g : Graph) (I : Compilation α → Prop) (s : Stop)
    (c' : Compilation α) : Prop :=
  ∃ n inputs c, Ready g c n inputs ∧ I c ∧ (b.lowerAt n inputs).run.run c = (.error s, c')

variable {I : Compilation α → Prop} {active : List Text} {id child : Text}

theorem grows_of_lowerAt (hid : n.id ∉ active)
    (h : (b.lowerAt n inputs).run.run c = (.ok a, c')) : Compilation.Grows active c c' := by
  obtain ⟨-, -, hmemo⟩ := lowerAt_ok h
  refine ⟨hmemo ▸ prefix_append _ _, fun x hx hnone => ?_⟩
  rw [Compilation.artifact?_eq_none_iff] at hnone ⊢
  have hne : x ≠ n.id := fun heq => hid (heq ▸ hx)
  rw [hmemo, map_append, mem_append, not_or]
  exact ⟨hnone, by simpa using hne⟩

theorem artifact?_of_lowerAt (hnew : c.artifact? n.id = none)
    (h : (b.lowerAt n inputs).run.run c = (.ok a, c')) : c'.artifact? n.id = some a := by
  obtain ⟨-, -, hmemo⟩ := lowerAt_ok h
  have hfind : c.memo.find? (·.1 = n.id) = none := Option.map_eq_none_iff.mp hnew
  unfold Compilation.artifact?
  rw [hmemo, List.find?_append, hfind]
  simp

/-- Visiting the parents of a node: what holds of each visit holds of all of them together. -/
theorem runs_visit_parents (hn : n ∈ g.nodes) (hI : I c)
    (ih : ∀ p ∈ n.parents, ∀ d, I d → Runs (visit b g (n.id :: active) p n.id) d
      (fun a d' => Compilation.Grows (n.id :: active) d d' ∧ d'.artifact? p = some a ∧ I d')
      (fun s d' => g.Blocked (n.id :: active) p s ∧ I d' ∨ LoweringFails b g I s d')) :
    Runs (n.parents.mapM fun p => visit b g (n.id :: active) p n.id) c
      (fun xs d => Compilation.Grows (n.id :: active) c d ∧
        Forall₂ (fun p x => d.artifact? p = some x) n.parents xs ∧ I d)
      (fun s d => g.Blocked active n.id s ∧ I d ∨ LoweringFails b g I s d) := by
  refine runs_mapM (fun done xs d => Compilation.Grows (n.id :: active) c d ∧
    Forall₂ (fun p x => d.artifact? p = some x) done xs ∧ I d) n.parents ?_ ⟨.refl, .nil, hI⟩
  rintro p hp done xs d ⟨hgrows, hdone, hd⟩
  refine (ih p hp d hd).mono ?_ ?_
  · rintro a d' ⟨hgrows', ha, hd'⟩
    refine ⟨hgrows.trans hgrows', ?_, hd'⟩
    exact rel_append (hdone.imp fun _ _ h => hgrows'.artifact? h) (.cons ha .nil)
  · rintro s d' (⟨hblocked, hd'⟩ | hfails)
    · exact .inl ⟨hblocked.of_reads ⟨n, hn, rfl, hp⟩, hd'⟩
    · exact .inr hfails

/-- How a visit ends.  The induction is on the number of nodes that are not active. -/
theorem runs_visit (hkeeps : Keeps b g I) (hneeded : g.Needed id) (hI : I c) :
    Runs (visit b g active id child) c
      (fun a c' => Compilation.Grows active c c' ∧ c'.artifact? id = some a ∧ I c')
      (fun s c' => g.Blocked active id s ∧ I c' ∨ LoweringFails b g I s c') := by
  induction hk : (g.inactive active).length using Nat.strongRecOn
    generalizing active id child c with
  | ind k ih =>
    unfold Runs
    rw [run_visit]
    cases hmemo : c.artifact? id with
    | some a => exact ⟨.refl, hmemo, hI⟩
    | none =>
      cases hnode : g.node? id with
      | none => exact .inl ⟨⟨⟨_, rfl, rfl⟩, id, .refl, .inl (Graph.node?_eq_none_iff.mp hnode)⟩, hI⟩
      | some n =>
        obtain ⟨hn, rfl⟩ := Graph.node?_eq_some_iff.mp hnode
        by_cases hactive : n.id ∈ active
        · simp only [if_pos hactive]
          exact .inl ⟨⟨⟨_, rfl, rfl⟩, n.id, .refl, .inr (.inl hactive)⟩, hI⟩
        · simp only [if_neg hactive]
          have hlt := g.length_inactive_lt hnode hactive
          refine runs_bind ((runs_visit_parents hn hI fun p hp d hd =>
            ih _ (hk ▸ hlt) (hneeded.of_reads ⟨n, hn, rfl, hp⟩) hd rfl).mono ?_ fun _ _ h => h)
          rintro xs d ⟨hgrows, hinputs, hd⟩
          -- the node was active during the visits of its parents, so it is still new
          have hnew := hgrows.active n.id mem_cons_self hmemo
          have hready : Ready g d n xs := ⟨hn, hneeded, hnew, hinputs⟩
          refine (runs_self (b.lowerAt n xs) d).mono ?_ ?_
          · intro a c' hrun
            refine ⟨?_, artifact?_of_lowerAt hnew hrun, hkeeps hready hd hrun⟩
            have hgrows' : Compilation.Grows active c d :=
              ⟨hgrows.memo, fun x hx => hgrows.active x (mem_cons_of_mem _ hx)⟩
            exact hgrows'.trans (grows_of_lowerAt hactive hrun)
          · intro s c' hrun
            exact .inr ⟨n, xs, d, hready, hd, hrun⟩

/-! ### Memos as records of lowering -/

/-- A memo that comes from lowering needed nodes, each once and on top of its parents. -/
inductive Lowered (b : Backend α) (g : Graph) : List (Text × α) → Prop
  | nil : Lowered b g []
  | concat {memo : List (Text × α)} {n : Node} {inputs : List α} {a : α} {w w' : Workspace}
      (h : Lowered b g memo) (hn : n ∈ g.nodes) (hneeded : g.Needed n.id)
      (hnew : n.id ∉ memo.map Prod.fst)
      (hinputs : Forall₂ (fun p x => (p, x) ∈ memo) n.parents inputs)
      (ha : (b.lower n inputs).run.run w = (.ok a, w')) : Lowered b g (memo ++ [(n.id, a)])

theorem keeps_lowered : Keeps b g fun c => Lowered b g c.memo := by
  intro n inputs c a c' hready hc hrun
  obtain ⟨-, ha, hmemo⟩ := lowerAt_ok hrun
  rw [hmemo]
  refine hc.concat hready.mem hready.needed (Compilation.artifact?_eq_none_iff.mp hready.new) ?_ ha
  exact hready.inputs.imp fun _ _ => Compilation.mem_of_artifact?

namespace Lowered

variable {memo : List (Text × α)}

theorem schedule (h : Lowered b g memo) : g.Schedule (memo.map Prod.fst) := by
  induction h with
  | nil => exact .nil
  | @concat memo n inputs a w w' _ hn _ hnew hinputs _ ih =>
    rw [map_append]
    refine ih.concat hn hnew fun p hp => ?_
    obtain ⟨x, -, hx⟩ := exists_mem_of_forall₂ hinputs hp
    exact mem_map_of_mem hx

theorem needed (h : Lowered b g memo) (hid : id ∈ memo.map Prod.fst) : g.Needed id := by
  induction h with
  | nil => simp at hid
  | concat _ _ hneeded _ _ _ ih =>
    rw [map_append, mem_append] at hid
    rcases hid with hid | hid
    · exact ih hid
    · rwa [mem_singleton.mp hid]

/-- What lowering gives to an artifact, if the artifacts of the parents have it, all artifacts have. -/
theorem forall_mem {P : Text → α → Prop} (h : Lowered b g memo)
    (hP : ∀ n ∈ g.nodes, ∀ inputs a w w', Forall₂ P n.parents inputs →
      (b.lower n inputs).run.run w = (.ok a, w') → P n.id a) : ∀ e ∈ memo, P e.1 e.2 := by
  induction h with
  | nil => exact forall_mem_nil _
  | concat _ hn _ _ hinputs ha ih =>
    refine forall_mem_append.mpr ⟨ih, forall_mem_singleton.mpr ?_⟩
    exact hP _ hn _ _ _ _ (hinputs.imp fun p x hx => ih (p, x) hx) ha

end Lowered

/-! ### All targets -/

/-- A compilation that stops for the graph's sake: there are no nodes, or a target is blocked. -/
def Refuses (g : Graph) (s : Stop) : Prop :=
  (g.nodes = [] ∧ s = .failure (Failure.malformedGraph "graph has no nodes")) ∨
    ∃ t ∈ g.targets, g.Blocked [] t.id s

/-- The entry of a target: its identifier and what it was lowered to. -/
def IsEntry (c : Compilation α) (t : Node) (entry : Text × α) : Prop :=
  entry.1 = t.id ∧ c.artifact? t.id = some entry.2

/-- How the walk from all targets ends. -/
theorem runs_artifacts (hkeeps : Keeps b g I) (hI : I c) :
    Runs (artifacts b g) c (fun ts c' => Forall₂ (IsEntry c') g.targets ts ∧ I c')
      (fun s c' => Refuses g s ∧ I c' ∨ LoweringFails b g I s c') := by
  unfold artifacts
  by_cases hempty : g.nodes = []
  · rw [if_pos (by simpa using hempty)]
    exact .inl ⟨.inl ⟨hempty, rfl⟩, hI⟩
  · rw [if_neg (by simpa using hempty)]
    refine runs_bind (runs_pure (runs_mapM (fun done ts d => Forall₂ (IsEntry d) done ts ∧ I d)
      g.targets ?_ ⟨.nil, hI⟩))
    rintro t ht done ts d ⟨hdone, hd⟩
    refine runs_bind ((runs_visit hkeeps (Graph.needed_target ht) hd).mono ?_ ?_)
    · rintro a d' ⟨hgrows, ha, hd'⟩
      refine runs_pure ⟨?_, hd'⟩
      exact rel_append (hdone.imp fun _ _ h => ⟨h.1, hgrows.artifact? h.2⟩) (.cons ⟨rfl, ha⟩ .nil)
    · rintro s d' (⟨hblocked, hd'⟩ | hfails)
      · exact .inl ⟨.inr ⟨t, ht, hblocked⟩, hd'⟩
      · exact .inr hfails

theorem compile_fst (w : Workspace) :
    (compile b g w).1 = ((artifacts b g).run.run { workspace := w }).1 := by
  unfold compile
  rcases (artifacts b g).run.run { workspace := w } with ⟨(f | _) | ts, c⟩ <;> rfl

theorem compile_notes (w : Workspace) : (compile b g w).2.workspace.notes =
      ((artifacts b g).run.run { workspace := w }).2.workspace.notes := by
  unfold compile
  rcases (artifacts b g).run.run { workspace := w } with ⟨(f | _) | ts, c⟩ <;> rfl

theorem map_fst_of_entries (h : Forall₂ (IsEntry c) targets ts) : ts.map Prod.fst = targets.map Node.id := by
  induction h with
  | nil => rfl
  | cons hentry _ ih => rw [List.map_cons, List.map_cons, hentry.1, ih]

theorem artifact?_of_mem_entries (h : Forall₂ (IsEntry c) targets ts) {entry : Text × α} (hmem : entry ∈ ts) :
    c.artifact? entry.1 = some entry.2 := by
  obtain ⟨t, -, hid, ha⟩ := exists_mem_of_forall₂ h.flip hmem
  rw [hid, ha]

/-- How a compilation ends: with the artifacts of its targets in a record of lowering, for the graph's sake, or
at a ready node that cannot be lowered. -/
theorem compile_ends (hkeeps : Keeps b g I) (hI : I { workspace := w }) :
    (∃ ts c, (compile b g w).1 = .ok ts ∧ Forall₂ (IsEntry c) g.targets ts ∧ Lowered b g c.memo ∧ I c) ∨
      ∃ s, (compile b g w).1 = .error s ∧ (Refuses g s ∨ ∃ c, LoweringFails b g I s c) := by
  have hkeeps' : Keeps b g fun c => Lowered b g c.memo ∧ I c := fun hready hc hrun =>
    ⟨keeps_lowered hready hc.1 hrun, hkeeps hready hc.2 hrun⟩
  have hruns := runs_artifacts (c := { workspace := w }) hkeeps' ⟨.nil, hI⟩
  rw [compile_fst]
  rcases hrun : (artifacts b g).run.run { workspace := w } with ⟨s | ts, c⟩
  · refine .inr ⟨s, rfl, (hruns.error hrun).imp And.left ?_⟩
    rintro ⟨n, inputs, d, hready, hd, hlower⟩
    exact ⟨c, n, inputs, d, hready, hd.2, hlower⟩
  · exact .inl ⟨ts, c, rfl, hruns.ok hrun⟩

theorem keeps_true : Keeps b g fun _ => True := fun _ _ _ => trivial

/-- The artifacts of a compilation are those of its targets in a record of lowering. -/
theorem exists_lowered_of_compile (h : (compile b g w).1 = .ok ts) :
    ts.map Prod.fst = g.targets.map Node.id ∧ ∃ memo, Lowered b g memo ∧ ∀ t ∈ ts, t ∈ memo := by
  rcases compile_ends (b := b) (g := g) (w := w) keeps_true trivial with
    ⟨ts', c, hts, hentries, hlowered, -⟩ | ⟨s, hs, -⟩
  · cases h.symm.trans hts
    exact ⟨map_fst_of_entries hentries, c.memo, hlowered, fun t ht =>
      Compilation.mem_of_artifact? (artifact?_of_mem_entries hentries ht)⟩
  · cases h.symm.trans hs

/-! ### Properties of artifacts -/

section Passes

variable {P : α → Prop} {lower : Node → List α → Effect α}

/-- Lowering a node passes the property on, from all inputs to the artifact. -/
def Passes (P : α → Prop) (lower : Node → List α → Effect α) : Prop :=
  ∀ n xs w, (∀ x ∈ xs, P x) → Runs (lower n xs) w (fun a _ => P a) fun _ _ => True

theorem Passes.branching (hlower : Passes P lower) (name : Text) (explain : Node → Stop → Stop) :
    Passes P (Backend.branching name lower explain).lower := by
  have hcongruent : Congruent Eq Eq (fun a _ => P a)
      (fun x _ => ∀ w, Runs x w (fun a _ => P a) fun _ _ => True) lower lower explain :=
    { pure := fun ha w => ha
      throw := fun s _ w => trivial
      bind := fun hx hf w => runs_bind ((hx w).mono (fun a w' ha => hf a a ha w') fun _ _ h => h)
      plain := by
        intro n _ xs ys _ hxs w
        refine hlower n xs w fun x hx => ?_
        obtain ⟨-, -, hx⟩ := exists_mem_of_forall₂ hxs hx
        exact hx
      joint := congrArg joint }
  intro n xs w hxs
  exact hcongruent.along rfl (Step.rel_eq n.step) (forall₂_same.mpr hxs) w

theorem Passes.compile (hb : Passes P b.lower) (h : (b.compile g w).1 = .ok ts) : ∀ t ∈ ts, P t.2 := by
  obtain ⟨-, memo, hlowered, hmem⟩ := exists_lowered_of_compile h
  refine fun t ht => hlowered.forall_mem (P := fun _ a => P a) (fun n _ inputs a w w' hinputs ha => ?_) t (hmem t ht)
  refine (hb n inputs w fun x hx => ?_).ok ha
  obtain ⟨p, -, hp⟩ := exists_mem_of_forall₂ hinputs.flip hx
  exact hp

end Passes

end Backend

end Dataflow
