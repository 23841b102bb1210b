import Dataflow.Proofs.Compile.Walk

/-!
# Compilation as plain recursion

A backend whose results do not depend on the workspace compiles an ordered graph to what plain recursion
on the parents gives, without a memo, the first failure that is met included (`compile_eq_plain`).
-/

namespace Dataflow

open List Dataflow.Graph

variable {α : Type}

/-! ### Plain recursion -/

/-- What recursion on the parents makes of a node, down to a depth. -/
def Graph.outcome (g : Graph) (f : Node → List α → Outcome α) : Nat → Text → Outcome α
  | 0, _ => Outcome.crash
  | depth + 1, id =>
    match g.node? id with
    | none => Outcome.crash
    | some n => do
      let inputs ← n.parents.mapM (g.outcome f depth)
      f n inputs

/-- What recursion on the parents makes of a node, as deep as a graph without cycles can be. -/
def Graph.plain (g : Graph) (f : Node → List α → Outcome α) (id : Text) : Outcome α :=
  g.outcome f g.size id

theorem mapM_congr {ε ι : Type} {f g : ι → Except ε α} {is : List ι} (h : ∀ i ∈ is, f i = g i) :
    is.mapM f = is.mapM g := by
  induction is with
  | nil => rfl
  | cons i is ih =>
    rw [mapM_cons, mapM_cons, h i mem_cons_self,
      ih fun j hj => h j (mem_cons_of_mem i hj)]

theorem Graph.outcome_succ {g : Graph} {f : Node → List α → Outcome α} {n : Node} {id : Text}
    (h : g.node? id = some n) (depth : Nat) :
    g.outcome f (depth + 1) id = (do let inputs ← n.parents.mapM (g.outcome f depth); f n inputs) := by
  rw [outcome, h]

namespace Graph.Ordered

variable {g : Graph} {n : Node} {f : Node → List α → Outcome α} (h : g.Ordered)

include h

/-- A node at place `k` needs no more than `k` levels below it. -/
theorem mapM_outcome_eq {before after : List Text} (heq : g.ids = before ++ n.id :: after) (hn : n ∈ g.nodes)
    {d e : Nat} (hd : before.length ≤ d) (he : before.length ≤ e) :
    n.parents.mapM (g.outcome f d) = n.parents.mapM (g.outcome f e) := by
  induction hk : before.length using Nat.strongRecOn generalizing n before after d e with
  | ind k ih =>
    refine mapM_congr fun p hp => ?_
    have hbefore := h.parents_before heq ⟨n, hn, rfl, hp⟩
    obtain ⟨m, hm, rfl⟩ := exists_node_of_mem_ids (heq ▸ mem_append_left _ hbefore)
    obtain ⟨first, rest, rfl⟩ := append_of_mem hbefore
    have hplace : g.ids = first ++ m.id :: (rest ++ n.id :: after) := by simpa using heq
    have hlength : (first ++ m.id :: rest).length = first.length + rest.length + 1 := by simp; omega
    obtain ⟨d, rfl⟩ : ∃ i, d = i + 1 := ⟨d - 1, by omega⟩
    obtain ⟨e, rfl⟩ : ∃ i, e = i + 1 := ⟨e - 1, by omega⟩
    have hnode : g.node? m.id = some m := node?_eq_some_iff.mpr ⟨hm, rfl⟩
    rw [outcome_succ hnode, outcome_succ hnode,
      ih first.length (by omega) hplace hm (d := d) (e := e) (by omega) (by omega) rfl]

theorem plain_eq (hn : n ∈ g.nodes) :
    g.plain f n.id = (do let inputs ← n.parents.mapM (g.plain f); f n inputs) := by
  obtain ⟨before, after, heq⟩ := append_of_mem (mem_ids_of_mem hn)
  have hsize : g.size = before.length + after.length + 1 := by
    have hlength := congrArg List.length heq
    simp only [ids, length_map, length_append, length_cons] at hlength
    show g.nodes.length = _
    omega
  have hnode : g.node? n.id = some n := node?_eq_some_iff.mpr ⟨hn, rfl⟩
  have hparents := h.mapM_outcome_eq (f := f) heq hn (d := before.length + after.length) (e := g.size)
    (by omega) (by omega)
  show g.outcome f g.size n.id = (do let inputs ← n.parents.mapM (g.outcome f g.size); f n inputs)
  rw [← hparents, hsize, outcome_succ hnode]

end Graph.Ordered

theorem Runs.fst_eq {ε σ β : Type} {x : ExceptT ε (StateM σ) β} {c : σ} {o : Except ε β} {I : σ → Prop}
    (h : Runs x c (fun a c' => o = .ok a ∧ I c') fun s _ => o = .error s) : (x.run.run c).1 = o := by
  rcases hrun : x.run.run c with ⟨s | a, c'⟩
  · exact (h.error hrun).symm
  · exact (h.ok hrun).1.symm

/-- A traversal whose steps give what a function gives, the first failure included. -/
theorem runs_mapM_eq {ε σ ι β : Type} {f : ι → ExceptT ε (StateM σ) β} {h : ι → Except ε β}
    {I : σ → Prop} (is : List ι) (hstep : ∀ i ∈ is, ∀ c, I c →
      Runs (f i) c (fun a c' => h i = .ok a ∧ I c') fun s _ => h i = .error s) {c : σ} (hc : I c) :
    Runs (is.mapM f) c (fun as c' => is.mapM h = .ok as ∧ I c') fun s _ => is.mapM h = .error s := by
  induction is generalizing c with
  | nil => exact runs_pure ⟨rfl, hc⟩
  | cons i is ih =>
    rw [mapM_cons, mapM_cons]
    refine runs_bind ((hstep i mem_cons_self c hc).mono ?_ ?_)
    · rintro a d ⟨ha, hd⟩
      refine runs_bind ((ih (fun j hj => hstep j (mem_cons_of_mem i hj)) hd).mono ?_ ?_)
      · rintro as e ⟨has, he⟩
        exact runs_pure ⟨by rw [ha, has]; rfl, he⟩
      · intro s _ hs
        rw [ha, hs]
        rfl
    · intro s _ hs
      rw [hs]
      rfl

/-! ### Settled effects -/

/-- The effect gives the same in every workspace, and does not call the run off. -/
structure Effect.Settled (e : Effect α) : Prop where
  result : ∀ w w', (e.run.run w).1 = (e.run.run w').1
  cancelled : ∀ w, (e.run.run w).2.cancelled = w.cancelled

def Effect.outcome (e : Effect α) : Outcome α := (e.run.run {}).1

namespace Effect

variable {β : Type} {x : Effect α} {f : α → Effect β}

theorem settled_pure (a : α) : (pure a : Effect α).Settled := ⟨fun _ _ => rfl, fun _ => rfl⟩

theorem settled_throw (s : Stop) : (throw s : Effect α).Settled := ⟨fun _ _ => rfl, fun _ => rfl⟩

theorem settled_ofOutcome : ∀ o : Outcome α, (ofOutcome o).Settled
  | .ok a => settled_pure a
  | .error s => settled_throw s

theorem settled_log (e : LogEntry) : (log e).Settled := ⟨fun _ _ => rfl, fun _ => rfl⟩

theorem Settled.run_fst (h : x.Settled) (w : Workspace) : (x.run.run w).1 = x.outcome := h.result w {}

namespace Settled

variable (hx : x.Settled) (hf : ∀ a, x.outcome = .ok a → (f a).Settled)

include hx hf

theorem run_bind (w : Workspace) :
    ((x >>= f).run.run w).1 = (x.outcome >>= fun a => (f a).outcome) ∧
      ((x >>= f).run.run w).2.cancelled = w.cancelled := by
  have hresult := hx.run_fst w
  have hkept := hx.cancelled w
  rcases hrun : x.run.run w with ⟨s | a, w'⟩
  · rw [hrun] at hresult hkept
    rw [run_bind_error hrun, ← hresult]
    exact ⟨rfl, hkept⟩
  · rw [hrun] at hresult hkept
    rw [run_bind_ok hrun, ← hresult]
    have hnext := hf a hresult.symm
    exact ⟨hnext.run_fst w', (hnext.cancelled w').trans hkept⟩

theorem bind : (x >>= f).Settled where
  result w w' := (hx.run_bind hf w).1.trans (hx.run_bind hf w').1.symm
  cancelled w := (hx.run_bind hf w).2

theorem outcome_bind : (x >>= f).outcome = (x.outcome >>= fun a => (f a).outcome) :=
  (hx.run_bind hf {}).1

end Settled

end Effect

namespace Backend

variable {b : Backend α} {g : Graph}

/-- What lowering a node gives in a run that has been called off or not, with the failure reported at
the node. -/
def reported (b : Backend α) (cancelled : Bool) (n : Node) (inputs : List α) : Outcome α :=
  if cancelled then Outcome.fail (Failure.cancelled.atNode b.name n.id)
  else (b.lower n inputs).outcome.mapFailure fun f => f.atNode b.name n.id

def Settled (b : Backend α) : Prop := ∀ n inputs, (b.lower n inputs).Settled

/-- The memo holds what the recursion gives, and the run has been called off or not as before. -/
structure Plainly (b : Backend α) (g : Graph) (cancelled : Bool) (c : Compilation α) : Prop where
  memo : ∀ e ∈ c.memo, g.plain (b.reported cancelled) e.1 = .ok e.2
  cancelled : c.workspace.cancelled = cancelled

variable {cancelled : Bool}

theorem runs_lowerAt (hb : b.Settled) (n : Node) (inputs : List α) {c : Compilation α}
    (hc : c.workspace.cancelled = cancelled) : Runs (b.lowerAt n inputs) c
      (fun a c' => b.reported cancelled n inputs = .ok a ∧ c'.memo = c.memo ++ [(n.id, a)] ∧
        c'.workspace.cancelled = cancelled)
      (fun s _ => b.reported cancelled n inputs = .error s) := by
  have hresult := (hb n inputs).result c.workspace {}
  have hkept := (hb n inputs).cancelled c.workspace
  unfold Runs reported Effect.outcome
  rw [run_lowerAt, run_checkpoint, hc, ← hresult]
  cases cancelled with
  | true => exact rfl
  | false =>
    rcases hrun : (b.lower n inputs).run.run c.workspace with ⟨(f | _) | a, w⟩
    · exact rfl
    · exact rfl
    · rw [hrun] at hkept
      exact ⟨rfl, rfl, hkept.trans hc⟩

/-- A walk enters a node only from nodes that stand after it, so that it meets no cycle. -/
theorem runs_visit_plain (hb : b.Settled) (hord : g.Ordered) {id child : Text} {active : List Text}
    {before after : List Text} (heq : g.ids = before ++ id :: after)
    (hactive : ∀ x ∈ active, x ∉ before ++ [id]) {c : Compilation α} (hc : Plainly b g cancelled c) :
    Runs (visit b g active id child) c
      (fun a c' => g.plain (b.reported cancelled) id = .ok a ∧ Plainly b g cancelled c')
      (fun s _ => g.plain (b.reported cancelled) id = .error s) := by
  induction hk : before.length using Nat.strongRecOn generalizing id child active before after c with
  | ind k ih =>
    unfold Runs
    rw [run_visit]
    cases hmemo : c.artifact? id with
    | some a => exact ⟨hc.memo _ (Compilation.mem_of_artifact? hmemo), hc⟩
    | none =>
      have hid : id ∈ g.ids := by simp [heq]
      obtain ⟨n, hn, rfl⟩ := exists_node_of_mem_ids hid
      have hnode : g.node? n.id = some n := node?_eq_some_iff.mpr ⟨hn, rfl⟩
      have hfree : n.id ∉ active := fun hmem => hactive n.id hmem (by simp)
      have hnodup : (before ++ n.id :: after).Nodup := heq ▸ g.nodup_ids
      simp only [hnode, if_neg hfree]
      rw [hord.plain_eq hn]
      refine runs_bind ((runs_mapM_eq (h := g.plain (b.reported cancelled)) n.parents
        (fun p hp d hd => ?_) hc).mono ?_ ?_)
      · obtain ⟨first, rest, rfl⟩ := append_of_mem (hord.parents_before heq ⟨n, hn, rfl, hp⟩)
        have hplace : g.ids = first ++ p :: (rest ++ n.id :: after) := by simpa using heq
        have hlength : (first ++ p :: rest).length = first.length + rest.length + 1 := by simp; omega
        refine ih first.length (by omega) hplace (fun x hx hmem => ?_) hd rfl
        -- what is active stands after the parent: the node itself, or what stands after the node
        have hbefore : x ∈ first ++ p :: rest := by
          rcases mem_append.mp hmem with hmem | hmem
          · exact mem_append_left _ hmem
          · rw [mem_singleton.mp hmem]
            simp
        rcases mem_cons.mp hx with rfl | hx
        · exact (nodup_append.mp hnodup).2.2 _ hbefore _ mem_cons_self rfl
        · exact hactive x hx (mem_append_left _ hbefore)
      · rintro xs d ⟨hinputs, hd⟩
        rw [hinputs]
        refine (runs_lowerAt hb n xs hd.cancelled).mono ?_ fun s _ h => h
        rintro a c' ⟨ha, hmemo', hcancelled⟩
        refine ⟨ha, fun e he => ?_, hcancelled⟩
        rw [hmemo'] at he
        rcases mem_append.mp he with he | he
        · exact hd.memo e he
        · obtain rfl := mem_singleton.mp he
          rw [hord.plain_eq hn, hinputs]
          exact ha
      · intro s d hs
        rw [hs]
        rfl

/-- **Compilation is plain recursion**, for a backend whose effects are settled and an ordered graph. -/
theorem compile_eq_plain (hb : b.Settled) (hord : g.Ordered) (hne : g.nodes ≠ []) (w : Workspace) :
    (compile b g w).1 =
      g.targets.mapM fun t => do return (t.id, ← g.plain (b.reported w.cancelled) t.id) := by
  have hstep : ∀ t ∈ g.targets, ∀ c, Plainly b g w.cancelled c →
      Runs (do return (t.id, ← visit b g [] t.id "") : Compiling α (Text × α)) c
        (fun a c' => (do return (t.id, ← g.plain (b.reported w.cancelled) t.id)) = .ok a ∧
          Plainly b g w.cancelled c')
        (fun s _ => (do return (t.id, ← g.plain (b.reported w.cancelled) t.id)) = .error s) := by
    intro t ht c hc
    obtain ⟨before, after, heq⟩ := append_of_mem (mem_ids_of_mem (mem_of_mem_targets ht))
    refine runs_bind ((runs_visit_plain hb hord heq (by simp) hc).mono ?_ ?_)
    · rintro a c' ⟨ha, hc'⟩
      exact runs_pure ⟨by rw [ha]; rfl, hc'⟩
    · intro s _ hs
      rw [hs]
      rfl
  have hruns := runs_mapM_eq g.targets hstep (c := { workspace := w }) ⟨by simp, rfl⟩
  have hempty : ¬ g.nodes.isEmpty = true := by simpa using hne
  rw [compile_fst]
  unfold artifacts
  rw [if_neg hempty]
  exact hruns.fst_eq

end Backend

end Dataflow
