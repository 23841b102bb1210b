import Dataflow.Proofs.Compile.Evaluation

/-!
# Compilations that a backend stops

A `call` is a node together with what its parents evaluate to.  The backend of a pure function notes
its calls, so that their sequence can be read off the workspace at the end, whether the compilation
succeeds or not.

A failure may wrap others: the failure in a context, those that are joined, the cause of a report.
`f.chain` lists the failure and all that it wraps, depth first.  The report of a failure is the first
one on its chain (`report?_eq_findSome?`).  `r.Attaches f id` says what attaching a failure to a node has
to give: a report on the chain keeps its code and the node it names, if it names one; a failure without a
report becomes the cause of a new one.

Main statement (`compile_stops_at_failure`): a call that fails is the last one, all calls before it
succeeded, and the compilation ends with its failure attached to its node, at whatever depth the
node was reached.
-/

/-! ### The chain of a failure -/

namespace Dataflow.Failure

mutual

/-- The failure and those that it wraps, depth first. -/
def chain : Failure → List Failure
  | f@(report _ _ _ _ (some cause)) => f :: chain cause
  | f@(context _ cause) => f :: chain cause
  | f@(joined causes) => f :: chains causes
  | f => [f]

def chains : List Failure → List Failure
  | [] => []
  | f :: fs => chain f ++ chains fs

end

def asReport? : Failure → Option Report
  | report c m r d e => some ⟨c, m, r, d, e⟩
  | _ => none

mutual

theorem report?_eq_findSome? : (f : Failure) → f.report? = f.chain.findSome? asReport?
  | report _ _ _ _ (some _) => by rw [report?, chain, List.findSome?_cons, asReport?]
  | context _ cause => by
    rw [report?, chain, List.findSome?_cons, asReport?, report?_eq_findSome? cause]
    simp
  | joined causes => by
    rw [report?, chain, List.findSome?_cons, asReport?, firstReport?_eq_findSome? causes]
    simp
  | report _ _ _ _ none => by rw [report?, chain, List.findSome?_cons, asReport?] <;> simp
  | plain _ | reader _ | cancelled | deadline | notExist | permission | file _ _ _ => by
    rw [report?, chain, List.findSome?_cons, asReport?] <;> simp

theorem firstReport?_eq_findSome? :
    (fs : List Failure) → firstReport? fs = (chains fs).findSome? asReport?
  | [] => rfl
  | f :: fs => by
    rw [firstReport?, chains, List.findSome?_append, report?_eq_findSome? f,
      firstReport?_eq_findSome? fs]

end

/-! ### Attaching a failure to a node -/

namespace Report

variable (r : Report) (key : Text) (v : Value)

theorem details_orDetail (k : Text) : Fields.get? (r.orDetail key v).details k =
    if key = k then some ((Fields.get? r.details key).getD v) else Fields.get? r.details k := by
  unfold orDetail
  rw [Fields.has_eq_isSome]
  cases hget : Fields.get? r.details key with
  | some old =>
    by_cases hk : key = k
    · subst hk
      simp [hget]
    · simp [hk]
  | none => simp [withDetail, Fields.get?_set]

/-- The report is what a failure has to become at a node. -/
def Attaches (f : Failure) (id : Text) : Prop :=
  match f.chain.findSome? asReport? with
  | some first => r.code = first.code ∧
    Fields.get? r.details "node" = some ((Fields.get? first.details "node").getD (.text id))
  | none => r.code = .backendExecution ∧ r.cause = some f ∧
    Fields.get? r.details "node" = some (.text id)

end Report

theorem attaches_atNode (f : Failure) (backend id : Text) : (f.atNode backend id).Attaches f id := by
  unfold Report.Attaches atNode
  rw [← report?_eq_findSome?]
  cases f.report? with
  | none =>
    refine ⟨rfl, rfl, ?_⟩
    rw [Report.withDetail, Fields.get?_set, if_pos rfl]
  | some r =>
    have hbackend : ("backend" : Text) ≠ "node" := by decide
    by_cases hb : backend.isEmpty
    · simp only [if_pos hb, Report.details_orDetail, Backend.code_orDetail, if_true, and_self]
    · simp only [if_neg hb, Report.details_orDetail, Backend.code_orDetail, if_neg hbackend, if_true,
        and_self]

end Dataflow.Failure

/-! ### Calls -/

namespace Dataflow.Backend

open List

variable {α : Type} {name : Text} {f : Node → List α → Outcome α} {g : Graph} {n : Node}
  {inputs : List α} {c d : Compilation α} {memo : List (Text × α)}

/-- A node of the graph with what its parents evaluate to. -/
def IsCall (g : Graph) (f : Node → List α → Outcome α) (call : Node × List α) : Prop :=
  call.1 ∈ g.nodes ∧ call.1.parents.mapM (g.evaluate f g.size) = some call.2

theorem Lowered.parents_evaluate (h : Lowered (recording name f) g memo)
    (hinputs : Forall₂ (fun p x => (p, x) ∈ memo) n.parents inputs) :
    n.parents.mapM (g.evaluate f g.size) = some inputs :=
  mapM_eq_some_iff.mpr (hinputs.imp fun _ _ hx => h.evaluate_eq hx h.length_le)

/-- The memo comes from calls that succeeded. -/
theorem Lowered.exists_calls (h : Lowered (recording name f) g memo) :
    ∃ calls : List (Node × List α), calls.map (fun call => call.1.id) = memo.map Prod.fst ∧
      ∀ call ∈ calls, IsCall g f call ∧ ∃ a, f call.1 call.2 = .ok a := by
  induction h with
  | nil => exact ⟨[], rfl, by simp⟩
  | @concat memo n inputs a w w' h hn _ _ hinputs ha ih =>
    obtain ⟨calls, hids, hcalls⟩ := ih
    refine ⟨calls ++ [(n, inputs)], by simp [hids], fun call hcall => ?_⟩
    rcases mem_append.mp hcall with hcall | hcall
    · exact hcalls call hcall
    · obtain rfl := mem_singleton.mp hcall
      rw [run_recording] at ha
      exact ⟨⟨hn, h.parents_evaluate hinputs⟩, a, (Prod.mk.inj ha).1⟩

/-- Lowering ends without a note of the call, or with the failure of the call. -/
theorem lowerAt_recording_error {s : Stop}
    (h : ((recording name f).lowerAt n inputs).run.run d = (.error s, c)) :
    c.workspace.notes = d.workspace.notes ∨
      ∃ e, f n inputs = .error (.failure e) ∧ s = .failure (e.atNode name n.id) ∧
        c.workspace.notes = d.workspace.notes ++ [.said n.id] := by
  rw [run_lowerAt, run_checkpoint] at h
  by_cases hd : d.workspace.cancelled
  · rw [if_pos hd] at h
    cases h
    exact .inl rfl
  · rw [if_neg hd, run_recording] at h
    rcases hf : f n inputs with (e | _) | a <;> rw [hf] at h <;> cases h
    · exact .inr ⟨e, rfl, rfl, rfl⟩
    · exact .inl rfl

/-- The calls of a walk from `w` that has come to `c`. -/
structure Calls (f : Node → List α → Outcome α) (g : Graph) (w : Workspace) (c : Compilation α)
    (calls : List (Node × List α)) : Prop where
  notes : c.workspace.notes = w.notes ++ calls.map fun call => .said call.1.id
  valid : ∀ call ∈ calls, IsCall g f call

/-- How the walk ends: all calls succeeded, or the last one stopped it. -/
theorem exists_calls_of_artifacts {w : Workspace} {r : Outcome (List (Text × α))}
    (hrun : (artifacts (recording name f) g).run.run { workspace := w } = (r, c)) :
    ∃ calls, (∀ call ∈ calls, ∃ a, f call.1 call.2 = .ok a) ∧
      (Calls f g w c calls ∨
        ∃ call e, f call.1 call.2 = .error (.failure e) ∧ Calls f g w c (calls ++ [call]) ∧
          r = .error (.failure (e.atNode name call.1.id))) := by
  have hruns := runs_artifacts (c := { workspace := w }) (keeps_recorded name f g w) ⟨.nil, by simp [Noted]⟩
  -- what the invariant says of the calls, at whatever state it holds
  have hcalls : ∀ d : Compilation α, Lowered (recording name f) g d.memo → Noted w d →
      ∃ calls, (∀ call ∈ calls, ∃ a, f call.1 call.2 = .ok a) ∧ Calls f g w d calls := by
    intro d hlowered hnoted
    obtain ⟨calls, hids, hcalls⟩ := hlowered.exists_calls
    refine ⟨calls, fun call hcall => (hcalls call hcall).2, ?_, fun call hcall => (hcalls call hcall).1⟩
    rw [hnoted]
    have hsaid := congrArg (List.map Note.said) hids
    rw [map_map, map_map] at hsaid
    exact congrArg (w.notes ++ ·) hsaid.symm
  cases r with
  | ok ts =>
    obtain ⟨-, hlowered, hnoted⟩ := hruns.ok hrun
    obtain ⟨calls, hok, hc⟩ := hcalls c hlowered hnoted
    exact ⟨calls, hok, .inl hc⟩
  | error s =>
    rcases hruns.error hrun with ⟨-, hlowered, hnoted⟩ | ⟨n, inputs, d, hready, ⟨hlowered, hnoted⟩, hlower⟩
    · obtain ⟨calls, hok, hc⟩ := hcalls c hlowered hnoted
      exact ⟨calls, hok, .inl hc⟩
    · obtain ⟨calls, hok, hd⟩ := hcalls d hlowered hnoted
      refine ⟨calls, hok, ?_⟩
      rcases lowerAt_recording_error hlower with hsame | ⟨e, hf, rfl, hnotes⟩
      · exact .inl ⟨hsame ▸ hd.notes, hd.valid⟩
      · have hcall : IsCall g f (n, inputs) := by
          refine ⟨hready.mem, hlowered.parents_evaluate ?_⟩
          exact hready.inputs.imp fun _ _ => Compilation.mem_of_artifact?
        refine .inr ⟨(n, inputs), e, hf, ⟨by simp [hnotes, hd.notes], ?_⟩, rfl⟩
        intro call hmem
        rcases mem_append.mp hmem with hmem | hmem
        · exact hd.valid call hmem
        · exact mem_singleton.mp hmem ▸ hcall

/-- **A backend that fails stops the compilation at once.**  The calls of the backend can be told
from its notes.  Of these, one that fails is the last, the others succeeded, and the compilation gives
no artifacts but the failure, attached to the node of the call. -/
theorem compile_stops_at_failure (name : Text) (f : Node → List α → Outcome α) (g : Graph)
    (w : Workspace) :
    ∃ calls : List (Node × List α),
      ((recording name f).compile g w).2.workspace.notes =
        w.notes ++ calls.map (fun call => .said call.1.id) ∧
      (∀ call ∈ calls, call.1 ∈ g.nodes ∧
        call.1.parents.mapM (g.evaluate f g.size) = some call.2) ∧
      ∀ before call after e, calls = before ++ call :: after →
        f call.1 call.2 = .error (.failure e) →
        after = [] ∧ (∀ earlier ∈ before, ∃ a, f earlier.1 earlier.2 = .ok a) ∧
          ∃ r : Failure.Report, ((recording name f).compile g w).1 = .error (.failure r) ∧
            r.Attaches e call.1.id := by
  rcases hrun : (artifacts (recording name f) g).run.run { workspace := w } with ⟨r, c⟩
  rw [compile_notes, compile_fst, hrun]
  obtain ⟨calls, hok, hc | ⟨last, e, hlast, hc, hr⟩⟩ := exists_calls_of_artifacts hrun
  · refine ⟨calls, hc.notes, hc.valid, ?_⟩
    rintro before call after e rfl hfail
    obtain ⟨a, ha⟩ := hok call (by simp)
    rw [hfail] at ha
    cases ha
  · refine ⟨calls ++ [last], hc.notes, hc.valid, ?_⟩
    intro before call after e' hsplit hfail
    rcases after.eq_nil_or_concat with rfl | ⟨after, x, rfl⟩
    · obtain ⟨rfl, hcall⟩ := List.append_inj' hsplit rfl
      obtain rfl : last = call := by simpa using hcall
      rw [hlast] at hfail
      cases hfail
      exact ⟨rfl, hok, _, hr, Failure.attaches_atNode e name last.1.id⟩
    · -- a call before the last one succeeded
      have hinit : calls ++ [last] = (before ++ call :: after) ++ [x] := by simpa using hsplit
      obtain ⟨rfl, -⟩ := List.append_inj' hinit rfl
      obtain ⟨a, ha⟩ := hok call (by simp)
      rw [hfail] at ha
      cases ha

/-- Fails at the node `a`, with a report that stands inside a context. -/
def failing (n : Node) (inputs : List Text) : Outcome Text :=
  if n.id = "a" then .error (.failure (.context "while lowering"
    (.report .unsupported "no such operation" false [] none)))
  else joined n inputs

/-- In the diamond the node `a` is reached from the sink by way of another node, after the source. -/
theorem compile_stops_at_failure_diamond :
    ∃ r : Failure.Report, ((recording "failing" failing).compile diamond {}).1 = .error (.failure r) ∧
      r.code = .unsupported ∧ Fields.get? r.details "node" = some (.text "a") := by
  obtain ⟨calls, hnotes, -, hstops⟩ := compile_stops_at_failure "failing" failing diamond {}
  have hsaid : ((recording "failing" failing).compile diamond {}).2.workspace.notes =
      [.said "s", .said "a"] := by with_unfolding_all rfl
  rw [hsaid] at hnotes
  obtain ⟨source, rest, rfl, -, hrest⟩ := List.map_eq_cons_iff.mp hnotes.symm
  obtain ⟨call, rest, rfl, hid, hrest⟩ := List.map_eq_cons_iff.mp hrest
  obtain rfl := List.map_eq_nil_iff.mp hrest
  have hid : call.1.id = "a" := Note.said.inj hid
  obtain ⟨-, -, r, hr, hattaches⟩ := hstops [source] call [] _ rfl (if_pos hid)
  rw [hid] at hattaches
  exact ⟨r, hr, hattaches⟩

end Dataflow.Backend
