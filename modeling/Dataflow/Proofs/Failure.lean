import Dataflow.Proofs.Compile.Abort

/-!
# Chains of failures

A failure has a chain of causes, some of which are reports with a code.  Codes are looked up in all of
them, and nodes in the first (`Failure.chain_codes`).
-/

namespace Dataflow.Failure

variable {code : ErrorCode}

/-! ### The reports on a chain -/

/-- The reports on the chain of a failure, in order. -/
def reports (f : Failure) : List Report := f.chain.filterMap asReport?

theorem report?_eq_head? (f : Failure) : f.report? = f.reports.head? := by
  rw [reports, List.head?_filterMap, report?_eq_findSome?]

/-- A failure whose causes come one by one: nothing on its chain is several failures together. -/
def Linear (f : Failure) : Prop := ∀ g ∈ f.chain, ∀ fs, g ≠ joined fs

/-- The search for a code comes past every report on the chain. -/
theorem hasCode_iff (code : ErrorCode) : (f : Failure) → f.Linear →
    (f.hasCode code = true ↔ ∃ r ∈ f.reports, r.code = code)
  | report c m t d (some cause), h => by
    have hreports : reports (report c m t d (some cause)) = ⟨c, m, t, d, some cause⟩ :: cause.reports := by
      rw [reports, chain]
      rfl
    rw [Linear, chain, List.forall_mem_cons] at h
    rw [hasCode, Bool.or_eq_true, hasCode_iff code cause h.2, hreports, List.exists_mem_cons_iff, decide_eq_true_eq]
  | context t cause, h => by
    have hreports : reports (context t cause) = cause.reports := by
      rw [reports, chain]
      rfl
    rw [Linear, chain, List.forall_mem_cons] at h
    rw [hasCode, hasCode_iff code cause h.2, hreports]
  | joined causes, h => by
    rw [Linear, chain, List.forall_mem_cons] at h
    exact absurd rfl (h.1 causes)
  | report _ _ _ _ none, _ => by simp [hasCode, reports, chain, asReport?]
  | plain _, _ | reader _, _ | cancelled, _ | deadline, _ | notExist, _ | permission, _ | file _ _ _, _ => by
    simp [hasCode, reports, chain, asReport?]

mutual

/-- The codes of a failure are those of its first report. -/
theorem hasCode_eq_any (code : ErrorCode) :
    (f : Failure) → f.hasCode code = f.report?.any fun r => (ofReport r).hasCode code
  | report _ _ _ _ _ => rfl
  | context _ cause => by rw [hasCode, report?, hasCode_eq_any code cause]
  | joined causes => by rw [hasCode, report?, hasCodeFirst_eq_any code causes]
  | plain _ | reader _ | cancelled | deadline | notExist | permission | file _ _ _ => by
    rw [hasCode, report?] <;> simp

theorem hasCodeFirst_eq_any (code : ErrorCode) : (fs : List Failure) →
    hasCodeFirst code fs = (firstReport? fs).any fun r => (ofReport r).hasCode code
  | [] => by rw [hasCodeFirst, firstReport?, Option.any_none]
  | f :: fs => by
    rw [hasCodeFirst, firstReport?, hasCode_eq_any code f, hasCodeFirst_eq_any code fs]
    cases f.report? <;> rfl

end

/-! ### Codes and nodes of attached failures -/

theorem hasCode_ofReport (r : Report) :
    (ofReport r).hasCode code = (decide (r.code = code) || r.cause.any (hasCode code)) := by
  obtain ⟨c, m, t, d, _ | cause⟩ := r
  · rw [ofReport, hasCode, Option.any_none, Bool.or_false]
  · rw [ofReport, hasCode, Option.any_some]

theorem Report.cause_orDetail (r : Report) (key : Text) (v : Value) : (r.orDetail key v).cause = r.cause := by
  unfold orDetail
  split <;> rfl

/-- At a node a failure keeps its codes.  The code of backends is added if it has no report. -/
theorem hasCode_atNode (f : Failure) (backend id : Text) : (ofReport (f.atNode backend id)).hasCode code = true ↔
    f.hasCode code = true ∨ f.report? = none ∧ code = .backendExecution := by
  rw [hasCode_ofReport, hasCode_eq_any code f, atNode]
  cases hr : f.report? with
  | none =>
    have hnone : f.hasCode code = false := by rw [hasCode_eq_any, hr, Option.any_none]
    simp [Report.withDetail, backendExecution, hnone, eq_comm]
  | some r =>
    by_cases hb : backend.isEmpty
    · simp [hb, Report.cause_orDetail, hasCode_ofReport]
    · simp [hb, Report.cause_orDetail, hasCode_ofReport]

/-- The node that a report names. -/
def Report.nodeId (r : Report) : Text :=
  match Fields.get? r.details "node" with
  | some (.text id) => id
  | _ => ""

theorem node_eq (f : Failure) : f.node = (f.report?.map Report.nodeId).getD "" := by
  unfold node
  cases f.report? <;> rfl

theorem Report.nodeId_congr {r r' : Report} (h : Fields.get? r.details "node" = Fields.get? r'.details "node") :
    r.nodeId = r'.nodeId := by
  rw [nodeId, h, nodeId]

/-- Of the nodes that a failure is attached to, the first stays. -/
theorem atNode_atNode (f : Failure) (backend id backend' id' : Text) :
    ((ofReport (f.atNode backend id)).atNode backend' id').code = (f.atNode backend id).code ∧
      node (ofReport ((ofReport (f.atNode backend id)).atNode backend' id')) =
        node (ofReport (f.atNode backend id)) := by
  obtain ⟨v, hv⟩ : ∃ v, Fields.get? (f.atNode backend id).details "node" = some v := by
    have h := attaches_atNode f backend id
    unfold Report.Attaches at h
    split at h
    · exact ⟨_, h.2⟩
    · exact ⟨_, h.2.2⟩
  generalize f.atNode backend id = r at hv
  have h := attaches_atNode (ofReport r) backend' id'
  unfold Report.Attaches at h
  rw [← report?_eq_findSome?, show (ofReport r).report? = some r from rfl] at h
  refine ⟨h.1, ?_⟩
  have hdetail := h.2
  rw [hv, Option.getD_some, ← hv] at hdetail
  rw [node_eq, node_eq]
  exact Report.nodeId_congr hdetail

/-- **A code is looked up along the whole chain, and everything else in the first report.**  At a node a
failure keeps its codes and gets one only if it has none; at a second node nothing changes. -/
theorem chain_codes (f : Failure) (h : f.Linear) :
    (∀ code, f.hasCode code = true ↔ ∃ r ∈ f.reports, r.code = code) ∧
      f.report? = f.reports.head? ∧
      f.node = (f.reports.head?.map Report.nodeId).getD "" ∧
      f.isExecution = f.reports.head?.any (·.code.isExecution) ∧
      ∀ backend id, (∀ code, (ofReport (f.atNode backend id)).hasCode code = true ↔
          f.hasCode code = true ∨ f.reports = [] ∧ code = .backendExecution) ∧
        ∀ backend' id', ((ofReport (f.atNode backend id)).atNode backend' id').code = (f.atNode backend id).code ∧
          node (ofReport ((ofReport (f.atNode backend id)).atNode backend' id')) =
            node (ofReport (f.atNode backend id)) := by
  refine ⟨fun code => hasCode_iff code f h, report?_eq_head? f, ?_, ?_, fun backend id =>
    ⟨fun code => ?_, atNode_atNode f backend id⟩⟩
  · rw [node_eq, report?_eq_head?]
  · rw [isExecution, code?, report?_eq_head?]
    cases f.reports.head? <;> rfl
  · rw [hasCode_atNode, report?_eq_head?, List.head?_eq_none_iff]

theorem chain_codes_wrapped :
    let f := context "run" (report .unsupported "no join" false [] (some (context "lower"
      (report .unknownBackend "no such backend" false [("node", .text "a1")] none))))
    f.hasCode .unknownBackend = true ∧ f.node = "" ∧ f.isExecution = true ∧
      (ofReport ((ofReport (f.atNode "frame" "b2")).atNode "frame" "c3")).node = "b2" := by
  intro f
  obtain ⟨hcode, -, hnode, hexec, hat⟩ := chain_codes f (by simp [f, Linear, chain])
  refine ⟨(hcode .unknownBackend).mpr ?_, hnode, hexec, ?_⟩
  · simp [f, reports, chain, asReport?]
  · exact ((hat "frame" "b2").2 "frame" "c3").2

end Dataflow.Failure
