import Dataflow.Retry
import Mathlib.Order.Nat

/-!
# The discipline of retries

Whatever the calls give and whenever the caller gives up, a run of calls ends after at most as many as are
allowed, and a call is made again only after a failure that is worth it, before surrender was seen.  A
caller who never gives up gets the first success, or the failure of the last call, and the calls before the
last are the ones that were made again (`RetryPolicy.run_disciplined`).
-/

namespace Dataflow

variable {α : Type} {p : RetryPolicy} {worth : Failure → Bool} {surrender : Surrender}
  {call : Nat → Except Failure α} {r : Retries α} {k last : Nat}

/-- How many calls are allowed: three where the policy has no positive number. -/
def RetryPolicy.allowed (p : RetryPolicy) : Nat := if p.attempts ≤ 0 then 3 else p.attempts.toNat

/-- Surrender is never seen. -/
def Surrender.Never (surrender : Surrender) : Prop :=
  ∀ k, surrender.before k = false ∧ surrender.waiting k = false

namespace Retries

/-- Call `k` failed, the failure is worth another call, and no surrender was seen while waiting. -/
def Passed (worth : Failure → Bool) (surrender : Surrender) (call : Nat → Except Failure α) (k : Nat) : Prop :=
  surrender.waiting k = false ∧ ∃ f, call k = .error f ∧ worth f = true

/-- What holds of calls from `k` on, up to the last one that is allowed. -/
structure Disciplined (worth : Failure → Bool) (surrender : Surrender) (call : Nat → Except Failure α)
    (k last : Nat) (r : Retries α) : Prop where
  calls_le : r.calls ≤ last
  unseen : ∀ j, k ≤ j → j ≤ r.calls → surrender.before j = false
  passed : ∀ j, k ≤ j → j < r.calls → Passed worth surrender call j
  ended : surrender.Never → k ≤ r.calls ∧ r.result = call r.calls ∧
    ∀ f, call r.calls = .error f → r.calls = last ∨ worth f = false
  retried : surrender.Never → r.retried.map (fun e => (e.attempt, Except.error e.failure)) =
    (List.range' k (r.calls - k)).map fun j => (j, call j)

namespace Disciplined

theorem surrendered (hk : 0 < k) (hle : k ≤ last) (h : surrender.before k = true) :
    Disciplined worth surrender call k last { result := .error .cancelled, calls := k - 1 } where
  calls_le := (Nat.sub_le k 1).trans hle
  unseen j hkj hj := absurd (hkj.trans hj) (Nat.not_le.mpr (Nat.sub_one_lt_of_lt hk))
  passed j hkj hj := absurd (hkj.trans hj.le) (Nat.not_le.mpr (Nat.sub_one_lt_of_lt hk))
  ended hnever := absurd h (by simp [(hnever k).1])
  retried hnever := absurd h (by simp [(hnever k).1])

/-- No call is made after this one.  If there was no surrender it has succeeded, or no call is left, or its
failure is not worth another. -/
theorem stopped {result : Except Failure α} {retried : List Retried} (hle : k ≤ last)
    (h : surrender.before k = false) (hnever : surrender.Never → result = call k ∧ retried = [] ∧
      ∀ f, call k = .error f → k = last ∨ worth f = false) :
    Disciplined worth surrender call k last { result, calls := k, retried } where
  calls_le := hle
  unseen j hkj hj := le_antisymm hkj hj ▸ h
  passed j hkj hj := absurd hj hkj.not_gt
  ended hn := ⟨le_rfl, (hnever hn).1, (hnever hn).2.2⟩
  retried hn := by rw [(hnever hn).2.1, Nat.sub_self]; rfl

theorem again {f : Failure} {wait : Int} (h : surrender.before k = false)
    (hpassed : Passed worth surrender call k) (hf : call k = .error f)
    (hr : Disciplined worth surrender call (k + 1) last r) :
    Disciplined worth surrender call k last { r with retried := ⟨k, f, wait⟩ :: r.retried } where
  calls_le := hr.calls_le
  unseen j hkj hj := by
    rcases hkj.eq_or_lt with rfl | hlt
    · exact h
    · exact hr.unseen j hlt hj
  passed j hkj hj := by
    rcases hkj.eq_or_lt with rfl | hlt
    · exact hpassed
    · exact hr.passed j hlt hj
  ended hnever := (hr.ended hnever).imp_left Nat.le_of_succ_le
  retried hnever := by
    have hle := (hr.ended hnever).1
    have hcount : r.calls - k = r.calls - (k + 1) + 1 := by omega
    rw [List.map_cons, hr.retried hnever, hcount, List.range'_succ, List.map_cons, hf]

end Disciplined

end Retries

namespace RetryPolicy

open Retries

theorem disciplined_runFrom (hk : 0 < k) (more : Nat) :
    Disciplined p.worthwhile surrender call k (k + more) (p.runFrom surrender call more k) := by
  induction more generalizing k with
  | zero =>
    rw [runFrom]
    cases hbefore : surrender.before k with
    | true => exact .surrendered hk le_rfl hbefore
    | false => cases hcall : call k <;> exact .stopped le_rfl hbefore fun _ => ⟨hcall.symm, rfl, fun _ _ => .inl rfl⟩
  | succ more ih =>
    rw [runFrom]
    have hle : k ≤ k + (more + 1) := Nat.le_add_right ..
    cases hbefore : surrender.before k with
    | true => exact .surrendered hk hle hbefore
    | false =>
      cases hcall : call k with
      | ok a => exact .stopped hle hbefore fun _ => ⟨hcall.symm, rfl, fun f hf => by rw [hcall] at hf; cases hf⟩
      | error f =>
        cases hworth : p.worthwhile f with
        | false =>
          have hlast : ∀ g, call k = .error g → k = k + (more + 1) ∨ p.worthwhile g = false := fun g hg =>
            .inr (Except.error.inj (hcall.symm.trans hg) ▸ hworth)
          simpa [hworth] using Disciplined.stopped hle hbefore fun _ => ⟨hcall.symm, rfl, hlast⟩
        | true =>
          cases hwait : surrender.waiting k with
          | true =>
            simpa [hworth, hwait] using Disciplined.stopped hle hbefore fun hnever =>
              absurd hwait (by simp [(hnever k).2])
          | false =>
            have hpassed : Passed p.worthwhile surrender call k := ⟨hwait, f, hcall, hworth⟩
            have hmore := ih k.succ_pos
            rw [Nat.succ_add_eq_add_succ] at hmore
            simpa [hworth, hwait] using Disciplined.again hbefore hpassed hcall hmore

theorem disciplined_run : Disciplined p.worthwhile surrender call 1 p.allowed (p.run surrender call) := by
  have hallowed : 1 + (p.normalize.attempts.toNat - 1) = p.allowed := by
    simp only [normalize, allowed]
    split <;> omega
  exact hallowed ▸ disciplined_runFrom (p := p.normalize) Nat.one_pos _

/-- **Calls are made again with discipline.**  At most as many calls are made as are allowed, none once surrender
was seen, and each but the last failed with a failure that is worth another call.  A caller who never gives
up gets what the last call gave: the first success, or a failure that is worth no other call or after which
no call is left.  Then the calls before the last are those made again, in order, with their failures. -/
theorem run_disciplined (p : RetryPolicy) (surrender : Surrender) (call : Nat → Except Failure α) :
    let r := p.run surrender call
    Disciplined p.worthwhile surrender call 1 p.allowed r ∧
    (surrender.Never → ∀ k a, 1 ≤ k → k ≤ p.allowed → call k = .ok a →
      (∀ j, 1 ≤ j → j < k → ∃ f, call j = .error f ∧ p.worthwhile f = true) → r.result = .ok a ∧ r.calls = k) := by
  intro r
  have h : Disciplined p.worthwhile surrender call 1 p.allowed r := disciplined_run
  refine ⟨h, fun hnever k a hk hkp hok hbefore => ?_⟩
  obtain ⟨hmade, hresult, hlast⟩ := h.ended hnever
  have hcalls : r.calls = k := by
    rcases lt_trichotomy r.calls k with hlt | heq | hgt
    · -- the last call would have failed before the first success, with calls left
      obtain ⟨f, hf, hworth⟩ := hbefore _ hmade hlt
      rcases hlast f hf with hout | hreject
      · omega
      · simp [hreject] at hworth
    · exact heq
    · obtain ⟨-, f, hf, -⟩ := h.passed k hk hgt
      rw [hok] at hf
      cases hf
  exact ⟨by rw [hresult, hcalls, hok], hcalls⟩

/-- A first call that fails and a second one that does not. -/
theorem run_disciplined_second :
    let call (k : Nat) : Except Failure Nat := if k = 1 then .error (.plain "busy") else .ok k
    let r := ({} : RetryPolicy).run {} call
    r.result = .ok 2 ∧ r.calls = 2 := by
  intro call
  refine (run_disciplined {} {} call).2 (fun _ => ⟨rfl, rfl⟩) 2 2 (by decide) (by decide) rfl fun j hj hlt => ?_
  exact ⟨.plain "busy", if_pos (by omega), rfl⟩

end RetryPolicy

end Dataflow
