import Dataflow.Failure

/-!
# Retries

A call that fails may be made again after a wait.  A `RetryPolicy` says how often, after which
failures, and how the waits grow; `RetryPolicy.run` makes the calls.  The outcomes of the calls are
a function of their number, and so are the moments at which the caller gives up, so that a run is a
function of both.
-/

namespace Dataflow

namespace Float64

/-- One round of the power by squaring: the power so far and the factor, each a fraction and a binary
exponent, while bits of the exponent are left. -/
def powerLoop : Nat → Nat → Float → Int → Float → Int → Float × Int
  | 0, _, _, _, a, ae => (a, ae)
  | fuel + 1, n, x, xe, a, ae =>
    if n = 0 then (a, ae)
    else if xe < -4096 || 4096 < xe then (a, ae + xe)
    else
      let (a, ae) := if n % 2 = 1 then (a * x, ae + xe) else (a, ae)
      let x := x * x
      let xe := 2 * xe
      let (x, xe) := if x < 0.5 then (x + x, xe - 1) else (x, xe)
      powerLoop fuel (n / 2) x xe a ae

/-- A number to a natural power, by squaring on fractions between a half and one. -/
def power (x : Float) (n : Nat) : Float :=
  if n = 0 then 1
  else if n = 1 || !x.isFinite || x == 0 then x
  else
    let (f, e) := x.frExp
    let (a, ae) := powerLoop n n f e 1 0
    a.scaleB ae

end Float64

/-- Whether a failure may pass by itself: not when the caller gave up; a report says so itself; any
other failure may. -/
def Failure.mayPass (f : Failure) : Bool :=
  !f.isInterruption && ((f.report?.map Failure.Report.retryable).getD true)

/-- How often a call is made, after which failures, and how long to wait in between.  Waits are in
nanoseconds. -/
structure RetryPolicy where
  attempts : Int := 3
  firstWait : Int := 100000000
  longestWait : Int := 10000000000
  /-- Every wait is this many times the one before. -/
  factor : Float := 2
  worthwhile : Failure → Bool := Failure.mayPass

def RetryPolicy.defaultJitter : Float := 0.1

namespace RetryPolicy

def normalize (p : RetryPolicy) : RetryPolicy :=
  let d : RetryPolicy := {}
  { p with
    attempts := if p.attempts ≤ 0 then d.attempts else p.attempts
    firstWait := if p.firstWait ≤ 0 then d.firstWait else p.firstWait
    longestWait := if p.longestWait ≤ 0 then d.longestWait else p.longestWait
    factor := if p.factor ≤ 0 then d.factor else p.factor }

/-- The wait after an attempt, counted from 1. -/
def waitAfter (p : RetryPolicy) (attempt : Nat) : Int :=
  let wait := Float64.ofInt p.firstWait * Float64.power p.factor (attempt - 1)
  let longest := Float64.ofInt p.longestWait
  let wait := if longest < wait then longest else wait
  (Float64.toInt (if wait < 0 then Float64.ofInt p.firstWait else wait)).toInt

end RetryPolicy

/-- When the caller gives up: seen before a call, or while waiting after one. -/
structure Surrender where
  before : Nat → Bool := fun _ => false
  waiting : Nat → Bool := fun _ => false

namespace Surrender

/-- The caller gives up during a call; during call 0 means before the first. -/
def during (call : Int) : Surrender :=
  { before := fun k => decide (call < k), waiting := fun k => decide (call ≤ k) }

end Surrender

structure Retried where
  attempt : Nat
  failure : Failure
  wait : Int

/-- What came of a run of calls: the result, the number of calls, and which were made again. -/
structure Retries (α : Type) where
  result : Except Failure α
  calls : Nat
  retried : List Retried := []

namespace RetryPolicy

variable {α : Type}

/-- Makes call number `k`, and at most so many more. -/
def runFrom (p : RetryPolicy) (surrender : Surrender) (call : Nat → Except Failure α) :
    (more k : Nat) → Retries α
  | more, k =>
    if surrender.before k then { result := .error .cancelled, calls := k - 1 }
    else match call k with
      | .ok a => { result := .ok a, calls := k }
      | .error f => match more with
        | 0 => { result := .error f, calls := k }
        | more + 1 =>
          if !p.worthwhile f then { result := .error f, calls := k }
          else
            let again : Retried := ⟨k, f, p.waitAfter k⟩
            if surrender.waiting k then
              { result := .error .cancelled, calls := k, retried := [again] }
            else
              let rest := runFrom p surrender call more (k + 1)
              { rest with retried := again :: rest.retried }

/-- Makes calls until one succeeds, a failure is not worth another, the attempts run out or the
caller gives up. -/
def run (p : RetryPolicy) (surrender : Surrender) (call : Nat → Except Failure α) : Retries α :=
  let p := p.normalize
  p.runFrom surrender call (p.attempts.toNat - 1) 1

end RetryPolicy

end Dataflow
