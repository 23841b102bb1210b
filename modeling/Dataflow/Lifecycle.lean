import Dataflow.Failure

/-!
# The course of a task

A task runs between hooks.  Hooks at the start run in order, hooks at the end in reverse order, and the
first that fails ends its row.  Where a hook at the start fails, neither the task nor a hook at the
end runs; otherwise all of these run, and the failure of the task goes before that of a hook.
-/

namespace Dataflow.Lifecycle

variable {m : Type → Type} [Monad m]

/-- Something that is done and may fail. -/
abbrev Hook (m : Type → Type) := m (Option Failure)

def runFrom : Nat → List (Hook m) → Hook m
  | _, [] => return none
  | i, h :: hs => do
    match ← h with
    | some f => return some (.context ("hook " ++ Text.ofNat i ++ " failed") f)
    | none => runFrom (i + 1) hs

def shutdown (stop : List (Hook m)) : Hook m := runFrom 0 stop.reverse

def runTask (start stop : List (Hook m)) (task : Hook m) : Hook m := do
  match ← runFrom 0 start with
  | some f => return some (.context "onStart hook failed" f)
  | none =>
    let failed ← task
    let stopped ← shutdown stop
    return failed.or stopped

end Dataflow.Lifecycle
