import Dataflow.Workspace

/-!
# Pipelines

A `Pipe` describes a sequence of values that is made on demand.  Every pass over it starts afresh:
`start` gives a cursor, each `next` pulls one value, and `finish` gives the cursor back.  A pull
gives a value, tells that there are none left, or fails; a cursor may be pulled again after either.

`collect` makes one whole pass and gives the values up to the end or the first failure, and the
failure.  Pulling takes an explicit bound on the number of nested steps.
-/

namespace Dataflow

inductive Pull where
  | item (v : Value)
  | done
  | failed (f : Failure)

inductive Pipe where
  | items (xs : List Value)
  /-- The given values, and then a failure for good, even in a run that has been called off. -/
  | failing (xs : List Value) (f : Failure)
  /-- Results of an effect that runs on the first pull; a failed one ends nothing. -/
  | feed (load : Effect (List (Except Failure Value)))
  /-- Values of an effect that runs on the first pull. -/
  | deferred (load : Effect (List Value))
  /-- The values that an effect makes of all values of a pipeline, on the first pull. -/
  | gather (p : Pipe) (f : List Value → Effect (List Value))
  /-- A cursor opened once and for all, by its number. -/
  | shared (cell : Nat)
  /-- Notes every start, pull and finish. -/
  | observed (name : Text) (p : Pipe)
  | map (p : Pipe) (f : Value → Outcome Value)
  | filter (p : Pipe) (f : Value → Outcome Bool)
  /-- Notes each value and passes it on if the function does not fail on it. -/
  | tap (p : Pipe) (f : Value → Outcome Value)
  /-- All values folded into one. -/
  | reduce (p : Pipe) (init : Value) (f : Value → Value → Outcome Value)
  /-- No values at all, even in a run that has been called off. -/
  | nothing
  /-- The values of one pipeline after those of another; the second starts when the first ends. -/
  | append (p q : Pipe)
  /-- The values of one pipeline, or of another if the first gives none. -/
  | fallback (p q : Pipe)
  | zip (p q : Pipe) (f : Value → Value → Value)
  /-- Every run of so many consecutive values, at least one. -/
  | sliding (p : Pipe) (size : Int)
  /-- Each value of the first pipeline with every value of the second of the same key; `leftKey` is
  the key in the first pipeline and `rightKey` that in the second. -/
  | hashJoin (p q : Pipe) (leftKey rightKey : Value → Outcome (Option Text))
      (f : Value → Value → Value)
  /-- Reads ahead of the consumer, by so many values and at least one. -/
  | buffer (p : Pipe) (size : Int)
  /-- Maps whole batches at a time. -/
  | batched (p : Pipe) (size : Nat) (f : Value → Outcome Value)

namespace Pipe

inductive Leg (α β : Type) where
  | before
  | first (s : α)
  | second (s : β)

inductive Attempt (α β : Type) where
  | primary (committed : Bool) (s : α)
  | secondary (s : β)

def State : Pipe → Type
  | items _ | failing _ _ => List Value
  | feed _ => Option (List (Except Failure Value))
  | deferred _ | gather _ _ => Option (List Value)
  | shared _ | nothing => Unit
  | observed _ p | map p _ | filter p _ | tap p _ => State p
  | reduce p _ _ => Option Value × State p
  | append p q => Leg (State p) (State q)
  | fallback p q => Attempt (State p) (State q)
  | zip p q _ => State p × State q
  | sliding p _ => List Value × State p
  | hashJoin p _ _ _ _ => Option (List (Text × Value)) × List Value × State p
  | buffer p _ => Bool × State p
  | batched p _ _ => List Value × Bool × State p

structure Cursor where
  pipe : Pipe
  state : pipe.State

/-- A workspace with the cursors that are shared in it. -/
structure Live where
  workspace : Workspace := {}
  cells : List Cursor := []

inductive Halt where
  /-- A fault in the program that asked for it. -/
  | crash
  /-- The bound on the number of steps was too low. -/
  | limit
deriving DecidableEq

abbrev Run := ExceptT Halt (StateM Live)

/-- Runs an effect in the workspace; its failure is part of the result. -/
def effect {α : Type} (e : Effect α) : Run (Except Failure α) := do
  let live ← get
  let (r, w) := e.run.run live.workspace
  set { live with workspace := w }
  match r with
  | .ok a => return .ok a
  | .error (.failure f) => return .error f
  | .error .crash => throw .crash

/-- A result that does not depend on the workspace. -/
def settle {α : Type} : Outcome α → Run (Except Failure α)
  | .ok a => return .ok a
  | .error (.failure f) => return .error f
  | .error .crash => throw .crash

def note (n : Note) : Run Unit :=
  modify fun live => { live with
    workspace := { live.workspace with notes := live.workspace.notes ++ [n] } }

def isCancelled : Run Bool := return (← get).workspace.cancelled

/-- The most values that a buffer can have room for. -/
def maxBuffer : Int := 7036874417763

def start : (p : Pipe) → Run p.State
  | items xs => return xs
  | failing xs _ => return xs
  | feed _ => return none
  | deferred _ | gather _ _ => return none
  | shared _ | nothing => return ()
  | observed name p => do
    note (.said ("open " ++ name))
    start p
  | map p _ | filter p _ | tap p _ => start p
  | reduce p init _ => return (some init, ← start p)
  | append _ _ => return .before
  | fallback p _ => return .primary false (← start p)
  | zip p q _ => do
    let s ← start p
    return (s, ← start q)
  | sliding p _ => return ([], ← start p)
  | hashJoin p _ _ _ _ => return (none, [], ← start p)
  | buffer p size => do
    let s ← start p
    if maxBuffer < size then throw .crash else return (false, s)
  | batched p _ _ => return ([], false, ← start p)

def finish : Nat → (p : Pipe) → p.State → Run Unit
  | 0, _, _ => throw .limit
  | _ + 1, items _, _ | _ + 1, failing _ _, _ | _ + 1, feed _, _ | _ + 1, deferred _, _
  | _ + 1, gather _ _, _ | _ + 1, nothing, _ => return ()
  | limit + 1, shared n, _ => do
    match (← get).cells[n]? with
    | some c => finish limit c.pipe c.state
    | none => throw .crash
  | limit + 1, observed name p, s => do
    note (.said ("close " ++ name))
    finish limit p s
  | limit + 1, map p _, s | limit + 1, filter p _, s | limit + 1, tap p _, s => finish limit p s
  | limit + 1, reduce p _ _, (_, s) => finish limit p s
  | _ + 1, append _ _, .before => return ()
  | limit + 1, append p _, .first s => finish limit p s
  | limit + 1, append _ q, .second s => finish limit q s
  | limit + 1, fallback p _, .primary _ s => finish limit p s
  | limit + 1, fallback _ q, .secondary s => finish limit q s
  | limit + 1, zip p q _, (s, t) => do
    finish limit p s
    finish limit q t
  | limit + 1, sliding p _, (_, s) => finish limit p s
  | limit + 1, hashJoin p _ _ _ _, (_, _, s) => finish limit p s
  | limit + 1, buffer p _, (_, s) => finish limit p s
  | limit + 1, batched p _ _, (_, _, s) => finish limit p s

def drain {σ : Type} (step : σ → Run (Pull × σ)) :
    Nat → List Value → σ → Run ((List Value × Option Failure) × σ)
  | 0, _, _ => throw .limit
  | limit + 1, seen, s => do
    match ← step s with
    | (.item v, s) => drain step limit (v :: seen) s
    | (.done, s) => return ((seen.reverse, none), s)
    | (.failed f, s) => return ((seen.reverse, some f), s)

/-- Pulls at most `n` values, and tells whether the end was reached. -/
def fill {σ : Type} (step : σ → Run (Pull × σ)) :
    Nat → List Value → σ → Run (Except Failure (List Value × Bool) × σ)
  | 0, seen, s => return (.ok (seen.reverse, false), s)
  | n + 1, seen, s => do
    match ← step s with
    | (.item v, s) => fill step n (v :: seen) s
    | (.done, s) => return (.ok (seen.reverse, true), s)
    | (.failed f, s) => return (.error f, s)

def takeItem (xs : List Value) : Run (Pull × List Value) := do
  if ← isCancelled then return (.failed .cancelled, xs)
  else match xs with
    | [] => return (.done, [])
    | x :: xs => return (.item x, xs)

/-- The most values that a batch can have room for. -/
def maxBatch : Nat := Nat.pow 2 44

def next : Nat → (p : Pipe) → p.State → Run (Pull × p.State)
  | 0, _, _ => throw .limit
  | _ + 1, items _, (xs : List Value) => takeItem xs
  | _ + 1, failing _ f, (xs : List Value) =>
    match xs with
    | [] => return (.failed f, [])
    | x :: xs => return (.item x, xs)
  | _ + 1, feed load, (s : Option (List (Except Failure Value))) => do
    if ← isCancelled then return (.failed .cancelled, s)
    let loaded ← match s with
      | some rs => pure (.ok rs)
      | none => effect load
    match loaded with
    | .error f => return (.failed f, some [])
    | .ok [] => return (.done, some [])
    | .ok (.ok v :: rs) => return (.item v, some rs)
    | .ok (.error f :: rs) => return (.failed f, some rs)
  | _ + 1, deferred load, (s : Option (List Value)) => do
    let loaded ← match s with
      | some xs => pure (.ok xs)
      | none => effect load
    match loaded with
    | .error f => return (.failed f, some [])
    | .ok xs =>
      let (r, xs) ← takeItem xs
      return (r, some xs)
  | limit + 1, gather p f, (s : Option (List Value)) => do
    let loaded ← match s with
      | some xs => pure (.ok xs)
      | none =>
        let s ← start p
        let (r, s) ← drain (next limit p) limit [] s
        finish limit p s
        match r with
        | (_, some f) => pure (.error f)
        | (xs, none) => effect (f xs)
    match loaded with
    | .error f => return (.failed f, some [])
    | .ok xs =>
      let (r, xs) ← takeItem xs
      return (r, some xs)
  | limit + 1, shared n, _ => do
    match (← get).cells[n]? with
    | none => throw .crash
    | some c =>
      let (r, s) ← next limit c.pipe c.state
      modify fun live => { live with cells := live.cells.set n ⟨c.pipe, s⟩ }
      return (r, ())
  | limit + 1, observed name p, s => do
    note (.said ("next " ++ name))
    next limit p s
  | limit + 1, map p f, s => do
    match ← next limit p s with
    | (.item v, s) =>
      match ← settle (f v) with
      | .ok w => return (.item w, s)
      | .error e => return (.failed e, s)
    | r => return r
  | limit + 1, filter p f, s => do
    match ← next limit p s with
    | (.item v, s) =>
      match ← settle (f v) with
      | .ok true => return (.item v, s)
      | .ok false => next limit (filter p f) s
      | .error e => return (.failed e, s)
    | r => return r
  | limit + 1, tap p f, s => do
    match ← next limit p s with
    | (.item v, s) =>
      note (.saw v)
      match ← settle (f v) with
      | .ok _ => return (.item v, s)
      | .error e => return (.failed e, s)
    | r => return r
  | _ + 1, reduce _ _ _, (none, s) => return (.done, (none, s))
  | limit + 1, reduce p init f, (some acc, s) => do
    match ← next limit p s with
    | (.item v, s) =>
      match ← settle (f acc v) with
      | .ok acc => next limit (reduce p init f) (some acc, s)
      | .error e => return (.failed e, (some .null, s))
    | (.done, s) => return (.item acc, (none, s))
    | (.failed e, s) => return (.failed e, (some acc, s))
  | _ + 1, nothing, _ => return (.done, ())
  | limit + 1, append p q, .before => do
    let s ← start p
    next limit (append p q) (.first s)
  | limit + 1, append p q, .first s => do
    match ← next limit p s with
    | (.done, s) =>
      finish limit p s
      let t ← start q
      next limit (append p q) (.second t)
    | (r, s) => return (r, .first s)
  | limit + 1, append _ q, .second t => do
    let (r, t) ← next limit q t
    return (r, .second t)
  | limit + 1, fallback p _, .primary true s => do
    let (r, s) ← next limit p s
    return (r, .primary true s)
  | limit + 1, fallback p q, .primary false s => do
    match ← next limit p s with
    | (.item v, s) => return (.item v, .primary true s)
    | (_, s) =>
      finish limit p s
      let t ← start q
      next limit (fallback p q) (.secondary t)
  | limit + 1, fallback _ q, .secondary t => do
    let (r, t) ← next limit q t
    return (r, .secondary t)
  | limit + 1, zip p q f, (s, t) => do
    match ← next limit p s with
    | (.item v, s) =>
      match ← next limit q t with
      | (.item w, t) => return (.item (f v w), (s, t))
      | (r, t) => return (r, (s, t))
    | (r, s) => return (r, (s, t))
  | limit + 1, sliding p size, (window, s) => do
    match ← next limit p s with
    | (.item v, s) =>
      let width := (max size 1).toNat
      let window := (window ++ [v]).drop (window.length + 1 - width)
      if window.length = width then return (.item (.list window), (window, s))
      else next limit (sliding p size) (window, s)
    | (r, s) => return (r, (window, s))
  | limit + 1, hashJoin p q leftKey rightKey f, (none, pending, s) => do
    let t ← start q
    let ((rows, failure), t) ← drain (next limit q) limit [] t
    finish limit q t
    match failure with
    | some e => return (.failed e, (none, pending, s))
    | none =>
      match ← settle (rows.filterMapM fun r => return (← rightKey r).map (·, r)) with
      | .error e => return (.failed e, (none, pending, s))
      | .ok table => next limit (hashJoin p q leftKey rightKey f) (some table, pending, s)
  | _ + 1, hashJoin _ _ _ _ _, (some table, v :: pending, s) =>
    return (.item v, (some table, pending, s))
  | limit + 1, hashJoin p q leftKey rightKey f, (some table, [], s) => do
    match ← next limit p s with
    | (.item v, s) =>
      match ← settle (leftKey v) with
      | .error e => return (.failed e, (some table, [], s))
      | .ok none => next limit (hashJoin p q leftKey rightKey f) (some table, [], s)
      | .ok (some k) =>
        let matched := (table.filter (·.1 = k)).map fun r => f v r.2
        next limit (hashJoin p q leftKey rightKey f) (some table, matched, s)
    | (r, s) => return (r, (some table, [], s))
  | limit + 1, buffer p _, (ended, s) => do
    if ← isCancelled then return (.failed .cancelled, (ended, s))
    else if ended then return (.done, (true, s))
    else
      match ← next limit p s with
      | (.item v, s) => return (.item v, (false, s))
      | (r, s) => return (r, (true, s))
  | _ + 1, batched _ _ _, (v :: ready, ended, s) => return (.item v, (ready, ended, s))
  | _ + 1, batched _ _ _, ([], true, s) => return (.done, ([], true, s))
  | limit + 1, batched p size f, ([], false, s) => do
    if maxBatch < size then throw .crash
    match ← fill (next limit p) size [] s with
    | (.error e, s) => return (.failed e, ([], false, s))
    | (.ok (batch, ended), s) =>
      match ← settle (batch.mapM f) with
      | .error e => return (.failed e, ([], ended, s))
      | .ok [] => return (.done, ([], ended, s))
      | .ok (v :: ready) => return (.item v, (ready, ended, s))

def collect (limit : Nat) (p : Pipe) : Run (List Value × Option Failure) := do
  let s ← start p
  let (r, s) ← drain (next limit p) limit [] s
  finish limit p s
  return r

/-- Hands values to a visitor, who knows those seen before, until the end or a failure of either. -/
def visitAll {σ : Type} (step : σ → Run (Pull × σ)) (visit : List Value → Value → Except Failure Unit) :
    Nat → List Value → σ → Run ((List Value × Option Failure) × σ)
  | 0, _, _ => throw .limit
  | limit + 1, seen, s => do
    match ← step s with
    | (.item v, s) =>
      match visit seen v with
      | .ok () => visitAll step visit limit (seen ++ [v]) s
      | .error f => return ((seen, some f), s)
    | (.done, s) => return ((seen, none), s)
    | (.failed f, s) => return ((seen, some f), s)

def each (limit : Nat) (p : Pipe) (visit : List Value → Value → Except Failure Unit) :
    Run (List Value × Option Failure) := do
  let s ← start p
  let (r, s) ← visitAll (next limit p) visit limit [] s
  finish limit p s
  return r

/-- A pipeline over one cursor of another, opened here; it can be consumed once. -/
def share (p : Pipe) : Run Pipe := do
  let s ← start p
  let live ← get
  set { live with cells := live.cells ++ [Cursor.mk p s] }
  return shared live.cells.length

def concat : List Pipe → Pipe
  | [] => nothing
  | p :: ps => append p (concat ps)

def join (p q : Pipe) (key : Value → Outcome (Option Text)) (f : Value → Value → Value) : Pipe :=
  hashJoin p q key key f

/-- Maps several values at a time; with one at a time it is a plain map. -/
def parallel (p : Pipe) (workers : Int) (f : Value → Outcome Value) : Pipe :=
  if workers ≤ 1 then map p f else batched p workers.toNat f

def collected (limit : Nat) (p : Pipe) : Effect (List Value × Option Failure) := do
  let (r, live) := (p.collect limit).run.run { workspace := ← get }
  set live.workspace
  match r with
  | .ok r => return r
  | .error _ => throw .crash

end Pipe

end Dataflow
