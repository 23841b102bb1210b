import Dataflow.Pipe.Basic

/-!
# What pipelines mean

A pass over a pipeline gives values and then ends, or stops for a reason: a failure or a crash.
`Meaning` is such a list of values with the reason, and every stage of a pipeline is an operation on
meanings.  `Pipe.meaning` composes them, with no cursors, buffers or flags.

Sources and sinks may depend on the workspace.  `p.meaning w` takes what their effects give in `w`; it
is what every pass gives if the pipeline is `Repeatable`, that is if each effect gives the same in all
workspaces that a pass may find.
-/

namespace Dataflow

open List

/-- The values that a pass gives, and why it stops short of an end, if it does. -/
structure Meaning where
  values : List Value
  stop : Option Stop

namespace Meaning

def ofList (xs : List Value) : Meaning := ⟨xs, none⟩

def stopped (s : Stop) : Meaning := ⟨[], some s⟩

def cons (v : Value) (m : Meaning) : Meaning := ⟨v :: m.values, m.stop⟩

def prepend (xs : List Value) (m : Meaning) : Meaning := ⟨xs ++ m.values, m.stop⟩

theorem prepend_nil (xs : List Value) : (ofList []).prepend xs = ofList xs := by
  simp [prepend, ofList]

/-- What follows from a result, or the reason why there is none. -/
def after {α : Type} (o : Outcome α) (next : α → Meaning) : Meaning :=
  match o with
  | .ok a => next a
  | .error s => stopped s

theorem after_map {α β : Type} (o : Outcome α) (f : α → β) (next : β → Meaning) :
    after (o.map f) next = after o fun a => next (f a) := by
  cases o <;> rfl

/-- What follows from all values, or the reason why there are not all. -/
def whole (m : Meaning) (next : List Value → Meaning) : Meaning :=
  match m.stop with
  | none => next m.values
  | some s => stopped s

def ofResults : List (Except Failure Value) → Meaning
  | [] => ofList []
  | .ok v :: rs => (ofResults rs).cons v
  | .error f :: _ => stopped (.failure f)

def expandFrom (f : Value → Outcome (List Value)) (stop : Option Stop) : List Value → Meaning
  | [] => ⟨[], stop⟩
  | v :: vs => after (f v) fun ws => (expandFrom f stop vs).prepend ws

/-- Some values for every value, up to the first that has no result. -/
def expand (f : Value → Outcome (List Value)) (m : Meaning) : Meaning := expandFrom f m.stop m.values

theorem expand_cons (f : Value → Outcome (List Value)) (v : Value) (m : Meaning) :
    (m.cons v).expand f = after (f v) fun ws => (m.expand f).prepend ws := rfl

/-- Every value transformed, up to the first that cannot be. -/
def map (f : Value → Outcome Value) : Meaning → Meaning := expand fun v => (f v).map fun w => [w]

theorem map_cons (f : Value → Outcome Value) (v : Value) (m : Meaning) :
    (m.cons v).map f = after (f v) fun w => (m.map f).cons w := by
  rw [map, expand_cons, after_map]
  rfl

/-- The values that satisfy a condition, up to the first that cannot be told. -/
def filter (f : Value → Outcome Bool) : Meaning → Meaning :=
  expand fun v => (f v).map fun keep => if keep then [v] else []

def reduce (init : Value) (f : Value → Value → Outcome Value) (m : Meaning) : Meaning :=
  after (m.values.foldlM f init) fun acc => m.whole fun _ => ofList [acc]

theorem reduce_cons (acc v : Value) (f : Value → Value → Outcome Value) (m : Meaning) :
    (m.cons v).reduce acc f = after (f acc v) fun acc => m.reduce acc f := by
  simp only [reduce, cons, foldlM_cons]
  cases f acc v <;> rfl

/-- One after the other, if the first comes to its end. -/
def append (m m' : Meaning) : Meaning :=
  match m.stop with
  | none => m'.prepend m.values
  | some _ => m

theorem append_cons (v : Value) (m m' : Meaning) : (m.cons v).append m' = (m.append m').cons v := by
  unfold append
  rcases m with ⟨vs, _ | stop⟩ <;> rfl

/-- The first one, or the second if the first gives no value.  A crash is not made good. -/
def fallback (m m' : Meaning) : Meaning :=
  match m with
  | ⟨[], some .crash⟩ => stopped .crash
  | ⟨[], _⟩ => m'
  | m => m

/-- Pairs of values.  The first one is asked first, so that at equal lengths its end counts. -/
def zip (f : Value → Value → Value) (m m' : Meaning) : Meaning :=
  ⟨List.zipWith f m.values m'.values,
    if m.values.length ≤ m'.values.length then m.stop else m'.stop⟩

theorem zip_nil (f : Value → Value → Value) (stop : Option Stop) (m' : Meaning) :
    zip f ⟨[], stop⟩ m' = ⟨[], stop⟩ := by
  simp [zip]

theorem zip_cons_nil (f : Value → Value → Value) (v : Value) (m : Meaning) (stop : Option Stop) :
    (m.cons v).zip f ⟨[], stop⟩ = ⟨[], stop⟩ := by
  simp [zip, cons]

theorem zip_cons_cons (f : Value → Value → Value) (v v' : Value) (m m' : Meaning) :
    (m.cons v).zip f (m'.cons v') = (m.zip f m').cons (f v v') := by
  simp [zip, cons]

/-- Every run of so many consecutive values. -/
def windows (width : Nat) (xs : List Value) : List (List Value) :=
  (List.range (xs.length + 1 - width)).map fun i => (xs.drop i).take width

theorem windows_of_length_lt {width : Nat} {xs : List Value} (h : xs.length < width) :
    windows width xs = [] := by
  simp [windows, show xs.length + 1 - width = 0 by omega]

/-- The first window, and those of the values from the second on. -/
theorem windows_of_length_le {width : Nat} {xs : List Value} (h : width ≤ xs.length)
    (hwidth : 0 < width) : windows width xs = xs.take width :: windows width (xs.drop 1) := by
  obtain ⟨n, hn⟩ : ∃ n, xs.length + 1 - width = n + 1 := ⟨xs.length - width, by omega⟩
  have hlength : (xs.drop 1).length + 1 - width = n := by
    rw [length_drop]
    omega
  rw [windows, windows, hn, hlength, range_succ_eq_map]
  simp [Function.comp_def]

/-- The last values, at most a window of them, with one more. -/
def slide (width : Nat) (b : List Value) (v : Value) : List Value :=
  (b ++ [v]).drop (b.length + 1 - width)

theorem length_slide (width : Nat) (b : List Value) (v : Value) :
    (slide width b v).length = min (b.length + 1) width := by
  rw [slide, length_drop, length_append, length_singleton]
  omega

/-- The windows that are still to come after the last values. -/
def windowsAfter (width : Nat) (b vs : List Value) : List (List Value) :=
  windows width (b.drop (b.length + 1 - width) ++ vs)

section WindowsAfter

variable {width : Nat} {b : List Value} (hwidth : 0 < width)

include hwidth

theorem windowsAfter_nil : windowsAfter width b [] = [] := by
  refine windows_of_length_lt ?_
  rw [append_nil, length_drop]
  omega

/-- A full window is given, and one value dropped for the next; one that is not yet full grows. -/
theorem windowsAfter_cons (v : Value) (vs : List Value) : windowsAfter width b (v :: vs) =
      if (slide width b v).length = width then
        slide width b v :: windowsAfter width (slide width b v) vs
      else windowsAfter width (slide width b v) vs := by
  have hvalues : b.drop (b.length + 1 - width) ++ v :: vs = slide width b v ++ vs := by
    rw [slide, drop_append_of_le_length (by omega), List.append_assoc, singleton_append]
  have hlength := length_slide width b v
  unfold windowsAfter
  rw [hvalues]
  generalize slide width b v = b' at hlength
  split
  · next hfull =>
    have hlong : width ≤ (b' ++ vs).length := by
      rw [length_append]
      omega
    rw [windows_of_length_le hlong hwidth, show b'.length + 1 - width = 1 by omega,
      drop_append_of_le_length (by omega), ← hfull, take_left]
  · rw [show b'.length + 1 - width = 0 by omega, drop_zero]

end WindowsAfter

/-- How many values a window has: as many as asked for, and at least one. -/
def width (size : Int) : Nat := (max size 1).toNat

theorem width_pos (size : Int) : 0 < width size := by
  unfold width
  omega

def sliding (size : Int) (m : Meaning) : Meaning :=
  ⟨(windows (width size) m.values).map .list, m.stop⟩

/-- The combinations of a value with the entries of a table under its key. -/
def matching (f : Value → Value → Value) (table : List (Text × Value)) (v : Value) :
    Option Text → List Value
  | none => []
  | some k => (table.filter (·.1 = k)).map fun r => f v r.2

/-- Each value of the first one with all values of the second of the same key, in their order, if the
second one comes to its end. -/
def join (leftKey rightKey : Value → Outcome (Option Text)) (f : Value → Value → Value)
    (m m' : Meaning) : Meaning :=
  m'.whole fun rows => after (rows.filterMapM fun r => return (← rightKey r).map (·, r)) fun table =>
    m.expand fun v => (leftKey v).map (matching f table v)

/-- Values transformed in batches.  A batch that cannot be filled or transformed gives nothing. -/
def batched (size : Nat) (f : Value → Outcome Value) (stop : Option Stop) (vs : List Value) :
    Meaning :=
  if size = 0 then ofList []
  else if vs.length < size then (⟨vs, stop⟩ : Meaning).whole fun vs => after (vs.mapM f) ofList
  else after ((vs.take size).mapM f) fun ws => (batched size f stop (vs.drop size)).prepend ws
termination_by vs.length
decreasing_by simp; omega

section Batched

variable {size : Nat} {f : Value → Outcome Value} {stop : Option Stop} {vs : List Value}

theorem batched_zero : batched 0 f stop vs = ofList [] := by
  rw [batched, if_pos rfl]

theorem batched_of_length_lt (hsize : size ≠ 0) (h : vs.length < size) :
    batched size f stop vs = (⟨vs, stop⟩ : Meaning).whole fun vs => after (vs.mapM f) ofList := by
  rw [batched, if_neg hsize, if_pos h]

theorem batched_of_le (hsize : size ≠ 0) (h : size ≤ vs.length) : batched size f stop vs =
      after ((vs.take size).mapM f) fun ws => (batched size f stop (vs.drop size)).prepend ws := by
  rw [batched, if_neg hsize, if_neg (Nat.not_lt.mpr h)]

end Batched

/-- The values, and the failure that they stop with; or a crash. -/
def ending {ε : Type} (crash : ε) (m : Meaning) : Except ε (List Value × Option Failure) :=
  match m.stop with
  | none => .ok (m.values, none)
  | some (.failure f) => .ok (m.values, some f)
  | some .crash => .error crash

/-- How a pass with this meaning ends. -/
def result : Meaning → Except Pipe.Halt (List Value × Option Failure) := ending .crash

/-- What a run with this meaning gives. -/
def outcome : Meaning → Outcome (List Value × Option Failure) := ending .crash

end Meaning

/-- The workspaces that passes may find: those of a run that has not been called off. -/
structure Surroundings where
  Holds : Workspace → Prop
  live : ∀ w, Holds w → w.cancelled = false

/-- Any workspace of a run that has not been called off. -/
def Surroundings.running : Surroundings := ⟨fun w => w.cancelled = false, fun _ h => h⟩

/-- The effect gives the same in all surroundings as in `w`, and does not leave them. -/
def Steady {α : Type} (I : Surroundings) (w : Workspace) (e : Effect α) : Prop :=
  ∀ v, I.Holds v → (e.run.run v).1 = (e.run.run w).1 ∧ I.Holds (e.run.run v).2

namespace Pipe

/-- What a pass gives where effects give what they give in `w`.  A shared cursor is consumed by
others too and has no meaning of its own. -/
def meaning (w : Workspace) : Pipe → Meaning
  | items xs => .ofList xs
  | failing xs f => ⟨xs, some (.failure f)⟩
  | feed load => .after (load.run.run w).1 .ofResults
  | deferred load => .after (load.run.run w).1 .ofList
  | gather p f => (meaning w p).whole fun vs => .after ((f vs).run.run w).1 .ofList
  | shared _ => .stopped .crash
  | observed _ p | buffer p _ => meaning w p
  | map p f => (meaning w p).map f
  | filter p f => (meaning w p).filter f
  | tap p f => (meaning w p).map fun v => (f v).map fun _ => v
  | reduce p init f => (meaning w p).reduce init f
  | nothing => .ofList []
  | append p q => (meaning w p).append (meaning w q)
  | fallback p q => (meaning w p).fallback (meaning w q)
  | zip p q f => (meaning w p).zip f (meaning w q)
  | sliding p size => (meaning w p).sliding size
  | hashJoin p q leftKey rightKey f => (meaning w p).join leftKey rightKey f (meaning w q)
  | batched p size f =>
    if maxBatch < size then .stopped .crash
    else .batched size f (meaning w p).stop (meaning w p).values

/-- The condition holds at every stage of a pipeline. -/
def Every (P : Pipe → Prop) : Pipe → Prop
  | p@(gather q _) | p@(observed _ q) | p@(map q _) | p@(filter q _) | p@(tap q _)
  | p@(reduce q _ _) | p@(sliding q _) | p@(buffer q _) | p@(batched q _ _) => P p ∧ Every P q
  | p@(append q r) | p@(fallback q r) | p@(zip q r _) | p@(hashJoin q r _ _ _) =>
    P p ∧ Every P q ∧ Every P r
  | p => P p

theorem Every.here {P : Pipe → Prop} {p : Pipe} (h : p.Every P) : P p := by
  cases p <;> first | exact h | exact h.1

theorem Every.imp₂ {P Q R : Pipe → Prop} {p : Pipe} (himp : ∀ q, P q → Q q → R q) (hP : p.Every P)
    (hQ : p.Every Q) : p.Every R := by
  induction p with
  | items | failing | feed | deferred | shared | nothing => exact himp _ hP hQ
  | gather p f ih | observed name p ih | map p f ih | filter p f ih | tap p f ih
  | reduce p init f ih | sliding p n ih | buffer p n ih | batched p n f ih =>
    exact ⟨himp _ hP.1 hQ.1, ih hP.2 hQ.2⟩
  | append p q ihp ihq | fallback p q ihp ihq | zip p q f ihp ihq
  | hashJoin p q leftKey rightKey f ihp ihq =>
    exact ⟨himp _ hP.1 hQ.1, ihp hP.2.1 hQ.2.1, ihq hP.2.2 hQ.2.2⟩

/-- A stage that starts afresh with every pass and whose effects are steady. -/
def RepeatsAt (I : Surroundings) (w : Workspace) : Pipe → Prop
  | feed load => Steady I w load
  | deferred load => Steady I w load
  | gather _ f => ∀ vs, Steady I w (f vs)
  | observed _ _ | tap _ _ => ∀ v n, I.Holds v → I.Holds { v with notes := v.notes ++ [n] }
  | buffer _ size => size ≤ maxBuffer
  | shared _ => False
  | _ => True

/-- Every pass gives the same: all stages start afresh and have steady effects. -/
def Repeatable (I : Surroundings) (w : Workspace) (p : Pipe) : Prop := p.Every (RepeatsAt I w)

end Pipe

end Dataflow
