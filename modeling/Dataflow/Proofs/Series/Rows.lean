import Dataflow.Series.Basic
import Mathlib.Algebra.Group.Int.Defs
import Mathlib.Data.List.GetD
import Mathlib.Tactic.Common

/-!
# Series row by row

A series function gives `none` where it would leave the rows there are.  For columns of one length and
windows of at least one row it never does.  The functions below are the same series without that case,
each given by what its rows are, so that two series can be compared row by row; a lemma `*_eq` says of
each that it is the series.

Sizes of windows and numbers of rows are 64-bit integers; the lemmas at the beginning turn those that do
not wrap around into plain integers.
-/

namespace Dataflow.Series

open Arithmetic List Option

variable {n : Int64}

/-! ### Sizes and numbers of rows -/

theorem toInt_zero : (0 : Int64).toInt = 0 := rfl

theorem toInt_one : (1 : Int64).toInt = 1 := rfl

theorem toInt_add_one (h : n ≠ Int64.maxValue) : (n + 1).toInt = n.toInt + 1 := by
  have hne : n.toInt ≠ 2 ^ 63 - 1 := fun heq => h (Int64.toInt_inj.mp heq)
  have hlt := n.toInt_lt
  have hle := n.le_toInt
  rw [Int64.toInt_add, toInt_one, Int.bmod_eq_of_le] <;> omega

theorem toInt_sub_one (h : -2 ^ 63 < n.toInt) : (n - 1).toInt = n.toInt - 1 := by
  have hlt := n.toInt_lt
  rw [Int64.toInt_sub, toInt_one, Int.bmod_eq_of_le] <;> omega

theorem toInt_two_mul (h : 0 < n.toInt) (hmax : n.toInt < 2 ^ 62) : (2 * n).toInt = 2 * n.toInt := by
  have htwo : (2 : Int64).toInt = 2 := rfl
  rw [Int64.toInt_mul, htwo, Int.bmod_eq_of_le] <;> omega

/-- A window of at least one row has that many rows. -/
theorem windowSize?_eq (h : 0 < n.toInt) : windowSize? n = some n.toInt.toNat := by
  have hlast := toInt_sub_one (n := n) (by omega)
  unfold windowSize?
  rw [if_neg (by rw [Int64.lt_iff_toInt_lt, toInt_zero]; omega), hlast]
  congr 1
  omega

/-! ### Columns computed from the number of a row -/

section Rows

variable {α β : Type} {xs : List α} {i m : Nat}

theorem getD_take (d : α) (h : i < m) :
    (xs.take m).getD i d = xs.getD i d := by
  simp [getD_eq_getElem?_getD, h]

theorem getD_mapIdx {f : Nat → α → β} (d : β) (h : i < xs.length) :
    (xs.mapIdx f).getD i d = f i xs[i] := by
  rw [getD_eq_getElem _ _ (by simpa using h), getElem_mapIdx]

/-- The first rows of a column, if they depend on the first rows only. -/
theorem mapIdx_take {f g : Nat → α → β}
    (h : ∀ i (hi : i < xs.length), i < m → g i xs[i] = f i xs[i]) :
    (xs.take m).mapIdx g = (xs.mapIdx f).take m := by
  refine ext_getElem (by simp) fun i hi hi' => ?_
  simp only [length_mapIdx, length_take] at hi
  simp only [getElem_mapIdx, getElem_take]
  exact h i (by omega) (by omega)

/-- Columns over different columns are the same if all rows are. -/
theorem mapIdx_eq_mapIdx {γ : Type} {f : Nat → α → γ} {g : Nat → β → γ} {ys : List β}
    (hlength : xs.length = ys.length)
    (h : ∀ i (hi : i < xs.length) (hi' : i < ys.length), f i xs[i] = g i ys[i]) :
    xs.mapIdx f = ys.mapIdx g := by
  refine ext_getElem (by simpa using hlength) fun i hi hi' => ?_
  simp only [getElem_mapIdx]
  exact h i (by simpa using hi) (by simpa using hi')

/-- A window lies in the rows up to its last. -/
theorem windowAt_take {w : Nat} (hfull : w ≤ i + 1) (hm : i < m) :
    windowAt (xs.take m) w i = windowAt xs w i := by
  have hroom : w ≤ m - (i + 1 - w) := by omega
  rw [windowAt, windowAt, drop_take, take_take, Nat.min_eq_left hroom]

/-- Rows of a series that start at a row that is not below zero. -/
theorem slice?_eq {lo hi : Int64} (hlo : 0 ≤ lo.toInt) (hle : lo.toInt ≤ hi.toInt)
    (hhi : hi.toInt < xs.length) : slice? xs lo hi =
      some ((xs.drop lo.toInt.toNat).take (hi.toInt.toNat + 1 - lo.toInt.toNat)) := by
  unfold slice?
  rw [if_neg (by rw [Int64.lt_iff_toInt_lt]; omega),
    if_pos ⟨by rw [Int64.le_iff_toInt_le, toInt_zero]; omega, hhi⟩]
  congr 2
  omega

end Rows

variable {α : Type} [Arithmetic α]

@[simp] theorem length_nulls (n : Nat) : (nulls n : List α).length = n := length_replicate

theorem take_nulls (m n : Nat) : (nulls n : List α).take m = nulls (min m n) := take_replicate

/-! ### Averages over windows -/

@[simp] theorem length_rolling (xs : List α) (w : Nat) (f : Nat → List α → α) :
    (rolling xs w f).length = xs.length := length_mapIdx

theorem getD_rolling {xs : List α} {w i : Nat} {f : Nat → List α → α} (d : α) (h : i < xs.length) :
    (rolling xs w f).getD i d = if i + 1 < w then null else f i (windowAt xs w i) :=
  getD_mapIdx d h

def average (xs : List α) (n : Int64) : List α :=
  rolling xs n.toInt.toNat fun _ win => sum win / ofInt n.toInt

@[simp] theorem length_average (xs : List α) (n : Int64) : (average xs n).length = xs.length :=
  length_rolling _ _ _

theorem sma?_eq (hn : 0 < n.toInt) (xs : List α) : sma? xs n = some (average xs n) := by
  rw [sma?, windowSize?_eq hn]
  rfl

def weightedAverage (xs : List α) (n : Int64) : List α :=
  rolling xs n.toInt.toNat fun _ win => weightedSum win / (ofInt (n * (n + 1)).toInt / ofInt 2)

theorem wma?_eq (hn : 0 < n.toInt) (xs : List α) : wma? xs n = some (weightedAverage xs n) := by
  simp only [wma?, windowSize?_eq hn]
  rfl

/-- The average of a window, moved by a multiple of its deviation. -/
def band (move : α → α → α) (k : α) (xs : List α) (n : Int64) : List α :=
  rolling xs n.toInt.toNat fun i win =>
    move ((average xs n).getD i null) (k * deviation win n ((average xs n).getD i null))

theorem bollinger?_eq (hn : 0 < n.toInt) (xs : List α) (k : α) :
    bollinger? xs n k = some (average xs n, band (· + ·) k xs n, band (· - ·) k xs n) := by
  rw [bollinger?, windowSize?_eq hn, sma?_eq hn]
  rfl

/-! ### Changes from row to row -/

/-- Each row against the row before; the first has none. -/
def changes (first : α) (f : α → α → α) (xs : List α) : List α :=
  xs.mapIdx fun i x => if i = 0 then first else f x (xs.getD (i - 1) null)

@[simp] theorem length_changes (first : α) (f : α → α → α) (xs : List α) :
    (changes first f xs).length = xs.length := length_mapIdx

theorem cons_steps (first : α) (f : α → α → α) (x : α) (xs : List α) :
    first :: steps (x :: xs) f = changes first f (x :: xs) := by
  refine ext_getElem (by simp [steps]) fun i hi hi' => ?_
  cases i with
  | zero => simp [changes]
  | succ i =>
    simp only [steps, tail_cons, length_cons, length_zipWith] at hi
    simp only [changes, getElem_cons_succ, steps, tail_cons, getElem_zipWith,
      getElem_mapIdx, Nat.succ_ne_zero, if_false, Nat.add_sub_cancel]
    rw [getD_eq_getElem _ _ (by simp; omega)]

theorem gains_eq (xs : List α) : gains xs =
    changes (ofInt 0) (fun x prev => if lt (ofInt 0) (x - prev) then x - prev else ofInt 0) xs := by
  cases xs with
  | nil => rfl
  | cons x xs => rw [← cons_steps]; rfl

theorem losses_eq (xs : List α) : losses xs =
    changes (ofInt 0) (fun x prev => if lt (ofInt 0) (x - prev) then ofInt 0 else -(x - prev)) xs := by
  cases xs with
  | nil => rfl
  | cons x xs => rw [← cons_steps]; rfl

@[simp] theorem length_gains (xs : List α) : (gains xs).length = xs.length := by
  rw [gains_eq, length_changes]

@[simp] theorem length_losses (xs : List α) : (losses xs).length = xs.length := by
  rw [losses_eq, length_changes]

/-! ### Running means -/

section Running

variable {β σ : Type} {counts : β → Bool} {next : σ → β → σ × α}

/-- A series with a running state.  A row that does not count is null and leaves the state; any other has the
next state and a cell of its own. -/
def running (counts : β → Bool) (next : σ → β → σ × α) : σ → List β → List α
  | _, [] => []
  | s, x :: xs =>
    if counts x then (next s x).2 :: running counts next (next s x).1 xs
    else null :: running counts next s xs

@[simp] theorem length_running (s : σ) (xs : List β) : (running counts next s xs).length = xs.length := by
  induction xs generalizing s with
  | nil => rfl
  | cons x xs ih =>
    unfold running
    split <;> simp [ih]

end Running

def nextMean (alpha : α) (state : Option α) (x : α) : Option α × α :=
  let e := match state with
    | none => x
    | some e => alpha * x + (ofInt 1 - alpha) * e
  (some e, e)

theorem ewmFrom_eq (alpha : α) (state : Option α) (xs : List α) :
    ewmFrom alpha state xs = running (!isNull ·) (nextMean alpha) state xs := by
  induction xs generalizing state with
  | nil => rfl
  | cons x xs ih => cases hx : isNull x <;> cases state <;> simp [ewmFrom, running, nextMean, hx, ih]

@[simp] theorem length_ema (xs : List α) (n : Int64) : (ema xs n).length = xs.length := by
  rw [ema, ewm, ewmFrom_eq, length_running]

@[simp] theorem length_smoothFrom (alpha mean : α) (xs : List α) :
    (smoothFrom alpha mean xs).length = xs.length := by
  induction xs generalizing mean with
  | nil => rfl
  | cons x xs ih => simp [smoothFrom, ih]

def seedMean (xs : List α) (start seed : Int64) : α :=
  sum ((xs.drop start.toInt.toNat).take (seed.toInt.toNat + 1 - start.toInt.toNat)) /
    ofInt (seed - start + 1).toInt

/-- Smoothing from the mean of rows `start` to `seed` on. -/
def smoothed (xs : List α) (n start seed : Int64) : List α :=
  if (xs.length : Int) ≤ seed.toInt ∨ seed.toInt < start.toInt then nulls xs.length
  else nulls seed.toInt.toNat ++ seedMean xs start seed ::
    smoothFrom (ofInt 1 / ofInt n.toInt) (seedMean xs start seed) (xs.drop (seed.toInt.toNat + 1))

theorem length_smoothed {start : Int64} (hstart : 0 ≤ start.toInt) (xs : List α) (n seed : Int64) :
    (smoothed xs n start seed).length = xs.length := by
  unfold smoothed
  split
  · exact length_nulls _
  · simp only [length_append, length_nulls, length_cons, length_smoothFrom,
      length_drop]
    omega

theorem wilder?_eq {start : Int64} (hstart : 0 ≤ start.toInt) (xs : List α) (n seed : Int64) :
    wilder? xs n start seed = some (smoothed xs n start seed) := by
  unfold wilder? smoothed
  simp only [Int64.lt_iff_toInt_lt]
  split
  · rfl
  · next hreach =>
    rw [slice?_eq hstart (by omega) (by omega)]
    rfl

theorem strengthFrom_zip (alpha gain loss : α) (gs ls : List α) :
    strengthFrom alpha gain loss (gs.zip ls) =
      List.zipWith strength (smoothFrom alpha gain gs) (smoothFrom alpha loss ls) := by
  induction gs generalizing gain loss ls with
  | nil => rfl
  | cons g gs ih =>
    cases ls with
    | nil => rfl
    | cons l ls => simp only [zip_cons_cons, strengthFrom, smoothFrom, zipWith_cons_cons, ih]

/-- The strengths of smoothed gains and losses, from the row after the seed on. -/
def strengths (xs : List α) (n : Int64) : List α :=
  if (xs.length : Int) ≤ (n + 1).toInt then nulls xs.length
  else nulls (n + 1).toInt.toNat ++
    List.zipWith strength
      (smoothFrom (ofInt 1 / ofInt n.toInt) (seedMean (gains xs) 1 n)
        ((gains xs).drop (n + 1).toInt.toNat))
      (smoothFrom (ofInt 1 / ofInt n.toInt) (seedMean (losses xs) 1 n)
        ((losses xs).drop (n + 1).toInt.toNat))

theorem length_strengths (xs : List α) (n : Int64) : (strengths xs n).length = xs.length := by
  unfold strengths
  split
  · exact length_nulls _
  · simp only [length_append, length_nulls, length_zipWith, length_smoothFrom,
      length_drop, length_gains, length_losses]
    omega

theorem rsi?_eq (hn : 0 < n.toInt) (hmax : n ≠ Int64.maxValue) (xs : List α) :
    rsi? xs n = some (strengths xs n) := by
  have hfirst := toInt_add_one hmax
  -- the mean over rows `1` to `n` is that of `n` rows
  have hcount : n - 1 + 1 = n := by rw [Int64.sub_add_cancel]
  have hmean (ys : List α) :
      sum ((ys.drop 1).take ((n + 1).toInt.toNat - 1)) / ofInt n.toInt = seedMean ys 1 n := by
    have hrows : (n + 1).toInt.toNat - 1 = n.toInt.toNat + 1 - 1 := by omega
    rw [seedMean, hcount, toInt_one, hrows]
    rfl
  simp only [rsi?, strengths]
  split
  · rfl
  · rw [if_neg (by rw [Int64.lt_iff_toInt_lt, toInt_zero]; omega), hmean, hmean, List.zip,
      drop_zipWith, ← List.zip, strengthFrom_zip]

/-! ### Series of bars -/

def positions (high low close : List α) (n : Int64) : List α :=
  rolling close n.toInt.toNat fun i _ =>
    let bottom := least (windowAt low n.toInt.toNat i)
    let range := greatest (windowAt high n.toInt.toNat i) - bottom
    if same range (ofInt 0) then ofInt 100
    else ofInt 100 * (close.getD i null - bottom) / range

def typicals (high low close : List α) : List α :=
  close.mapIdx fun i c => (high.getD i null + low.getD i null + c) / ofInt 3

/-- The distance of a price from a mean, in units of the mean distance of a window. -/
def distance (price mean : α) (win : List α) (n : Int64) : α :=
  let md := win.foldl (fun acc x => acc + abs (x - mean)) (ofInt 0) / ofInt n.toInt
  if same md (ofInt 0) then ofInt 0 else (price - mean) / (channelScale * md)

/-- The distance of each typical price from its average. -/
def channel (high low close : List α) (n : Int64) : List α :=
  let tp := typicals high low close
  rolling tp n.toInt.toNat fun i win => distance (tp.getD i null) ((average tp n).getD i null) win n

/-- The range of each row, over the close before. -/
def ranges (high low close : List α) : List α :=
  close.mapIdx fun i _ =>
    let h := high.getD i null
    let l := low.getD i null
    if i = 0 then h - l
    else
      let prev := close.getD (i - 1) null
      max (h - l) (max (abs (h - prev)) (abs (l - prev)))

/-- A movement of each row, from how far it rose and how far it fell; none on the first. -/
def movements (f : α → α → α) (high low : List α) : List α :=
  high.mapIdx fun i h =>
    if i = 0 then ofInt 0
    else f (h - high.getD (i - 1) null) (low.getD (i - 1) null - low.getD i null)

def rise (up down : α) : α := if lt down up && lt (ofInt 0) up then up else ofInt 0

def fall (up down : α) : α := if lt up down && lt (ofInt 0) down then down else ofInt 0

/-- A movement in per cent of a range; zero without a range. -/
def part (movement range : α) : α :=
  if same range (ofInt 0) then ofInt 0 else ofInt 100 * movement / range

/-- The distance of two parts in per cent of their sum. -/
def share (p m : α) : α :=
  if same (p + m) (ofInt 0) then ofInt 0 else ofInt 100 * abs (p - m) / (p + m)

theorem directionIndex_eq (plus minus range : α) :
    directionIndex plus minus range = share (part plus range) (part minus range) := by
  cases hrange : same range (ofInt 0) <;> simp [directionIndex, part, share, hrange]

def directions (high low close : List α) (n : Int64) : List α :=
  close.mapIdx fun i _ =>
    if (i : Int) < n.toInt then null
    else directionIndex ((smoothed (movements rise high low) n 1 n).getD i null)
      ((smoothed (movements fall high low) n 1 n).getD i null)
      ((smoothed (ranges high low close) n 1 n).getD i null)

def trend (high low close : List α) (n : Int64) : List α :=
  if (close.length : Int) < (2 * n).toInt then nulls close.length
  else smoothed (directions high low close n) n n (2 * n - 1)

section Lengths

variable (high low close : List α) (n : Int64)

@[simp] theorem length_positions :
    (positions high low close n).length = close.length := length_rolling _ _ _

@[simp] theorem length_typicals :
    (typicals high low close).length = close.length := length_mapIdx

@[simp] theorem length_channel : (channel high low close n).length = close.length := by
  simp [channel]

@[simp] theorem length_ranges :
    (ranges high low close).length = close.length := length_mapIdx

@[simp] theorem length_movements (f : α → α → α) (high low : List α) :
    (movements f high low).length = high.length := length_mapIdx

@[simp] theorem length_directions :
    (directions high low close n).length = close.length := length_mapIdx

end Lengths

theorem length_trend (hn : 0 < n.toInt) (high low close : List α) :
    (trend high low close n).length = close.length := by
  unfold trend
  split
  · exact length_nulls _
  · rw [length_smoothed (by omega), length_directions]

section Bars

variable {high low close : List α}

theorem stochastic?_eq {smooth : Int64} (hn : 0 < n.toInt) (hsmooth : 0 < smooth.toInt)
    (hhigh : high.length = close.length) (hlow : low.length = close.length) :
    stochastic? high low close n smooth =
      some (positions high low close n, average (positions high low close n) smooth) := by
  rw [stochastic?, windowSize?_eq hn]
  simp only [bind_eq_bind, bind_some]
  rw [if_neg (by omega)]
  simp only [Option.pure_def]
  rw [sma?_eq hsmooth]
  rfl

theorem typical?_eq (hhigh : high.length = close.length) (hlow : low.length = close.length) :
    typical? high low close = some (typicals high low close) := by
  rw [typical?, if_neg (by omega)]
  rfl

theorem cci?_eq (hn : 0 < n.toInt) (hhigh : high.length = close.length)
    (hlow : low.length = close.length) :
    cci? high low close n = some (channel high low close n) := by
  rw [cci?, windowSize?_eq hn, typical?_eq hhigh hlow]
  simp only [bind_eq_bind, bind_some]
  rw [sma?_eq hn]
  rfl

section

variable (hhigh : high.length = close.length) (hlow : low.length = close.length)

include hhigh hlow

theorem trueRange?_eq :
    trueRange? high low close = some (ranges high low close) := by
  rw [trueRange?, if_neg (by omega)]
  rfl

theorem atr?_eq :
    atr? high low close n = some (smoothed (ranges high low close) n 0 (n - 1)) := by
  rw [atr?, trueRange?_eq hhigh hlow, bind_eq_bind, bind_some, wilder?_eq (by decide)]

end

theorem directional?_eq (hlow : low.length = high.length) :
    directional? high low = some (movements rise high low, movements fall high low) := by
  rw [directional?, if_neg (by omega)]
  simp only [movements, rise, fall, Option.some.injEq, Prod.mk.injEq]
  constructor <;>
  · refine ext_getElem (by simp) fun i hi hi' => ?_
    simp only [getElem_map, getElem_mapIdx]
    split <;> rfl

theorem adx?_eq (hn : 0 < n.toInt) (hhigh : high.length = close.length)
    (hlow : low.length = close.length) : adx? high low close n = some (trend high low close n) := by
  unfold adx? trend
  split
  · rfl
  · rw [trueRange?_eq hhigh hlow, directional?_eq (by omega)]
    simp only [bind_eq_bind, bind_some]
    rw [wilder?_eq (by decide), wilder?_eq (by decide), wilder?_eq (by decide)]
    simp only [bind_some]
    rw [if_neg (by rw [Int64.lt_iff_toInt_lt, toInt_zero]; omega)]
    exact wilder?_eq (by omega) _ _ _

end Bars

/-! ### Running sums -/

def balances : Option (α × α) → List (α × α) → List α
  | _, [] => []
  | state, (c, v) :: rows =>
    if isNull c || isNull v then null :: balances state rows
    else
      let balance := match state with
        | none => v
        | some (b, prev) => if lt prev c then b + v else if lt c prev then b - v else b
      balance :: balances (some (balance, c)) rows

def quotients (value volume : α) : List (α × α) → List α
  | [] => []
  | (p, v) :: rows =>
    if isNull p || isNull v then null :: quotients value volume rows
    else
      (if same (volume + v) (ofInt 0) then p else (value + p * v) / (volume + v)) ::
        quotients (value + p * v) (volume + v) rows

/-- Whether a row has both of its numbers. -/
def present (row : α × α) : Bool := !(isNull row.1 || isNull row.2)

def nextBalance (state : Option (α × α)) (row : α × α) : Option (α × α) × α :=
  let balance := match state with
    | none => row.2
    | some (b, prev) => if lt prev row.1 then b + row.2 else if lt row.1 prev then b - row.2 else b
  (some (balance, row.1), balance)

def nextQuotient (sums : α × α) (row : α × α) : (α × α) × α :=
  let value := sums.1 + row.1 * row.2
  let volume := sums.2 + row.2
  ((value, volume), if same volume (ofInt 0) then row.1 else value / volume)

theorem balances_eq (state : Option (α × α)) (rows : List (α × α)) :
    balances state rows = running present nextBalance state rows := by
  induction rows generalizing state with
  | nil => rfl
  | cons row rows ih =>
    cases hrow : isNull row.1 || isNull row.2 <;> cases state <;>
      simp [balances, running, present, nextBalance, hrow, ih]

theorem quotients_eq (value volume : α) (rows : List (α × α)) :
    quotients value volume rows = running present nextQuotient (value, volume) rows := by
  induction rows generalizing value volume with
  | nil => rfl
  | cons row rows ih =>
    cases hrow : isNull row.1 || isNull row.2 <;> simp [quotients, running, present, nextQuotient, hrow, ih]

@[simp] theorem length_balances (state : Option (α × α)) (rows : List (α × α)) :
    (balances state rows).length = rows.length := by
  rw [balances_eq, length_running]

@[simp] theorem length_quotients (value volume : α) (rows : List (α × α)) :
    (quotients value volume rows).length = rows.length := by
  rw [quotients_eq, length_running]

theorem balanceFrom?_eq (state : Option (α × α)) {close vol : List α}
    (h : vol.length = close.length) :
    balanceFrom? state close vol = some (balances state (close.zip vol)) := by
  induction close generalizing state vol with
  | nil => rfl
  | cons c cs ih =>
    cases vol with
    | nil => simp at h
    | cons v vs =>
      have hrest : vs.length = cs.length := by simpa using h
      unfold balanceFrom?
      rw [zip_cons_cons]
      unfold balances
      cases isNull c with
      | true => simp [ih _ hrest]
      | false =>
        cases hv : isNull v with
        | true => simp [hv, ih _ hrest]
        | false => cases state <;> simp [hv, ih _ hrest]

theorem averageFrom?_eq (value volume : α) {price vol : List α} (h : vol.length = price.length) :
    averageFrom? value volume price vol = some (quotients value volume (price.zip vol)) := by
  induction price generalizing value volume vol with
  | nil => rfl
  | cons p ps ih =>
    cases vol with
    | nil => simp at h
    | cons v vs =>
      have hrest : vs.length = ps.length := by simpa using h
      unfold averageFrom?
      rw [zip_cons_cons]
      unfold quotients
      cases isNull p with
      | true => simp [ih _ _ hrest]
      | false =>
        cases hv : isNull v with
        | true | false => simp [hv, ih _ _ hrest]

end Dataflow.Series
