import Dataflow.Proofs.Indicator.Values
import Dataflow.Proofs.Run
import Dataflow.Proofs.Series.Range
import Mathlib.Data.Nat.Prime.Int

/-!
# Warm-up

Over columns of exact numbers every series is null for its first rows and a number from there on, and no quotient
by zero takes part in it: the numbers are the same whatever quotients by zero are.  This is `Fills`, with one lemma a
series.

Main statement (`Indicator.evaluate_warmup`): every indicator warms up over the rows that `warmups` tells.
-/

namespace Dataflow

open Arithmetic List Set

namespace Series

open Exact

/-! ### Sizes -/

section Sizes

variable {n : Int64} (hn : 0 < n.toInt) (hmax : n.toInt < 2 ^ 62)

include hn hmax

/-- The product of a size and the next one wraps around, but not to zero: one of them is odd, and the other is too
small for all the factors. -/
theorem toInt_mul_succ_ne_zero : (n * (n + 1)).toInt ≠ 0 := by
  intro hzero
  rw [Int64.toInt_mul, toInt_succ hn hmax] at hzero
  have hdvd : (2 : Int) ^ 64 ∣ n.toInt * (n.toInt + 1) := Int.dvd_of_bmod_eq_zero hzero
  rcases Int.even_or_odd n.toInt with ⟨half, heven⟩ | ⟨half, hodd⟩
  · have := Int.le_of_dvd hn (Int.prime_two.pow_dvd_of_dvd_mul_right 64 (by omega) hdvd)
    omega
  · have := Int.le_of_dvd (by omega) (Int.prime_two.pow_dvd_of_dvd_mul_left 64 (by omega) hdvd)
    omega

theorem toInt_succ_ne_zero : (n + 1).toInt ≠ 0 := by
  rw [toInt_succ hn hmax]
  omega

end Sizes

variable {root : Option ℚ → Option ℚ} {o : ℚ → Option ℚ} {s : Set ℚ} {f : ∀ o, List (Exact root o)}
  {rows first i : Nat}

/-! ### Rows of numbers -/

theorem Fills.univ (h : Fills rows first s f) : Fills rows first univ f where
  length := h.length
  warmup := h.warmup
  cells i hi hlt := by
    obtain ⟨q, -, hq⟩ := h.cells i hi hlt
    exact ⟨q, trivial, hq⟩

theorem Fills.getD_eq_null_iff (h : Fills rows first s f) (hi : i < rows) :
    (f o).getD i null = null ↔ i < first := by
  refine ⟨fun hnull => ?_, fun hlt => h.warmup o i hlt hi⟩
  by_contra hge
  obtain ⟨q, -, hq⟩ := h.cells i (not_lt.mp hge) hi
  exact Option.some_ne_none q ((hq o).symm.trans hnull)

/-- The column does not depend on quotients by zero. -/
theorem Fills.steady (h : Fills rows first s f) (o : ℚ → Option ℚ) : f o = f fun _ => none := by
  refine ext_getElem ((h.length o).trans (h.length _).symm) fun i hi hi' => ?_
  have hrow : i < rows := h.length o ▸ hi
  rw [← getD_eq_getElem _ null hi, ← getD_eq_getElem _ null hi']
  rcases Nat.lt_or_ge i first with hlt | hge
  · exact (h.warmup o i hlt hrow).trans (h.warmup (fun _ => none) i hlt hrow).symm
  · obtain ⟨q, -, hq⟩ := h.cells i hge hrow
    exact (hq o).trans (hq fun _ => none).symm

theorem Fills.of_rows {n : Nat} (h : Fills rows first s f) (hrows : rows = n) : Fills n first s f := hrows ▸ h

theorem Numbers.fills (h : Numbers rows 0 s f) : Fills rows 0 univ f :=
  Fills.univ { h with warmup := fun _ i hi => absurd hi (Nat.not_lt_zero i) }

theorem fills_map_num (qs : List ℚ) : Fills qs.length 0 univ fun o => (qs.map num : List (Exact root o)) :=
  (numbers_map_num fun _ _ => mem_univ _).fills

theorem foldl_add_eq {β : Type} {f : β → Exact root o} {g : β → ℚ} (hf : ∀ y, f y = num (g y))
    (ys : List β) : ys.foldl (fun acc y => acc + f y) (ofInt 0) = num (ys.map g).sum := by
  obtain rfl : f = fun y => num (g y) := funext hf
  rw [ofInt_zero, ← zero_add (ys.map g).sum, ← foldl_add_num, map_map, foldl_map]
  rfl

/-! ### Windows -/

theorem weightedSum_num (qs : List ℚ) : weightedSum (qs.map num : List (Exact root o)) =
    num ((qs.zipIdx 1).map fun y => ((y.2 : Int) : ℚ) * y.1).sum := by
  rw [weightedSum, zipIdx_map, foldl_map]
  exact foldl_add_eq (fun _ => rfl) _

theorem channelScale_eq : (channelScale : Exact root o) = num (3 / 200) := rfl

section Windows

variable {n : Int64} (hn : 0 < n.toInt)

include hn

theorem fills_weightedAverage (hmax : n.toInt < 2 ^ 62) (qs : List ℚ) :
    Fills qs.length (n.toInt.toNat - 1) univ fun o => weightedAverage (qs.map num : List (Exact root o)) n := by
  refine fills_rolling (fun _ => length_map _) fun i hi hfull => ?_
  have htotal : ((n * (n + 1)).toInt : ℚ) / (2 : Int) ≠ 0 :=
    div_ne_zero (Int.cast_ne_zero.mpr (toInt_mul_succ_ne_zero hn hmax)) (by norm_num)
  exact ⟨_, trivial, fun o => by
    rw [windowAt_map, weightedSum_num, ofInt_eq, ofInt_eq, num_div _ (by norm_num), num_div _ htotal]⟩

theorem fills_average (qs : List ℚ) :
    Fills qs.length (n.toInt.toNat - 1) univ fun o => average (qs.map num : List (Exact root o)) n := by
  rw [← Nat.zero_add n.toInt.toNat]
  exact (fills_map_num qs).average convex_univ hn

/-- A column without nulls has an average on the rows of full windows. -/
theorem exists_average_eq {qs : List ℚ} (hi : i < qs.length) (hfull : n.toInt.toNat ≤ i + 1) :
    ∃ m ∈ (univ : Set ℚ), ∀ o, (average (qs.map num : List (Exact root o)) n).getD i null = num m :=
  (fills_average hn qs).cells i (by omega) hi

theorem exists_deviation_eq (hroot : ∀ q : ℚ, 0 ≤ q → ∃ r, root (some q) = some r) (qs : List ℚ) (m : ℚ) :
    ∃ d, ∀ o, deviation (qs.map num : List (Exact root o)) n (num m) = num d := by
  have hsquares : 0 ≤ (qs.map fun q => (q - m) * (q - m)).sum :=
    sum_nonneg (forall_mem_map.mpr fun _ _ => mul_self_nonneg _)
  have hsum (o : ℚ → Option ℚ) : (qs.map num : List (Exact root o)).foldl
      (fun acc x => let d := x - num m; acc + d * d) (ofInt 0) = num (qs.map fun q => (q - m) * (q - m)).sum := by
    rw [foldl_map]
    exact foldl_add_eq (fun _ => rfl) qs
  have hpos : (0 : ℚ) < n.toInt := by exact_mod_cast hn
  obtain ⟨d, hd⟩ := hroot _ (div_nonneg hsquares hpos.le)
  refine ⟨d, fun o => ?_⟩
  rw [deviation, hsum, ofInt_eq, num_div _ hpos.ne']
  exact hd

theorem fills_band (hroot : ∀ q : ℚ, 0 ≤ q → ∃ r, root (some q) = some r)
    {move : ∀ o, Exact root o → Exact root o → Exact root o}
    (hmove : ∀ a b : ℚ, ∃ q, ∀ o, move o (num a) (num b) = num q) (k : ℚ) (qs : List ℚ) :
    Fills qs.length (n.toInt.toNat - 1) univ fun o => band (move o) (num k) (qs.map num) n := by
  refine fills_rolling (fun _ => length_map _) fun i hi hfull => ?_
  obtain ⟨m, -, hm⟩ := exists_average_eq hn hi hfull
  obtain ⟨d, hd⟩ := exists_deviation_eq hn hroot (windowAt qs n.toInt.toNat i) m
  obtain ⟨q, hq⟩ := hmove m (k * d)
  exact ⟨q, trivial, fun o => by rw [windowAt_map, hm, hd, num_mul, hq]⟩

theorem distance_num (p m : ℚ) (qs : List ℚ) :
    ∃ q ∈ (univ : Set ℚ), ∀ o, distance (num p : Exact root o) (num m) (qs.map num) n = num q := by
  have hpos : (n.toInt : ℚ) ≠ 0 := by exact_mod_cast hn.ne'
  -- the divisor is a multiple of the mean distance, which is not zero there
  refine ⟨(p - m) / (3 / 200 * ((qs.map fun q => |q - m|).sum / n.toInt)), trivial, fun o => ?_⟩
  rw [distance, foldl_map, foldl_add_eq fun q => by rw [num_sub, abs_num], ofInt_eq n.toInt, num_div _ hpos,
    ofInt_zero, channelScale_eq, num_sub, num_mul, same_num]
  split
  · next h => rw [of_decide_eq_true h, mul_zero, div_zero]
  · next h => exact num_div _ (mul_ne_zero (by norm_num) (by simpa using h))

end Windows

/-! ### Bars -/

section Bars

variable {n : Int64} (hn : 0 < n.toInt) {high low close : List ℚ} (hhigh : high.length = close.length)
  (hlow : low.length = close.length)

include hhigh hlow

theorem numbers_typicals : Numbers close.length 0 univ fun o =>
    typicals (high.map num) (low.map num) (close.map num : List (Exact root o)) where
  length o := by rw [length_typicals, length_map]
  cells i _ hi := ⟨(high[i] + low[i] + close[i]) / (3 : Int), trivial, fun o => by
    rw [typicals, getD_mapIdx _ (by simpa using hi), getElem_map, getD_num (by omega), getD_num (by omega),
      ofInt_eq, num_add, num_add, num_div _ (by norm_num)]⟩

theorem numbers_zero_ranges : Numbers close.length 0 univ fun o =>
    ranges (high.map num) (low.map num) (close.map num : List (Exact root o)) where
  length := (numbers_ranges hhigh hlow).length
  cells i _ hi := by
    rcases Nat.eq_zero_or_pos i with rfl | hpos
    · refine ⟨high[0] - low[0], trivial, fun o => ?_⟩
      rw [ranges, getD_mapIdx _ (by simpa using hi), if_pos rfl, getD_num (by omega), getD_num (by omega), num_sub]
    · obtain ⟨q, -, hq⟩ := (numbers_ranges hhigh hlow).cells i hpos hi
      exact ⟨q, trivial, hq⟩

include hn

theorem fills_channel : Fills close.length (n.toInt.toNat - 1) univ fun o =>
    channel (high.map num) (low.map num) (close.map num : List (Exact root o)) n := by
  have hnumbers : Numbers close.length 0 univ fun o =>
    typicals (high.map num) (low.map num) (close.map num : List (Exact root o)) := numbers_typicals hhigh hlow
  obtain ⟨qs, htypical, hlength, -⟩ := hnumbers.exists_eq
  simp only [channel, htypical]
  refine fills_rolling (fun _ => by rw [length_map, hlength]) fun i hi hfull => ?_
  rw [← hlength] at hi
  obtain ⟨m, -, hm⟩ := exists_average_eq hn hi hfull
  obtain ⟨q, -, hq⟩ := distance_num hn qs[i] m (windowAt qs n.toInt.toNat i)
  exact ⟨q, trivial, fun o => by rw [windowAt_map, getD_num hi, hm, hq]⟩

end Bars

/-! ### Running series -/

/-- Where every row counts, and the next state and cell come from numbers alone, all cells are numbers. -/
theorem fills_running {γ τ : Type} {β σ : (ℚ → Option ℚ) → Type} {counts : ∀ o, β o → Bool}
    {next : ∀ o, σ o → β o → σ o × Exact root o} {row : ∀ o, γ → β o} {state : ∀ o, τ → σ o}
    (hcounts : ∀ o y, counts o (row o y) = true)
    (hnext : ∀ t y, ∃ t' q, ∀ o, next o (state o t) (row o y) = (state o t', num q)) (t : τ) (ys : List γ) :
    Fills ys.length 0 univ fun o => running (counts o) (next o) (state o t) (ys.map (row o)) := by
  obtain ⟨qs, hlength, hqs⟩ : ∃ qs : List ℚ, qs.length = ys.length ∧
      ∀ o, running (counts o) (next o) (state o t) (ys.map (row o)) = qs.map num := by
    induction ys generalizing t with
    | nil => exact ⟨[], rfl, fun _ => rfl⟩
    | cons y ys ih =>
      obtain ⟨t', q, hq⟩ := hnext t y
      obtain ⟨qs, hlength, hqs⟩ := ih t'
      refine ⟨q :: qs, congrArg Nat.succ hlength, fun o => ?_⟩
      rw [List.map_cons, running, if_pos (hcounts o y), hq, hqs, List.map_cons]
  simp only [hqs]
  exact hlength ▸ fills_map_num qs

theorem fills_ema {n : Int64} (hn : 0 < n.toInt) (hmax : n.toInt < 2 ^ 62) (qs : List ℚ) :
    Fills qs.length 0 univ fun o => ema (qs.map num : List (Exact root o)) n := by
  have hema (o : ℚ → Option ℚ) : ema (qs.map num : List (Exact root o)) n =
      running (!isNull ·) (nextMean (num ((2 : Int) / (n + 1).toInt))) (Option.map num none) (qs.map num) := by
    rw [ema, ewm, ewmFrom_eq, ofInt_eq, ofInt_eq, num_div _ (Int.cast_ne_zero.mpr (toInt_succ_ne_zero hn hmax))]
    rfl
  simp only [hema]
  refine fills_running (fun _ _ => rfl) ?_ none qs
  rintro (_ | m) q
  · exact ⟨some q, q, fun _ => rfl⟩
  · exact ⟨some _, _, fun _ => rfl⟩

theorem zipWith_sub_num (as bs : List ℚ) :
    List.zipWith (· - ·) (as.map num : List (Exact root o)) (bs.map num) =
      (List.zipWith (· - ·) as bs).map num := by
  rw [zipWith_map, map_zipWith]
  rfl

section Trades

variable (as bs : List ℚ)

theorem fills_balances : Fills (as.zip bs).length 0 univ fun o =>
    balances none ((as.map num : List (Exact root o)).zip (bs.map num)) := by
  have hrunning (o : ℚ → Option ℚ) : balances none ((as.map num : List (Exact root o)).zip (bs.map num)) =
      running present nextBalance (Option.map (Prod.map num num) none) ((as.zip bs).map (Prod.map num num)) := by
    rw [balances_eq, zip_map]
    rfl
  simp only [hrunning]
  refine fills_running (fun _ _ => rfl) ?_ none _
  rintro (_ | ⟨b, prev⟩) ⟨c, v⟩
  · exact ⟨some (v, c), v, fun _ => rfl⟩
  · let balance := if prev < c then b + v else if c < prev then b - v else b
    refine ⟨some (balance, c), balance, fun o => ?_⟩
    simp only [nextBalance, Option.map_some, Prod.map, lt_num, decide_eq_true_eq, balance]
    split_ifs <;> rfl

theorem fills_quotients : Fills (as.zip bs).length 0 univ fun o =>
    quotients (ofInt 0) (ofInt 0) ((as.map num : List (Exact root o)).zip (bs.map num)) := by
  have hrunning (o : ℚ → Option ℚ) :
      quotients (ofInt 0) (ofInt 0) ((as.map num : List (Exact root o)).zip (bs.map num)) =
        running present nextQuotient (Prod.map num num (0, 0)) ((as.zip bs).map (Prod.map num num)) := by
    rw [quotients_eq, ofInt_zero, zip_map]
    rfl
  simp only [hrunning]
  refine fills_running (fun _ _ => rfl) ?_ (0, 0) _
  rintro ⟨value, volume⟩ ⟨p, v⟩
  refine ⟨(value + p * v, volume + v), if volume + v = 0 then p else (value + p * v) / (volume + v), fun o => ?_⟩
  simp only [nextQuotient, Prod.map, num_mul, num_add, ofInt_zero, quotient_num]

end Trades

end Series

/-! ### Indicators -/

namespace Indicator

open Series Exact

/-- The sizes of the windows an indicator uses. -/
def windows {α : Type} (k : Indicator) (p : Params α) : List Int64 :=
  match k with
  | macd => [p.fast, p.slow, p.signal]
  | stoch => [p.window, p.smooth]
  | obv | vwap | other _ => []
  | _ => [p.window]

/-- The number of rows before the first number of each column an indicator adds. -/
def warmups {α : Type} (k : Indicator) (p : Params α) : List Nat :=
  let n := p.window.toInt.toNat
  match k with
  | sma | wma | cci | atr => [n - 1]
  | bbands => [n - 1, n - 1, n - 1]
  | stoch => [n - 1, n + p.smooth.toInt.toNat - 2]
  | rsi => [n + 1]
  | adx => [2 * n - 1]
  | ema | obv | vwap => [0]
  | macd => [0, 0, 0]
  | other _ => []

theorem pos_of_mem_windows {k : Indicator} {config : Row} {p : Params Float} (h : params k config = .ok p) :
    ∀ n ∈ windows k p, 0 < n.toInt := by
  have hchecks := checks_eq_nil_of_params h
  cases k with
  | obv | vwap | other => exact forall_mem_nil _
  | sma | ema | wma | rsi | cci | atr | adx => exact forall_mem_singleton.mpr (atLeast_eq_nil.mp hchecks).2
  | bbands => exact forall_mem_singleton.mpr (atLeast_eq_nil.mp (require_eq_nil.mp hchecks).1).2
  | stoch =>
    obtain ⟨hwindow, hsmooth⟩ := atLeast_eq_nil.mp hchecks
    exact forall_mem_cons.mpr ⟨(atLeast_eq_nil.mp hwindow).2, forall_mem_singleton.mpr hsmooth⟩
  | macd =>
    obtain ⟨hrest, hsignal⟩ := atLeast_eq_nil.mp hchecks
    obtain ⟨hfast, hslow⟩ := atLeast_eq_nil.mp hrest
    exact forall_mem_cons.mpr ⟨(atLeast_eq_nil.mp hfast).2,
      forall_mem_cons.mpr ⟨hslow, forall_mem_singleton.mpr hsignal⟩⟩

variable {root : Option ℚ → Option ℚ} {overZero : ℚ → Option ℚ}

theorem priceColumn_num (p : Params (Exact root overZero)) (column : Text → List ℚ) :
    priceColumn p (fun name => (column name).map num) = (column p.price).map num :=
  ext_getElem (by simp [priceColumn]) fun i hi hi' => by
    simp only [priceColumn, getElem_mapIdx, getElem_map]
    rfl

section Series

variable {k : Indicator} {p : Params Float} (hsmall : ∀ n ∈ windows k p, 0 < n.toInt ∧ n.toInt < 2 ^ 62) (std : ℚ)

include hsmall

/-- The columns that an indicator adds, with their warm-up. -/
theorem exists_series_eq (hroot : ∀ q : ℚ, 0 ≤ q → ∃ r, root (some q) = some r) {column : Text → List ℚ} {n : Nat}
    (hcolumn : ∀ name, (column name).length = n) : ∃ fs : List (∀ o, List (Exact root o)),
      Forall₂ (fun first f => Fills n first univ f) (warmups k p) fs ∧
      ∀ o, series k (p.withStd (num std : Exact root o)) (fun name => (column name).map num) = fs.map (· o) := by
  have hlength (a b : Text) : (column a).length = (column b).length := by rw [hcolumn, hcolumn]
  have hhigh := hlength p.high p.close
  have hlow := hlength p.low p.close
  have hclose := hcolumn p.close
  cases k with
  | sma =>
    obtain ⟨hn, -⟩ := forall_mem_singleton.mp hsmall
    exact ⟨[_], .cons ((fills_average hn _).of_rows (hcolumn _)) .nil, fun o => rfl⟩
  | ema =>
    obtain ⟨hn, hmax⟩ := forall_mem_singleton.mp hsmall
    exact ⟨[_], .cons ((fills_ema hn hmax _).of_rows (hcolumn _)) .nil, fun o => rfl⟩
  | wma =>
    obtain ⟨hn, hmax⟩ := forall_mem_singleton.mp hsmall
    exact ⟨[_], .cons ((fills_weightedAverage hn hmax _).of_rows (hcolumn _)) .nil, fun o => rfl⟩
  | rsi =>
    obtain ⟨hn, hmax⟩ := forall_mem_singleton.mp hsmall
    exact ⟨[_], .cons ((fills_strengths hn hmax _).univ.of_rows (hcolumn _)) .nil, fun o => rfl⟩
  | macd =>
    obtain ⟨⟨hfast, hfast'⟩, hrest⟩ := forall_mem_cons.mp hsmall
    obtain ⟨⟨hslow, hslow'⟩, hrest⟩ := forall_mem_cons.mp hrest
    obtain ⟨hsignal, hsignal'⟩ := forall_mem_singleton.mp hrest
    obtain ⟨fast, hf, hflen, -⟩ := (fills_ema hfast hfast' (column p.field)).exists_eq
    obtain ⟨slow, hs, hslen, -⟩ := (fills_ema hslow hslow' (column p.field)).exists_eq
    obtain ⟨signal, hg, hglen, -⟩ := (fills_ema hsignal hsignal' (List.zipWith (· - ·) fast slow)).exists_eq
    have hfield := hcolumn p.field
    refine ⟨[_, _, _], .cons ((fills_map_num (List.zipWith (· - ·) fast slow)).of_rows (by simp; omega))
      (.cons ((fills_map_num signal).of_rows (by simp at hglen; omega))
      (.cons ((fills_map_num (List.zipWith (· - ·) (List.zipWith (· - ·) fast slow) signal)).of_rows
        (by simp at hglen ⊢; omega)) .nil)), fun o => ?_⟩
    simp only [series, Series.macd, Params.withStd]
    rw [hf, hs, zipWith_sub_num, hg, zipWith_sub_num]
    rfl
  | bbands =>
    obtain ⟨hn, -⟩ := forall_mem_singleton.mp hsmall
    have hband {move : ∀ o, Exact root o → Exact root o → Exact root o}
        (hmove : ∀ a b : ℚ, ∃ q, ∀ o, move o (num a) (num b) = num q) :=
      (fills_band hn hroot hmove std (column p.field)).of_rows (hcolumn _)
    exact ⟨[_, _, _], .cons ((fills_average hn _).of_rows (hcolumn _)) (.cons (hband fun _ _ => ⟨_, fun _ => rfl⟩)
      (.cons (hband fun _ _ => ⟨_, fun _ => rfl⟩) .nil)), fun o => rfl⟩
  | stoch =>
    obtain ⟨⟨hn, -⟩, hrest⟩ := forall_mem_cons.mp hsmall
    obtain ⟨hsmooth, -⟩ := forall_mem_singleton.mp hrest
    have hk : Fills n (p.window.toInt.toNat - 1) univ fun o => positions ((column p.high).map num)
        ((column p.low).map num) ((column p.close).map num : List (Exact root o)) p.window :=
      (fills_positions_of hn hhigh hlow (mem_univ _) fun _ _ _ _ _ _ _ => mem_univ _).of_rows hclose
    have hd := hk.average convex_univ hsmooth
    have hfirst : p.window.toInt.toNat - 1 + p.smooth.toInt.toNat - 1 =
      p.window.toInt.toNat + p.smooth.toInt.toNat - 2 := by omega
    rw [hfirst] at hd
    exact ⟨[_, _], .cons hk (.cons hd .nil), fun o => rfl⟩
  | cci =>
    obtain ⟨hn, -⟩ := forall_mem_singleton.mp hsmall
    exact ⟨[_], .cons ((fills_channel hn hhigh hlow).of_rows hclose) .nil, fun o => rfl⟩
  | atr =>
    obtain ⟨hn, hmax⟩ := forall_mem_singleton.mp hsmall
    have hseed := toInt_sub_one (n := p.window) (by omega)
    have hfirst : p.window.toInt.toNat - 1 = (p.window - 1).toInt.toNat := by omega
    have hle : (0 : Int64).toInt ≤ (p.window - 1).toInt := by rw [toInt_zero]; omega
    refine ⟨[_], .cons ?_ .nil, fun o => rfl⟩
    rw [hfirst]
    exact (Numbers.smoothed (by decide) hle (by omega) convex_univ (numbers_zero_ranges hhigh hlow) hn).of_rows hclose
  | adx =>
    obtain ⟨hn, hmax⟩ := forall_mem_singleton.mp hsmall
    exact ⟨[_], .cons ((fills_trend hn hmax hhigh hlow).univ.of_rows hclose) .nil, fun o => rfl⟩
  | obv =>
    exact ⟨[_], .cons ((fills_balances (column p.close) (column p.vol)).of_rows (by simp [hcolumn])) .nil, fun o => rfl⟩
  | vwap =>
    refine ⟨[_], .cons ((fills_quotients (column p.price) (column p.vol)).of_rows (by simp [hcolumn])) .nil,
      fun o => ?_⟩
    simp only [series, priceColumn_num]
    rfl
  | other => exact ⟨[], .nil, fun o => rfl⟩

end Series

/-- **The warm-up is exact, and no quotient is by zero.**  Settings that pass their checks, with sizes below 2⁶², make
of columns without nulls the same columns whatever quotients by zero are.  A cell is null if and only if its row is
one of the warm-up. -/
theorem evaluate_warmup (hroot : ∀ q : ℚ, 0 ≤ q → ∃ r, root (some q) = some r) {k : Indicator} (hk : k ∈ all)
    {config : Row} {p : Params Float} (hp : params k config = .ok p)
    (hsmall : ∀ size ∈ [p.window, p.fast, p.slow, p.signal, p.smooth], size.toInt < 2 ^ 62) (std : ℚ)
    {column : Text → List ℚ} {n : Nat} (hcolumn : ∀ name, (column name).length = n) :
    ∃ outputs : List (Text × List (Option ℚ)),
      (∀ overZero, evaluate (α := Exact root overZero) k (p.withStd (num std)) (fun name => (column name).map num) =
        .ok outputs) ∧
      outputs.map Prod.fst = columns k p ∧
      (∀ output ∈ outputs, output.2.length = n) ∧
      List.Forall₂ (fun first output => ∀ i < output.2.length, (output.2.getD i none = none ↔ i < first))
        (warmups k p) outputs := by
  have hwindows : ∀ size ∈ windows k p, 0 < size.toInt ∧ size.toInt < 2 ^ 62 := by
    have hsubset : windows k p ⊆ [p.window, p.fast, p.slow, p.signal, p.smooth] := by
      cases k <;> simp [windows]
    exact fun size hsize => ⟨pos_of_mem_windows hp size hsize, hsmall size (hsubset hsize)⟩
  have hfits (overZero : ℚ → Option ℚ) : (p.withStd (num std : Exact root overZero)).Fits k :=
    fits_of_params_of_lt hp (hsmall _ List.mem_cons_self) _
  have hlength (overZero : ℚ → Option ℚ) (name : Text) :
      ((column name).map num : List (Exact root overZero)).length = n := by rw [List.length_map, hcolumn]
  obtain ⟨fs, hfills, hseries⟩ := exists_series_eq hwindows std hroot hcolumn
  have hcols (overZero : ℚ → Option ℚ) : series (α := Exact root overZero) k (p.withStd (num std))
      (fun name => (column name).map num) = fs.map (· fun _ => none) := by
    refine (hseries overZero).trans (List.map_congr_left fun f hf => ?_)
    obtain ⟨first, -, h⟩ := exists_mem_of_forall₂ hfills.flip hf
    exact h.steady overZero
  have hnames : (columns k p).length = (fs.map (· fun _ => none)).length :=
    (length_columns k (p.withStd (num std : Exact root fun _ => none)) _).trans (congrArg List.length (hcols _))
  have hfilled : List.Forall₂ (fun first (xs : List (Option ℚ)) => ∀ i < xs.length,
      (xs.getD i none = none ↔ i < first)) (warmups k p) (fs.map (· fun _ => none)) :=
    List.forall₂_map_right_iff.mpr (hfills.imp fun first f h i hi => h.getD_eq_null_iff (h.length _ ▸ hi))
  refine ⟨(columns k p).zip (fs.map (· fun _ => none)), fun overZero => ?_, List.map_fst_zip hnames.le,
    fun output houtput => ?_, List.forall₂_map_right_iff.mp (by rwa [List.map_snd_zip hnames.ge])⟩
  · exact (evaluate_eq hk (hfits overZero) (hlength overZero)).trans
      (congrArg (fun cols : List (List (Option ℚ)) => Except.ok ((columns k p).zip cols)) (hcols overZero))
  · obtain ⟨f, hf, heq⟩ := List.mem_map.mp (List.of_mem_zip houtput).2
    obtain ⟨first, -, h⟩ := exists_mem_of_forall₂ hfills.flip hf
    exact heq ▸ h.length _

/-- Over windows of two rows and averages of three, the stochastic of five rows has a number from the second row on,
and its average from the fourth; on the second row high and low have not moved. -/
theorem evaluate_warmup_stoch :
    let column (name : Text) : List ℚ :=
      if name = "high" then [3, 3, 5, 4, 6] else if name = "low" then [3, 3, 2, 1, 4] else [3, 3, 4, 2, 5]
    let p := { defaults stoch with window := 2 }
    params stoch [("window", .int 2)] = .ok p ∧
      ∃ outputs : List (Text × List (Option ℚ)),
        (∀ overZero, evaluate (α := Exact id overZero) stoch (p.withStd (num 2)) (fun name => (column name).map num) =
          .ok outputs) ∧
        outputs.map Prod.fst = [("stoch_k" : Text), "stoch_d"] ∧
        (∀ output ∈ outputs, output.2.length = 5) ∧
        List.Forall₂ (fun first output => ∀ i < output.2.length, (output.2.getD i none = none ↔ i < first))
          [1, 3] outputs := by
  intro column p
  have hparams : params stoch [("window", .int 2)] = .ok p := rfl
  have hsmall : ∀ size ∈ [p.window, p.fast, p.slow, p.signal, p.smooth], size.toInt < 2 ^ 62 := by
    intro size hsize
    fin_cases hsize <;> decide
  refine ⟨hparams, evaluate_warmup (fun q _ => ⟨q, rfl⟩) (by decide) hparams hsmall 2 fun name => ?_⟩
  simp only [column]
  split_ifs <;> rfl

end Indicator

end Dataflow
