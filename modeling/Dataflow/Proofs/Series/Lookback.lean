import Dataflow.Proofs.Indicator.Values

/-!
# Series look back only

The first rows of a series are the series of the first rows: each row is computed from itself and the
rows above it.  The lemmas `*_take` say so for every series, and `Indicator.series_take` for the columns
of every indicator.

A series with a warm-up guards it with the number of all rows.  Rows that a guard hides in the shorter
table are null in the longer one too, because the guard lets nothing through before its row
(`take_guarded`).
-/

namespace Dataflow.Series

open Arithmetic List

variable {α : Type} [Arithmetic α] (m : Nat)

/-! ### Averages over windows -/

theorem rolling_take {xs : List α} {w : Nat} {f g : Nat → List α → α}
    (h : ∀ i < xs.length, i < m → w ≤ i + 1 → g i (windowAt xs w i) = f i (windowAt xs w i)) :
    rolling (xs.take m) w g = (rolling xs w f).take m := by
  refine mapIdx_take fun i hi hm => ?_
  split
  · rfl
  · next hfull => rw [windowAt_take (by omega) hm, h i hi hm (by omega)]

theorem average_take (xs : List α) (n : Int64) : average (xs.take m) n = (average xs n).take m :=
  rolling_take m fun _ _ _ _ => rfl

theorem weightedAverage_take (xs : List α) (n : Int64) :
    weightedAverage (xs.take m) n = (weightedAverage xs n).take m :=
  rolling_take m fun _ _ _ _ => rfl

theorem band_take (move : α → α → α) (k : α) (xs : List α) (n : Int64) :
    band move k (xs.take m) n = (band move k xs n).take m := by
  refine rolling_take m fun i _ hm _ => ?_
  rw [average_take, getD_take _ hm]

/-! ### Changes from row to row -/

theorem changes_take (first : α) (f : α → α → α) (xs : List α) :
    changes first f (xs.take m) = (changes first f xs).take m := by
  refine mapIdx_take fun i _ hm => ?_
  rw [getD_take _ (by omega)]

theorem gains_take (xs : List α) : gains (xs.take m) = (gains xs).take m := by
  rw [gains_eq, gains_eq, changes_take]

theorem losses_take (xs : List α) : losses (xs.take m) = (losses xs).take m := by
  rw [losses_eq, losses_eq, changes_take]

/-! ### Running means -/

theorem running_take {β σ : Type} (counts : β → Bool) (next : σ → β → σ × α) (s : σ) (xs : List β) :
    running counts next s (xs.take m) = (running counts next s xs).take m := by
  induction xs generalizing m s with
  | nil => simp [running]
  | cons x xs ih =>
    cases m with
    | zero => simp [running]
    | succ m =>
      rw [take_succ_cons]
      unfold running
      split <;> simp only [ih, take_succ_cons]

theorem ema_take (xs : List α) (n : Int64) : ema (xs.take m) n = (ema xs n).take m := by
  simp only [ema, ewm, ewmFrom_eq, running_take]

theorem smoothFrom_take (alpha mean : α) (xs : List α) :
    smoothFrom alpha mean (xs.take m) = (smoothFrom alpha mean xs).take m := by
  induction xs generalizing m mean with
  | nil => simp [smoothFrom]
  | cons x xs ih =>
    cases m with
    | zero => simp [smoothFrom]
    | succ m => simp only [take_succ_cons, smoothFrom, ih]

theorem seedMean_take {m : Nat} (xs : List α) (start seed : Int64) (h : seed.toInt.toNat < m) :
    seedMean (xs.take m) start seed = seedMean xs start seed := by
  have hroom : seed.toInt.toNat + 1 - start.toInt.toNat ≤ m - start.toInt.toNat := by omega
  rw [seedMean, seedMean, drop_take, take_take, Nat.min_eq_left hroom]

/-- Rows behind a guard: the first rows depend on the first rows behind it. -/
theorem take_guarded {k : Int} (hk : 0 ≤ k) (length : Nat) {rest rest' : List α}
    (h : k.toNat < m → rest' = rest.take (m - k.toNat)) :
    (if ((min m length : Nat) : Int) ≤ k then nulls (min m length) else nulls k.toNat ++ rest') =
      (if (length : Int) ≤ k then nulls length else nulls k.toNat ++ rest).take m := by
  by_cases hreach : (length : Int) ≤ k
  · rw [if_pos (by omega), if_pos hreach, take_nulls]
  · rcases Nat.lt_or_ge k.toNat m with hm | hm
    · rw [if_neg (by omega), if_neg hreach, h hm, take_append, length_nulls, take_nulls,
        Nat.min_eq_right (by omega)]
    · -- the guard lies behind the first rows, and all rows before it are null
      rw [if_pos (by omega), if_neg hreach, take_append_of_le_length (by simpa using hm), take_nulls,
        Nat.min_eq_left hm, Nat.min_eq_left (by omega)]

theorem smoothed_take {start : Int64} (hstart : 0 ≤ start.toInt) (xs : List α) (n seed : Int64) :
    smoothed (xs.take m) n start seed = (smoothed xs n start seed).take m := by
  by_cases hseed : seed.toInt < start.toInt
  · rw [smoothed, smoothed, if_pos (.inr hseed), if_pos (.inr hseed), take_nulls, length_take]
  · simp only [smoothed, hseed, or_false, length_take]
    refine take_guarded m (by omega) xs.length fun hm => ?_
    obtain ⟨rest, hrest⟩ : ∃ rest, m - seed.toInt.toNat = rest + 1 := ⟨m - seed.toInt.toNat - 1, by omega⟩
    have hdrop : m - (seed.toInt.toNat + 1) = rest := by omega
    rw [seedMean_take _ _ _ hm, drop_take, smoothFrom_take, hdrop, hrest, take_succ_cons]

theorem strengths_take (xs : List α) (n : Int64) (hn : 0 < n.toInt) (hmax : n ≠ Int64.maxValue) :
    strengths (xs.take m) n = (strengths xs n).take m := by
  have hfirst := toInt_add_one hmax
  rw [strengths, strengths, length_take]
  refine take_guarded m (by omega) xs.length fun hm => ?_
  have hseed : n.toInt.toNat < m := by omega
  rw [gains_take, losses_take, seedMean_take _ _ _ hseed, seedMean_take _ _ _ hseed, drop_take,
    drop_take, smoothFrom_take, smoothFrom_take, ← take_zipWith]

/-! ### Series of bars -/

section Bars

variable (high low close : List α) (n : Int64)

theorem positions_take : positions (high.take m) (low.take m) (close.take m) n =
    (positions high low close n).take m := by
  refine rolling_take m fun i _ hm hfull => ?_
  rw [windowAt_take hfull hm, windowAt_take hfull hm, getD_take _ hm]

theorem typicals_take : typicals (high.take m) (low.take m) (close.take m) =
    (typicals high low close).take m := by
  refine mapIdx_take fun i _ hm => ?_
  rw [getD_take _ hm, getD_take _ hm]

theorem channel_take : channel (high.take m) (low.take m) (close.take m) n =
    (channel high low close n).take m := by
  simp only [channel, typicals_take, average_take]
  refine rolling_take m fun i _ hm _ => ?_
  rw [getD_take _ hm, getD_take _ hm]

theorem ranges_take : ranges (high.take m) (low.take m) (close.take m) =
    (ranges high low close).take m := by
  refine mapIdx_take fun i _ hm => ?_
  rw [getD_take _ hm, getD_take _ hm, getD_take _ (by omega)]

theorem movements_take (f : α → α → α) :
    movements f (high.take m) (low.take m) = (movements f high low).take m := by
  refine mapIdx_take fun i _ hm => ?_
  rw [getD_take _ (by omega), getD_take _ (by omega), getD_take _ hm]

theorem directions_take : directions (high.take m) (low.take m) (close.take m) n =
    (directions high low close n).take m := by
  refine mapIdx_take fun i _ hm => ?_
  rw [movements_take, movements_take, ranges_take, smoothed_take m (by decide),
    smoothed_take m (by decide), smoothed_take m (by decide), getD_take _ hm, getD_take _ hm,
    getD_take _ hm]

theorem trend_take (hn : 0 < n.toInt) : trend (high.take m) (low.take m) (close.take m) n =
    (trend high low close n).take m := by
  by_cases hreach : (close.length : Int) < (2 * n).toInt
  · have hshort : ((close.take m).length : Int) < (2 * n).toInt := by
      rw [length_take]
      omega
    rw [trend, trend, if_pos hshort, if_pos hreach, take_nulls, length_take]
  · rw [trend, trend, if_neg hreach, ← smoothed_take m (by omega), ← directions_take]
    split
    · -- the seed lies behind the first rows, so that the second smoothing has none to start from
      next hshort =>
      have hseed := toInt_sub_one (n := 2 * n) (by omega)
      rw [smoothed, if_pos (.inl (by rw [length_directions]; omega)), length_directions]
    · rfl

end Bars

/-! ### Running sums -/

theorem balances_take (state : Option (α × α)) (rows : List (α × α)) :
    balances state (rows.take m) = (balances state rows).take m := by
  simp only [balances_eq, running_take]

theorem quotients_take (value volume : α) (rows : List (α × α)) :
    quotients value volume (rows.take m) = (quotients value volume rows).take m := by
  simp only [quotients_eq, running_take]

end Dataflow.Series

namespace Dataflow.Indicator

open Series List

variable {α : Type} [Arithmetic α]

theorem priceColumn_take (p : Params α) (column : Text → List α) (m : Nat) :
    priceColumn p (fun name => (column name).take m) = (priceColumn p column).take m := by
  refine mapIdx_take fun i _ hm => ?_
  rw [getD_take _ hm]

theorem series_take {k : Indicator} {p : Params α} (hp : p.Fits k) (column : Text → List α) (m : Nat) :
    series k p (fun name => (column name).take m) = (series k p column).map (List.take m) := by
  cases k with
  | sma | ema | wma | macd | bbands | stoch | cci | obv | vwap =>
    simp only [series, average_take, ema_take, weightedAverage_take, Series.macd, band_take, positions_take,
      channel_take, priceColumn_take, List.zip, ← take_zipWith, balances_take, quotients_take,
      map_cons, map_nil]
  | rsi => simp only [series, strengths_take m _ _ hp.1 hp.2, map_cons, map_nil]
  | atr =>
    simp only [series, ranges_take, smoothed_take m (show 0 ≤ (0 : Int64).toInt by decide), map_cons,
      map_nil]
  | adx => simp only [series, trend_take m _ _ _ _ hp, map_cons, map_nil]
  | other name => rfl

/-- **No indicator looks ahead.**  Settings that pass their checks add the same first rows to the first
rows of a table as to all of it. -/
theorem evaluate_take {k : Indicator} (hk : k ∈ all) {config : Row} {p : Params Float}
    (hp : params k config = .ok p) (hwindow : p.window.toInt < 2 ^ 62) (std : α)
    {column : Text → List α} {n : Nat} (hcolumn : ∀ name, (column name).length = n) (m : Nat) :
    ∃ outputs, evaluate k (p.withStd std) column = .ok outputs ∧
      outputs.map Prod.fst = columns k p ∧
      (∀ output ∈ outputs, output.2.length = n) ∧
      evaluate k (p.withStd std) (fun name => (column name).take m) =
        .ok (outputs.map fun (name, xs) => (name, xs.take m)) := by
  have hfits := fits_of_params_of_lt hp hwindow std
  have htake (name : Text) : ((column name).take m).length = min m n := by
    rw [List.length_take, hcolumn]
  refine ⟨_, evaluate_eq hk hfits hcolumn, ?_, ?_, ?_⟩
  · exact List.map_fst_zip (Nat.le_of_eq (length_columns k (p.withStd std) column))
  · intro output houtput
    exact length_of_mem_series hcolumn hfits (List.of_mem_zip houtput).2
  · rw [evaluate_eq hk hfits htake, series_take hfits, List.zip_map_right]
    rfl

/-- Three of five rows, one of them without a high, are too few for a directional index over windows of
two rows; all five are enough. -/
theorem evaluate_take_adx :
    let column (name : Text) : List Float :=
      if name = "high" then [3, Float64.nan, 5, 4, 6] else [1, 2, 3, 2, 5]
    let p := { defaults adx with window := 2 }
    params adx [("window", .int 2)] = .ok p ∧
      ∃ outputs, evaluate adx (p.withStd (2 : Float)) column = .ok outputs ∧
        outputs.map Prod.fst = columns adx p ∧
        (∀ output ∈ outputs, output.2.length = 5) ∧
        evaluate adx (p.withStd (2 : Float)) (fun name => (column name).take 3) =
          .ok (outputs.map fun (name, xs) => (name, xs.take 3)) := by
  intro column p
  have hparams : params adx [("window", .int 2)] = .ok p := rfl
  refine ⟨hparams, evaluate_take (by decide) hparams (by decide) 2 (fun name => ?_) 3⟩
  simp only [column]
  split <;> rfl

end Dataflow.Indicator
