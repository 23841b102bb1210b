import Dataflow.Proofs.Indicator.Values
import Dataflow.Proofs.Series.Lawful
import Dataflow.Series.Columnwise
import Mathlib.Data.List.Forall2

/-!
# Columns computed as a whole

The operations on whole columns give the series that are computed row by row.  Each lemma below says so
of one operation, in the laws of `LawfulArithmetic`; `values?_coincide` puts them together for every
indicator.  Most columns are equal to the series.  The running balance is a running sum of signed
volumes here, which starts at zero and so may differ in the sign of a zero.

The average price divides running sums and tells an empty row by the first of them, so that it needs the
sum to be a number wherever there are price and volume and the quotient is not taken (`Summable`).
-/

namespace Dataflow.Columnwise

open Arithmetic Series LawfulArithmetic
open Option (bind_some bind_eq_bind)
open List hiding all

variable {α : Type} [Arithmetic α] {xs vol : List α}

omit [Arithmetic α] in
theorem zip?_eq {ys : List α} (h : xs.length ≤ ys.length) (f : α → α → α) :
    zip? xs ys f = some (List.zipWith f xs ys) :=
  if_neg (Nat.not_lt.mpr h)

/-! ### Windows -/

theorem rolling?_eq {n : Int64} (hn : 0 < n.toInt) (xs : List α) (f : List α → Nat → α) :
    rolling? xs n f = some (rolling xs n.toInt.toNat fun i win => f win i) := by
  rw [rolling?, windowSize?_eq hn]
  rfl

theorem rollingMean?_eq [LawfulArithmetic α] {n : Int64} (hn : 0 < n.toInt) (xs : List α) :
    rollingMean? xs n = some (average xs n) := by
  rw [rollingMean?, rollingSum?, rolling?_eq hn, Option.map_some]
  congr 1
  refine ext_getElem (by simp) fun i hi hi' => ?_
  simp only [average, rolling, getElem_map, getElem_mapIdx]
  split
  · exact null_div _
  · rfl

theorem rollingDeviation?_eq {n : Int64} (hn : 0 < n.toInt) (xs means : List α) :
    rollingDeviation? xs means n =
      some (rolling xs n.toInt.toNat fun i win => deviation win n (means.getD i null)) :=
  rolling?_eq hn xs _

/-- A band above or below the average, from the columns of averages and deviations. -/
theorem zipWith_average_deviation {move : α → α → α} (hmove : ∀ x, move null x = null) (k : α)
    (xs : List α) (n : Int64) : List.zipWith (fun m s => move m (k * s)) (average xs n)
        (rolling xs n.toInt.toNat fun i win => deviation win n ((average xs n).getD i null)) =
      band move k xs n := by
  refine ext_getElem (by simp [band]) fun i hi hi' => ?_
  have hi : i < xs.length := by simpa [band] using hi'
  have hmean : i < (average xs n).length := by simpa using hi
  simp only [band, rolling, getElem_zipWith, getElem_mapIdx]
  rw [← getD_eq_getElem (average xs n) null hmean]
  split
  · next hearly => rw [average, getD_rolling _ hi, if_pos hearly, hmove]
  · rfl

/-! ### Running means and changes -/

theorem scan_ewmStep (alpha : α) (mean : Option α) (xs : List α) :
    scan (ewmStep alpha) mean xs = ewmFrom alpha mean xs := by
  induction xs generalizing mean with
  | nil => rfl
  | cons x xs ih =>
    simp only [scan, ewmStep, ewmFrom]
    cases isNull x with
    | true => simp [ih]
    | false => cases mean <;> simp [ih]

theorem ewm_eq (xs : List α) (n : Int64) : ewm xs (spanWeight n) = ema xs n := scan_ewmStep _ _ _

theorem scan_smooth (alpha mean : α) (xs : List α) :
    scan (fun mean x => (alpha * x + (ofInt 1 - alpha) * mean, alpha * x + (ofInt 1 - alpha) * mean))
        mean xs = smoothFrom alpha mean xs := by
  induction xs generalizing mean with
  | nil => rfl
  | cons x xs ih => simp only [scan, smoothFrom, ih]

theorem wilder?_eq {start : Int64} (hstart : 0 ≤ start.toInt) (xs : List α) (n seed : Int64) :
    wilder? xs n start seed = some (smoothed xs n start seed) := by
  have hsmooth := scan_smooth (ofInt 1 / ofInt n.toInt : α)
  rw [← Series.wilder?_eq hstart, wilder?, Series.wilder?]
  simp only [hsmooth]
  rfl

theorem diff_eq (xs : List α) : diff xs = changes null (· - ·) xs := by
  cases xs with
  | nil => rfl
  | cons x xs => exact cons_steps null (· - ·) x xs

theorem getD_diff {i : Nat} (h : 0 < i) (hi : i < xs.length) (d : α) :
    (diff xs).getD i d = xs.getD i null - xs.getD (i - 1) null := by
  rw [diff_eq, changes, getD_mapIdx _ hi, if_neg (by omega), getD_eq_getElem xs null hi]

/-- Changes turned into numbers, with a number for the first row. -/
theorem mapIdx_diff (first : α) (f : α → α) (xs : List α) :
    ((diff xs).mapIdx fun i x => if i = 0 then first else f x) =
      changes first (fun x prev => f (x - prev)) xs := by
  rw [diff_eq]
  refine mapIdx_eq_mapIdx (length_changes _ _ _) fun i hi hi' => ?_
  split
  · rfl
  · next hrow => simp only [changes, getElem_mapIdx, if_neg hrow]

theorem drop_smoothed {start seed : Int64}
    (hreach : ¬ ((xs.length : Int) ≤ seed.toInt ∨ seed.toInt < start.toInt)) (n : Int64) :
    (smoothed xs n start seed).drop (seed.toInt.toNat + 1) =
      smoothFrom (ofInt 1 / ofInt n.toInt) (seedMean xs start seed)
        (xs.drop (seed.toInt.toNat + 1)) := by
  rw [smoothed, if_neg hreach, drop_append, length_nulls, Nat.add_sub_cancel_left,
    drop_eq_nil_of_le (by simp)]
  rfl

/-- A column that is null up to a row and combines two columns from there on. -/
theorem mapIdx_from {ys zs : List α} {first : Int} (hfirst : first ≤ xs.length)
    (hys : ys.length = xs.length) (hzs : zs.length = xs.length) (f : α → α → α) :
    (xs.mapIdx fun i _ =>
        if (i : Int) < first then null else f (ys.getD i null) (zs.getD i null)) =
      Series.nulls first.toNat ++ List.zipWith f (ys.drop first.toNat) (zs.drop first.toNat) := by
  refine ext_getElem (by simp; omega) fun i hi hi' => ?_
  simp only [length_mapIdx] at hi
  rw [getElem_mapIdx]
  split
  · rw [getElem_append_left (by simp; omega)]
    simp only [Series.nulls, getElem_replicate]
  · have hrow : first.toNat + (i - first.toNat) = i := by omega
    rw [getElem_append_right (by simp; omega), getElem_zipWith]
    simp only [length_nulls, getElem_drop, hrow]
    rw [getD_eq_getElem, getD_eq_getElem]

theorem rsi?_eq {n : Int64} (hn : 0 < n.toInt) (hmax : n ≠ Int64.maxValue) (xs : List α) :
    rsi? xs n = some (strengths xs n) := by
  have hfirst := toInt_add_one hmax
  have hrow : (n + 1).toInt.toNat = n.toInt.toNat + 1 := by omega
  simp only [rsi?, strengths]
  split
  · rfl
  · next hlong =>
    have hreach (ys : List α) (hlength : ys.length = xs.length) :
        ¬ ((ys.length : Int) ≤ n.toInt ∨ n.toInt < (1 : Int64).toInt) := by
      rw [toInt_one]
      omega
    rw [mapIdx_diff, mapIdx_diff, ← gains_eq, ← losses_eq, wilder?_eq (by decide),
      wilder?_eq (by decide)]
    simp only [bind_eq_bind, bind_some]
    rw [if_neg (by rw [Int64.lt_iff_toInt_lt, toInt_zero]; omega), Option.pure_def,
      mapIdx_from (by omega) (by rw [length_smoothed (by decide), length_gains])
        (by rw [length_smoothed (by decide), length_losses]),
      hrow, drop_smoothed (hreach _ (length_gains xs)), drop_smoothed (hreach _ (length_losses xs))]

/-! ### Series of bars -/

theorem shift?_eq (h : xs ≠ []) : shift? xs = some (null :: xs.dropLast) := by
  rw [shift?, if_neg (by simpa using h)]

section Bars

variable {high low close : List α} {n : Int64} (hhigh : high.length = close.length)
  (hlow : low.length = close.length)

include hhigh hlow

theorem stochastic?_eq (hn : 0 < n.toInt) :
    stochastic? high low close n = some (positions high low close n) := by
  rw [stochastic?, rollingLeast?, rollingGreatest?, rolling?_eq hn, rolling?_eq hn, windowSize?_eq hn]
  simp only [bind_eq_bind, bind_some]
  rw [if_neg (by simp; omega), Option.pure_def]
  congr 1
  refine mapIdx_eq_mapIdx rfl fun i hi _ => ?_
  split
  · rfl
  · next hfull =>
    rw [getD_rolling _ (by omega), getD_rolling _ (by omega), if_neg hfull, if_neg hfull]
    simp only [getD_eq_getElem close null hi]

theorem cci?_eq [LawfulArithmetic α] (hn : 0 < n.toInt) :
    cci? high low close n = some (channel high low close n) := by
  rw [cci?, windowSize?_eq hn, if_neg (by omega)]
  simp only [bind_eq_bind, bind_some]
  rw [rollingMean?_eq hn]
  simp only [bind_some]
  rw [rollingDistance?, rolling?_eq hn]
  simp only [bind_some, Option.pure_def]
  congr 1
  refine mapIdx_eq_mapIdx rfl fun i hi _ => ?_
  split
  · rfl
  · next hfull =>
    rw [getD_rolling _ hi, if_neg hfull]
    simp only [typicals]
    rw [getD_eq_getElem _ null hi]
    rfl

theorem trueRange?_eq (hclose : close ≠ []) :
    trueRange? high low close = some (ranges high low close) := by
  have hpos : 0 < close.length := length_pos_iff.mpr hclose
  rw [trueRange?, shift?_eq hclose, sub?, zip?_eq (by omega)]
  simp only [bind_eq_bind, bind_some]
  rw [if_neg (by simp; omega), Option.pure_def]
  congr 1
  refine mapIdx_eq_mapIdx (by simp; omega) fun i hi hi' => ?_
  simp only [length_zipWith] at hi
  rw [getElem_zipWith, getD_eq_getElem high null (by omega),
    getD_eq_getElem low null (by omega)]
  split
  · rfl
  · next hrow =>
    obtain ⟨j, rfl⟩ := Nat.exists_eq_succ_of_ne_zero hrow
    have hprev : (null :: close.dropLast).getD (j + 1) null = close.getD j null := by
      rw [getD_cons_succ, getD_eq_getElem _ _ (by simp; omega), getElem_dropLast,
        getD_eq_getElem _ _ (by omega)]
    rw [hprev]
    rfl

/-- Falls are differences taken the other way round. -/
theorem movements_eq {f : α → α → α} (hf : ∀ up x y, f up (-(x - y)) = f up (y - x)) :
    (close.mapIdx fun i _ => if i = 0 then ofInt 0
        else f ((diff high).getD i null) (((diff low).map fun x => -x).getD i null)) =
      movements f high low := by
  refine mapIdx_eq_mapIdx hhigh.symm fun i hi hi' => ?_
  split
  · rfl
  · next hrow =>
    have hfall : ((diff low).map fun x => -x).getD i null =
        -(low.getD i null - low.getD (i - 1) null) := by
      have hlength : i < (diff low).length := by rw [diff_eq, length_changes]; omega
      rw [← getD_diff (by omega) (by omega) null, getD_eq_getElem _ _ (by simpa using hlength),
        getElem_map, getD_eq_getElem _ _ hlength]
    rw [getD_diff (by omega) hi', hfall, hf, getD_eq_getElem high null hi']

theorem adx?_eq [LawfulArithmetic α] (hn : 0 < n.toInt) (hclose : (2 * n).toInt ≤ 0 → close ≠ []) :
    adx? high low close n = some (trend high low close n) := by
  have hrise (up x y : α) : rise up (-(x - y)) = rise up (y - x) := by
    rw [rise, rise, neg_sub_lt]
  have hfall (up x y : α) : fall up (-(x - y)) = fall up (y - x) := by
    rw [fall, fall, lt_neg_sub, lt_neg_sub]
    split
    · next hpos => exact neg_sub_of_pos (Bool.and_eq_true_iff.mp hpos).2
    · rfl
  unfold adx? trend
  split
  · rfl
  · next hlong =>
    have hclose : close ≠ [] := by
      rintro rfl
      exact hclose (by simpa using hlong) rfl
    rw [if_neg (by simp only [diff_eq, length_map, length_changes]; omega)]
    have hplus := movements_eq hhigh hlow hrise
    have hminus := movements_eq hhigh hlow hfall
    simp only [rise, fall] at hplus hminus
    simp only [hplus, hminus, trueRange?_eq hhigh hlow hclose, bind_eq_bind,
      bind_some]
    rw [wilder?_eq (by decide), wilder?_eq (by decide), wilder?_eq (by decide)]
    simp only [bind_some]
    rw [if_neg (by rw [Int64.lt_iff_toInt_lt, toInt_zero]; omega)]
    exact wilder?_eq (by omega) _ _ _

end Bars

/-! ### Running sums -/

def cumsumFrom (total : α) (xs : List α) : List α :=
  scan (fun total x => if isNull x then (total, null) else (total + x, total + x)) total xs

theorem cumsumFrom_cons (total x : α) (xs : List α) : cumsumFrom total (x :: xs) =
      if isNull x then null :: cumsumFrom total xs
      else (total + x) :: cumsumFrom (total + x) xs := by
  simp only [cumsumFrom, scan]
  split <;> rfl

/-- The signed volumes of rows of close and volume. -/
def signed : Option α → List (α × α) → List α
  | _, [] => []
  | prev, (c, v) :: rows =>
    if isNull c || isNull v then null :: signed prev rows
    else
      (match prev with
        | none => v
        | some p => if lt p c then v else if lt c p then -v else ofInt 0) :: signed (some c) rows

theorem signedFrom?_eq (prev : Option α) {close : List α} (h : vol.length = close.length) :
    signedFrom? prev close vol = some (signed prev (close.zip vol)) := by
  induction close generalizing prev vol with
  | nil => rfl
  | cons c cs ih =>
    cases vol with
    | nil => simp at h
    | cons v vs =>
      have hrest : vs.length = cs.length := by simpa using h
      unfold signedFrom?
      rw [zip_cons_cons]
      unfold signed
      cases isNull c with
      | true => simp [ih _ hrest]
      | false =>
        cases hv : isNull v with
        | true => simp [hv, ih _ hrest]
        | false => cases prev <;> simp [hv, ih _ hrest]

section Lawful

variable [LawfulArithmetic α]

/-- One row of the running balance: the balance and the sum move alike. -/
theorem coincide_balance {b total : α} (h : Coincide b total) (prev c v : α) :
    Coincide (if lt prev c then b + v else if lt c prev then b - v else b)
      (total + if lt prev c then v else if lt c prev then -v else ofInt 0) := by
  split
  · exact h.add v
  · split
    · exact (sub_coincide b v).trans (h.add (-v))
    · exact (add_zero_coincide b).trans (h.add (ofInt 0))

theorem isNull_signed {v : α} (hv : isNull v = false) (prev c : α) :
    isNull (if lt prev c then v else if lt c prev then -v else ofInt 0) = false := by
  split
  · exact hv
  · split
    · rw [isNull_neg, hv]
    · exact isNull_zero

/-- Balances are running sums, from zero or from the balance and the close before. -/
theorem balances_coincide {o : Option (α × α)} {total : α}
    (h : o.elim (total = ofInt 0) fun b => Coincide b.1 total) (rows : List (α × α)) :
    Forall₂ Coincide (balances o rows) (cumsumFrom total (signed (o.map Prod.snd) rows)) := by
  induction rows generalizing o total with
  | nil => exact .nil
  | cons row rows ih =>
    obtain ⟨c, v⟩ := row
    unfold balances signed
    by_cases hnull : (isNull c || isNull v) = true
    · rw [if_pos hnull, if_pos hnull, cumsumFrom_cons, if_pos (isNull_iff.mpr rfl)]
      exact .cons (Coincide.refl _) (ih h)
    · have hv : isNull v = false := by simp_all
      rw [if_neg hnull, if_neg hnull, cumsumFrom_cons]
      rcases o with _ | ⟨b, prev⟩
      · obtain rfl : total = ofInt 0 := h
        rw [if_neg (by simp [hv])]
        exact .cons (zero_add_coincide v) (ih (o := some (v, c)) (zero_add_coincide v))
      · rw [if_neg (by simp [isNull_signed hv])]
        exact .cons (coincide_balance h prev c v) (ih (o := some (_, c)) (coincide_balance h prev c v))

/-- The products of price and volume are numbers, and so is their running sum wherever the running
volume is zero. -/
def Summable (value volume : α) : List (α × α) → Prop
  | [] => True
  | (p, v) :: rows =>
    if isNull p || isNull v then Summable value volume rows
    else isNull (p * v) = false ∧
      (same (volume + v) (ofInt 0) = true → isNull (value + p * v) = false) ∧
      Summable (value + p * v) (volume + v) rows

/-- The quotient of running sums from totals on. -/
theorem mapIdx_cumsumFrom {price : List α} {value volume : α} (hlength : vol.length = price.length)
    (h : Summable value volume (price.zip vol)) :
    (price.mapIdx fun i p =>
      let x := (cumsumFrom value (List.zipWith (· * ·) price vol)).getD i null
      let v := (cumsumFrom volume
        (List.zipWith (fun p v => if isNull p then null else v) price vol)).getD i null
      if isNull x then null else if same v (ofInt 0) then p else x / v) =
      quotients value volume (price.zip vol) := by
  induction price generalizing value volume vol with
  | nil => rfl
  | cons p ps ih =>
    cases vol with
    | nil => simp at hlength
    | cons v vs =>
      have hrest : vs.length = ps.length := by simpa using hlength
      rw [zip_cons_cons] at h ⊢
      rw [zipWith_cons_cons, zipWith_cons_cons, cumsumFrom_cons, cumsumFrom_cons,
        mapIdx_cons]
      unfold Summable at h
      unfold quotients
      by_cases hnull : (isNull p || isNull v) = true
      · -- both sums stand still
        have hproduct : isNull (p * v) = true := by
          rw [isNull_iff]
          rcases Bool.or_eq_true_iff.mp hnull with hp | hv
          · rw [isNull_iff.mp hp, null_mul]
          · rw [isNull_iff.mp hv, mul_null]
        have hvolume : isNull (if isNull p then null else v) = true := by
          split
          · exact isNull_iff.mpr rfl
          · simp_all
        rw [if_pos hnull] at h ⊢
        rw [if_pos hproduct, if_pos hvolume]
        refine congrArg₂ List.cons ?_ (ih hrest h)
        exact if_pos (isNull_iff.mpr rfl)
      · have hp : isNull p = false := by simp_all
        have hv : isNull v = false := by simp_all
        rw [if_neg hnull] at h ⊢
        obtain ⟨hproduct, hzero, hrows⟩ := h
        simp only [hproduct, hp, hv, Bool.false_eq_true, if_false]
        refine congrArg₂ List.cons ?_ (ih hrest hrows)
        rw [getD_cons_zero, getD_cons_zero]
        split
        · -- without a sum there is no quotient, and the volume is not zero
          next hsum =>
          have hne : same (volume + v) (ofInt 0) ≠ true := fun hsame => by simp_all
          rw [if_neg hne, isNull_iff.mp hsum, null_div]
        · rfl

theorem vwap?_eq {price : List α} (hlength : vol.length = price.length)
    (h : Summable (ofInt 0) (ofInt 0) (price.zip vol)) :
    vwap? price vol = some (quotients (ofInt 0) (ofInt 0) (price.zip vol)) := by
  rw [vwap?, zip?_eq (Nat.le_of_eq hlength.symm), zip?_eq (Nat.le_of_eq hlength.symm)]
  simp only [bind_eq_bind, bind_some, Option.pure_def]
  exact congrArg some (mapIdx_cumsumFrom hlength h)

theorem obv?_coincide {close : List α} (hlength : vol.length = close.length) :
    ∃ xs, obv? close vol = some xs ∧ Forall₂ Coincide (balances none (close.zip vol)) xs := by
  refine ⟨cumsumFrom (ofInt 0) (signed none (close.zip vol)), ?_, balances_coincide (o := none) rfl _⟩
  rw [obv?, signedFrom?_eq none hlength]
  rfl

/-! ### Indicators -/

section Values

open Indicator

variable {k : Indicator} {p : Params α} {column : Text → List α} {n : Nat}

/-- The columns are the series, up to the signs of zeros.  The ranges of bars need a row to start from; the
directional index comes to them if there are rows for two windows. -/
theorem values?_coincide (hp : p.Fits k)
    (hrows : k = .atr ∨ k = .adx ∧ (2 * p.window).toInt ≤ 0 → 0 < n)
    (hcolumn : ∀ name, (column name).length = n) (hsum : k = .vwap →
      Summable (ofInt 0) (ofInt 0) ((priceColumn p column).zip (column p.vol))) :
    ∃ columns, values? k p column = some columns ∧
      Forall₂ (Forall₂ Coincide) (series k p column) columns := by
  have hcoincide (xs : List (List α)) : Forall₂ (Forall₂ Coincide) xs xs :=
    forall₂_same.mpr fun ys _ => forall₂_same.mpr fun y _ => Coincide.refl y
  -- all kinds but one give the series itself
  suffices hother : k ≠ .obv → values? k p column = some (series k p column) by
    by_cases hk : k = .obv
    · subst hk
      have hvol : (column p.vol).length = (column p.close).length := by rw [hcolumn, hcolumn]
      obtain ⟨xs, hxs, hsums⟩ := obv?_coincide hvol
      exact ⟨[xs], by simp only [values?, hxs]; rfl, .cons hsums .nil⟩
    · exact ⟨_, hother hk, hcoincide _⟩
  intro hk
  have hhigh : (column p.high).length = (column p.close).length := by rw [hcolumn, hcolumn]
  have hlow : (column p.low).length = (column p.close).length := by rw [hcolumn, hcolumn]
  have hclose (hk : k = .atr ∨ k = .adx ∧ (2 * p.window).toInt ≤ 0) : column p.close ≠ [] :=
    length_pos_iff.mp (by rw [hcolumn]; exact hrows hk)
  cases k with
  | sma => simp only [values?, rollingMean?_eq hp]; rfl
  | ema => simp only [values?, ewm_eq]; rfl
  | wma =>
    simp only [values?, rollingWeighted?, rolling?_eq hp]
    rfl
  | rsi => simp only [values?, rsi?_eq hp.1 hp.2]; rfl
  | macd =>
    have hline : (ema (column p.field) p.fast).length ≤ (ema (column p.field) p.slow).length := by simp
    simp only [values?, ewm_eq, sub?, zip?_eq hline, bind_eq_bind, bind_some]
    rw [zip?_eq (by simp)]
    rfl
  | bbands =>
    simp only [values?, rollingMean?_eq hp, rollingDeviation?_eq hp, bind_eq_bind,
      bind_some]
    rw [zip?_eq (by simp), zip?_eq (by simp),
      zipWith_average_deviation null_add,
      zipWith_average_deviation null_sub]
    rfl
  | stoch =>
    simp only [values?, stochastic?_eq hhigh hlow hp.1, rollingMean?_eq hp.2, bind_eq_bind,
      bind_some]
    rfl
  | cci => simp only [values?, cci?_eq hhigh hlow hp]; rfl
  | atr =>
    simp only [values?, trueRange?_eq hhigh hlow (hclose (.inl rfl)), bind_eq_bind, bind_some]
    rw [wilder?_eq (by decide)]
    rfl
  | adx => simp only [values?, adx?_eq hhigh hlow hp fun hwrap => hclose (.inr ⟨rfl, hwrap⟩)]; rfl
  | obv => exact absurd rfl hk
  | vwap =>
    have hvol : (column p.vol).length = (priceColumn p column).length := by
      rw [hcolumn, length_priceColumn hcolumn]
    simp only [values?, vwap?_eq hvol (hsum rfl)]
    rfl
  | other name => rfl

end Values

end Lawful

section Exact

open Indicator

variable {root : Option ℚ → Option ℚ} {overZero : ℚ → Option ℚ}

/-- Sums and products of exact numbers are numbers. -/
theorem summable_exact {value : Exact root overZero} (hvalue : isNull value = false)
    (volume : Exact root overZero) (rows : List (Exact root overZero × Exact root overZero)) :
    Summable value volume rows := by
  induction rows generalizing value volume with
  | nil => trivial
  | cons row rows ih =>
    obtain ⟨p, v⟩ := row
    unfold Summable
    split
    · exact ih hvalue volume
    · next hnull =>
      obtain ⟨hp, hv⟩ := Bool.or_eq_false_iff.mp (Bool.eq_false_iff.mpr hnull)
      cases p with
      | none => cases hp
      | some x =>
        cases v with
        | none => cases hv
        | some y =>
          cases value with
          | none => cases hvalue
          | some z => exact ⟨rfl, fun _ => rfl, ih rfl _⟩

/-- **The columns computed as a whole are those computed row by row**, in exact numbers: for settings
that pass their checks and columns of one length with at least one row. -/
theorem evaluate_eq_values? {k : Indicator} (hk : k ∈ all) {config : Row} {p : Params Float}
    (hp : params k config = .ok p) (hwindow : p.window.toInt < 2 ^ 62) (std : Exact root overZero)
    {column : Text → List (Exact root overZero)} {n : Nat} (hn : 1 ≤ n)
    (hcolumn : ∀ name, (column name).length = n) :
    ∃ values, values? k (p.withStd std) column = some values ∧
      values.length = (columns k p).length ∧ (∀ xs ∈ values, xs.length = n) ∧
      evaluate k (p.withStd std) column = .ok ((columns k p).zip values) := by
  have hfits := fits_of_params_of_lt hp hwindow std
  obtain ⟨values, hvalues, hcoincide⟩ :=
    values?_coincide hfits (fun _ => hn) hcolumn fun _ => summable_exact rfl _ _
  have heq : series k (p.withStd std) column = values := by
    refine List.forall₂_eq_eq_eq ▸ hcoincide.imp fun xs ys hcells => ?_
    exact List.forall₂_eq_eq_eq ▸ hcells.imp fun x y hcell => Exact.eq_of_coincide hcell
  subst heq
  refine ⟨_, hvalues, (length_columns k (p.withStd std) column).symm, ?_, evaluate_eq hk hfits hcolumn⟩
  exact fun xs hxs => length_of_mem_series hcolumn hfits hxs

/-- A directional index over windows of two rows, with an empty cell and a fall that ends where it
began. -/
theorem evaluate_eq_values?_adx :
    let column (name : Text) : List (Exact id fun _ => none) :=
      if name = "high" then [some 3, none, some 5, some 4, some 6]
      else [some 1, some 2, some 2, some 1, some 3]
    let p := { defaults .adx with window := 2 }
    let std : Exact id fun _ => none := some 2
    params .adx [("window", .int 2)] = .ok p ∧
      ∃ values, values? .adx (p.withStd std) column = some values ∧
        values.length = (columns .adx p).length ∧ (∀ xs ∈ values, xs.length = 5) ∧
        evaluate .adx (p.withStd std) column = .ok ((columns .adx p).zip values) := by
  intro column p std
  have hparams : params .adx [("window", .int 2)] = .ok p := rfl
  have hrows : 1 ≤ 5 := by decide
  refine ⟨hparams, evaluate_eq_values? (by decide) hparams (by decide) std hrows fun name => ?_⟩
  simp only [column]
  split <;> rfl

end Exact

end Dataflow.Columnwise
