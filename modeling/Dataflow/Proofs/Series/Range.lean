import Dataflow.Proofs.Series.Lawful
import Dataflow.Proofs.Series.Rows
import Mathlib.Algebra.Order.Field.Rat
import Mathlib.Analysis.Convex.Combination
import Mathlib.Tactic.Linarith

/-!
# Series that stay in a range

Over exact numbers a series is null for some rows, its warm-up, and a number from there on.
`Filled first s xs` says so, and that the numbers are in the set `s`.  Means of numbers of a convex set are in
the set, so that moving averages (`Fills.average`) and smoothing (`Numbers.smoothed`) keep a series in its
range.  Gains, losses, ranges and movements are not negative, and the indices made of them are per cent.

Main statement (`oscillators_bounded`): the relative strength and the directional index are from 0 to 100 for
all bars, and so is the stochastic one where closes lie between lows and highs.
-/

namespace Dataflow

open Arithmetic List

variable {qs : List ℚ}

/-! ### Exact numbers -/

namespace Exact

variable {root : Option ℚ → Option ℚ} {overZero : ℚ → Option ℚ} (a b : ℚ)

/-- A number, as opposed to null. -/
def num (q : ℚ) : Exact root overZero := some q

theorem ofInt_eq (n : Int) : (ofInt n : Exact root overZero) = num n := rfl

theorem ofInt_zero : (ofInt 0 : Exact root overZero) = num 0 := by rw [ofInt_eq, Int.cast_zero]

theorem ofInt_hundred : (ofInt 100 : Exact root overZero) = num 100 := by rw [ofInt_eq, Int.cast_ofNat]

theorem num_add : (num a + num b : Exact root overZero) = num (a + b) := rfl

theorem num_sub : (num a - num b : Exact root overZero) = num (a - b) := rfl

theorem num_mul : (num a * num b : Exact root overZero) = num (a * b) := rfl

theorem num_neg : (-num a : Exact root overZero) = num (-a) := rfl

theorem num_div {b : ℚ} (hb : b ≠ 0) : (num a / num b : Exact root overZero) = num (a / b) := if_neg hb

theorem lt_num : lt (num a : Exact root overZero) (num b) = decide (a < b) := rfl

theorem same_num : same (num a : Exact root overZero) (num b) = decide (a = b) := rfl

theorem abs_num : abs (num a : Exact root overZero) = num |a| := by
  show num (if a < 0 then -a else a) = num |a|
  split
  · next h => rw [abs_of_neg h]
  · next h => rw [abs_of_nonneg (not_lt.mp h)]

theorem min_num : min (num a : Exact root overZero) (num b) = num (Min.min a b) := by
  show num (if b < a then b else a) = num (Min.min a b)
  split
  · next h => rw [min_eq_right h.le]
  · next h => rw [min_eq_left (not_lt.mp h)]

theorem max_num : max (num a : Exact root overZero) (num b) = num (Max.max a b) := by
  show num (if a < b then b else a) = num (Max.max a b)
  split
  · next h => rw [max_eq_right h.le]
  · next h => rw [max_eq_left (not_lt.mp h)]

theorem add_null (x : Exact root overZero) : x + null = null := by cases x <;> rfl

end Exact

namespace Series

open Exact

variable {root : Option ℚ → Option ℚ} {overZero : ℚ → Option ℚ} {s : Set ℚ} {a : ℚ}
  {xs : List (Exact root overZero)} {f : ∀ o, List (Exact root o)} {rows first i k : Nat}

/-! ### Rows of numbers -/

/-- The rows from `first` on are numbers of the set. -/
def NumbersFrom (first : Nat) (s : Set ℚ) (xs : List (Exact root overZero)) : Prop :=
  ∀ i, first ≤ i → i < xs.length → ∃ q ∈ s, xs.getD i null = num q

/-- The rows before `first` are null, and from there on they are numbers of the set. -/
structure Filled (first : Nat) (s : Set ℚ) (xs : List (Exact root overZero)) : Prop where
  warmup : ∀ i < first, xs.getD i null = null
  numbers : NumbersFrom first s xs

/-- The rows from `first` on are numbers of the set, which are the same whatever quotients by zero are. -/
structure Numbers (rows first : Nat) (s : Set ℚ) (f : ∀ o, List (Exact root o)) : Prop where
  length : ∀ o, (f o).length = rows
  cells : ∀ i, first ≤ i → i < rows → ∃ q ∈ s, ∀ o, (f o).getD i null = num q

/-- Besides, the rows before `first` are null. -/
structure Fills (rows first : Nat) (s : Set ℚ) (f : ∀ o, List (Exact root o)) : Prop
    extends Numbers rows first s f where
  warmup : ∀ o, ∀ i < first, i < rows → (f o).getD i null = null

theorem Fills.filled (h : Fills rows first s f) (o : ℚ → Option ℚ) : Filled first s (f o) where
  warmup i hi := by
    rcases Nat.lt_or_ge i rows with hlt | hge
    · exact h.warmup o i hi hlt
    · exact getD_eq_default _ _ (by rwa [h.length])
  numbers i hi hlt := by
    obtain ⟨q, hq, heq⟩ := h.cells i hi (h.length o ▸ hlt)
    exact ⟨q, hq, heq o⟩

theorem Numbers.mono (h : Numbers rows first s f) (hle : first ≤ k) : Numbers rows k s f :=
  ⟨h.length, fun i hi => h.cells i (hle.trans hi)⟩

/-- Columns that have numbers only, as a list of numbers. -/
theorem Numbers.exists_eq (h : Numbers rows 0 s f) :
    ∃ qs : List ℚ, (∀ o, f o = qs.map num) ∧ qs.length = rows ∧ ∀ q ∈ qs, q ∈ s := by
  choose cell hcell using fun i : Fin rows => h.cells i (Nat.zero_le _) i.2
  refine ⟨ofFn cell, fun o => ext_getElem (by simp [h.length]) fun i hi hi' => ?_, by simp, fun q hq => ?_⟩
  · have hrow : i < rows := h.length o ▸ hi
    have heq := (hcell ⟨i, hrow⟩).2 o
    rw [getD_eq_getElem _ _ hi] at heq
    rw [heq, getElem_map, List.getElem_ofFn]
  · obtain ⟨i, rfl⟩ := mem_ofFn.mp hq
    exact (hcell i).1

theorem getD_num {qs : List ℚ} (hi : i < qs.length) :
    (qs.map num : List (Exact root overZero)).getD i null = num qs[i] := by
  rw [getD_eq_getElem _ _ (by simpa using hi), getElem_map]

theorem numbers_map_num {qs : List ℚ} (hqs : ∀ q ∈ qs, q ∈ s) :
    Numbers qs.length 0 s fun o => (qs.map num : List (Exact root o)) where
  length o := length_map _
  cells i _ hi := ⟨qs[i], hqs _ (getElem_mem hi), fun o => getD_num hi⟩

theorem getD_nulls (m i : Nat) : (nulls m : List (Exact root overZero)).getD i null = null := by
  rcases Nat.lt_or_ge i m with hi | hi
  · rw [nulls, getD_replicate _ hi]
  · rw [getD_eq_default _ _ (by simpa using hi)]

theorem fills_nulls {m : Nat} (h : m ≤ first) : Fills m first s fun o => (nulls m : List (Exact root o)) where
  length o := length_nulls m
  warmup o i _ _ := getD_nulls m i
  cells i hi hlt := by omega

theorem fills_nulls_append {qs : List ℚ} (hqs : ∀ q ∈ qs, q ∈ s) :
    Fills (first + qs.length) first s fun o => (nulls first ++ qs.map num : List (Exact root o)) where
  length o := by simp
  warmup o i hi _ := by rw [getD_append _ _ _ _ (by simpa using hi), getD_nulls]
  cells i hi hlt := by
    have hrow : i - first < qs.length := by omega
    refine ⟨qs[i - first], hqs _ (getElem_mem hrow), fun o => ?_⟩
    rw [getD_append_right _ _ _ _ (by simpa using hi), length_nulls, getD_num hrow]

/-! ### Means -/

theorem foldl_add_num (a : ℚ) (qs : List ℚ) :
    (qs.map num).foldl (· + ·) (num a : Exact root overZero) = num (a + qs.sum) := by
  induction qs generalizing a with
  | nil => simp
  | cons q qs ih => rw [List.map_cons, foldl_cons, num_add, ih, sum_cons, add_assoc]

theorem sum_num (qs : List ℚ) : sum (qs.map num : List (Exact root overZero)) = num qs.sum := by
  rw [sum, ofInt_zero, foldl_add_num, zero_add]

theorem foldl_add_null (xs : List (Exact root overZero)) : xs.foldl (· + ·) null = null := by
  induction xs with
  | nil => rfl
  | cons x xs ih => rw [foldl_cons, LawfulArithmetic.null_add, ih]

/-- A null cell makes a sum null. -/
theorem sum_eq_null (h : null ∈ xs) : sum xs = null := by
  obtain ⟨before, after, rfl⟩ := append_of_mem h
  rw [sum, foldl_append, foldl_cons, add_null, foldl_add_null]

theorem mean_mem (hs : Convex ℚ s) (hqs : ∀ q ∈ qs, q ∈ s) (hne : qs ≠ []) :
    qs.sum / qs.length ∈ s := by
  induction qs with
  | nil => exact absurd rfl hne
  | cons q qs ih =>
    obtain ⟨hq, hqs⟩ := forall_mem_cons.mp hqs
    rcases eq_or_ne qs [] with rfl | hne
    · simpa using hq
    · -- the mean of all is that of the first and of the mean of the rest, by their numbers
      have hlen : (0 : ℚ) < qs.length := by exact_mod_cast length_pos_iff.mpr hne
      have hmem := hs hq (ih hqs hne) (a := 1 / (qs.length + 1)) (b := qs.length / (qs.length + 1))
        (by positivity) (by positivity) (by field_simp; ring)
      convert hmem using 1
      rw [sum_cons, length_cons]
      push_cast
      simp only [smul_eq_mul]
      field_simp

/-! ### Moving averages -/

section Windows

variable {w : Nat} (hfull : w ≤ i + 1)

include hfull

theorem length_windowAt {α : Type} {xs : List α} (hi : i < xs.length) : (windowAt xs w i).length = w := by
  rw [windowAt, length_take, length_drop]
  omega

theorem mem_windowAt_iff {α : Type} {xs : List α} (hi : i < xs.length) (d : α) {x : α} :
    x ∈ windowAt xs w i ↔ ∃ j, i + 1 - w ≤ j ∧ j ≤ i ∧ xs.getD j d = x := by
  rw [mem_iff_getElem]
  simp only [length_windowAt hfull hi]
  constructor
  · rintro ⟨m, hm, rfl⟩
    refine ⟨i + 1 - w + m, by omega, by omega, ?_⟩
    rw [getD_eq_getElem _ _ (by omega)]
    simp [windowAt]
  · rintro ⟨j, hlo, hhi, rfl⟩
    refine ⟨j - (i + 1 - w), by omega, ?_⟩
    rw [getD_eq_getElem _ _ (by omega)]
    simp [windowAt, Nat.add_sub_cancel' hlo]

theorem getD_windowAt {α : Type} {xs : List α} {m : Nat} (hi : i < xs.length) (hm : m < w) (d : α) :
    (windowAt xs w i).getD m d = xs.getD (i + 1 - w + m) d := by
  rw [getD_eq_getElem _ _ (by rwa [length_windowAt hfull hi]), getD_eq_getElem _ _ (by omega)]
  simp [windowAt]

theorem Numbers.exists_windowAt_eq (h : Numbers rows first s f) (hi : i < rows) (hfirst : first ≤ i + 1 - w) :
    ∃ qs : List ℚ, (∀ o, windowAt (f o) w i = qs.map num) ∧ qs.length = w ∧ ∀ q ∈ qs, q ∈ s := by
  have hi' (o : ℚ → Option ℚ) : i < (f o).length := by rwa [h.length]
  refine Numbers.exists_eq ⟨fun o => length_windowAt hfull (hi' o), fun m _ hm => ?_⟩
  obtain ⟨q, hq, heq⟩ := h.cells (i + 1 - w + m) (by omega) (by omega)
  exact ⟨q, hq, fun o => (getD_windowAt hfull (hi' o) hm null).trans (heq o)⟩

end Windows

/-- Windows of numbers have numbers where what is made of them is one. -/
theorem fills_rolling {w : Nat} {g : ∀ o, Nat → List (Exact root o) → Exact root o}
    (hlength : ∀ o, (f o).length = rows)
    (h : ∀ i < rows, w ≤ i + 1 → ∃ q ∈ s, ∀ o, g o i (windowAt (f o) w i) = num q) :
    Fills rows (w - 1) s fun o => rolling (f o) w (g o) where
  length o := by rw [length_rolling, hlength]
  warmup o i hi hlt := by rw [getD_rolling _ (by rwa [hlength]), if_pos (by omega)]
  cells i hfirst hi := by
    obtain ⟨q, hq, heq⟩ := h i hi (by omega)
    refine ⟨q, hq, fun o => ?_⟩
    rw [getD_rolling _ (by rwa [hlength]), if_neg (by omega), heq]

/-- A moving average warms up over a window of numbers, and stays in their range. -/
theorem Fills.average (hs : Convex ℚ s) (h : Fills rows first s f) {n : Int64} (hn : 0 < n.toInt) :
    Fills rows (first + n.toInt.toNat - 1) s fun o => average (f o) n where
  length o := by rw [length_average, h.length]
  warmup o i hi hlt := by
    have hlt' : i < (f o).length := by rwa [h.length]
    rw [Series.average, getD_rolling _ hlt']
    split
    · rfl
    · next hfull =>
      have hnull : null ∈ windowAt (f o) n.toInt.toNat i :=
        (mem_windowAt_iff (by omega) hlt' null).mpr ⟨i + 1 - n.toInt.toNat, le_refl _, by omega,
          h.warmup o _ (by omega) (by omega)⟩
      rw [sum_eq_null hnull, LawfulArithmetic.null_div]
  cells i hi hlt := by
    obtain ⟨qs, hwindow, hlen, hqs⟩ :=
      h.exists_windowAt_eq (w := n.toInt.toNat) (by omega) hlt (by omega)
    have hpos : (n.toInt : ℚ) ≠ 0 := by exact_mod_cast hn.ne'
    refine ⟨qs.sum / qs.length, mean_mem hs hqs (ne_nil_of_length_pos (by omega)), fun o => ?_⟩
    rw [Series.average, getD_rolling _ (by rwa [h.length]), if_neg (by omega), hwindow, sum_num, ofInt_eq,
      num_div _ hpos, hlen]
    congr 2
    exact_mod_cast (Int.toNat_of_nonneg hn.le).symm

/-! ### Smoothing -/

theorem exists_smoothFrom_eq (hs : Convex ℚ s) {m : ℚ} (ha : 0 ≤ a) (ha' : a ≤ 1) (hm : m ∈ s)
    (hqs : ∀ q ∈ qs, q ∈ s) : ∃ rs : List ℚ, (∀ r ∈ rs, r ∈ s) ∧
      ∀ o, smoothFrom (num a : Exact root o) (num m) (qs.map num) = rs.map num := by
  induction qs generalizing m with
  | nil => exact ⟨[], forall_mem_nil _, fun _ => rfl⟩
  | cons q qs ih =>
    obtain ⟨hq, hqs⟩ := forall_mem_cons.mp hqs
    have hnext : a * q + (1 - a) * m ∈ s := hs hq hm ha (by linarith) (by ring)
    obtain ⟨rs, hrs, heq⟩ := ih hnext hqs
    refine ⟨_ :: rs, forall_mem_cons.mpr ⟨hnext, hrs⟩, fun o => ?_⟩
    rw [List.map_cons, smoothFrom, ofInt_eq, num_sub, num_mul, num_mul, num_add, Int.cast_one, heq, List.map_cons]

theorem Numbers.exists_drop_eq (h : Numbers rows first s f) (hk : first ≤ k) :
    ∃ qs : List ℚ, (∀ o, (f o).drop k = qs.map num) ∧ qs.length = rows - k ∧ ∀ q ∈ qs, q ∈ s := by
  refine Numbers.exists_eq ⟨fun o => by rw [length_drop, h.length], fun m _ hm => ?_⟩
  obtain ⟨q, hq, heq⟩ := h.cells (k + m) (by omega) (by omega)
  refine ⟨q, hq, fun o => ?_⟩
  rw [← heq, getD_eq_getElem?_getD, getD_eq_getElem?_getD, getElem?_drop]

section Smoothing

variable {n start seed : Int64} (hstart : 0 ≤ start.toInt) (hle : start.toInt ≤ seed.toInt)
  (hseed : seed.toInt < 2 ^ 63 - 1)

include hstart hle hseed

theorem toInt_span : (seed - start + 1).toInt = seed.toInt + 1 - start.toInt := by
  have hsub : (seed - start).toInt = seed.toInt - start.toInt := by
    rw [Int64.toInt_sub, Int.bmod_eq_of_le] <;> omega
  rw [Int64.toInt_add, hsub, toInt_one, Int.bmod_eq_of_le] <;> omega

section

variable (hs : Convex ℚ s) (h : Numbers rows start.toInt.toNat s f)

include hs h

theorem Numbers.seedMean (hlen : seed.toInt < rows) : ∃ m ∈ s, ∀ o, seedMean (f o) start seed = num m := by
  -- the rows from `start` to `seed` are a window that ends at the seed
  have hrows (o : ℚ → Option ℚ) :
      ((f o).drop start.toInt.toNat).take (seed.toInt.toNat + 1 - start.toInt.toNat) =
      windowAt (f o) (seed.toInt.toNat + 1 - start.toInt.toNat) seed.toInt.toNat := by
    rw [windowAt]
    congr 2
    omega
  obtain ⟨qs, hwindow, hcount, hqs⟩ := h.exists_windowAt_eq (w := seed.toInt.toNat + 1 - start.toInt.toNat)
    (i := seed.toInt.toNat) (by omega) (by omega) (by omega)
  refine ⟨qs.sum / qs.length, mean_mem hs hqs (ne_nil_of_length_pos (by omega)), fun o => ?_⟩
  have hspan : ((seed - start + 1).toInt : ℚ) = qs.length := by
    rw [toInt_span hstart hle hseed, hcount]
    exact_mod_cast (by omega : seed.toInt + 1 - start.toInt =
      ((seed.toInt.toNat + 1 - start.toInt.toNat : Nat) : Int))
  have hpos : ((seed - start + 1).toInt : ℚ) ≠ 0 := by
    rw [toInt_span hstart hle hseed]
    exact_mod_cast (by omega : seed.toInt + 1 - start.toInt ≠ 0)
  rw [Series.seedMean, hrows, hwindow, sum_num, ofInt_eq, num_div _ hpos, hspan]

variable (hn : 0 < n.toInt)

include hn

/-- A seed and what follows it are in the range of what is smoothed. -/
theorem Numbers.smoothFrom (hlen : seed.toInt < rows) (hk : start.toInt.toNat ≤ k) :
    ∃ m ∈ s, ∃ rs : List ℚ, rs.length = rows - k ∧ (∀ r ∈ rs, r ∈ s) ∧ ∀ o,
      Series.seedMean (f o) start seed = num m ∧
      smoothFrom (ofInt 1 / ofInt n.toInt) (Series.seedMean (f o) start seed) ((f o).drop k) = rs.map num := by
  obtain ⟨m, hm, hmean⟩ := h.seedMean hstart hle hseed hs hlen
  obtain ⟨qs, hdrop, hcount, hqs⟩ := h.exists_drop_eq hk
  have hpos : (1 : ℚ) ≤ n.toInt := by exact_mod_cast hn
  obtain ⟨rs, hrs, heq⟩ : ∃ rs : List ℚ, (∀ r ∈ rs, r ∈ s) ∧
      ∀ o, Series.smoothFrom (num (1 / n.toInt) : Exact root o) (num m) (qs.map num) = rs.map num :=
    exists_smoothFrom_eq hs (by positivity) ((div_le_one (by linarith)).mpr hpos) hm hqs
  have hsmooth (o : ℚ → Option ℚ) : Series.smoothFrom (ofInt 1 / ofInt n.toInt) (Series.seedMean (f o) start seed)
      ((f o).drop k) = rs.map num := by
    rw [hmean, hdrop, ← heq, ofInt_eq, ofInt_eq, num_div _ (by linarith), Int.cast_one]
  refine ⟨m, hm, rs, ?_, hrs, fun o => ⟨hmean o, hsmooth o⟩⟩
  rw [← length_map (f := (num : ℚ → Exact root fun _ => none)), ← hsmooth, length_smoothFrom, length_drop, h.length]

/-- Smoothing warms up until its seed, and stays in the range of what is smoothed. -/
theorem Numbers.smoothed : Fills rows seed.toInt.toNat s fun o => smoothed (f o) n start seed := by
  by_cases hlen : (rows : Int) ≤ seed.toInt ∨ seed.toInt < start.toInt
  · have hf (o : ℚ → Option ℚ) : Series.smoothed (f o) n start seed = nulls rows := by
      rw [Series.smoothed, h.length, if_pos hlen]
    simp only [hf]
    exact fills_nulls (by omega)
  · obtain ⟨m, hm, rs, hcount, hrs, heq⟩ := h.smoothFrom (k := seed.toInt.toNat + 1) hstart hle hseed hs hn
      (by omega) (by omega)
    have hf (o : ℚ → Option ℚ) :
        Series.smoothed (f o) n start seed = nulls seed.toInt.toNat ++ (m :: rs).map num := by
      rw [Series.smoothed, h.length, if_neg hlen, (heq o).2, (heq o).1, List.map_cons]
    have hrows : rows = seed.toInt.toNat + (m :: rs).length := by
      rw [length_cons, hcount]
      omega
    simp only [hf]
    rw [hrows]
    exact fills_nulls_append (forall_mem_cons.mpr ⟨hm, hrs⟩)

end

end Smoothing

/-! ### Relative strength -/

theorem numbers_changes {g : ∀ o, Exact root o → Exact root o → Exact root o} {c : ℚ}
    (hc : c ∈ s) (hg : ∀ a b : ℚ, ∃ q ∈ s, ∀ o, g o (num a) (num b) = num q) (xs : List ℚ) :
    Numbers xs.length 0 s fun o => changes (num c) (g o) (xs.map num) where
  length o := by rw [length_changes, length_map]
  cells i _ hi := by
    have hcell (o : ℚ → Option ℚ) : (changes (num c) (g o) (xs.map num)).getD i null =
        if i = 0 then num c else g o (num xs[i]) (num (xs.getD (i - 1) 0)) := by
      rw [changes, getD_mapIdx _ (by simpa using hi), getElem_map, getD_num (by omega),
        getD_eq_getElem _ _ (by omega)]
    simp only [hcell]
    split
    · exact ⟨c, hc, fun _ => rfl⟩
    · exact hg _ _

theorem ite_num (c : Prop) [Decidable c] (a b : ℚ) :
    (if decide c then num a else num b : Exact root overZero) = num (if c then a else b) := by
  by_cases h : c <;> simp [h]

theorem numbers_gains (xs : List ℚ) :
    Numbers xs.length 0 (Set.Ici 0) fun o => gains (xs.map num : List (Exact root o)) := by
  simp only [gains_eq, ofInt_zero]
  refine numbers_changes Set.self_mem_Ici (fun a b => ⟨if 0 < a - b then a - b else 0, ?_, fun o => ?_⟩) xs
  · split <;> simp_all [le_of_lt]
  · rw [num_sub, lt_num, ite_num]

theorem numbers_losses (xs : List ℚ) :
    Numbers xs.length 0 (Set.Ici 0) fun o => losses (xs.map num : List (Exact root o)) := by
  simp only [losses_eq, ofInt_zero]
  refine numbers_changes Set.self_mem_Ici (fun a b => ⟨if 0 < a - b then 0 else -(a - b), ?_, fun o => ?_⟩) xs
  · split <;> simp_all
  · rw [num_sub, lt_num, num_neg, ite_num]

/-- A quotient, with a number in its place where the divisor is zero. -/
theorem quotient_num (a b c : ℚ) :
    (if same (num b : Exact root overZero) (num 0) then num c else num a / num b) =
      (num (if b = 0 then c else a / b) : Exact root overZero) := by
  rw [same_num]
  by_cases hb : b = 0
  · rw [if_pos (decide_eq_true hb), if_pos hb]
  · rw [if_neg (by simpa using hb), if_neg hb, num_div _ hb]

section Strength

variable {gain loss : ℚ} (hgain : 0 ≤ gain) (hloss : 0 ≤ loss)

include hgain hloss

theorem strength_eq : strength (num gain : Exact root overZero) (num loss) =
    num (if loss = 0 then 100 else 100 - 100 / (1 + gain / loss)) := by
  rw [strength, ofInt_zero, ofInt_hundred, ofInt_eq, same_num, Int.cast_one]
  split
  · next h => rw [if_pos (of_decide_eq_true h)]
  · next h =>
    have hne : loss ≠ 0 := by simpa using h
    have hsum : 1 + gain / loss ≠ 0 := (add_pos_of_pos_of_nonneg one_pos (div_nonneg hgain hloss)).ne'
    rw [if_neg hne, num_div _ hne, num_add, num_div _ hsum, num_sub]

/-- The strength of averages that are not negative is from 0 to 100. -/
theorem strength_mem : (if loss = 0 then 100 else 100 - 100 / (1 + gain / loss)) ∈ Set.Icc (0 : ℚ) 100 := by
  split
  · simp
  · have hone : 1 ≤ 1 + gain / loss := le_add_of_nonneg_right (div_nonneg hgain hloss)
    have hle : 100 / (1 + gain / loss) ≤ 100 := div_le_self (by norm_num) hone
    have hpos : 0 ≤ 100 / (1 + gain / loss) := by positivity
    exact ⟨by linarith, by linarith⟩

end Strength

section Strengths

variable {n : Int64} (hn : 0 < n.toInt) (hmax : n.toInt < 2 ^ 62)

include hn hmax

theorem toInt_succ : (n + 1).toInt = n.toInt + 1 := by
  rw [Int64.toInt_add, toInt_one, Int.bmod_eq_of_le] <;> omega

/-- The relative strength index warms up over `n + 1` rows. -/
theorem fills_strengths (xs : List ℚ) : Fills xs.length (n.toInt.toNat + 1) (Set.Icc 0 100)
    fun o => strengths (xs.map num : List (Exact root o)) n := by
  have hfirst := toInt_succ hn hmax
  have hrow : (n + 1).toInt.toNat = n.toInt.toNat + 1 := by omega
  by_cases hlen : (xs.length : Int) ≤ (n + 1).toInt
  · simp only [strengths, length_map, if_pos hlen]
    exact fills_nulls (by omega)
  · have hle : (1 : Int64).toInt ≤ n.toInt := by rw [toInt_one]; omega
    -- what follows the seed is not negative, since gains and losses are not
    have hsmooth {f : ∀ o, List (Exact root o)} (h : Numbers xs.length 0 (Set.Ici 0) f) :=
      (h.mono (Nat.zero_le _)).smoothFrom (k := n.toInt.toNat + 1) (by decide) hle (by omega) (convex_Ici 0) hn
        (by omega) (by rw [toInt_one]; omega)
    obtain ⟨_, _, gs, hgs, hgains, hg⟩ := hsmooth (numbers_gains xs)
    obtain ⟨_, _, ls, hls, hlosses, hl⟩ := hsmooth (numbers_losses xs)
    have hnumbers : Numbers (xs.length - (n.toInt.toNat + 1)) 0 (Set.Icc 0 100) fun o =>
        List.zipWith strength (gs.map num : List (Exact root o)) (ls.map num) := by
      refine ⟨fun o => by simp [hgs, hls], fun i _ hi => ?_⟩
      have hgain := hgains gs[i] (getElem_mem _)
      have hloss := hlosses ls[i] (getElem_mem _)
      refine ⟨_, strength_mem hgain hloss, fun o => ?_⟩
      rw [getD_eq_getElem _ _ (by simp; omega), getElem_zipWith, getElem_map, getElem_map, strength_eq hgain hloss]
    obtain ⟨qs, hqs, hcount, hmem⟩ := hnumbers.exists_eq
    have hf (o : ℚ → Option ℚ) :
        strengths (xs.map num : List (Exact root o)) n = nulls (n.toInt.toNat + 1) ++ qs.map num := by
      rw [strengths, length_map, if_neg hlen, hrow, (hg o).2, (hl o).2, hqs]
    have hrows : xs.length = n.toInt.toNat + 1 + qs.length := by omega
    simp only [hf]
    rw [hrows]
    exact fills_nulls_append hmem

end Strengths

/-! ### Directional index -/

section Bars

variable {high low close : List ℚ} {n : Int64}

theorem numbers_movements {g : ∀ o, Exact root o → Exact root o → Exact root o}
    (hg : ∀ a b : ℚ, ∃ q ∈ Set.Ici (0 : ℚ), ∀ o, g o (num a) (num b) = num q) (hlow : low.length = high.length) :
    Numbers high.length 0 (Set.Ici 0) fun o => movements (g o) (high.map num) (low.map num) where
  length o := by rw [length_movements, length_map]
  cells i _ hi := by
    have hcell (o : ℚ → Option ℚ) : (movements (g o) (high.map num) (low.map num)).getD i null =
        if i = 0 then num 0 else g o (num (high[i] - high[i - 1])) (num (low[i - 1] - low[i])) := by
      rw [movements, getD_mapIdx _ (by simpa using hi), getElem_map, getD_num (by omega), getD_num (by omega),
        getD_num (by omega), num_sub, num_sub, ofInt_zero]
    simp only [hcell]
    split
    · exact ⟨0, Set.self_mem_Ici, fun _ => rfl⟩
    · exact hg _ _

theorem rise_num (up down : ℚ) :
    ∃ q ∈ Set.Ici (0 : ℚ), ∀ o, rise (num up : Exact root o) (num down) = num q := by
  refine ⟨if down < up ∧ 0 < up then up else 0, ?_, fun o => ?_⟩
  · split <;> simp_all [le_of_lt]
  · rw [rise, ofInt_zero, lt_num, lt_num, ← Bool.decide_and, ite_num]

section

variable (hhigh : high.length = close.length) (hlow : low.length = close.length)

include hhigh hlow

/-- The range of a row is at least its distance from the close before; the first row has none. -/
theorem numbers_ranges : Numbers close.length 1 (Set.Ici 0) fun o =>
    ranges (high.map num) (low.map num) (close.map num : List (Exact root o)) where
  length o := by rw [length_ranges, length_map]
  cells i hfirst hi := by
    refine ⟨max (high[i] - low[i]) (max |high[i] - close[i - 1]| |low[i] - close[i - 1]|),
      Set.mem_Ici.mpr ((abs_nonneg _).trans ((le_max_left _ _).trans (le_max_right _ _))), fun o => ?_⟩
    rw [ranges, getD_mapIdx _ (by simpa using hi), if_neg (by omega), getD_num (by omega),
      getD_num (by omega), getD_num (by omega)]
    simp only [num_sub, abs_num, max_num]

end

/-- The distance of two numbers that are not negative is at most their sum. -/
theorem share_mem {p m : ℚ} (hp : 0 ≤ p) (hm : 0 ≤ m) : 100 * |p - m| / (p + m) ∈ Set.Icc (0 : ℚ) 100 := by
  have hshare : |p - m| ≤ p + m := abs_le.mpr ⟨by linarith, by linarith⟩
  refine ⟨by positivity, div_le_of_le_mul₀ (by positivity) (by norm_num) ?_⟩
  linarith

/-- Both parts of the range, and the share of their distance, are zero where they would be quotients by zero. -/
theorem directionIndex_num (plus minus range : ℚ) :
    directionIndex (num plus : Exact root overZero) (num minus) (num range) =
      num (100 * |100 * plus / range - 100 * minus / range| / (100 * plus / range + 100 * minus / range)) := by
  have hquotient (a b : ℚ) : (if b = 0 then 0 else a / b) = a / b := by
    split
    · next hb => rw [hb, div_zero]
    · rfl
  rw [directionIndex_eq, part, part, share, ofInt_zero, ofInt_hundred, num_mul, num_mul, quotient_num, quotient_num,
    num_add, num_sub, abs_num, num_mul, quotient_num, hquotient, hquotient, hquotient]

section

variable (hn : 0 < n.toInt) (hmax : n.toInt < 2 ^ 62) (hhigh : high.length = close.length)
  (hlow : low.length = close.length)

include hn hmax hhigh hlow

theorem fills_directions : Fills close.length n.toInt.toNat (Set.Icc 0 100) fun o =>
    directions (high.map num) (low.map num) (close.map num : List (Exact root o)) n where
  length o := by rw [directions, length_mapIdx, length_map]
  warmup o i hi hlt := by rw [directions, getD_mapIdx _ (by simpa using hlt), if_pos (by omega)]
  cells i hfirst hi := by
    have hle : (1 : Int64).toInt ≤ n.toInt := by rw [toInt_one]; omega
    have hsmooth {f : ∀ o, List (Exact root o)} (hf : Numbers close.length 1 (Set.Ici 0) f) :=
      (Numbers.smoothed (by decide) hle (by omega) (convex_Ici 0) hf hn).cells i hfirst hi
    have hmovements {g : ∀ o, Exact root o → Exact root o → Exact root o}
        (hg : ∀ a b : ℚ, ∃ q ∈ Set.Ici (0 : ℚ), ∀ o, g o (num a) (num b) = num q) :=
      hsmooth (hhigh ▸ (numbers_movements hg (hlow.trans hhigh.symm)).mono (Nat.zero_le 1))
    obtain ⟨plus, hplus, hup⟩ := hmovements rise_num
    obtain ⟨minus, hminus, hdown⟩ := hmovements (g := fun _ => fall) fun up down => rise_num down up
    obtain ⟨range, hrange, htr⟩ := hsmooth (numbers_ranges hhigh hlow)
    rw [Set.mem_Ici] at hplus hminus hrange
    refine ⟨_, share_mem (p := 100 * plus / range) (m := 100 * minus / range) (by positivity) (by positivity),
      fun o => ?_⟩
    rw [directions, getD_mapIdx _ (by simpa using hi), if_neg (by omega), hup, hdown, htr, directionIndex_num]

/-- The average directional index warms up over `2 n - 1` rows. -/
theorem fills_trend : Fills close.length (2 * n.toInt.toNat - 1) (Set.Icc 0 100) fun o =>
    trend (high.map num) (low.map num) (close.map num : List (Exact root o)) n := by
  have hdouble := toInt_two_mul hn hmax
  have hseed := toInt_sub_one (n := 2 * n) (by omega)
  have hrow : 2 * n.toInt.toNat - 1 = (2 * n - 1).toInt.toNat := by omega
  by_cases hlen : (close.length : Int) < (2 * n).toInt
  · simp only [trend, length_map, if_pos hlen]
    exact fills_nulls (by omega)
  · simp only [trend, length_map, if_neg hlen]
    rw [hrow]
    exact Numbers.smoothed hn.le (by omega) (by omega) (convex_Icc 0 100)
      (fills_directions hn hmax hhigh hlow).toNumbers hn

end

/-! ### Stochastic -/

/-- What a choice between two numbers keeps is below all the numbers it was made from, in the order of the
choice. -/
theorem foldl_choice {g : ∀ o, Exact root o → Exact root o → Exact root o} {op : ℚ → ℚ → ℚ}
    {r : ℚ → ℚ → Prop} [IsPreorder ℚ r] (hg : ∀ o a b, g o (num a) (num b) = num (op a b))
    (hleft : ∀ a b, r (op a b) a) (hright : ∀ a b, r (op a b) b) (a : ℚ) (qs : List ℚ) :
    ∃ m, (∀ o, (qs.map num).foldl (g o) (num a) = num m) ∧ ∀ q ∈ a :: qs, r m q := by
  induction qs generalizing a with
  | nil => exact ⟨a, fun _ => rfl, forall_mem_singleton.mpr (refl a)⟩
  | cons q qs ih =>
    obtain ⟨m, hfold, hm⟩ := ih (op a q)
    obtain ⟨hop, hqs⟩ := forall_mem_cons.mp hm
    refine ⟨m, fun o => by rw [List.map_cons, foldl_cons, hg, hfold], ?_⟩
    exact forall_mem_cons.mpr ⟨trans_of r hop (hleft a q),
      forall_mem_cons.mpr ⟨trans_of r hop (hright a q), hqs⟩⟩

theorem least_num {q : ℚ} (hq : q ∈ qs) :
    ∃ m, (∀ o, least (qs.map num : List (Exact root o)) = num m) ∧ m ≤ q := by
  obtain ⟨a, rest, rfl⟩ := exists_cons_of_ne_nil (ne_nil_of_mem hq)
  obtain ⟨m, hfold, hm⟩ := foldl_choice (r := (· ≤ ·)) (fun _ => min_num) min_le_left min_le_right a rest
  exact ⟨m, hfold, hm q hq⟩

theorem greatest_num {q : ℚ} (hq : q ∈ qs) :
    ∃ m, (∀ o, greatest (qs.map num : List (Exact root o)) = num m) ∧ q ≤ m := by
  obtain ⟨a, rest, rfl⟩ := exists_cons_of_ne_nil (ne_nil_of_mem hq)
  obtain ⟨m, hfold, hm⟩ := foldl_choice (r := (· ≥ ·)) (fun _ => max_num) le_max_left le_max_right a rest
  exact ⟨m, hfold, hm q hq⟩

theorem windowAt_map (xs : List ℚ) (w i : Nat) :
    windowAt (xs.map num : List (Exact root overZero)) w i = (windowAt xs w i).map num := by
  rw [windowAt, windowAt, map_take, map_drop]

section

variable (hn : 0 < n.toInt) (hhigh : high.length = close.length) (hlow : low.length = close.length)

include hn hhigh hlow

/-- The place of the close in its window, where it is in the set for all ranges that hold the row. -/
theorem fills_positions_of (hempty : 100 ∈ s)
    (hplace : ∀ i < close.length, ∀ bottom ≤ low.getD i 0, ∀ top ≥ high.getD i 0, top - bottom ≠ 0 →
      100 * (close.getD i 0 - bottom) / (top - bottom) ∈ s) : Fills close.length (n.toInt.toNat - 1) s fun o =>
      positions (high.map num) (low.map num) (close.map num : List (Exact root o)) n := by
  refine fills_rolling (fun _ => length_map _) fun i hi hfull => ?_
  have hrow {xs : List ℚ} (hxs : xs.length = close.length) : xs.getD i 0 ∈ windowAt xs n.toInt.toNat i :=
    (mem_windowAt_iff hfull (by omega) 0).mpr ⟨i, by omega, le_rfl, rfl⟩
  obtain ⟨bottom, hbottom, hle⟩ : ∃ m, (∀ o, least ((windowAt low n.toInt.toNat i).map num : List (Exact root o)) =
    num m) ∧ m ≤ low.getD i 0 := least_num (hrow hlow)
  obtain ⟨top, htop, hge⟩ : ∃ m, (∀ o, greatest ((windowAt high n.toInt.toNat i).map num : List (Exact root o)) =
    num m) ∧ high.getD i 0 ≤ m := greatest_num (hrow hhigh)
  refine ⟨if top - bottom = 0 then 100 else 100 * (close[i] - bottom) / (top - bottom), ?_, fun o => ?_⟩
  · split
    · exact hempty
    · next hne => simpa [hi] using hplace i hi bottom hle top hge hne
  · simp only [windowAt_map, hbottom, htop, getD_num hi, ofInt_zero, ofInt_hundred, num_sub, num_mul]
    exact quotient_num _ _ _

/-- The place of the close in its window is from 0 to 100 where it is in the range of its row. -/
theorem fills_positions
    (hbar : ∀ i < close.length, low.getD i 0 ≤ close.getD i 0 ∧ close.getD i 0 ≤ high.getD i 0) :
    Fills close.length (n.toInt.toNat - 1) (Set.Icc 0 100) fun o =>
      positions (high.map num) (low.map num) (close.map num : List (Exact root o)) n := by
  refine fills_positions_of hn hhigh hlow (by simp) fun i hi bottom hbottom top htop hne => ?_
  obtain ⟨habove, hbelow⟩ := hbar i hi
  refine ⟨div_nonneg (by linarith) (by linarith), ?_⟩
  rw [div_le_iff₀ (lt_of_le_of_ne (by linarith) hne.symm)]
  linarith

end

end Bars

/-! ### Oscillators -/

/-- Relative strength and directional index are from 0 to 100 from their first number on, whatever the bars, and
so are the stochastic and its average where each close is in the range of its row. -/
theorem oscillators_bounded {n : Int64} (hn : 0 < n.toInt) (hmax : n.toInt < 2 ^ 62) :
    (∀ xs : List ℚ, ∃ out : List (Exact root overZero),
      rsi? (xs.map num) n = some out ∧ out.length = xs.length ∧
        Filled (n.toInt.toNat + 1) (Set.Icc 0 100) out) ∧
    ∀ high low close : List ℚ, high.length = close.length → low.length = close.length →
      (∃ out : List (Exact root overZero),
        adx? (high.map num) (low.map num) (close.map num) n = some out ∧ out.length = close.length ∧
          Filled (2 * n.toInt.toNat - 1) (Set.Icc 0 100) out) ∧
      ((∀ i < close.length, low.getD i 0 ≤ close.getD i 0 ∧ close.getD i 0 ≤ high.getD i 0) →
        ∀ smooth : Int64, 0 < smooth.toInt → ∃ k d : List (Exact root overZero),
          stochastic? (high.map num) (low.map num) (close.map num) n smooth = some (k, d) ∧
            k.length = close.length ∧ d.length = close.length ∧
            Filled (n.toInt.toNat - 1) (Set.Icc 0 100) k ∧
            Filled (n.toInt.toNat + smooth.toInt.toNat - 2) (Set.Icc 0 100) d) := by
  refine ⟨fun xs => ?_, fun high low close hhigh hlow => ⟨?_, fun hbar smooth hsmooth => ?_⟩⟩
  · have hne : n ≠ Int64.maxValue := by
      rintro rfl
      exact absurd hmax (by decide)
    exact ⟨_, rsi?_eq hn hne _, by rw [length_strengths, List.length_map], (fills_strengths hn hmax xs).filled _⟩
  · exact ⟨_, adx?_eq hn (by simpa using hhigh) (by simpa using hlow),
      by rw [length_trend hn, List.length_map], (fills_trend hn hmax hhigh hlow).filled _⟩
  · have hk : Fills close.length (n.toInt.toNat - 1) (Set.Icc 0 100) fun o =>
        positions (high.map num) (low.map num) (close.map num : List (Exact root o)) n :=
      fills_positions hn hhigh hlow hbar
    have hd := hk.average (convex_Icc 0 100) hsmooth
    have hfirst : n.toInt.toNat - 1 + smooth.toInt.toNat - 1 = n.toInt.toNat + smooth.toInt.toNat - 2 := by omega
    rw [hfirst] at hd
    exact ⟨_, _, stochastic?_eq hn hsmooth (by simpa using hhigh) (by simpa using hlow), by simp, by simp,
      hk.filled _, hd.filled _⟩

/-- With windows of 2 rows, bars of four rows have relative strength and directional index on the last row, and
the stochastic on the last three. -/
theorem oscillators_bounded_four_rows :
    (∃ out : List (Exact id fun _ => none),
      rsi? ([2, 4, 3, 5].map num) 2 = some out ∧ out.length = 4 ∧ Filled 3 (Set.Icc 0 100) out) ∧
    (∃ out : List (Exact id fun _ => none),
      adx? ([3, 4, 6, 5].map num) ([1, 2, 3, 2].map num) ([2, 4, 3, 5].map num) 2 = some out ∧
        out.length = 4 ∧ Filled 3 (Set.Icc 0 100) out) ∧
    ∃ k d : List (Exact id fun _ => none),
      stochastic? ([3, 4, 6, 5].map num) ([1, 2, 3, 2].map num) ([2, 4, 3, 5].map num) 2 2 = some (k, d) ∧
        k.length = 4 ∧ d.length = 4 ∧ Filled 1 (Set.Icc 0 100) k ∧ Filled 2 (Set.Icc 0 100) d := by
  obtain ⟨hrsi, hbars⟩ := oscillators_bounded (n := 2) (by decide) (by decide)
  obtain ⟨hadx, hstochastic⟩ := hbars [3, 4, 6, 5] [1, 2, 3, 2] [2, 4, 3, 5] rfl rfl
  exact ⟨hrsi [2, 4, 3, 5], hadx, hstochastic (by decide) 2 (by decide)⟩

end Series

end Dataflow
