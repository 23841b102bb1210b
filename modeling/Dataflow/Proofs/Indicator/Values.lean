import Dataflow.Graph.Branch
import Dataflow.Indicator
import Dataflow.Proofs.Series.Rows

/-!
# The columns of an indicator

Settings that pass their checks have windows of at least one row (`fits_of_params`), so that an
indicator computes all of its columns from columns of one length: `evaluate_eq`, with the columns
themselves in `series`.  The one exception is a strength index whose window ends at the last number a
row can have.
-/

namespace Dataflow.Indicator

open Series Outcome

variable {α : Type} {k : Indicator} {config : Row}

/-- The settings with another width of the bands, which may be a number of another kind. -/
def Params.withStd {β : Type} (p : Params β) (std : α) : Params α := { p with std }

/-- The windows have rows, and the row after the window of a strength index has a number. -/
def Params.Fits (k : Indicator) (p : Params α) : Prop :=
  match k with
  | sma | wma | bbands | cci | atr | adx => 0 < p.window.toInt
  | rsi => 0 < p.window.toInt ∧ p.window ≠ Int64.maxValue
  | stoch => 0 < p.window.toInt ∧ 0 < p.smooth.toInt
  | ema | macd | obv | vwap | other _ => True

/-! ### Settings that pass their checks -/

theorem require_eq_nil {cs : Checks} {holds : Bool} {field message : Text} :
    cs.require holds field message = [] ↔ cs = [] ∧ holds = true := by
  cases holds <;> simp [Checks.require]

theorem atLeast_eq_nil {cs : Checks} {field : Text} {n bound : Int} :
    cs.atLeast field n bound = [] ↔ cs = [] ∧ bound ≤ n := by
  simp [Checks.atLeast, require_eq_nil]

theorem checks_eq_nil_of_params {p : Params Float}
    (h : params k config = .ok p) : checks k p = [] := by
  obtain ⟨field, -, h⟩ := bind_eq_ok h
  obtain ⟨high, -, h⟩ := bind_eq_ok h
  obtain ⟨low, -, h⟩ := bind_eq_ok h
  obtain ⟨close, -, h⟩ := bind_eq_ok h
  obtain ⟨vol, -, h⟩ := bind_eq_ok h
  obtain ⟨price, -, h⟩ := bind_eq_ok h
  obtain ⟨⟨⟩, hchecks, h⟩ := bind_eq_ok h
  cases h
  simp only [Checks.result, Checks.failure?] at hchecks
  split at hchecks
  · cases hchecks
  · next hfailure =>
    split at hfailure
    · next hnil => exact List.isEmpty_iff.mp hnil
    · cases hfailure

/-- Settings that pass their checks fit, whatever the width of the bands. -/
theorem fits_of_params {p : Params Float} (h : params k config = .ok p)
    (hmax : k = rsi → p.window ≠ Int64.maxValue) (std : α) : (p.withStd std).Fits k := by
  have hchecks := checks_eq_nil_of_params h
  cases k with
  | ema | macd | obv | vwap | other => trivial
  | sma | wma | cci | atr | adx => exact (atLeast_eq_nil.mp hchecks).2
  | rsi => exact ⟨(atLeast_eq_nil.mp hchecks).2, hmax rfl⟩
  | bbands => exact (atLeast_eq_nil.mp (require_eq_nil.mp hchecks).1).2
  | stoch =>
    obtain ⟨hwindow, hsmooth⟩ := atLeast_eq_nil.mp hchecks
    exact ⟨(atLeast_eq_nil.mp hwindow).2, hsmooth⟩

theorem fits_of_params_of_lt {p : Params Float}
    (h : params k config = .ok p) (hwindow : p.window.toInt < 2 ^ 62) (std : α) :
    (p.withStd std).Fits k := by
  refine fits_of_params h (fun _ hmax => ?_) std
  rw [hmax] at hwindow
  exact absurd hwindow (by decide)

/-! ### The columns -/

variable [Arithmetic α]

def series (k : Indicator) (p : Params α) (column : Text → List α) : List (List α) :=
  let field := column p.field
  let high := column p.high
  let low := column p.low
  let close := column p.close
  match k with
  | sma => [average field p.window]
  | ema => [Series.ema field p.window]
  | wma => [weightedAverage field p.window]
  | rsi => [strengths field p.window]
  | macd =>
    let (line, signal, rest) := Series.macd field p.fast p.slow p.signal
    [line, signal, rest]
  | bbands => [average field p.window, band (· + ·) p.std field p.window,
      band (· - ·) p.std field p.window]
  | stoch => [positions high low close p.window,
      average (positions high low close p.window) p.smooth]
  | cci => [channel high low close p.window]
  | atr => [smoothed (ranges high low close) p.window 0 (p.window - 1)]
  | adx => [trend high low close p.window]
  | obv => [balances none (close.zip (column p.vol))]
  | vwap => [quotients (Arithmetic.ofInt 0) (Arithmetic.ofInt 0)
      ((priceColumn p column).zip (column p.vol))]
  | other _ => []

section Series

variable {p : Params α} {column : Text → List α} {n : Nat} (hcolumn : ∀ name, (column name).length = n)

include hcolumn

theorem length_priceColumn : (priceColumn p column).length = n := by
  simp [priceColumn, hcolumn]

/-- **No computation on columns of one length leaves their rows.** -/
theorem values?_eq (hp : p.Fits k) : values? k p column = some (series k p column) := by
  have hlength (a b : Text) : (column a).length = (column b).length := by rw [hcolumn, hcolumn]
  cases k with
  | sma => simp only [values?, sma?_eq hp]; rfl
  | ema | macd | other name => rfl
  | wma => simp only [values?, wma?_eq hp]; rfl
  | rsi => simp only [values?, rsi?_eq hp.1 hp.2]; rfl
  | bbands => simp only [values?, bollinger?_eq hp]; rfl
  | stoch =>
    simp only [values?, stochastic?_eq hp.1 hp.2 (hlength p.high p.close) (hlength p.low p.close)]
    rfl
  | cci => simp only [values?, cci?_eq hp (hlength p.high p.close) (hlength p.low p.close)]; rfl
  | atr => simp only [values?, atr?_eq (hlength p.high p.close) (hlength p.low p.close)]; rfl
  | adx => simp only [values?, adx?_eq hp (hlength p.high p.close) (hlength p.low p.close)]; rfl
  | obv => simp only [values?, obv?, balanceFrom?_eq none (hlength p.vol p.close)]; rfl
  | vwap =>
    have hvol : (column p.vol).length = (priceColumn p column).length := by
      rw [hcolumn, length_priceColumn hcolumn]
    simp only [values?, vwap?, averageFrom?_eq _ _ hvol]
    rfl

/-- Every column that is added has a row for every row. -/
theorem length_of_mem_series (hp : p.Fits k) {xs : List α}
    (hxs : xs ∈ series k p column) : xs.length = n := by
  cases k with
  | sma | ema | wma | bbands | stoch | cci | obv | vwap | macd =>
    simp only [series, Series.macd, List.mem_cons, List.not_mem_nil, or_false] at hxs
    rcases hxs with rfl | rfl | rfl <;>
      simp [weightedAverage, band, hcolumn, length_priceColumn hcolumn]
  | rsi =>
    obtain rfl := List.mem_singleton.mp hxs
    rw [length_strengths, hcolumn]
  | atr =>
    obtain rfl := List.mem_singleton.mp hxs
    rw [length_smoothed (by decide), length_ranges, hcolumn]
  | adx =>
    obtain rfl := List.mem_singleton.mp hxs
    rw [length_trend hp, hcolumn]
  | other name => simp [series] at hxs

end Series

theorem length_columns (k : Indicator) (p : Params α) (column : Text → List α) :
    (columns k p).length = (series k p column).length := by
  cases k <;> rfl

theorem evaluate_eq (hk : k ∈ all) {p : Params α} (hp : p.Fits k)
    {column : Text → List α} {n : Nat} (hcolumn : ∀ name, (column name).length = n) :
    evaluate k p column = .ok ((columns k p).zip (series k p column)) := by
  have hvalues := values?_eq hcolumn hp
  cases k with
  | other name => simp [all] at hk
  | _ => simp only [evaluate, hvalues]; rfl

end Dataflow.Indicator
