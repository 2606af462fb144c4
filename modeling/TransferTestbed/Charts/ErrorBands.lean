import TransferTestbed.Library.Dict
import TransferTestbed.Library.FloatStatistics

/-!
# The aggregate and its error band

`common/charts.py` plots one number for the repeat runs of a transfer (`_aggregate`)
and a band around it (`_error_bounds`). The two are computed independently, and
`_draw_bars` hands `y - low` and `high - y` to matplotlib as lengths.

The values are binary64 numbers, and every sum, quotient, root and difference is
rounded as in the source; `sum` depends on the version of the interpreter.

Results:

* `band_contains_iff`: for each choice of `--agg` and `--error`, exactly which lists of
  values have a band that contains the aggregate.
* `balanced_mean_minmax_of_exact`: the default options on numbers whose sums are not
  rounded.
* `bars_nonneg_iff`: the lengths of a whole group of bars.
-/

namespace TransferTestbed.Charts

open Binary64 FloatStatistics Rounding

/-! ## Model -/

/-- The choices of `--agg` (charts.py:520). -/
inductive Agg
  | mean | median | min | max
  deriving DecidableEq, Repr

/-- The choices of `--error` (charts.py:522). -/
inductive ErrorMode
  | none | minmax | std | q90
  deriving DecidableEq, Repr

section Bands

variable (python : Summation)

/-- `_aggregate(values, agg)` (charts.py:225-236). -/
def aggregate (values : List (Option ℚ)) (agg : Agg) : Option ℚ :=
  let values := values.reduceOption
  if values = [] then none
  else match agg with
    | .median => some (median values)
    | .min => values.min?
    | .max => values.max?
    | .mean => some (mean python values)

/-- `int(round(q * (n - 1)))` with a literal `q` (charts.py:249-250). -/
def quantileIndex (q : ℚ) (n : ℕ) : ℕ := (roundEven (fl (fl q * fl (n - 1 : ℕ)))).toNat

/-- `sd` (charts.py:246). -/
def deviation (values : List ℚ) : ℚ := if 1 < values.length then stdev values else 0

/-- `_error_bounds(values, error)` (charts.py:239-252). -/
def errorBounds (values : List (Option ℚ)) (error : ErrorMode) : Option ℚ × Option ℚ :=
  let values := values.reduceOption
  if values = [] ∨ error = .none then (none, none)
  else match error with
    | .std =>
      let mean := mean python values
      let sd := deviation values
      (some (fl (mean - sd)), some (fl (mean + sd)))
    | .q90 =>
      let ordered := Statistics.ordered values
      (ordered[quantileIndex (1 / 10) ordered.length]?,
        ordered[quantileIndex (9 / 10) ordered.length]?)
    | _ => (values.min?, values.max?)

/-- What one label adds to `ys`, `elo` and `ehi` (charts.py:377-387). -/
def bar (values : List (Option ℚ)) (agg : Agg) (error : ErrorMode) : ℚ × ℚ × ℚ :=
  match aggregate python values agg with
  | none => (0, 0, 0)
  | some y =>
    let (lo, hi) := errorBounds python values error
    (y, (lo.map fun lo => fl (y - lo)).getD 0, (hi.map fun hi => fl (hi - y)).getD 0)

/-- The heights and the `yerr` that `_draw_bars` passes to `ax.bar` for one series
    (charts.py:374-391). -/
def bars (data : Dict String (List (Option ℚ))) (labels : List String) (agg : Agg)
    (error : ErrorMode) : List ℚ × Option (List ℚ × List ℚ) :=
  let columns := labels.map fun label => bar python ((data.get? label).getD []) agg error
  (columns.map (·.1),
    if error = .none then none else some (columns.map (·.2.1), columns.map (·.2.2)))

/-! ## The property -/

/-- The band that is drawn around the plotted value contains it. -/
def Contains (values : List (Option ℚ)) (agg : Agg) (error : ErrorMode) : Prop :=
  ∃ y lo hi, aggregate python values agg = some y ∧
    errorBounds python values error = (some lo, some hi) ∧ lo ≤ y ∧ y ≤ hi

/-- Both lengths of a bar's error line are non-negative. -/
def NonnegLengths (values : List (Option ℚ)) (agg : Agg) (error : ErrorMode) : Prop :=
  0 ≤ (bar python values agg error).2.1 ∧ 0 ≤ (bar python values agg error).2.2

/-- The entries are floats. -/
def Floats (values : List ℚ) : Prop := ∀ x ∈ values, fl x = x

/-- At most `q`, or what `q` rounds to. -/
def AtMost (x q : ℚ) : Prop := x ≤ q ∨ fl q = x

/-- At least `q`, or what `q` rounds to. -/
def AtLeast (x q : ℚ) : Prop := q ≤ x ∨ fl q = x

instance (x q : ℚ) : Decidable (AtMost x q) := inferInstanceAs (Decidable (_ ∨ _))

instance (x q : ℚ) : Decidable (AtLeast x q) := inferInstanceAs (Decidable (_ ∨ _))

/-- Within one standard deviation of the mean. -/
def WithinDeviation (values : List ℚ) (y : ℚ) : Prop :=
  AtLeast y (mean python values - deviation values) ∧
    AtMost y (mean python values + deviation values)

instance (values : List ℚ) (y : ℚ) : Decidable (WithinDeviation python values y) :=
  inferInstanceAs (Decidable (_ ∧ _))

/-- Which lists of numbers have a band that contains the aggregate. The quotient of the
    rounded sum must not leave the values' range, or must round back to its end; an
    extreme value or the median must be within one standard deviation of the mean; a
    value lies between the quantiles if enough entries are on either side. -/
def Balanced (values : List ℚ) : Agg → ErrorMode → Prop
  | .mean, .minmax =>
      (∃ x ∈ values, AtMost x (quotient python values)) ∧
        ∃ x ∈ values, AtLeast x (quotient python values)
  | .median, .std => WithinDeviation python values (median values)
  | .min, .std =>
      ∀ m ∈ values, (∀ x ∈ values, m ≤ x) → WithinDeviation python values m
  | .max, .std =>
      ∀ m ∈ values, (∀ x ∈ values, x ≤ m) → WithinDeviation python values m
  | .mean, .q90 =>
      quantileIndex (1 / 10) values.length <
        values.countP (fun x => decide (AtMost x (quotient python values))) ∧
      values.length - 1 - quantileIndex (9 / 10) values.length <
        values.countP (fun x => decide (AtLeast x (quotient python values)))
  | .min, .q90 =>
      quantileIndex (1 / 10) values.length <
        values.countP (fun x => decide (∀ z ∈ values, x ≤ z))
  | .max, .q90 =>
      values.length - 1 - quantileIndex (9 / 10) values.length <
        values.countP (fun x => decide (∀ z ∈ values, z ≤ x))
  | _, _ => True

end Bands

/-! ## The quantiles' positions -/

/-- The product of the rounded factors is within two per cent of the exact one. -/
theorem abs_fl_mul_sub_le {q : ℚ} (h0 : 0 ≤ q) (h1 : q ≤ 1) (n : ℕ) :
    |fl (fl q * fl n) - q * n| ≤ n / 50 := by
  have hn : (0 : ℚ) ≤ n := Nat.cast_nonneg n
  have ha := abs_le.1 (abs_fl_sub_le h0)
  have hb := abs_fl_sub_le hn
  have ha0 : 0 ≤ fl q := fl_nonneg h0
  have ha2 : fl q ≤ 2 := by linarith
  have hb0 : 0 ≤ fl (n : ℚ) := fl_nonneg hn
  have hb2 : fl (n : ℚ) ≤ 2 * n := by linarith [(abs_le.1 hb).2]
  have hprod : fl q * fl n ≤ 4 * n := by
    calc fl q * fl n ≤ 2 * (2 * n) := mul_le_mul ha2 hb2 hb0 (by norm_num)
      _ = 4 * n := by ring
  have hround := abs_fl_sub_le (mul_nonneg ha0 hb0)
  have hleft : |fl q * (fl n - n)| ≤ 2 * (n / 2 ^ 53) := by
    rw [abs_mul, abs_of_nonneg ha0]
    exact mul_le_mul ha2 hb (abs_nonneg _) (by norm_num)
  have hright : |(fl q - q) * n| ≤ 1 / 2 ^ 53 * n := by
    rw [abs_mul, abs_of_nonneg hn]
    exact mul_le_mul_of_nonneg_right (abs_le.2 ⟨by linarith, by linarith⟩) hn
  calc |fl (fl q * fl n) - q * n|
      = |(fl (fl q * fl n) - fl q * fl n) + (fl q * (fl n - n) + (fl q - q) * n)| := by
        congr 1
        ring
    _ ≤ |fl (fl q * fl n) - fl q * fl n| + (|fl q * (fl n - n)| + |(fl q - q) * n|) :=
        (abs_add_le _ _).trans (add_le_add (le_refl _) (abs_add_le _ _))
    _ ≤ n / 50 := by linarith

theorem abs_roundEven_fl_mul_sub_le {q : ℚ} (h0 : 0 ≤ q) (h1 : q ≤ 1) (n : ℕ) :
    |(roundEven (fl (fl q * fl n)) : ℚ) - q * n| ≤ n / 50 + 1 / 2 := by
  have hround := abs_roundEven_sub_le (fl (fl q * fl n))
  have hprod := abs_fl_mul_sub_le h0 h1 n
  calc |(roundEven (fl (fl q * fl n)) : ℚ) - q * n|
      = |(fl (fl q * fl n) - q * n) + ((roundEven (fl (fl q * fl n)) : ℚ) - fl (fl q * fl n))| := by
        congr 1
        ring
    _ ≤ |fl (fl q * fl n) - q * n| + |(roundEven (fl (fl q * fl n)) : ℚ) - fl (fl q * fl n)| :=
        abs_add_le _ _
    _ ≤ n / 50 + 1 / 2 := add_le_add hprod hround

/-- The lower quantile is in the lower half. -/
theorem quantileIndex_tenth_le (n : ℕ) : quantileIndex (1 / 10) n ≤ (n - 1) / 2 := by
  have h := (abs_le.1 (abs_roundEven_fl_mul_sub_le (q := 1 / 10) (by norm_num) (by norm_num)
    (n - 1))).2
  rw [quantileIndex]
  generalize roundEven (fl (fl (1 / 10) * fl ((n - 1 : ℕ) : ℚ))) = r at *
  generalize n - 1 = k at *
  have hk : (0 : ℚ) ≤ k := Nat.cast_nonneg k
  have hr : 25 * r ≤ 3 * k + 12 := by
    have : (25 * r : ℚ) < 3 * k + 13 := by linarith
    have : 25 * r < 3 * k + 13 := by exact_mod_cast this
    omega
  omega

/-- The upper quantile is in the upper half. -/
theorem le_quantileIndex_nine_tenths {n : ℕ} (hn : 0 < n) :
    n / 2 ≤ quantileIndex (9 / 10) n ∧ quantileIndex (9 / 10) n < n := by
  have h := abs_le.1 (abs_roundEven_fl_mul_sub_le (q := 9 / 10) (by norm_num) (by norm_num)
    (n - 1))
  rw [quantileIndex]
  generalize roundEven (fl (fl (9 / 10) * fl ((n - 1 : ℕ) : ℚ))) = r at *
  obtain ⟨k, rfl⟩ : ∃ k, n = k + 1 := ⟨n - 1, by omega⟩
  rw [Nat.add_sub_cancel] at h
  have hk : (0 : ℚ) ≤ k := Nat.cast_nonneg k
  have hlow : 22 * (k : ℤ) - 13 < 25 * r := by
    have : (22 * k - 13 : ℚ) < 25 * r := by linarith
    exact_mod_cast this
  have hhigh : 50 * r ≤ 46 * k + 25 := by
    have : (50 * r : ℚ) ≤ 46 * k + 25 := by linarith
    exact_mod_cast this
  omega

/-! ## The extremes -/

theorem exists_min?_eq {xs : List ℚ} (h : xs ≠ []) :
    ∃ m, xs.min? = some m ∧ m ∈ xs ∧ ∀ x ∈ xs, m ≤ x := by
  obtain ⟨m, hm⟩ := Option.isSome_iff_exists.1 (List.isSome_min?_of_ne_nil h)
  exact ⟨m, hm, List.min?_eq_some_iff.1 hm⟩

theorem exists_max?_eq {xs : List ℚ} (h : xs ≠ []) :
    ∃ m, xs.max? = some m ∧ m ∈ xs ∧ ∀ x ∈ xs, x ≤ m := by
  obtain ⟨m, hm⟩ := Option.isSome_iff_exists.1 (List.isSome_max?_of_ne_nil h)
  exact ⟨m, hm, List.max?_eq_some_iff.1 hm⟩

/-! ## The positions of the quantiles -/

theorem quantileIndex_tenth_lt {xs : List ℚ} (h : xs ≠ []) :
    quantileIndex (1 / 10) xs.length < (Statistics.ordered xs).length := by
  have hpos := List.length_pos_iff.2 h
  have hle := quantileIndex_tenth_le xs.length
  rw [Statistics.length_ordered]
  omega

theorem quantileIndex_nine_tenths_lt {xs : List ℚ} (h : xs ≠ []) :
    quantileIndex (9 / 10) xs.length < (Statistics.ordered xs).length := by
  rw [Statistics.length_ordered]
  exact (le_quantileIndex_nine_tenths (List.length_pos_iff.2 h)).2

/-! ## Values on either side -/

/-- Nothing is below the smallest value, and the smallest values are those not above it. -/
theorem countP_least {xs : List ℚ} {m : ℚ} (hmem : m ∈ xs) (hmin : ∀ x ∈ xs, m ≤ x) :
    xs.countP (fun x => decide (m ≤ x)) = xs.length ∧
      xs.countP (fun x => decide (x ≤ m)) =
        xs.countP (fun x => decide (∀ z ∈ xs, x ≤ z)) := by
  constructor
  · rw [List.countP_eq_length]
    intro x hx
    exact decide_eq_true (hmin x hx)
  · congr 1
    funext x
    rw [decide_eq_decide]
    exact ⟨fun hx z hz => hx.trans (hmin z hz), fun hx => hx m hmem⟩

/-- Nothing is above the largest value, and the largest values are those not below it. -/
theorem countP_greatest {xs : List ℚ} {m : ℚ} (hmem : m ∈ xs) (hmax : ∀ x ∈ xs, x ≤ m) :
    xs.countP (fun x => decide (x ≤ m)) = xs.length ∧
      xs.countP (fun x => decide (m ≤ x)) =
        xs.countP (fun x => decide (∀ z ∈ xs, z ≤ x)) := by
  constructor
  · rw [List.countP_eq_length]
    intro x hx
    exact decide_eq_true (hmax x hx)
  · congr 1
    funext x
    rw [decide_eq_decide]
    exact ⟨fun hx z hz => (hmax z hz).trans hx, fun hx => hx m hmem⟩

/-- A float is on one side of a rounded number as it is of the number itself. -/
theorem countP_fl {xs : List ℚ} (hfloat : Floats xs) (q : ℚ) :
    xs.countP (fun x => decide (x ≤ fl q)) = xs.countP (fun x => decide (AtMost x q)) ∧
      xs.countP (fun x => decide (fl q ≤ x)) = xs.countP (fun x => decide (AtLeast x q)) := by
  constructor
  · apply List.countP_congr
    intro x hx
    rw [decide_eq_true_eq, decide_eq_true_eq]
    exact le_fl_iff (hfloat x hx)
  · apply List.countP_congr
    intro x hx
    rw [decide_eq_true_eq, decide_eq_true_eq]
    exact fl_le_iff (hfloat x hx)

/-! ## The band of each mode -/

section

variable (python : Summation) {values : List (Option ℚ)} (h : values.reduceOption ≠ [])
include h

theorem errorBounds_std :
    errorBounds python values .std =
      (some (fl (mean python values.reduceOption - deviation values.reduceOption)),
        some (fl (mean python values.reduceOption + deviation values.reduceOption))) := by
  have hcond : ¬ (values.reduceOption = [] ∨ ErrorMode.std = .none) := by simp [h]
  simp only [errorBounds]
  rw [if_neg hcond]

theorem errorBounds_minmax :
    errorBounds python values .minmax =
      (values.reduceOption.min?, values.reduceOption.max?) := by
  have hcond : ¬ (values.reduceOption = [] ∨ ErrorMode.minmax = .none) := by simp [h]
  simp only [errorBounds]
  rw [if_neg hcond]

theorem errorBounds_q90 {lo hi : ℕ} (hlo : lo = quantileIndex (1 / 10) values.reduceOption.length)
    (hhi : hi = quantileIndex (9 / 10) values.reduceOption.length)
    (hlo' : lo < (Statistics.ordered values.reduceOption).length)
    (hhi' : hi < (Statistics.ordered values.reduceOption).length) :
    errorBounds python values .q90 = (some (Statistics.ordered values.reduceOption)[lo],
      some (Statistics.ordered values.reduceOption)[hi]) := by
  have hcond : ¬ (values.reduceOption = [] ∨ ErrorMode.q90 = .none) := by simp [h]
  simp only [errorBounds]
  rw [if_neg hcond, Statistics.length_ordered, ← hlo, ← hhi, List.getElem?_eq_getElem hlo',
    List.getElem?_eq_getElem hhi']

/-! ## The aggregates -/

theorem aggregate_mean :
    aggregate python values .mean = some (mean python values.reduceOption) := by
  simp only [aggregate, if_neg h]

theorem aggregate_median : aggregate python values .median = some (median values.reduceOption) := by
  simp only [aggregate, if_neg h]

theorem exists_aggregate_min : ∃ m, aggregate python values .min = some m ∧
    m ∈ values.reduceOption ∧ ∀ x ∈ values.reduceOption, m ≤ x := by
  simp only [aggregate, if_neg h]
  exact exists_min?_eq h

theorem exists_aggregate_max : ∃ m, aggregate python values .max = some m ∧
    m ∈ values.reduceOption ∧ ∀ x ∈ values.reduceOption, x ≤ m := by
  simp only [aggregate, if_neg h]
  exact exists_max?_eq h

end

/-! ## Containment, mode by mode -/

theorem contains_of_bounds {python : Summation} {values : List (Option ℚ)} {agg : Agg}
    {error : ErrorMode} {y lo hi : ℚ} (hagg : aggregate python values agg = some y)
    (hband : errorBounds python values error = (some lo, some hi)) :
    Contains python values agg error ↔ lo ≤ y ∧ y ≤ hi := by
  constructor
  · rintro ⟨y', lo', hi', hagg', hband', hle⟩
    rw [hagg, Option.some.injEq] at hagg'
    rw [hband, Prod.mk.injEq, Option.some.injEq, Option.some.injEq] at hband'
    obtain ⟨rfl, rfl⟩ := hband'
    subst hagg'
    exact hle
  · intro hle
    exact ⟨y, lo, hi, hagg, hband, hle⟩

section

variable {python : Summation} {values : List (Option ℚ)} (h : values.reduceOption ≠ [])
include h

/-- With `std` a float is in the band iff it is within one standard deviation. -/
theorem contains_std_iff {agg : Agg} {y : ℚ} (hagg : aggregate python values agg = some y)
    (hy : fl y = y) :
    Contains python values agg .std ↔ WithinDeviation python values.reduceOption y := by
  rw [contains_of_bounds hagg (errorBounds_std _ h), fl_le_iff hy, le_fl_iff hy]
  rfl

/-- With `q90` the aggregate is in the band iff enough values are on either side. -/
theorem contains_q90_iff {agg : Agg} {y : ℚ} (hagg : aggregate python values agg = some y) :
    Contains python values agg .q90 ↔
      quantileIndex (1 / 10) values.reduceOption.length <
        values.reduceOption.countP (fun x => decide (x ≤ y)) ∧
      values.reduceOption.length - 1 - quantileIndex (9 / 10) values.reduceOption.length <
        values.reduceOption.countP (fun x => decide (y ≤ x)) := by
  have hlo := quantileIndex_tenth_lt h
  have hhi := quantileIndex_nine_tenths_lt h
  rw [contains_of_bounds hagg (errorBounds_q90 _ h rfl rfl hlo hhi), Statistics.ordered_le_iff hlo,
    Statistics.le_ordered_iff hhi]

/-- With `minmax` the aggregate is in the band iff it is between the extremes. -/
theorem contains_minmax_iff {agg : Agg} {y : ℚ} (hagg : aggregate python values agg = some y) :
    Contains python values agg .minmax ↔
      (∃ x ∈ values.reduceOption, x ≤ y) ∧ ∃ x ∈ values.reduceOption, y ≤ x := by
  obtain ⟨m, hm, hmem, hmin⟩ := exists_min?_eq h
  obtain ⟨M, hM, hMem, hmax⟩ := exists_max?_eq h
  have hband := errorBounds_minmax python h
  rw [hm, hM] at hband
  rw [contains_of_bounds hagg hband]
  constructor
  · rintro ⟨h0, h1⟩
    exact ⟨⟨m, hmem, h0⟩, M, hMem, h1⟩
  · rintro ⟨⟨x, hx, h0⟩, z, hz, h1⟩
    exact ⟨(hmin x hx).trans h0, h1.trans (hmax z hz)⟩

variable (hfloat : Floats values.reduceOption)
include hfloat

theorem contains_minmax (agg : Agg) :
    Contains python values agg .minmax ↔ Balanced python values.reduceOption agg .minmax := by
  match agg with
  | .mean =>
    rw [contains_minmax_iff h (aggregate_mean _ h)]
    apply and_congr
    · exact exists_congr fun x => and_congr_right fun hx => le_fl_iff (hfloat x hx)
    · exact exists_congr fun x => and_congr_right fun hx => fl_le_iff (hfloat x hx)
  | .median =>
    rw [contains_minmax_iff h (aggregate_median _ h), median_eq_fl hfloat]
    refine iff_of_true ⟨?_, ?_⟩ trivial
    · obtain ⟨x, hx, hle⟩ := Statistics.exists_le_median h
      exact ⟨x, hx, (le_fl_iff (hfloat x hx)).2 (.inl hle)⟩
    · obtain ⟨x, hx, hle⟩ := Statistics.exists_median_le h
      exact ⟨x, hx, (fl_le_iff (hfloat x hx)).2 (.inl hle)⟩
  | .min =>
    obtain ⟨m, hm, hmem, -⟩ := exists_aggregate_min python h
    rw [contains_minmax_iff h hm]
    exact iff_of_true ⟨⟨m, hmem, le_refl m⟩, m, hmem, le_refl m⟩ trivial
  | .max =>
    obtain ⟨M, hM, hMem, -⟩ := exists_aggregate_max python h
    rw [contains_minmax_iff h hM]
    exact iff_of_true ⟨⟨M, hMem, le_refl M⟩, M, hMem, le_refl M⟩ trivial

theorem contains_std (agg : Agg) :
    Contains python values agg .std ↔ Balanced python values.reduceOption agg .std := by
  match agg with
  | .mean =>
    have hsd : 0 ≤ deviation values.reduceOption := by
      rw [deviation]
      split_ifs
      · exact stdev_nonneg _
      · exact le_refl 0
    rw [contains_std_iff h (aggregate_mean _ h) (fl_mean _ _)]
    exact iff_of_true ⟨.inl (by linarith), .inl (by linarith)⟩ trivial
  | .median =>
    have hmedian : fl (median values.reduceOption) = median values.reduceOption := by
      rw [median_eq_fl hfloat, fl_fl]
    exact contains_std_iff h (aggregate_median _ h) hmedian
  | .min =>
    obtain ⟨m, hm, hmem, hmin⟩ := exists_aggregate_min python h
    rw [contains_std_iff h hm (hfloat m hmem)]
    constructor
    · intro hwithin m' hmem' hmin'
      rwa [le_antisymm (hmin' m hmem) (hmin m' hmem')]
    · intro hbal
      exact hbal m hmem hmin
  | .max =>
    obtain ⟨m, hm, hmem, hmax⟩ := exists_aggregate_max python h
    rw [contains_std_iff h hm (hfloat m hmem)]
    constructor
    · intro hwithin m' hmem' hmax'
      rwa [le_antisymm (hmax m' hmem') (hmax' m hmem)]
    · intro hbal
      exact hbal m hmem hmax

theorem contains_q90 (agg : Agg) :
    Contains python values agg .q90 ↔ Balanced python values.reduceOption agg .q90 := by
  have hpos := List.length_pos_iff.2 h
  have hlo := quantileIndex_tenth_lt h
  have hhi := quantileIndex_nine_tenths_lt h
  match agg with
  | .mean =>
    obtain ⟨hle, hge⟩ := countP_fl hfloat (quotient python values.reduceOption)
    rw [contains_q90_iff h (aggregate_mean _ h), mean, hle, hge]
    rfl
  | .median =>
    have hentry {k : ℕ} (hk : k < (Statistics.ordered values.reduceOption).length) :
        fl (Statistics.ordered values.reduceOption)[k] =
          (Statistics.ordered values.reduceOption)[k] :=
      hfloat _ ((Statistics.ordered_perm _).mem_iff.1 (List.getElem_mem hk))
    rw [contains_q90_iff h (aggregate_median _ h), ← Statistics.ordered_le_iff hlo,
      ← Statistics.le_ordered_iff hhi, median_eq_fl hfloat, le_fl_iff (hentry hlo),
      fl_le_iff (hentry hhi)]
    exact iff_of_true ⟨.inl (Statistics.ordered_le_median _ (quantileIndex_tenth_le _)),
      .inl (Statistics.median_le_ordered _ (le_quantileIndex_nine_tenths hpos).1)⟩ trivial
  | .min =>
    obtain ⟨m, hm, hmem, hmin⟩ := exists_aggregate_min python h
    obtain ⟨hall, hleast⟩ := countP_least hmem hmin
    rw [contains_q90_iff h hm, hall, hleast]
    simp only [Balanced, and_iff_left_iff_imp]
    omega
  | .max =>
    obtain ⟨m, hm, hmem, hmax⟩ := exists_aggregate_max python h
    obtain ⟨hall, hgreatest⟩ := countP_greatest hmem hmax
    have hlt : quantileIndex (1 / 10) values.reduceOption.length < values.reduceOption.length := by
      rwa [Statistics.length_ordered] at hlo
    rw [contains_q90_iff h hm, hall, hgreatest]
    simp only [Balanced, and_iff_right_iff_imp]
    omega

end

/-! ## The lengths -/

theorem exists_aggregate (python : Summation) {values : List (Option ℚ)}
    (h : values.reduceOption ≠ []) (agg : Agg) : ∃ y, aggregate python values agg = some y := by
  match agg with
  | .mean => exact ⟨_, aggregate_mean _ h⟩
  | .median => exact ⟨_, aggregate_median _ h⟩
  | .min =>
    obtain ⟨m, hm, -⟩ := exists_aggregate_min python h
    exact ⟨m, hm⟩
  | .max =>
    obtain ⟨m, hm, -⟩ := exists_aggregate_max python h
    exact ⟨m, hm⟩

theorem exists_errorBounds (python : Summation) {values : List (Option ℚ)}
    (h : values.reduceOption ≠ []) {error : ErrorMode} (he : error ≠ .none) :
    ∃ lo hi, errorBounds python values error = (some lo, some hi) := by
  match error with
  | .none => exact absurd rfl he
  | .std => exact ⟨_, _, errorBounds_std _ h⟩
  | .minmax =>
    obtain ⟨m, hm, -⟩ := exists_min?_eq h
    obtain ⟨M, hM, -⟩ := exists_max?_eq h
    exact ⟨m, M, by rw [errorBounds_minmax _ h, hm, hM]⟩
  | .q90 =>
    exact ⟨_, _, errorBounds_q90 _ h rfl rfl (quantileIndex_tenth_lt h)
      (quantileIndex_nine_tenths_lt h)⟩

/-- The lengths of the error line are those of the band on either side of the value. -/
theorem nonnegLengths_iff {python : Summation} {values : List (Option ℚ)}
    (h : values.reduceOption ≠ []) (agg : Agg) {error : ErrorMode} (he : error ≠ .none) :
    NonnegLengths python values agg error ↔ Contains python values agg error := by
  obtain ⟨y, hy⟩ := exists_aggregate python h agg
  obtain ⟨lo, hi, hband⟩ := exists_errorBounds python h he
  have hbar : bar python values agg error = (y, fl (y - lo), fl (hi - y)) := by
    simp only [bar, hy, hband]
    rfl
  rw [contains_of_bounds hy hband, NonnegLengths, hbar, fl_nonneg_iff, fl_nonneg_iff, sub_nonneg,
    sub_nonneg]

theorem contains_iff_balanced {python : Summation} {values : List (Option ℚ)}
    (h : values.reduceOption ≠ []) (hfloat : Floats values.reduceOption) (agg : Agg)
    {error : ErrorMode} (he : error ≠ .none) :
    Contains python values agg error ↔ Balanced python values.reduceOption agg error := by
  match error with
  | .none => exact absurd rfl he
  | .minmax => exact contains_minmax h hfloat agg
  | .std => exact contains_std h hfloat agg
  | .q90 => exact contains_q90 h hfloat agg

/-- **The default options on numbers whose sums are not rounded**, whichever way they
    are added: the mean is within the range of the values. -/
theorem balanced_mean_minmax_of_exact (python : Summation) {values : List ℚ} (h : values ≠ [])
    (hfloat : Floats values) (hsum : ∀ ts, ts <+: values → fl ts.sum = ts.sum)
    (hlen : fl values.length = values.length) : Balanced python values .mean .minmax := by
  have hquotient : quotient python values = Statistics.mean values := by
    rw [quotient, sum_eq_of_exact python hfloat hsum, hlen, Statistics.mean]
  obtain ⟨x, hx, hle⟩ := Statistics.exists_le_mean h
  obtain ⟨z, hz, hge⟩ := Statistics.exists_mean_le h
  rw [Balanced, hquotient]
  exact ⟨⟨x, hx, .inl hle⟩, z, hz, .inl hge⟩

/-- Counts, such as those of the retransmissions, with a total of at most `2^53`. -/
theorem balanced_counts (python : Summation) {counts : List ℕ} (h : counts ≠ [])
    (htotal : counts.sum ≤ 2 ^ 53) (hlen : counts.length ≤ 2 ^ 53) :
    Balanced python (counts.map fun k : ℕ => (k : ℚ)) .mean .minmax := by
  have hexact {k : ℕ} (hk : k ≤ 2 ^ 53) : fl (k : ℚ) = k := by
    have := fl_natCast_mul_zpow hk 0
    rwa [zpow_zero, mul_one] at this
  have hne : (counts.map fun k : ℕ => (k : ℚ)) ≠ [] := mt List.map_eq_nil_iff.1 h
  refine balanced_mean_minmax_of_exact python hne ?_ ?_ ?_
  · intro x hx
    obtain ⟨k, hk, rfl⟩ := List.mem_map.1 hx
    have hle : k ≤ counts.sum := List.le_sum_of_mem hk
    exact hexact (hle.trans htotal)
  · intro ts hts
    obtain ⟨ks, hks, rfl⟩ := List.prefix_map_iff.1 hts
    have hle : ks.sum ≤ counts.sum := hks.sublist.sum_le_sum fun k _ => Nat.zero_le k
    rw [← Nat.cast_list_sum]
    exact hexact (hle.trans htotal)
  · rw [List.length_map]
    exact hexact hlen

/-! ## A group of bars -/

theorem bar_of_empty {python : Summation} {values : List (Option ℚ)}
    (h : values.reduceOption = []) (agg : Agg) (error : ErrorMode) :
    bar python values agg error = (0, 0, 0) := by
  simp only [bar, aggregate, if_pos h]

/-- **No length of a group is negative iff the list of each label that has numbers is
    balanced.** -/
theorem bars_nonneg_iff (python : Summation) (data : Dict String (List (Option ℚ)))
    (labels : List String) (agg : Agg) (error : ErrorMode) {ys elo ehi : List ℚ}
    (hfloat : ∀ label ∈ labels, Floats ((data.get? label).getD []).reduceOption)
    (hbars : bars python data labels agg error = (ys, some (elo, ehi))) :
    (∀ len ∈ elo ++ ehi, 0 ≤ len) ↔
      ∀ label ∈ labels, ((data.get? label).getD []).reduceOption ≠ [] →
        Balanced python ((data.get? label).getD []).reduceOption agg error := by
  have he : error ≠ .none := by
    rintro rfl
    simp [bars] at hbars
  have hall : (∀ len ∈ elo ++ ehi, 0 ≤ len) ↔
      ∀ label ∈ labels, NonnegLengths python ((data.get? label).getD []) agg error := by
    simp only [bars, if_neg he, Prod.mk.injEq, Option.some.injEq] at hbars
    obtain ⟨-, rfl, rfl⟩ := hbars
    simp only [List.map_map, List.mem_append, List.mem_map, Function.comp, NonnegLengths]
    constructor
    · intro hlen label hl
      exact ⟨hlen _ (.inl ⟨label, hl, rfl⟩), hlen _ (.inr ⟨label, hl, rfl⟩)⟩
    · rintro hlen len (⟨label, hl, rfl⟩ | ⟨label, hl, rfl⟩)
      · exact (hlen label hl).1
      · exact (hlen label hl).2
  rw [hall]
  apply forall₂_congr
  intro label hlabel
  by_cases hne : ((data.get? label).getD []).reduceOption = []
  · rw [NonnegLengths, bar_of_empty hne]
    simp [hne]
  · rw [nonnegLengths_iff hne agg he, contains_iff_balanced hne (hfloat label hlabel) agg he]
    exact ⟨fun hbal _ => hbal, fun hbal => hbal hne⟩

end TransferTestbed.Charts
