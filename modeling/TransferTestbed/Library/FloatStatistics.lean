import TransferTestbed.Library.Binary64Order
import TransferTestbed.Library.Statistics

/-!
# Statistics in binary64

What Python's `sum`, `statistics.median` and `statistics.stdev` compute on a list of
floats. The order statistics are entries of the list; a sum, a quotient and a root are
rounded. Until Python 3.11 `sum` rounds after each addition, since 3.12 it also carries
the sum of what the additions lost.

Results:

* `sum_eq_of_exact`: both sums are the exact one if no partial sum is rounded.
* `median_eq_fl`: the median is the rounding of the exact median.
* `stdev_nonneg`
-/

namespace TransferTestbed.FloatStatistics

open Binary64 Statistics

/-- The two ways in which `sum` adds floats. -/
inductive Summation
  | plain | compensated
  deriving DecidableEq, Repr

/-- An addition of the compensated sum, on the running sum and what was lost so far. -/
def compensate (acc : ℚ × ℚ) (x : ℚ) : ℚ × ℚ :=
  let (s, c) := acc
  let t := fl (s + x)
  let lost := if |x| ≤ |s| then fl (fl (s - t) + x) else fl (fl (x - t) + s)
  (t, fl (c + lost))

/-- `sum(values)`. -/
def sum : Summation → List ℚ → ℚ
  | .plain, xs => xs.foldl (fun s x => fl (s + x)) 0
  | .compensated, xs =>
    let (s, c) := xs.foldl compensate (0, 0)
    fl (s + c)

/-- The quotient that `sum(values) / len(values)` rounds. -/
def quotient (python : Summation) (xs : List ℚ) : ℚ := sum python xs / fl xs.length

/-- `sum(values) / len(values)`. -/
def mean (python : Summation) (xs : List ℚ) : ℚ := fl (quotient python xs)

/-- `statistics.median(values)`. -/
def median (xs : List ℚ) : ℚ :=
  let n := xs.length
  if n % 2 = 1 then (ordered xs).getD (n / 2) 0
  else fl (fl ((ordered xs).getD (n / 2 - 1) 0 + (ordered xs).getD (n / 2) 0) / 2)

/-- The square root of a fraction, as `statistics` computes it: to an integer of about 55
    bits, made odd unless it is exact, and from there to the nearest float. -/
def sqrt (q : ℚ) : ℚ :=
  let k : ℤ := ((q.num.natAbs.size : ℤ) - q.den.size - 109) / 2
  let scaled := q / 4 ^ k
  let root := Nat.sqrt ⌊scaled⌋.toNat
  let odd := if (root : ℚ) ^ 2 = scaled then root else root ||| 1
  fl (odd * 2 ^ k)

example : sqrt 4 = 2 ∧ sqrt 3 = 3900231685776981 / 2 ^ 51 := by decide +kernel

/-- `statistics.stdev(values)`; the variance under the root is exact. -/
def stdev (xs : List ℚ) : ℚ := sqrt (sampleVariance xs)

@[simp] theorem fl_mean (python : Summation) (xs : List ℚ) :
    fl (mean python xs) = mean python xs := fl_fl _

theorem sqrt_nonneg (q : ℚ) : 0 ≤ sqrt q := by
  apply fl_nonneg
  positivity

theorem stdev_nonneg (xs : List ℚ) : 0 ≤ stdev xs := sqrt_nonneg _

/-! ## Sums without rounding -/

/-- An addition that is not rounded loses nothing. -/
theorem compensate_of_exact {s x : ℚ} (hs : fl s = s) (hx : fl x = x)
    (hsum : fl (s + x) = s + x) : compensate (s, 0) x = (s + x, 0) := by
  have hleft : fl (fl (s - (s + x)) + x) = 0 := by
    rw [sub_add_cancel_left, fl_neg, hx, neg_add_cancel, fl_zero]
  have hright : fl (fl (x - (s + x)) + s) = 0 := by
    rw [sub_add_cancel_right, fl_neg, hs, neg_add_cancel, fl_zero]
  simp only [compensate, hsum, hleft, hright, ite_self, add_zero, fl_zero]

/-- The additions that remain, if those of `ys` have been done. -/
theorem foldl_of_exact {ys zs : List ℚ} (hx : ∀ x ∈ zs, fl x = x)
    (hsum : ∀ ts, ts <+: ys ++ zs → fl ts.sum = ts.sum) :
    zs.foldl (fun s x => fl (s + x)) ys.sum = (ys ++ zs).sum ∧
      zs.foldl compensate (ys.sum, 0) = ((ys ++ zs).sum, 0) := by
  induction zs generalizing ys with
  | nil => simp
  | cons x zs ih =>
    have happend : ys ++ x :: zs = (ys ++ [x]) ++ zs := by simp
    have hnext : (ys ++ [x]).sum = ys.sum + x := by simp
    have hround : fl (ys.sum + x) = ys.sum + x := by
      rw [← hnext]
      exact hsum _ (happend ▸ List.prefix_append _ _)
    rw [List.foldl_cons, List.foldl_cons, hround,
      compensate_of_exact (hsum _ (List.prefix_append _ _)) (hx x (by simp)) hround, ← hnext,
      happend]
    exact ih (fun z hz => hx z (by simp [hz])) (happend ▸ hsum)

/-- **Without rounding both sums are the exact one.** -/
theorem sum_eq_of_exact {xs : List ℚ} (python : Summation) (hx : ∀ x ∈ xs, fl x = x)
    (hsum : ∀ ts, ts <+: xs → fl ts.sum = ts.sum) : sum python xs = xs.sum := by
  obtain ⟨hplain, hcompensated⟩ := @foldl_of_exact [] xs hx hsum
  rw [List.nil_append, List.sum_nil] at hplain hcompensated
  cases python with
  | plain => exact hplain
  | compensated =>
    simp only [sum, hcompensated, add_zero]
    exact hsum xs (List.prefix_refl xs)

/-! ## The median -/

theorem fl_mul_two (q : ℚ) : fl (q * 2) = fl q * 2 := by
  have hscale {r : ℚ} (hr : 0 ≤ r) : fl (r * 2) = fl r * 2 := by
    have := fl_mul_zpow hr 1
    rwa [zpow_one] at this
  rcases le_total 0 q with hq | hq
  · exact hscale hq
  · have hneg := hscale (neg_nonneg.2 hq)
    rwa [neg_mul, fl_neg, fl_neg, neg_mul, neg_inj] at hneg

/-- **The median of floats is the exact median, rounded.** -/
theorem median_eq_fl {xs : List ℚ} (hx : ∀ x ∈ xs, fl x = x) :
    median xs = fl (Statistics.median xs) := by
  have hentry : ∀ k, fl ((ordered xs).getD k 0) = (ordered xs).getD k 0 := by
    intro k
    by_cases hk : k < (ordered xs).length
    · rw [List.getD_eq_getElem _ _ hk]
      exact hx _ ((ordered_perm xs).mem_iff.1 (List.getElem_mem hk))
    · rw [List.getD_eq_default _ _ (by omega), fl_zero]
  rw [median, Statistics.median]
  by_cases hodd : xs.length % 2 = 1
  · rw [if_pos hodd, if_pos hodd, hentry]
  · rw [if_neg hodd, if_neg hodd]
    generalize (ordered xs).getD (xs.length / 2 - 1) 0 + (ordered xs).getD (xs.length / 2) 0 = s
    -- halving is exact
    have hhalf : fl s = fl (s / 2) * 2 := by rw [← fl_mul_two, div_mul_cancel₀ _ two_ne_zero]
    rw [hhalf, mul_div_cancel_right₀ _ two_ne_zero, fl_fl]

end TransferTestbed.FloatStatistics
