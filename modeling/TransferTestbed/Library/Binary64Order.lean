import TransferTestbed.Library.Rounding

/-!
# Rounding to binary64 and the order

Rounding does not change the order of two numbers, commutes with scaling by a power
of two and leaves its own results alone: the general facts about significant places, at
base 2 and 53 places.

* `fl_eq_zero`: only zero rounds to zero.
* `fl_mono`: rounding keeps the order.
* `abs_fl_sub_le`: the relative error.
* `fl_mul_zpow`: scaling by a power of two.
* `fl_fl`: a rounded number is not rounded again.
* `le_fl_iff`, `fl_le_iff`: comparing a binary64 number with a rounding.
-/

namespace TransferTestbed.Binary64

open Rounding

theorem ulpExponent_eq_place (q : ℚ) : ulpExponent q = place 2 53 q := by
  simp only [ulpExponent, place]
  norm_num

theorem fl_eq_roundTo (q : ℚ) : fl q = roundTo 2 53 q := by
  rw [fl, roundTo, ulpExponent_eq_place, Nat.cast_ofNat]

@[simp] theorem fl_zero : fl 0 = 0 := by simp [fl, roundEven]

theorem fl_nonneg {q : ℚ} (h : 0 ≤ q) : 0 ≤ fl q := by
  rcases h.eq_or_lt with rfl | hpos
  · rw [fl_zero]
  · exact (fl_pos hpos).le

/-- No number but zero rounds to zero. -/
@[simp] theorem fl_eq_zero {q : ℚ} : fl q = 0 ↔ q = 0 := by
  constructor
  · intro h
    by_contra hne
    rcases lt_or_gt_of_ne hne with hneg | hpos
    · have := fl_pos (neg_pos.2 hneg)
      rw [fl_neg, h, neg_zero] at this
      exact lt_irrefl 0 this
    · exact (fl_pos hpos).ne' h
  · rintro rfl
    exact fl_zero

theorem fl_mono_of_nonneg {q r : ℚ} (h0 : 0 ≤ q) (h : q ≤ r) : fl q ≤ fl r := by
  rcases h0.eq_or_lt with rfl | hpos
  · rw [fl_zero]
    exact fl_nonneg h
  · rw [fl_eq_roundTo, fl_eq_roundTo]
    exact roundTo_mono (by norm_num) (by norm_num) hpos h

/-- **Rounding keeps the order.** -/
theorem fl_mono {q r : ℚ} (h : q ≤ r) : fl q ≤ fl r := by
  rcases le_total 0 q with hq | hq
  · exact fl_mono_of_nonneg hq h
  · rcases le_total 0 r with hr | hr
    · have hneg := fl_nonneg (neg_nonneg.2 hq)
      rw [fl_neg, neg_nonneg] at hneg
      exact hneg.trans (fl_nonneg hr)
    · have hneg := fl_mono_of_nonneg (neg_nonneg.2 hr) (neg_le_neg h)
      rwa [fl_neg, fl_neg, neg_le_neg_iff] at hneg

theorem fl_pos_iff {q : ℚ} : 0 < fl q ↔ 0 < q := by
  refine ⟨fun h => ?_, fl_pos⟩
  by_contra hneg
  exact absurd (fl_mono (not_lt.1 hneg)) (not_le.2 (fl_zero.symm ▸ h))

/-- The sign of a rounded number is that of the number. -/
theorem fl_nonneg_iff {q : ℚ} : 0 ≤ fl q ↔ 0 ≤ q := by
  rw [← not_lt, ← not_lt, ← neg_pos, ← fl_neg, fl_pos_iff, neg_pos]

/-- Rounding moves a non-negative number by at most its `2^53`-th part. -/
theorem abs_fl_sub_le {q : ℚ} (h : 0 ≤ q) : |fl q - q| ≤ q / 2 ^ 53 := by
  rcases h.eq_or_lt with rfl | hpos
  · simp
  · have herr := abs_roundTo_sub_le (b := 2) (p := 53) (by norm_num) (by norm_num) hpos
    rw [fl_eq_roundTo]
    norm_num at herr ⊢
    exact herr

/-- Scaling by a power of two. -/
theorem fl_mul_zpow {q : ℚ} (h : 0 ≤ q) (k : ℤ) : fl (q * 2 ^ k) = fl q * 2 ^ k := by
  rcases h.eq_or_lt with rfl | hpos
  · simp
  · have hscale := roundTo_mul_zpow (b := 2) (p := 53) (by norm_num) hpos k
    rw [fl_eq_roundTo, fl_eq_roundTo]
    exact_mod_cast hscale

/-- A positive binary64 number is a significand of 53 bits on its scale. -/
theorem exists_fl_eq {q : ℚ} (h : 0 < q) :
    ∃ m : ℕ, 2 ^ 52 ≤ m ∧ m ≤ 2 ^ 53 ∧ fl q = m * 2 ^ ulpExponent q := by
  obtain ⟨hlow, hhigh⟩ := roundEven_scaled_bounds (b := 2) (p := 53) (by norm_num) (by norm_num) h
  rw [← ulpExponent_eq_place, Nat.cast_ofNat] at hlow hhigh
  obtain ⟨m, hm⟩ := Int.eq_ofNat_of_zero_le ((Int.natCast_nonneg _).trans hlow)
  rw [hm] at hlow hhigh
  refine ⟨m, by exact_mod_cast hlow, by exact_mod_cast hhigh, ?_⟩
  rw [fl, hm]
  push_cast
  rfl

/-- A rounded number is not rounded again. -/
@[simp] theorem fl_fl (q : ℚ) : fl (fl q) = fl q := by
  have hpositive {r : ℚ} (hr : 0 < r) : fl (fl r) = fl r := by
    obtain ⟨m, -, hm, hval⟩ := exists_fl_eq hr
    rw [hval, fl_natCast_mul_zpow hm]
  rcases lt_trichotomy q 0 with hneg | rfl | hpos
  · have := hpositive (neg_pos.2 hneg)
    rwa [fl_neg, fl_neg, neg_inj] at this
  · rw [fl_zero, fl_zero]
  · exact hpositive hpos

/-- A binary64 number is at most what `q` rounds to iff it is at most `q`, or is the
    rounding of `q`. -/
theorem le_fl_iff {q x : ℚ} (hx : fl x = x) : x ≤ fl q ↔ x ≤ q ∨ fl q = x := by
  constructor
  · intro h
    rcases le_total x q with hle | hle
    · exact .inl hle
    · have hround := fl_mono hle
      rw [hx] at hround
      exact .inr (le_antisymm hround h)
  · rintro (hle | rfl)
    · rw [← hx]
      exact fl_mono hle
    · exact le_refl _

theorem fl_le_iff {q x : ℚ} (hx : fl x = x) : fl q ≤ x ↔ q ≤ x ∨ fl q = x := by
  constructor
  · intro h
    rcases le_total q x with hle | hle
    · exact .inl hle
    · have hround := fl_mono hle
      rw [hx] at hround
      exact .inr (le_antisymm h hround)
  · rintro (hle | rfl)
    · rw [← hx]
      exact fl_mono hle
    · exact le_refl _

/-- A number close enough to a binary64 number rounds to it. -/
theorem fl_of_abs_sub_lt {q x : ℚ} (hx : 0 < x) (hround : fl x = x)
    (h : |q - x| < x / 2 ^ 54) : fl q = x := by
  rw [fl_eq_roundTo] at hround ⊢
  refine roundTo_of_abs_sub_lt (by norm_num) (by norm_num) hx hround (h.trans_le (le_of_eq ?_))
  norm_num

end TransferTestbed.Binary64
