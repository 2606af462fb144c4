import Mathlib

/-!
# Rounding to binary64

`fl q` is the binary64 number nearest to the rational `q`, ties to even, for
results in the normal range (no overflow, no subnormals). The quotient of two
integers in Python is `fl` of the exact quotient.

* `fl_natCast_mul_zpow`: `m · 2^k` with `m ≤ 2^53` is its own rounding.
* `fl_pos`: a positive number does not round to zero.
* `fl_tie_down`: one half above an even 53-bit significand rounds down.
-/

namespace TransferTestbed.Binary64

/-- The nearest integer, ties to even. -/
def roundEven (q : ℚ) : ℤ :=
  let f := ⌊q⌋
  if q - f < 1 / 2 then f
  else if 1 / 2 < q - f then f + 1
  else if f % 2 = 0 then f else f + 1

/-- The exponent of the last place of a 53-bit significand of `q`. -/
def ulpExponent (q : ℚ) : ℤ := Int.log 2 |q| - 52

/-- The binary64 number nearest to `q`. -/
def fl (q : ℚ) : ℚ := (roundEven (q / 2 ^ ulpExponent q) : ℚ) * 2 ^ ulpExponent q

/-- Python's `a / b` on non-negative integers, `b ≠ 0`. -/
def trueDiv (a b : ℕ) : ℚ := fl ((a : ℚ) / b)

@[simp] theorem roundEven_intCast (z : ℤ) : roundEven z = z := by
  simp [roundEven]

theorem roundEven_add_half {z : ℤ} (hz : z % 2 = 0) : roundEven ((z : ℚ) + 1 / 2) = z := by
  have hf : ⌊(z : ℚ) + 1 / 2⌋ = z := by
    rw [Int.floor_eq_iff]
    constructor <;> linarith
  simp only [roundEven, hf, add_sub_cancel_left, lt_irrefl, if_false, hz, if_true]

theorem roundEven_neg (q : ℚ) : roundEven (-q) = -roundEven q := by
  by_cases hint : (⌊q⌋ : ℚ) = q
  · rw [← hint, ← Int.cast_neg, roundEven_intCast, roundEven_intCast]
  · have hlow := (Int.floor_le q).lt_of_ne hint
    have hhigh := Int.lt_floor_add_one q
    have hfloor : ⌊-q⌋ = -⌊q⌋ - 1 := by
      rw [Int.floor_eq_iff]
      push_cast
      constructor <;> linarith
    simp only [roundEven, hfloor]
    push_cast
    split_ifs <;> first | omega | (exfalso; linarith)

theorem fl_neg (q : ℚ) : fl (-q) = -fl q := by
  have hulp : ulpExponent (-q) = ulpExponent q := by rw [ulpExponent, ulpExponent, abs_neg]
  rw [fl, fl, hulp, neg_div, roundEven_neg]
  push_cast
  ring

theorem floor_le_roundEven (q : ℚ) : ⌊q⌋ ≤ roundEven q := by
  simp only [roundEven]
  split_ifs <;> omega

/-- A positive number does not round to zero. -/
theorem fl_pos {q : ℚ} (h : 0 < q) : 0 < fl q := by
  have hulp : (0 : ℚ) < 2 ^ ulpExponent q := by positivity
  have hscaled : (1 : ℚ) ≤ q / 2 ^ ulpExponent q := by
    have hlog : ((2 : ℕ) : ℚ) ^ Int.log 2 q ≤ q := Int.zpow_log_le_self (by norm_num) h
    have hle : (2 : ℚ) ^ ulpExponent q ≤ 2 ^ Int.log 2 q := by
      rw [ulpExponent, abs_of_pos h]
      exact zpow_le_zpow_right₀ (by norm_num) (by omega)
    rw [le_div_iff₀ hulp, one_mul]
    exact hle.trans (by exact_mod_cast hlog)
  have hround : 1 ≤ roundEven (q / 2 ^ ulpExponent q) :=
    (Int.le_floor.2 (by exact_mod_cast hscaled)).trans (floor_le_roundEven _)
  have hcast : (0 : ℚ) < (roundEven (q / 2 ^ ulpExponent q) : ℚ) := by
    exact_mod_cast Int.lt_of_lt_of_le Int.zero_lt_one hround
  exact mul_pos hcast hulp

theorem fl_of_scaled {q : ℚ} {z : ℤ} (h : q / 2 ^ ulpExponent q = z) : fl q = q := by
  have h2 : (2 : ℚ) ^ ulpExponent q ≠ 0 := zpow_ne_zero _ (by norm_num)
  rw [fl, h, roundEven_intCast, ← h, div_mul_cancel₀ _ h2]

theorem log_natCast_mul_zpow_le {m : ℕ} {k : ℤ} (hm : 0 < m) (hlt : m < 2 ^ 53) :
    Int.log 2 |(m : ℚ) * 2 ^ k| < 53 + k := by
  have hpos : (0 : ℚ) < m * 2 ^ k := by positivity
  rw [abs_of_pos hpos, ← Int.lt_zpow_iff_log_lt (by norm_num) hpos]
  have hmq : (m : ℚ) < 2 ^ (53 : ℤ) := by exact_mod_cast hlt
  rw [Nat.cast_ofNat, zpow_add₀ (by norm_num)]
  exact mul_lt_mul_of_pos_right hmq (by positivity)

/-- A significand of at most 53 bits is not rounded. -/
theorem fl_natCast_mul_zpow {m : ℕ} (h : m ≤ 2 ^ 53) (k : ℤ) :
    fl ((m : ℚ) * 2 ^ k) = (m : ℚ) * 2 ^ k := by
  have h2 : (2 : ℚ) ≠ 0 := by norm_num
  rcases Nat.eq_zero_or_pos m with rfl | hm
  · simp [fl, roundEven]
  rcases Nat.eq_or_lt_of_le h with rfl | hlt
  · have hval : (((2 ^ 53 : ℕ) : ℚ)) * 2 ^ k = 2 ^ (53 + k) := by
      rw [zpow_add₀ h2]; norm_num
    have hlog : ulpExponent ((2 : ℚ) ^ (53 + k)) = k + 1 := by
      rw [ulpExponent, abs_of_pos (by positivity)]
      have := Int.log_zpow (R := ℚ) (b := 2) (by norm_num) (53 + k)
      rw [Nat.cast_ofNat] at this
      omega
    rw [hval]
    apply fl_of_scaled (z := 2 ^ 52)
    rw [hlog, ← zpow_sub₀ h2, show 53 + k - (k + 1) = 52 by ring]
    norm_num
  · -- the last place is at most `2^k`, so the scaled number is an integer
    have hle : ulpExponent ((m : ℚ) * 2 ^ k) ≤ k := by
      have := log_natCast_mul_zpow_le (k := k) hm hlt
      rw [ulpExponent]; omega
    obtain ⟨d, hd⟩ : ∃ d : ℕ, k - ulpExponent ((m : ℚ) * 2 ^ k) = d :=
      ⟨_, (Int.toNat_of_nonneg (by omega)).symm⟩
    apply fl_of_scaled (z := m * 2 ^ d)
    rw [mul_div_assoc, ← zpow_sub₀ h2, hd, zpow_natCast]
    push_cast
    ring

/-- A tie at an even significand `2^52 ≤ z < 2^53` rounds down. -/
theorem fl_tie_down {z : ℕ} (h0 : 2 ^ 52 ≤ z) (h1 : z < 2 ^ 53) (heven : z % 2 = 0) (k : ℤ) :
    fl (((z : ℚ) + 1 / 2) * 2 ^ k) = z * 2 ^ k := by
  have h2 : (2 : ℚ) ≠ 0 := by norm_num
  have hpos : (0 : ℚ) < ((z : ℚ) + 1 / 2) * 2 ^ k := by positivity
  have hz0 : (2 : ℚ) ^ (52 : ℤ) ≤ z := by exact_mod_cast h0
  have hz1 : (z : ℚ) + 1 ≤ 2 ^ (53 : ℤ) := by exact_mod_cast h1
  have hlog : Int.log 2 (((z : ℚ) + 1 / 2) * 2 ^ k) = 52 + k := by
    apply le_antisymm
    · rw [← Int.lt_add_one_iff, ← Int.lt_zpow_iff_log_lt (by norm_num) hpos, Nat.cast_ofNat,
        show 52 + k + 1 = 53 + k by ring, zpow_add₀ h2]
      exact mul_lt_mul_of_pos_right (by linarith) (by positivity)
    · rw [← Int.zpow_le_iff_le_log (by norm_num) hpos, Nat.cast_ofNat, zpow_add₀ h2]
      exact mul_le_mul_of_nonneg_right (by linarith) (by positivity)
  have hulp : ulpExponent (((z : ℚ) + 1 / 2) * 2 ^ k) = k := by
    rw [ulpExponent, abs_of_pos hpos, hlog]; ring
  rw [fl, hulp, mul_div_assoc, div_self (zpow_ne_zero _ h2), mul_one]
  rw [show (z : ℚ) + 1 / 2 = ((z : ℤ) : ℚ) + 1 / 2 by push_cast; rfl,
    roundEven_add_half (by omega)]
  push_cast
  rfl

end TransferTestbed.Binary64
