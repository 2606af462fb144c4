import TransferTestbed.Library.Binary64

/-!
# Rounding to significant places

`roundTo b p q` is the number of `p` significant places in base `b` nearest to `q`,
ties to even. Binary64 is base 2 with 53 places; the formats of a printed number are
base 10.

Results, for positive numbers:

* `roundTo_mono`: rounding keeps the order.
* `roundTo_add_le`: two different rounded numbers are a place apart.
* `abs_roundTo_sub_le`: the relative error.
* `roundTo_eq_iff`: which numbers round to a given one.
* `roundTo_mul_zpow`: scaling by a power of the base.
-/

namespace TransferTestbed.Rounding

open Binary64

/-! ## Nearest integers -/

theorem roundEven_le_floor_add_one (q : ℚ) : roundEven q ≤ ⌊q⌋ + 1 := by
  simp only [roundEven]
  split_ifs <;> omega

theorem roundEven_mono {q r : ℚ} (h : q ≤ r) : roundEven q ≤ roundEven r := by
  have hfloor : ⌊q⌋ ≤ ⌊r⌋ := Int.floor_le_floor h
  rcases hfloor.lt_or_eq with hlt | heq
  · have hq := roundEven_le_floor_add_one q
    have hr := floor_le_roundEven r
    omega
  · -- within one unit the fractional parts are ordered
    have hfrac : q - (⌊q⌋ : ℚ) ≤ r - (⌊r⌋ : ℚ) := by
      rw [heq]
      linarith
    simp only [roundEven]
    rw [heq] at hfrac ⊢
    split_ifs with h1 h2 h3 h4 h5 h6 h7
    all_goals first
      | omega
      | (exfalso; linarith)

theorem le_roundEven {z : ℤ} {q : ℚ} (h : (z : ℚ) ≤ q) : z ≤ roundEven q := by
  have := roundEven_mono h
  rwa [roundEven_intCast] at this

theorem roundEven_le {z : ℤ} {q : ℚ} (h : q ≤ z) : roundEven q ≤ z := by
  have := roundEven_mono h
  rwa [roundEven_intCast] at this

/-- Rounding to the nearest integer moves a number by at most one half. -/
theorem abs_roundEven_sub_le (q : ℚ) : |(roundEven q : ℚ) - q| ≤ 1 / 2 := by
  have h0 := Int.floor_le q
  have h1 := Int.lt_floor_add_one q
  simp only [roundEven]
  split_ifs with hlt hgt heven
  · rw [abs_le]
    constructor <;> linarith
  · push_cast
    rw [abs_le]
    constructor <;> linarith
  · rw [abs_le]
    constructor <;> linarith
  · push_cast
    rw [abs_le]
    constructor <;> linarith

theorem roundEven_eq_of_abs_lt {z : ℤ} {q : ℚ} (h : |q - z| < 1 / 2) : roundEven q = z := by
  have h0 := abs_lt.1 h
  have h1 := abs_le.1 (abs_roundEven_sub_le q)
  have hlow : ((z - 1 : ℤ) : ℚ) < roundEven q := by
    push_cast
    linarith
  have hhigh : (roundEven q : ℚ) < ((z + 1 : ℤ) : ℚ) := by
    push_cast
    linarith
  have hlow' : z - 1 < roundEven q := by exact_mod_cast hlow
  have hhigh' : roundEven q < z + 1 := by exact_mod_cast hhigh
  omega

theorem roundEven_sub_half {z : ℤ} (hz : z % 2 = 0) : roundEven ((z : ℚ) - 1 / 2) = z := by
  have hf : ⌊(z : ℚ) - 1 / 2⌋ = z - 1 := by
    rw [Int.floor_eq_iff]
    push_cast
    constructor <;> linarith
  have hfrac : (z : ℚ) - 1 / 2 - ((z - 1 : ℤ) : ℚ) = 1 / 2 := by
    push_cast
    ring
  have hodd : ¬ (z - 1) % 2 = 0 := by omega
  simp only [roundEven, hf, hfrac, lt_irrefl, if_false, hodd]
  omega

/-- A number rounds below an even integer iff it is more than one half below it. -/
theorem roundEven_lt_iff {z : ℤ} (hz : z % 2 = 0) {q : ℚ} :
    roundEven q < z ↔ q < (z : ℚ) - 1 / 2 := by
  constructor
  · intro h
    by_contra hle
    have := roundEven_mono (not_lt.1 hle)
    rw [roundEven_sub_half hz] at this
    omega
  · intro h
    have herr := (abs_le.1 (abs_roundEven_sub_le q)).2
    have : (roundEven q : ℚ) < z := by linarith
    exact_mod_cast this

/-! ## Significant places -/

/-- The exponent of the last of `p` significant places of `q` in base `b`. -/
def place (b p : ℕ) (q : ℚ) : ℤ := Int.log b |q| - (p - 1)

/-- `q` rounded to `p` significant places in base `b`. -/
def roundTo (b p : ℕ) (q : ℚ) : ℚ := (roundEven (q / b ^ place b p q) : ℚ) * b ^ place b p q

section

variable {b p : ℕ} (hb : 1 < b)

include hb

theorem base_pos (k : ℤ) : (0 : ℚ) < (b : ℚ) ^ k := by
  have : (0 : ℚ) < b := by exact_mod_cast Nat.lt_of_lt_of_le Nat.zero_lt_one hb.le
  exact zpow_pos this k

omit hb in
theorem place_mono {q r : ℚ} (h0 : 0 < q) (h : q ≤ r) : place b p q ≤ place b p r := by
  rw [place, place, abs_of_pos h0, abs_of_pos (h0.trans_le h)]
  have := Int.log_mono_right (b := b) h0 h
  omega

/-- The place of a number is determined by the powers of the base around it. -/
theorem place_eq_iff {q : ℚ} (h : 0 < q) {k : ℤ} :
    place b p q = k ↔ (b : ℚ) ^ (p - 1 + k) ≤ q ∧ q < (b : ℚ) ^ (p + k) := by
  rw [place, abs_of_pos h, Int.zpow_le_iff_le_log hb h, Int.lt_zpow_iff_log_lt hb h]
  omega

/-- A positive number on the scale of its own last place has `p` places. -/
theorem scaled_bounds (hp : 0 < p) {q : ℚ} (h : 0 < q) :
    ((b ^ (p - 1) : ℕ) : ℚ) ≤ q / b ^ place b p q ∧ q / b ^ place b p q < (b ^ p : ℕ) := by
  have hb0 : (b : ℚ) ≠ 0 := by exact_mod_cast (Nat.lt_of_lt_of_le Nat.zero_lt_one hb.le).ne'
  obtain ⟨hlow, hhigh⟩ := (place_eq_iff hb h).1 (rfl : place b p q = place b p q)
  rw [le_div_iff₀ (base_pos hb _), div_lt_iff₀ (base_pos hb _)]
  constructor
  · calc ((b ^ (p - 1) : ℕ) : ℚ) * b ^ place b p q
        = (b : ℚ) ^ ((p - 1 : ℕ) : ℤ) * b ^ place b p q := by rw [zpow_natCast]; push_cast; rfl
      _ = (b : ℚ) ^ (p - 1 + place b p q) := by
          rw [← zpow_add₀ hb0, Nat.cast_sub hp]
          rfl
      _ ≤ q := hlow
  · calc q < (b : ℚ) ^ (p + place b p q) := hhigh
      _ = (b ^ p : ℕ) * (b : ℚ) ^ place b p q := by
          rw [zpow_add₀ hb0, zpow_natCast]
          push_cast
          rfl

/-- The significand is rounded to `p` places, or to the power of the base after them. -/
theorem roundEven_scaled_bounds (hp : 0 < p) {q : ℚ} (h : 0 < q) :
    ((b ^ (p - 1) : ℕ) : ℤ) ≤ roundEven (q / b ^ place b p q) ∧
      roundEven (q / b ^ place b p q) ≤ ((b ^ p : ℕ) : ℤ) := by
  obtain ⟨hlow, hhigh⟩ := scaled_bounds hb hp h
  exact ⟨le_roundEven (by exact_mod_cast hlow), roundEven_le (by exact_mod_cast hhigh.le)⟩

theorem roundTo_bounds (hp : 0 < p) {q : ℚ} (h : 0 < q) :
    (b : ℚ) ^ (p - 1 + place b p q) ≤ roundTo b p q ∧
      roundTo b p q ≤ (b : ℚ) ^ (p + place b p q) := by
  have hb0 : (b : ℚ) ≠ 0 := by exact_mod_cast (Nat.lt_of_lt_of_le Nat.zero_lt_one hb.le).ne'
  obtain ⟨hlow, hhigh⟩ := roundEven_scaled_bounds hb hp h
  have hlow' : (b : ℚ) ^ ((p : ℤ) - 1) ≤ roundEven (q / b ^ place b p q) := by
    rw [show (p : ℤ) - 1 = ((p - 1 : ℕ) : ℤ) by omega, zpow_natCast]
    exact_mod_cast hlow
  have hhigh' : (roundEven (q / b ^ place b p q) : ℚ) ≤ (b : ℚ) ^ (p : ℤ) := by
    rw [zpow_natCast]
    exact_mod_cast hhigh
  rw [roundTo, zpow_add₀ hb0, zpow_add₀ hb0]
  exact ⟨mul_le_mul_of_nonneg_right hlow' (base_pos hb _).le,
    mul_le_mul_of_nonneg_right hhigh' (base_pos hb _).le⟩

theorem roundTo_pos (hp : 0 < p) {q : ℚ} (h : 0 < q) : 0 < roundTo b p q :=
  (base_pos hb _).trans_le (roundTo_bounds hb hp h).1

/-- **Rounding keeps the order** of positive numbers. -/
theorem roundTo_mono (hp : 0 < p) {q r : ℚ} (h0 : 0 < q) (h : q ≤ r) :
    roundTo b p q ≤ roundTo b p r := by
  have hr := h0.trans_le h
  rcases (place_mono h0 h : place b p q ≤ place b p r).lt_or_eq with hlt | heq
  · -- the power of the base between the two scales separates them
    calc roundTo b p q ≤ (b : ℚ) ^ (p + place b p q) := (roundTo_bounds hb hp h0).2
      _ ≤ (b : ℚ) ^ (p - 1 + place b p r) :=
          zpow_le_zpow_right₀ (by exact_mod_cast hb.le) (by omega)
      _ ≤ roundTo b p r := (roundTo_bounds hb hp hr).1
  · rw [roundTo, roundTo, ← heq]
    have hle := roundEven_mono (div_le_div_of_nonneg_right h (base_pos hb (place b p q)).le)
    exact mul_le_mul_of_nonneg_right (by exact_mod_cast hle) (base_pos hb _).le

/-- **Two different rounded numbers are a place apart.** -/
theorem roundTo_add_le (hp : 0 < p) {q r : ℚ} (hq : 0 < q) (hr : 0 < r)
    (h : roundTo b p q < roundTo b p r) :
    roundTo b p q + roundTo b p q / (b ^ p : ℕ) ≤ roundTo b p r := by
  have hb0 : (b : ℚ) ≠ 0 := by exact_mod_cast (Nat.lt_of_lt_of_le Nat.zero_lt_one hb.le).ne'
  have hbp : (0 : ℚ) < (b ^ p : ℕ) := by exact_mod_cast Nat.pow_pos (by omega)
  obtain ⟨hqlow, hqhigh⟩ := roundTo_bounds hb hp hq
  obtain ⟨-, hrhigh⟩ := roundTo_bounds hb hp hr
  have hulp := base_pos hb (place b p q)
  have hplace : place b p q ≤ place b p r := by
    by_contra hlt
    have : (b : ℚ) ^ (p + place b p r) ≤ b ^ (p - 1 + place b p q) :=
      zpow_le_zpow_right₀ (by exact_mod_cast hb.le) (by omega)
    linarith
  have hstep : roundTo b p q + b ^ place b p q ≤ roundTo b p r := by
    obtain ⟨n, hn⟩ := Int.le.dest hplace
    -- both numbers are multiples of the smaller place
    have hmultiple : roundTo b p r =
        ((roundEven (r / b ^ place b p r) * b ^ n : ℤ) : ℚ) * b ^ place b p q := by
      rw [roundTo, ← hn, zpow_add₀ hb0, zpow_natCast]
      push_cast
      ring
    rw [hmultiple, roundTo] at h ⊢
    have hint := lt_of_mul_lt_mul_right h hulp.le
    have hsucc : (roundEven (q / b ^ place b p q) : ℚ) + 1 ≤
        ((roundEven (r / b ^ place b p r) * b ^ n : ℤ) : ℚ) := by
      have : roundEven (q / b ^ place b p q) < roundEven (r / b ^ place b p r) * b ^ n := by
        exact_mod_cast hint
      exact_mod_cast this
    have := mul_le_mul_of_nonneg_right hsucc hulp.le
    linarith
  have hgap : roundTo b p q / (b ^ p : ℕ) ≤ b ^ place b p q := by
    rw [div_le_iff₀ hbp]
    rw [zpow_add₀ hb0, zpow_natCast] at hqhigh
    push_cast
    linarith
  linarith

/-- Rounding moves a number by at most one half of its last place. -/
theorem abs_roundTo_sub_le_place (q : ℚ) :
    |roundTo b p q - q| ≤ (b : ℚ) ^ place b p q / 2 := by
  have hulp := base_pos hb (place b p q)
  have hscale : roundTo b p q - q =
      ((roundEven (q / b ^ place b p q) : ℚ) - q / b ^ place b p q) * b ^ place b p q := by
    rw [sub_mul, div_mul_cancel₀ _ hulp.ne', roundTo]
  rw [hscale, abs_mul, abs_of_pos hulp]
  have := mul_le_mul_of_nonneg_right (abs_roundEven_sub_le (q / b ^ place b p q)) hulp.le
  linarith

/-- The relative error of rounding. -/
theorem abs_roundTo_sub_le (hp : 0 < p) {q : ℚ} (h : 0 < q) :
    |roundTo b p q - q| ≤ q / (2 * (b ^ (p - 1) : ℕ)) := by
  have hlow := (scaled_bounds hb hp h).1
  have hpow : (0 : ℚ) < (b ^ (p - 1) : ℕ) := by exact_mod_cast Nat.pow_pos (by omega)
  rw [le_div_iff₀ (base_pos hb _)] at hlow
  calc |roundTo b p q - q| ≤ (b : ℚ) ^ place b p q / 2 := abs_roundTo_sub_le_place hb q
    _ ≤ q / (2 * (b ^ (p - 1) : ℕ)) := by
        rw [le_div_iff₀ (by linarith)]
        linarith

/-- Scaling by a power of the base. -/
theorem roundTo_mul_zpow {q : ℚ} (h : 0 < q) (k : ℤ) :
    roundTo b p (q * b ^ k) = roundTo b p q * b ^ k := by
  have hb0 : (b : ℚ) ≠ 0 := by exact_mod_cast (Nat.lt_of_lt_of_le Nat.zero_lt_one hb.le).ne'
  have hplace : place b p (q * b ^ k) = place b p q + k := by
    rw [place_eq_iff hb (mul_pos h (base_pos hb k))]
    obtain ⟨hlow, hhigh⟩ := (place_eq_iff hb h).1 (rfl : place b p q = place b p q)
    rw [← add_assoc, ← add_assoc, zpow_add₀ hb0, zpow_add₀ hb0 (p + place b p q)]
    exact ⟨mul_le_mul_of_nonneg_right hlow (base_pos hb k).le,
      mul_lt_mul_of_pos_right hhigh (base_pos hb k)⟩
  rw [roundTo, roundTo, hplace, zpow_add₀ hb0, mul_div_mul_right _ _ (base_pos hb k).ne',
    mul_assoc]

theorem roundTo_eq_of_place {q : ℚ} {z k : ℤ} (hplace : place b p q = k)
    (h : |q - z * b ^ k| < (b : ℚ) ^ k / 2) : roundTo b p q = z * b ^ k := by
  have hulp := base_pos hb k
  have hscaled : |q / b ^ k - z| < 1 / 2 := by
    rw [← mul_lt_mul_iff_left₀ hulp, ← abs_of_pos hulp, ← abs_mul, abs_of_pos hulp, sub_mul,
      div_mul_cancel₀ _ hulp.ne']
    linarith
  rw [roundTo, hplace, roundEven_eq_of_abs_lt hscaled]

/-- **Which numbers round to `m * b ^ k`**, for a significand `m` strictly between the
    powers of the base: those less than half a place away, unless there is a tie. -/
theorem roundTo_eq_iff (hp : 0 < p) {q : ℚ} (h : 0 < q) {m : ℕ} {k : ℤ} (hlow : b ^ (p - 1) < m)
    (hhigh : m < b ^ p) (htie : |q - m * b ^ k| ≠ (b : ℚ) ^ k / 2) :
    roundTo b p q = m * b ^ k ↔ |q - m * b ^ k| < (b : ℚ) ^ k / 2 := by
  have hb0 : (b : ℚ) ≠ 0 := by exact_mod_cast (Nat.lt_of_lt_of_le Nat.zero_lt_one hb.le).ne'
  have hulp := base_pos hb k
  have hpow : (b : ℚ) ^ (p - 1 + k) + b ^ k ≤ m * b ^ k := by
    have hm : ((b ^ (p - 1) : ℕ) : ℚ) + 1 ≤ m := by exact_mod_cast hlow
    rw [zpow_add₀ hb0, show (p : ℤ) - 1 = ((p - 1 : ℕ) : ℤ) by omega, zpow_natCast]
    push_cast at hm
    have := mul_le_mul_of_nonneg_right hm hulp.le
    linarith
  have hpow' : m * b ^ k + (b : ℚ) ^ k ≤ (b : ℚ) ^ (p + k) := by
    have hm : (m : ℚ) + 1 ≤ ((b ^ p : ℕ) : ℚ) := by exact_mod_cast hhigh
    rw [zpow_add₀ hb0, zpow_natCast]
    push_cast at hm
    have := mul_le_mul_of_nonneg_right hm hulp.le
    linarith
  constructor
  · intro hround
    have hplace : place b p q = k := by
      obtain ⟨hge, hle⟩ := roundTo_bounds hb hp h
      rw [hround] at hge hle
      rcases lt_trichotomy (place b p q) k with hlt | heq | hgt
      · have : (b : ℚ) ^ (p + place b p q) ≤ b ^ (p - 1 + k) :=
          zpow_le_zpow_right₀ (by exact_mod_cast hb.le) (by omega)
        linarith
      · exact heq
      · have : (b : ℚ) ^ (p + k) ≤ b ^ (p - 1 + place b p q) :=
          zpow_le_zpow_right₀ (by exact_mod_cast hb.le) (by omega)
        linarith
    have herr := abs_roundTo_sub_le_place (p := p) hb q
    rw [hround, hplace, abs_sub_comm] at herr
    exact lt_of_le_of_ne herr htie
  · intro habs
    have habs' := abs_lt.1 habs
    have hplace : place b p q = k := by
      rw [place_eq_iff hb h]
      constructor <;> linarith
    exact roundTo_eq_of_place hb (z := m) hplace habs

/-- A number within half a place of a rounded one, in the same powers of the base. -/
theorem roundTo_of_same_place {q x : ℚ} {k : ℤ} (hround : roundTo b p x = x) (hx : 0 < x)
    (hk : place b p x = k) (hq : (b : ℚ) ^ (p - 1 + k) ≤ q)
    (h : |q - x| < (b : ℚ) ^ k / 2) : roundTo b p q = x := by
  have hb0 : (b : ℚ) ≠ 0 := by exact_mod_cast (Nat.lt_of_lt_of_le Nat.zero_lt_one hb.le).ne'
  have hulp := base_pos hb k
  obtain ⟨hxlow, hxhigh⟩ := (place_eq_iff hb hx).1 hk
  obtain ⟨z, hz⟩ : ∃ z : ℤ, x = z * b ^ k := ⟨roundEven (x / b ^ place b p x), by
    rw [← hk]
    exact hround.symm⟩
  have hpow : (b : ℚ) ^ (p + k) = ((b ^ p : ℕ) : ℤ) * b ^ k := by
    rw [zpow_add₀ hb0, zpow_natCast]
    push_cast
    rfl
  -- the significand is an integer below the next power of the base
  have hlt : z + 1 ≤ ((b ^ p : ℕ) : ℤ) := by
    rw [hz, hpow] at hxhigh
    have := lt_of_mul_lt_mul_right hxhigh hulp.le
    exact_mod_cast this
  have hnext : x + b ^ k ≤ (b : ℚ) ^ (p + k) := by
    have hcast : (z : ℚ) + 1 ≤ (((b ^ p : ℕ) : ℤ) : ℚ) := by exact_mod_cast hlt
    rw [hpow, hz]
    linarith [mul_le_mul_of_nonneg_right hcast hulp.le]
  have habs := abs_lt.1 h
  have hplace : place b p q = k := by
    rw [place_eq_iff hb ((base_pos hb _).trans_le hq)]
    exact ⟨hq, by linarith⟩
  rw [hz] at h ⊢
  exact roundTo_eq_of_place hb hplace h

/-- **A number close enough to a rounded one rounds to it.** Below a power of the base
    the places are finer, hence the factor `b ^ p`. -/
theorem roundTo_of_abs_sub_lt (hp : 0 < p) {q x : ℚ} (hx : 0 < x) (hround : roundTo b p x = x)
    (h : |q - x| < x / (2 * (b ^ p : ℕ))) : roundTo b p q = x := by
  have hb0 : (b : ℚ) ≠ 0 := by exact_mod_cast (Nat.lt_of_lt_of_le Nat.zero_lt_one hb.le).ne'
  obtain ⟨k, hk⟩ : ∃ k, place b p x = k := ⟨_, rfl⟩
  have hulp := base_pos hb k
  have hbp : (0 : ℚ) < (b ^ p : ℕ) := by exact_mod_cast Nat.pow_pos (by omega)
  obtain ⟨hxlow, hxhigh⟩ := (place_eq_iff hb hx).1 hk
  have hnear : |q - x| < (b : ℚ) ^ k / 2 := by
    refine h.trans ?_
    rw [zpow_add₀ hb0, zpow_natCast] at hxhigh
    rw [div_lt_iff₀ (by linarith)]
    push_cast
    linarith
  by_cases hq : (b : ℚ) ^ (p - 1 + k) ≤ q
  · exact roundTo_of_same_place hb hround hx hk hq hnear
  · -- only a power of the base has a neighbour on a finer scale that rounds up to it
    rw [not_le] at hq
    obtain ⟨z, hz⟩ : ∃ z : ℤ, x = z * b ^ k := ⟨roundEven (x / b ^ place b p x), by
      rw [← hk]
      exact hround.symm⟩
    have hlow : (b : ℚ) ^ (p - 1 + k) = ((b ^ (p - 1) : ℕ) : ℤ) * b ^ k := by
      rw [zpow_add₀ hb0, show (p : ℤ) - 1 = ((p - 1 : ℕ) : ℤ) by omega, zpow_natCast]
      push_cast
      rfl
    have hpower : x = (b : ℚ) ^ (p - 1 + k) := by
      refine le_antisymm ?_ hxlow
      have habs := abs_lt.1 hnear
      have hz1 : z < ((b ^ (p - 1) : ℕ) : ℤ) + 1 := by
        have hlt : (z : ℚ) * b ^ k < (((b ^ (p - 1) : ℕ) : ℤ) + 1) * b ^ k := by
          rw [← hz, add_mul, ← hlow]
          linarith
        have := lt_of_mul_lt_mul_right hlt hulp.le
        exact_mod_cast this
      have hcast : (z : ℚ) ≤ (((b ^ (p - 1) : ℕ) : ℤ) : ℚ) := by
        exact_mod_cast Int.lt_add_one_iff.1 hz1
      rw [hlow, hz]
      exact mul_le_mul_of_nonneg_right hcast hulp.le
    have hfine : x = ((b ^ p : ℕ) : ℤ) * (b : ℚ) ^ (k - 1) := by
      rw [hpower, show (p : ℤ) - 1 + k = p + (k - 1) by ring, zpow_add₀ hb0, zpow_natCast]
      push_cast
      rfl
    have herr : |q - x| < (b : ℚ) ^ (k - 1) / 2 := by
      refine h.trans_le (le_of_eq ?_)
      rw [div_eq_iff (by linarith), hfine]
      push_cast
      ring
    have hplace : place b p q = k - 1 := by
      have hhalf : (b : ℚ) ^ (p - 1 + (k - 1)) * 2 ≤ x := by
        rw [hpower, show (p : ℤ) - 1 + k = p - 1 + (k - 1) + 1 by ring, zpow_add_one₀ hb0]
        exact mul_le_mul_of_nonneg_left (by exact_mod_cast hb) (base_pos hb _).le
      have hsmall : (b : ℚ) ^ (k - 1) ≤ (b : ℚ) ^ (p - 1 + (k - 1)) :=
        zpow_le_zpow_right₀ (by exact_mod_cast hb.le) (by omega)
      have habs := abs_lt.1 herr
      have hpos := base_pos hb (k - 1)
      have hqlow : (b : ℚ) ^ (p - 1 + (k - 1)) ≤ q := by linarith
      rw [place_eq_iff hb ((base_pos hb _).trans_le hqlow)]
      exact ⟨hqlow, by rwa [show (p : ℤ) + (k - 1) = p - 1 + k by ring]⟩
    rw [hfine] at herr ⊢
    exact roundTo_eq_of_place hb hplace herr

end

end TransferTestbed.Rounding
