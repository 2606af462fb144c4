import TransferTestbed.Charts.Collect

/-!
# One file, one category

The same transferred file is printed three times: the clients write `n / 2^20` as a
float, the LwM2M client writes it with six decimals, and the pcap analysis writes `n`.
The charts parse the three cells back, label the rows and filter them by
`--file-sizes` with a tolerance of 1e-6.

Results:

* `exists_separating`: a list of sizes that tells two different floats apart.
* `sixDecimals_iff`: when six decimals determine the size.
* `sameCategory_iff`: when the three rows get the same label and pass the same filters.
-/

namespace TransferTestbed.Charts

open Decimal Numeral Binary64 Rounding

/-! ## The rows -/

/-- `n / (1024 * 1024)`. -/
def sizeMb (n : ℕ) : ℚ := trueDiv n (1024 * 1024)

/-- The size as the LwM2M row gives it back. -/
def sixDecimals (x : ℚ) : ℚ := fl ((roundEven (x * 10 ^ 6) : ℚ) / 10 ^ 6)

/-- Rows that describe a file of `n` bytes: of a client (amqp_client.py:153), of the LwM2M
    client (lwm2m_client.py:170) and of the pcap analysis (pcap_analyzer.py:397). -/
structure RowsOf (n : ℕ) (client lwm2m pcap : Row) : Prop where
  client : cell client "file_size" = some (floatText (sizeMb n))
  lwm2m : cell lwm2m "file_size" = some (fixed 6 (sizeMb n))
  pcap : cell pcap "file_size_bytes" = some (String.ofList (intText n))

/-- Every three rows of a file of `n` bytes have one label, and every list of
    `--file-sizes` keeps all of them or none. -/
def SameCategory (n : ℕ) : Prop :=
  ∀ client lwm2m pcap, RowsOf n client lwm2m pcap →
    clientLabel lwm2m = clientLabel client ∧ pcapLabel pcap = clientLabel client ∧
      ∀ sizes : List ℚ, (∀ s ∈ sizes, fl s = s) →
        keepsSize sizes (sizeMbClient lwm2m) = keepsSize sizes (sizeMbClient client) ∧
          keepsSize sizes (sizeMbPcap pcap) = keepsSize sizes (sizeMbClient client)

/-- The distance of `15625 n` from the multiples of `2 ^ 14`; it is that of
    `10^6 n / 2^20` from the integers, times `2 ^ 14`. -/
def decimalDistance (n : ℕ) : ℕ := min (15625 * n % 2 ^ 14) (2 ^ 14 - 15625 * n % 2 ^ 14)

/-! ## Parsing the cells back -/

theorem sizeMb_eq (n : ℕ) : sizeMb n = fl ((n : ℚ) * 2 ^ (-20 : ℤ)) := by
  rw [sizeMb, trueDiv, div_eq_mul_inv]
  norm_num

theorem sizeMb_nonneg (n : ℕ) : 0 ≤ sizeMb n := by
  rw [sizeMb_eq]
  exact fl_nonneg (by positivity)

theorem fl_sizeMb (n : ℕ) : fl (sizeMb n) = sizeMb n := by
  rw [sizeMb_eq]
  exact fl_fl _

theorem sizeMbClient_of_client {n : ℕ} {row : Row}
    (h : cell row "file_size" = some (floatText (sizeMb n))) :
    sizeMbClient row = some (sizeMb n) := by
  obtain ⟨l, htext, hvalue⟩ := exists_floatText (sizeMb_nonneg n) (fl_sizeMb n)
  rw [sizeMbClient, h, toNumber_text l htext, hvalue]

theorem sizeMbClient_of_lwm2m {n : ℕ} {row : Row}
    (h : cell row "file_size" = some (fixed 6 (sizeMb n))) :
    sizeMbClient row = some (sixDecimals (sizeMb n)) := by
  obtain ⟨l, htext, hvalue⟩ := exists_fixed (d := 6) (by norm_num) (sizeMb_nonneg n)
  rw [sizeMbClient, h, toNumber_text l htext, hvalue, sixDecimals]

theorem toNumber_of_pcap {n : ℕ} {row : Row}
    (h : cell row "file_size_bytes" = some (String.ofList (intText n))) :
    toNumber (cell row "file_size_bytes") = some (fl n) := by
  obtain ⟨l, htext, hvalue⟩ := exists_natText n
  have htext' : l.text = (String.ofList (intText n)).toList := by
    rw [htext, String.toList_ofList, intText, if_neg (by omega), Int.natAbs_natCast]
  rw [h, toNumber_text l htext', hvalue]

/-- Dividing the rounded byte count rounds the same way. -/
theorem megabytes_fl (n : ℕ) : megabytes (fl n) = sizeMb n := by
  have hdiv : ∀ q : ℚ, q / 2 ^ 20 = q * 2 ^ (-20 : ℤ) := fun q => by
    rw [zpow_neg, div_eq_mul_inv]
    norm_num
  rw [megabytes, hdiv, ← fl_mul_zpow (Nat.cast_nonneg n), ← sizeMb_eq, fl_sizeMb]

theorem sizeMbPcap_of_pcap {n : ℕ} (hn : n ≠ 0) {row : Row}
    (h : cell row "file_size_bytes" = some (String.ofList (intText n))) :
    sizeMbPcap row = some (sizeMb n) := by
  have hne : fl (n : ℚ) ≠ 0 := (fl_pos (by exact_mod_cast Nat.pos_of_ne_zero hn)).ne'
  rw [sizeMbPcap, toNumber_of_pcap h, Option.bind_some, if_pos hne, megabytes_fl]

/-! ## Telling two sizes apart -/

/-- Two binary64 numbers that are multiples of the smaller one's last place. -/
theorem exists_multiples {a b : ℚ} (ha : 0 < a) (hfa : fl a = a) (hfb : fl b = b) (hab : a < b) :
    ∃ z d : ℕ, z ≤ 2 ^ 53 ∧ 0 < d ∧ a = z * 2 ^ ulpExponent a ∧
      b = a + d * 2 ^ ulpExponent a := by
  obtain ⟨z, -, hz, hza⟩ := exists_fl_eq ha
  obtain ⟨w, -, -, hwb⟩ := exists_fl_eq (ha.trans hab)
  rw [hfa] at hza
  rw [hfb] at hwb
  have hulp : (0 : ℚ) < 2 ^ ulpExponent a := by positivity
  have hmono : ulpExponent a ≤ ulpExponent b := by
    rw [ulpExponent_eq_place, ulpExponent_eq_place]
    exact place_mono ha hab.le
  obtain ⟨n, hn⟩ := Int.le.dest hmono
  have hb : b = ((w * 2 ^ n : ℕ) : ℚ) * 2 ^ ulpExponent a := by
    rw [hwb, ← hn, zpow_add₀ (by norm_num), zpow_natCast]
    push_cast
    ring
  have hlt : z < w * 2 ^ n := by
    have h := hab
    rw [hb] at h
    nth_rewrite 1 [hza] at h
    exact_mod_cast lt_of_mul_lt_mul_right h hulp.le
  refine ⟨z, w * 2 ^ n - z, hz, by omega, hza, ?_⟩
  rw [hb, Nat.cast_sub hlt.le, sub_mul, ← hza]
  ring

/-- The largest multiple of a unit below a bound. -/
theorem exists_multiple_lt {u t : ℚ} (hu : 0 < u) (ht : 0 < t) :
    ∃ k : ℕ, k * u < t ∧ t ≤ (k + 1) * u := by
  have hpos : 0 < ⌈t / u⌉₊ := Nat.ceil_pos.2 (div_pos ht hu)
  obtain ⟨k, hk⟩ := Nat.exists_eq_succ_of_ne_zero hpos.ne'
  refine ⟨k, ?_, ?_⟩
  · have : (k : ℚ) < t / u := by
      rw [← Nat.lt_ceil, hk]
      exact Nat.lt_succ_self k
    rwa [lt_div_iff₀ hu] at this
  · have := Nat.le_ceil (t / u)
    rw [hk, div_le_iff₀ hu] at this
    exact_mod_cast this

/-- **Two different floats are told apart by a third one**: it is closer than the
    tolerance to the smaller one only. -/
theorem exists_separating {a b t : ℚ} (ha : 2 ^ (-20 : ℤ) ≤ a) (hfa : fl a = a) (hfb : fl b = b)
    (hab : a < b) (ht : 0 < t) (hft : fl t = t) (htsmall : t ≤ 2 ^ (-19 : ℤ)) (htb : t ≤ b) :
    ∃ s, fl s = s ∧ |fl (a - s)| < t ∧ t ≤ |fl (b - s)| := by
  have hapos : 0 < a := lt_of_lt_of_le (by positivity) ha
  obtain ⟨z, d, hz, hd, hza, hdb⟩ := exists_multiples hapos hfa hfb hab
  have hplace : -72 ≤ ulpExponent a := by
    have hmono : place 2 53 (2 ^ (-20 : ℤ)) ≤ place 2 53 a := place_mono (by positivity) ha
    have hpower : place 2 53 (2 ^ (-20 : ℤ)) = -72 := by
      rw [place_eq_iff (by norm_num) (by positivity)]
      norm_num
    rw [ulpExponent_eq_place]
    omega
  generalize ulpExponent a = e at *
  have hu : (0 : ℚ) < 2 ^ e := by positivity
  obtain ⟨k, hklow, hkhigh⟩ := exists_multiple_lt hu ht
  have hk : k ≤ 2 ^ 53 := by
    have hfine : (2 : ℚ) ^ (-72 : ℤ) ≤ 2 ^ e := zpow_le_zpow_right₀ (by norm_num) hplace
    have hbound : (k : ℚ) * 2 ^ (-72 : ℤ) < 2 ^ (-19 : ℤ) :=
      (mul_le_mul_of_nonneg_left hfine (Nat.cast_nonneg k)).trans_lt (hklow.trans_le htsmall)
    have hsplit : (2 : ℚ) ^ (-19 : ℤ) = 2 ^ 53 * 2 ^ (-72 : ℤ) := by norm_num
    rw [hsplit] at hbound
    have hlt : (k : ℚ) < 2 ^ 53 := lt_of_mul_lt_mul_right hbound (by positivity)
    exact (by exact_mod_cast hlt : k < 2 ^ 53).le
  have hgap : a + 2 ^ e ≤ b := by
    have : (1 : ℚ) ≤ d := by exact_mod_cast hd
    rw [hdb]
    linarith [mul_le_mul_of_nonneg_right this hu.le]
  -- far enough below `a` that `b` is out of reach, or zero if `a` itself is small
  by_cases hkz : k ≤ z
  · have hleft : a - ((z - k : ℕ) : ℚ) * 2 ^ e = k * 2 ^ e := by
      rw [hza, Nat.cast_sub hkz]
      ring
    refine ⟨((z - k : ℕ) : ℚ) * 2 ^ e, fl_natCast_mul_zpow (by omega) e, ?_, ?_⟩
    · rwa [hleft, fl_natCast_mul_zpow hk, abs_of_nonneg (by positivity)]
    · have hright : t ≤ b - ((z - k : ℕ) : ℚ) * 2 ^ e := by linarith
      have hmono := fl_mono hright
      rw [hft] at hmono
      exact hmono.trans (le_abs_self _)
  · refine ⟨0, fl_zero, ?_, ?_⟩
    · have hcast : (z : ℚ) ≤ k := by exact_mod_cast (not_le.1 hkz).le
      rw [sub_zero, hfa, abs_of_pos hapos, hza]
      exact (mul_le_mul_of_nonneg_right hcast hu.le).trans_lt hklow
    · rwa [sub_zero, hfb, abs_of_pos (hapos.trans hab)]

/-! ## Six decimals -/

/-- The distance of a quotient from its rounding, by the remainder. -/
theorem abs_roundEven_div_sub {n m : ℕ} (hm : 0 < m) :
    |(roundEven ((n : ℚ) / m) : ℚ) - n / m| * m = (min (n % m) (m - n % m) : ℕ) := by
  have hmq : (0 : ℚ) < m := by exact_mod_cast hm
  have hmod : n % m < m := Nat.mod_lt n hm
  have hfloor : ⌊(n : ℚ) / m⌋ = ((n / m : ℕ) : ℤ) := by
    rw [← Int.natCast_floor_eq_floor (by positivity), Nat.floor_div_eq_div]
  have hdiv : (n : ℚ) / m = (n / m : ℕ) + (n % m : ℕ) / m := by
    have hsplit : (n : ℚ) = (n / m : ℕ) * m + (n % m : ℕ) := by
      exact_mod_cast (Nat.div_add_mod' n m).symm
    nth_rewrite 1 [hsplit]
    rw [add_div, mul_div_cancel_right₀ _ hmq.ne']
  have hlow := floor_le_roundEven ((n : ℚ) / m)
  have hhigh := roundEven_le_floor_add_one ((n : ℚ) / m)
  have herr := abs_roundEven_sub_le ((n : ℚ) / m)
  rw [hfloor] at hlow hhigh
  generalize roundEven ((n : ℚ) / m) = z at *
  rw [hdiv] at herr ⊢
  generalize n / m = q at *
  generalize n % m = r at *
  have hr : (0 : ℚ) ≤ (r : ℚ) / m := by positivity
  obtain rfl | rfl : z = (q : ℤ) ∨ z = (q : ℤ) + 1 := by omega
  · have hsub : (((q : ℤ) : ℚ) - (q + (r : ℚ) / m)) = -((r : ℚ) / m) := by
      rw [Int.cast_natCast]
      ring
    rw [hsub, abs_neg, abs_of_nonneg hr] at herr ⊢
    rw [div_le_iff₀ hmq] at herr
    have hhalf : 2 * r ≤ m := by
      have : (2 * r : ℚ) ≤ m := by linarith
      exact_mod_cast this
    rw [div_mul_cancel₀ _ hmq.ne', min_eq_left (by omega)]
  · have hsub : (((q : ℤ) + 1 : ℤ) : ℚ) - (q + (r : ℚ) / m) = 1 - (r : ℚ) / m := by
      rw [Int.cast_add, Int.cast_natCast, Int.cast_one]
      ring
    have hle : (r : ℚ) / m ≤ 1 := by
      rw [div_le_one hmq]
      exact_mod_cast hmod.le
    rw [hsub, abs_of_nonneg (sub_nonneg.2 hle)] at herr ⊢
    have hhalf : m ≤ 2 * r := by
      have h : (1 : ℚ) / 2 ≤ r / m := by linarith
      rw [le_div_iff₀ hmq] at h
      have : (m : ℚ) ≤ 2 * r := by linarith
      exact_mod_cast this
    rw [sub_mul, one_mul, div_mul_cancel₀ _ hmq.ne', min_eq_right (by omega),
      Nat.cast_sub hmod.le]

theorem decimalDistance_le (n : ℕ) : decimalDistance n ≤ 2 ^ 13 := by
  have : 15625 * n % 2 ^ 14 < 2 ^ 14 := Nat.mod_lt _ (by norm_num)
  rw [decimalDistance]
  omega

theorem decimalDistance_eq_zero_iff (n : ℕ) : decimalDistance n = 0 ↔ 2 ^ 14 ∣ n := by
  have hmod : 15625 * n % 2 ^ 14 < 2 ^ 14 := Nat.mod_lt _ (by norm_num)
  have hzero : decimalDistance n = 0 ↔ 15625 * n % 2 ^ 14 = 0 := by
    rw [decimalDistance]
    generalize 15625 * n % 2 ^ 14 = m at hmod ⊢
    omega
  rw [hzero, ← Nat.dvd_iff_mod_eq_zero]
  constructor
  · intro h
    exact Nat.Coprime.dvd_of_dvd_mul_left (by norm_num) h
  · intro h
    exact h.mul_left 15625

/-- The error of six decimals of the exact size. -/
theorem abs_sixDecimals_sub (n : ℕ) :
    |(roundEven ((n : ℚ) * 2 ^ (-20 : ℤ) * 10 ^ 6) : ℚ) / 10 ^ 6 - n * 2 ^ (-20 : ℤ)| *
      (2 ^ 14 * 10 ^ 6) = (decimalDistance n : ℚ) := by
  have h := abs_roundEven_div_sub (n := 15625 * n) (m := 2 ^ 14) (by norm_num)
  have hscale : (n : ℚ) * 2 ^ (-20 : ℤ) * 10 ^ 6 = ((15625 * n : ℕ) : ℚ) / (2 ^ 14 : ℕ) := by
    push_cast
    norm_num
    ring
  have hsub : (roundEven ((n : ℚ) * 2 ^ (-20 : ℤ) * 10 ^ 6) : ℚ) / 10 ^ 6 - n * 2 ^ (-20 : ℤ) =
      ((roundEven ((n : ℚ) * 2 ^ (-20 : ℤ) * 10 ^ 6) : ℚ) - n * 2 ^ (-20 : ℤ) * 10 ^ 6) /
        10 ^ 6 := by
    rw [sub_div, mul_div_cancel_right₀ _ (by norm_num)]
  rw [decimalDistance, ← h, hsub, hscale, abs_div, abs_of_pos (by norm_num : (0 : ℚ) < 10 ^ 6)]
  push_cast
  ring

/-- A byte count as a significand of 53 bits. -/
theorem exists_significand {n : ℕ} (hn : n ≠ 0) (hlt : n < 2 ^ 53) :
    ∃ m : ℕ, 2 ^ 52 ≤ m ∧ m < 2 ^ 53 ∧ (m = 2 ^ 52 → n = 2 ^ Nat.log 2 n) ∧
      (n : ℚ) * 2 ^ (-20 : ℤ) = m * 2 ^ ((Nat.log 2 n : ℤ) - 72) := by
  have hlow := Nat.pow_log_le_self 2 hn
  have hhigh := Nat.lt_pow_succ_log_self (b := 2) (by norm_num) n
  have hlog : Nat.log 2 n ≤ 52 := by
    have := (Nat.pow_lt_pow_iff_right (by norm_num)).1 (hlow.trans_lt hlt)
    omega
  generalize Nat.log 2 n = e at *
  obtain ⟨d, hd⟩ := Nat.le.dest hlog
  have hpow : (2 : ℕ) ^ 52 = 2 ^ e * 2 ^ d := by rw [← pow_add, hd]
  have hpos : 0 < 2 ^ d := by positivity
  refine ⟨n * 2 ^ d, ?_, ?_, ?_, ?_⟩
  · rw [hpow]
    exact Nat.mul_le_mul_right _ hlow
  · calc n * 2 ^ d < 2 ^ (e + 1) * 2 ^ d := Nat.mul_lt_mul_of_pos_right hhigh hpos
      _ = 2 ^ 52 * 2 := by rw [hpow]; ring
      _ = 2 ^ 53 := by norm_num
  · intro h
    rw [hpow] at h
    exact Nat.eq_of_mul_eq_mul_right hpos h
  · rw [show (e : ℤ) - 72 = -20 - d by omega, zpow_sub₀ (by norm_num), zpow_natCast]
    push_cast
    field_simp

theorem distance_scale (e : ℕ) :
    (2 : ℚ) ^ ((e : ℤ) - 72) / 2 * (2 ^ 14 * 10 ^ 6) * 2 ^ 53 = 15625 * 2 ^ e := by
  rw [zpow_sub₀ (by norm_num), zpow_natCast]
  norm_num
  ring

/-- The six-decimal number before it is read back. -/
theorem sixDecimals_pos {x : ℚ} (h : 2 ^ (-20 : ℤ) ≤ x) :
    0 < (roundEven (x * 10 ^ 6) : ℚ) / 10 ^ 6 := by
  have herr := (abs_le.1 (abs_roundEven_sub_le (x * 10 ^ 6))).1
  have hlow : (2 : ℚ) ^ (-20 : ℤ) * 10 ^ 6 ≤ x * 10 ^ 6 :=
    mul_le_mul_of_nonneg_right h (by norm_num)
  have hround : (0 : ℚ) < roundEven (x * 10 ^ 6) := by
    generalize ((roundEven (x * 10 ^ 6) : ℤ) : ℚ) = r at *
    norm_num at herr hlow
    linarith
  exact div_pos hround (by norm_num)

/-- Below `2 ^ 38` bytes the last place is too fine for an inexact six-decimal number. -/
theorem sixDecimals_ne {n : ℕ} (hn : n < 2 ^ 38) (hd : 0 < decimalDistance n) :
    fl ((roundEven ((n : ℚ) * 2 ^ (-20 : ℤ) * 10 ^ 6) : ℚ) / 10 ^ 6) ≠ n * 2 ^ (-20 : ℤ) := by
  intro heq
  have hdist := abs_sixDecimals_sub n
  have hone : (1 : ℚ) ≤ decimalDistance n := by exact_mod_cast hd
  have hround : 0 ≤ roundEven ((n : ℚ) * 2 ^ (-20 : ℤ) * 10 ^ 6) := le_roundEven (by
    push_cast
    positivity)
  have hnonneg : 0 ≤ (roundEven ((n : ℚ) * 2 ^ (-20 : ℤ) * 10 ^ 6) : ℚ) / 10 ^ 6 :=
    div_nonneg (by exact_mod_cast hround) (by norm_num)
  have herr := abs_fl_sub_le hnonneg
  have hnq : (n : ℚ) < 274877906944 := by exact_mod_cast hn
  rw [heq, abs_sub_comm] at herr
  have hupper := (abs_le.1 (le_refl |(roundEven ((n : ℚ) * 2 ^ (-20 : ℤ) * 10 ^ 6) : ℚ) / 10 ^ 6 -
    n * 2 ^ (-20 : ℤ)|)).2
  generalize (roundEven ((n : ℚ) * 2 ^ (-20 : ℤ) * 10 ^ 6) : ℚ) / 10 ^ 6 = q at *
  norm_num at hdist herr hupper
  linarith

theorem sixDecimals_iff_of_lt {n : ℕ} (hn : n ≠ 0) (hlt : n < 2 ^ 53) :
    sixDecimals (sizeMb n) = sizeMb n ↔
      decimalDistance n * 2 ^ 53 < 15625 * 2 ^ Nat.log 2 n := by
  obtain ⟨m, hmlow, hmhigh, hpower, hval⟩ := exists_significand hn hlt
  have hexact : sizeMb n = n * 2 ^ (-20 : ℤ) := by
    rw [sizeMb_eq, fl_natCast_mul_zpow hlt.le]
  have hdist := abs_sixDecimals_sub n
  have hlow : (2 : ℚ) ^ (-20 : ℤ) ≤ n * 2 ^ (-20 : ℤ) := by
    have : (1 : ℚ) ≤ n := by exact_mod_cast Nat.one_le_iff_ne_zero.2 hn
    exact le_mul_of_one_le_left (by positivity) this
  have hpos := sixDecimals_pos hlow
  have hlog : Nat.log 2 n < 53 := Nat.log_lt_of_lt_pow hn hlt
  rw [sixDecimals, hexact]
  rcases hmlow.eq_or_lt with heq | hmlt
  · -- a power of two: exact from `2 ^ 14` bytes on, inexact below
    have hn2 := hpower heq.symm
    by_cases h14 : 14 ≤ Nat.log 2 n
    · have hzero : decimalDistance n = 0 := by
        rw [decimalDistance_eq_zero_iff, hn2]
        exact Nat.pow_dvd_pow 2 h14
      have hsame : (roundEven ((n : ℚ) * 2 ^ (-20 : ℤ) * 10 ^ 6) : ℚ) / 10 ^ 6 =
          n * 2 ^ (-20 : ℤ) := by
        rw [hzero, Nat.cast_zero, mul_eq_zero, abs_eq_zero, sub_eq_zero] at hdist
        exact hdist.resolve_right (by norm_num)
      rw [hsame, fl_natCast_mul_zpow hlt.le, hzero]
      simp
    · have hodd : ¬ 2 ^ 14 ∣ n := by
        rw [hn2, Nat.pow_dvd_pow_iff_le_right (by norm_num)]
        omega
      have hdpos : 0 < decimalDistance n :=
        Nat.pos_of_ne_zero (mt (decimalDistance_eq_zero_iff n).1 hodd)
      have hsmall : 2 ^ Nat.log 2 n < 2 ^ 14 := Nat.pow_lt_pow_right (by norm_num) (by omega)
      apply iff_of_false (sixDecimals_ne (by omega) hdpos)
      omega
  · have hscale := distance_scale (Nat.log 2 n)
    have hexp : (2 : ℚ) ^ ((Nat.log 2 n : ℤ) - 72) = ((2 : ℕ) : ℚ) ^ ((Nat.log 2 n : ℤ) - 72) := by
      rw [Nat.cast_ofNat]
    rw [hval] at hdist hpos ⊢
    generalize (roundEven ((m : ℚ) * 2 ^ ((Nat.log 2 n : ℤ) - 72) * 10 ^ 6) : ℚ) / 10 ^ 6 = q at *
    have hiff : |q - m * 2 ^ ((Nat.log 2 n : ℤ) - 72)| < 2 ^ ((Nat.log 2 n : ℤ) - 72) / 2 ↔
        decimalDistance n * 2 ^ 53 < 15625 * 2 ^ Nat.log 2 n := by
      have hcast : (decimalDistance n * 2 ^ 53 : ℚ) < 15625 * 2 ^ Nat.log 2 n ↔
          decimalDistance n * 2 ^ 53 < 15625 * 2 ^ Nat.log 2 n := by exact_mod_cast Iff.rfl
      rw [← hcast, ← hdist, ← hscale, mul_lt_mul_iff_left₀ (by norm_num),
        mul_lt_mul_iff_left₀ (by norm_num)]
    have htie : |q - m * 2 ^ ((Nat.log 2 n : ℤ) - 72)| ≠ 2 ^ ((Nat.log 2 n : ℤ) - 72) / 2 := by
      intro heq
      rw [heq] at hdist
      rw [hdist] at hscale
      have hnat : decimalDistance n * 2 ^ 53 = 15625 * 2 ^ Nat.log 2 n := by exact_mod_cast hscale
      obtain ⟨d, hd⟩ := Nat.exists_eq_add_of_lt hlog
      rw [hd, show Nat.log 2 n + d + 1 = d + 1 + Nat.log 2 n by ring, pow_add 2 (d + 1),
        ← mul_assoc] at hnat
      have hodd := Nat.eq_of_mul_eq_mul_right (by positivity) hnat
      have htwo : 2 ∣ 15625 := ⟨decimalDistance n * 2 ^ d, by
        rw [← hodd]
        ring⟩
      omega
    rw [fl_eq_roundTo, ← hiff, hexp] at *
    exact roundTo_eq_iff (by norm_num) (by norm_num) hpos (by exact_mod_cast hmlt)
      (by exact_mod_cast hmhigh) htie

/-- From `2 ^ 53` bytes on the last place is at least `2 ^ (-19)`, and six decimals
    always suffice. -/
theorem sixDecimals_of_le {n : ℕ} (hle : 2 ^ 53 ≤ n) : sixDecimals (sizeMb n) = sizeMb n := by
  have hnq : (2 : ℚ) ^ (33 : ℤ) ≤ n * 2 ^ (-20 : ℤ) := by
    have hcast : (2 : ℚ) ^ 53 ≤ n := by exact_mod_cast hle
    calc (2 : ℚ) ^ (33 : ℤ) = 2 ^ 53 * 2 ^ (-20 : ℤ) := by norm_num
      _ ≤ n * 2 ^ (-20 : ℤ) := mul_le_mul_of_nonneg_right hcast (by positivity)
  have hpos : (0 : ℚ) < n * 2 ^ (-20 : ℤ) := lt_of_lt_of_le (by positivity) hnq
  obtain ⟨m, hmlow, hmhigh, hval⟩ := exists_fl_eq hpos
  have hplace : -19 ≤ ulpExponent ((n : ℚ) * 2 ^ (-20 : ℤ)) := by
    have hmono : place 2 53 (2 ^ (33 : ℤ)) ≤ place 2 53 (n * 2 ^ (-20 : ℤ)) :=
      place_mono (by positivity) hnq
    have hpower : place 2 53 (2 ^ (33 : ℤ)) = -19 := by
      rw [place_eq_iff (by norm_num) (by positivity)]
      norm_num
    rw [ulpExponent_eq_place]
    omega
  generalize ulpExponent ((n : ℚ) * 2 ^ (-20 : ℤ)) = k at *
  rw [sixDecimals, sizeMb_eq, hval]
  have hfine : (2 : ℚ) ^ (-19 : ℤ) ≤ 2 ^ k := zpow_le_zpow_right₀ (by norm_num) hplace
  have hmlowq : (2 : ℚ) ^ 52 ≤ m := by exact_mod_cast hmlow
  have hxlow : (2 : ℚ) ^ (-20 : ℤ) ≤ m * 2 ^ k := by
    calc (2 : ℚ) ^ (-20 : ℤ) ≤ 2 ^ 52 * 2 ^ (-19 : ℤ) := by norm_num
      _ ≤ m * 2 ^ k := mul_le_mul hmlowq hfine (by positivity) (by positivity)
  have hqpos := sixDecimals_pos hxlow
  have herr : |(roundEven ((m : ℚ) * 2 ^ k * 10 ^ 6) : ℚ) / 10 ^ 6 - m * 2 ^ k| <
      (2 : ℚ) ^ k / 2 := by
    have h := abs_roundEven_sub_le ((m : ℚ) * 2 ^ k * 10 ^ 6)
    have hsub : (roundEven ((m : ℚ) * 2 ^ k * 10 ^ 6) : ℚ) / 10 ^ 6 - m * 2 ^ k =
        ((roundEven ((m : ℚ) * 2 ^ k * 10 ^ 6) : ℚ) - m * 2 ^ k * 10 ^ 6) / 10 ^ 6 := by
      rw [sub_div, mul_div_cancel_right₀ _ (by norm_num)]
    rw [hsub, abs_div, abs_of_pos (by norm_num : (0 : ℚ) < 10 ^ 6), div_lt_iff₀ (by norm_num)]
    norm_num at h hfine ⊢
    linarith
  have hwhole : (∃ j : ℕ, (m : ℚ) * 2 ^ k = 2 ^ j) →
      fl ((roundEven ((m : ℚ) * 2 ^ k * 10 ^ 6) : ℚ) / 10 ^ 6) = m * 2 ^ k := by
    rintro ⟨j, hj⟩
    have hint : (m : ℚ) * 2 ^ k * 10 ^ 6 = ((2 ^ j * 10 ^ 6 : ℤ) : ℚ) := by
      rw [hj]
      push_cast
      rfl
    rw [hint, roundEven_intCast, ← hint, mul_div_cancel_right₀ _ (by norm_num),
      fl_natCast_mul_zpow hmhigh]
  rcases hmlow.eq_or_lt with heq | hmlt
  · refine hwhole ⟨(52 + k).toNat, ?_⟩
    rw [← heq, ← zpow_natCast, Int.toNat_of_nonneg (by omega), zpow_add₀ (by norm_num)]
    norm_num
  · rcases hmhigh.eq_or_lt with heq | hmgt
    · refine hwhole ⟨(53 + k).toNat, ?_⟩
      rw [heq, ← zpow_natCast, Int.toNat_of_nonneg (by omega), zpow_add₀ (by norm_num)]
      norm_num
    · rw [fl_eq_roundTo]
      have hexp : (2 : ℚ) ^ k = ((2 : ℕ) : ℚ) ^ k := by rw [Nat.cast_ofNat]
      rw [hexp] at *
      exact (roundTo_eq_iff (by norm_num) (by norm_num) hqpos (by exact_mod_cast hmlt)
        (by exact_mod_cast hmgt) herr.ne).2 herr

/-- **Six decimals give the size back iff the distance is small against the last place.** -/
theorem sixDecimals_iff {n : ℕ} (hn : n ≠ 0) :
    sixDecimals (sizeMb n) = sizeMb n ↔
      decimalDistance n * 2 ^ 53 < 15625 * 2 ^ Nat.log 2 n := by
  rcases Nat.lt_or_ge n (2 ^ 53) with hlt | hge
  · exact sixDecimals_iff_of_lt hn hlt
  · apply iff_of_true (sixDecimals_of_le hge)
    have hlog : 2 ^ 53 ≤ 2 ^ Nat.log 2 n := by
      apply Nat.pow_le_pow_right (by norm_num)
      exact Nat.le_log_of_pow_le (by norm_num) hge
    have hdist := decimalDistance_le n
    calc decimalDistance n * 2 ^ 53 ≤ 2 ^ 13 * 2 ^ 53 := Nat.mul_le_mul_right _ hdist
      _ < 15625 * 2 ^ 53 := by norm_num
      _ ≤ 15625 * 2 ^ Nat.log 2 n := Nat.mul_le_mul_left _ hlog

/-- Below one tebibyte: the whole multiples of 16 KiB. -/
theorem decimalDistance_lt_iff {n : ℕ} (hn : n ≠ 0) (hlt : n < 2 ^ 40) :
    decimalDistance n * 2 ^ 53 < 15625 * 2 ^ Nat.log 2 n ↔ 2 ^ 14 ∣ n := by
  rw [← decimalDistance_eq_zero_iff]
  constructor
  · intro h
    by_contra hne
    have hlog : Nat.log 2 n < 40 := Nat.log_lt_of_lt_pow hn hlt
    have hpow : 2 ^ Nat.log 2 n ≤ 2 ^ 39 := Nat.pow_le_pow_right (by norm_num) (by omega)
    have hle : 2 ^ 53 ≤ decimalDistance n * 2 ^ 53 :=
      Nat.le_mul_of_pos_left _ (Nat.pos_of_ne_zero hne)
    have hge : 15625 * 2 ^ Nat.log 2 n ≤ 15625 * 2 ^ 39 := Nat.mul_le_mul_left _ hpow
    have : (2 : ℕ) ^ 53 < 15625 * 2 ^ 39 := hle.trans_lt (h.trans_le hge)
    norm_num at this
  · intro h
    rw [h, Nat.zero_mul]
    positivity

/-! ## The three rows -/

theorem clientLabel_eq {row : Row} {size : ℚ} (h : sizeMbClient row = some size) :
    clientLabel row = sizeLabel size := (IsLabel.client h).eq

theorem pcapLabel_eq {row : Row} {size : ℚ} (h : sizeMbPcap row = some size) :
    pcapLabel row = sizeLabel size := (IsLabel.pcap h).eq

theorem fl_zpow (k : ℤ) : fl (2 ^ k) = 2 ^ k := by
  have := fl_natCast_mul_zpow (m := 1) (by norm_num) k
  rwa [Nat.cast_one, one_mul] at this

/-- The tolerance of the filter, between two powers of two. -/
theorem tolerance_bounds :
    2 ^ (-20 : ℤ) ≤ fl (1 / 10 ^ 6) ∧ fl (1 / 10 ^ 6) ≤ 2 ^ (-19 : ℤ) := by
  constructor
  · rw [← fl_zpow (-20)]
    exact fl_mono (by norm_num)
  · rw [← fl_zpow (-19)]
    exact fl_mono (by norm_num)

theorem le_sizeMb {n : ℕ} (hn : n ≠ 0) : 2 ^ (-20 : ℤ) ≤ sizeMb n := by
  have hone : (1 : ℚ) ≤ n := by exact_mod_cast Nat.one_le_iff_ne_zero.2 hn
  have hle : (2 : ℚ) ^ (-20 : ℤ) ≤ n * 2 ^ (-20 : ℤ) :=
    le_mul_of_one_le_left (by positivity) hone
  have hmono := fl_mono hle
  rwa [fl_zpow, ← sizeMb_eq] at hmono

theorem le_sixDecimals {n : ℕ} (hn : n ≠ 0) : fl (1 / 10 ^ 6) ≤ sixDecimals (sizeMb n) := by
  have hpos := sixDecimals_pos (le_sizeMb hn)
  have hround : (0 : ℚ) < roundEven (sizeMb n * 10 ^ 6) := by
    by_contra hneg
    exact absurd hpos (not_lt.2 (div_nonpos_of_nonpos_of_nonneg (not_lt.1 hneg) (by norm_num)))
  have hone : (1 : ℚ) ≤ roundEven (sizeMb n * 10 ^ 6) := by exact_mod_cast hround
  rw [sixDecimals]
  exact fl_mono (div_le_div_of_nonneg_right hone (by norm_num))

/-- Sizes that differ are told apart by the filter. -/
theorem exists_keepsSize_ne {n : ℕ} (hn : n ≠ 0) (hne : sixDecimals (sizeMb n) ≠ sizeMb n) :
    ∃ s, fl s = s ∧ keepsSize [s] (some (sixDecimals (sizeMb n))) ≠
      keepsSize [s] (some (sizeMb n)) := by
  obtain ⟨htlow, hthigh⟩ := tolerance_bounds
  have ht : (0 : ℚ) < fl (1 / 10 ^ 6) := fl_pos (by norm_num)
  have hft : fl (fl (1 / 10 ^ 6)) = fl (1 / 10 ^ 6) := fl_fl _
  have hx := le_sizeMb hn
  have hy := le_sixDecimals hn
  have hfy : fl (sixDecimals (sizeMb n)) = sixDecimals (sizeMb n) := fl_fl _
  have hfx := fl_sizeMb n
  have hsingle : ∀ size s : ℚ, keepsSize [s] (some size) = closeTo size s := by
    intro size s
    simp [keepsSize]
  rcases lt_or_gt_of_ne hne with hlt | hgt
  · obtain ⟨s, hs, hnear, hfar⟩ := exists_separating (htlow.trans hy) hfy hfx hlt ht hft hthigh
      (hy.trans hlt.le)
    refine ⟨s, hs, ?_⟩
    rw [hsingle, hsingle, closeTo, closeTo, decide_eq_true hnear, decide_eq_false (not_lt.2 hfar)]
    decide
  · obtain ⟨s, hs, hnear, hfar⟩ := exists_separating hx hfx hfy hgt ht hft hthigh hy
    refine ⟨s, hs, ?_⟩
    rw [hsingle, hsingle, closeTo, closeTo, decide_eq_true hnear, decide_eq_false (not_lt.2 hfar)]
    decide

/-- The pcap row of an empty file passes every size filter. -/
theorem sizeMbPcap_of_empty {row : Row}
    (h : cell row "file_size_bytes" = some (String.ofList (intText (0 : ℕ)))) :
    sizeMbPcap row = none := by
  rw [sizeMbPcap, toNumber_of_pcap h, Nat.cast_zero, fl_zero]
  rfl

theorem exists_rows (n : ℕ) : ∃ client lwm2m pcap, RowsOf n client lwm2m pcap :=
  ⟨[("file_size", some (floatText (sizeMb n)))], [("file_size", some (fixed 6 (sizeMb n)))],
    [("file_size_bytes", some (String.ofList (intText n)))], ⟨rfl, rfl, rfl⟩⟩

/-- **The rows of a file are in one category iff the file is not empty and six decimals
    determine its size.** -/
theorem sameCategory_iff (n : ℕ) :
    SameCategory n ↔
      n ≠ 0 ∧ decimalDistance n * 2 ^ 53 < 15625 * 2 ^ Nat.log 2 n := by
  obtain ⟨client, lwm2m, pcap, hrows⟩ := exists_rows n
  have hclient := sizeMbClient_of_client hrows.client
  have hlwm2m := sizeMbClient_of_lwm2m hrows.lwm2m
  constructor
  · intro hsame
    obtain ⟨-, -, hkeep⟩ := hsame client lwm2m pcap hrows
    have hn : n ≠ 0 := by
      rintro rfl
      have h := (hkeep [1] (by
        intro s hs
        rw [List.mem_singleton.1 hs]
        exact_mod_cast fl_of_le (m := 1) (by norm_num))).2
      have hfar : keepsSize [1] (some (sizeMb 0)) = false := by decide +kernel
      rw [sizeMbPcap_of_empty hrows.pcap, hclient, hfar] at h
      exact absurd h (by decide)
    refine ⟨hn, (sixDecimals_iff hn).1 ?_⟩
    by_contra hne
    obtain ⟨s, hs, hdiff⟩ := exists_keepsSize_ne hn hne
    have h := (hkeep [s] (by simpa using hs)).1
    rw [hlwm2m, hclient] at h
    exact hdiff h
  · rintro ⟨hn, hdist⟩ client lwm2m pcap hrows
    have hclient := sizeMbClient_of_client hrows.client
    have hlwm2m := sizeMbClient_of_lwm2m hrows.lwm2m
    have hpcap := sizeMbPcap_of_pcap hn hrows.pcap
    rw [(sixDecimals_iff hn).2 hdist] at hlwm2m
    refine ⟨?_, ?_, fun sizes _ => ⟨?_, ?_⟩⟩
    · rw [clientLabel_eq hlwm2m, clientLabel_eq hclient]
    · rw [pcapLabel_eq hpcap, clientLabel_eq hclient]
    · rw [hlwm2m, hclient]
    · rw [hpcap, hclient]

/-- A file of 1294991 bytes is labelled `1.23 MB` by the clients and `1.24 MB` by the
    LwM2M client, whose six decimals are a tie. -/
theorem not_sameCategory_1294991 :
    clientLabel [("file_size", some (floatText (sizeMb 1294991)))] = "1.23 MB" ∧
      clientLabel [("file_size", some (fixed 6 (sizeMb 1294991)))] = "1.24 MB" ∧
      ¬ SameCategory 1294991 := by
  have hclient : clientLabel [("file_size", some (floatText (sizeMb 1294991)))] = "1.23 MB" := by
    decide +kernel
  have hlwm2m : clientLabel [("file_size", some (fixed 6 (sizeMb 1294991)))] = "1.24 MB" := by
    decide +kernel
  refine ⟨hclient, hlwm2m, ?_⟩
  intro hsame
  obtain ⟨hlabel, -⟩ := hsame [("file_size", some (floatText (sizeMb 1294991)))]
    [("file_size", some (fixed 6 (sizeMb 1294991)))]
    [("file_size_bytes", some (String.ofList (intText (1294991 : ℕ))))] ⟨rfl, rfl, rfl⟩
  rw [hclient, hlwm2m] at hlabel
  exact absurd hlabel (by decide +kernel)

end TransferTestbed.Charts
