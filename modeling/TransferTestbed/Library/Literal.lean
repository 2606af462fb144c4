import TransferTestbed.Library.Binary64Order
import TransferTestbed.Library.Numeral

/-!
# Decimal literals

A literal is what the printers of floats write after a sign: digits, a fraction and an
exponent, the last two optional. The texts of `repr`, `.df` and `.pg` are texts of
literals, and reading a literal gives its value, rounded once.

Results:

* `readDecimal_text`, `readFloat_text`: the text of a literal, exactly and as a `float`.
* `exists_layout`: the literal that `layout` prints, with its value.
* `exists_fixed`: the literal that `.df` prints.
* `exists_floatText`: the literal that `repr` prints, which reads back as the number.
-/

namespace TransferTestbed

open Decimal Numeral Binary64 Rounding

/-- A decimal literal without a sign. -/
structure Literal where
  whole : List Char
  fraction : Option (List Char)
  exponent : Option ℤ
  whole_ne : whole ≠ []
  fraction_ne : fraction ≠ some []
  isDigit_of_mem : ∀ c ∈ whole ++ fraction.getD [], isDigit c = true

namespace Literal

variable (l : Literal)

/-- The digits and the fraction. -/
def plain : List Char := l.whole ++ (l.fraction.map ('.' :: ·)).getD []

/-- The exponent. -/
def tail : List Char := (l.exponent.map exponentText).getD []

def text : List Char := l.plain ++ l.tail

def digits : List Char := l.whole ++ l.fraction.getD []

/-- The value of `plain`. -/
def mantissa : ℚ := digitsValue l.digits * 10 ^ (-(l.fraction.getD []).length : ℤ)

def value : ℚ := l.mantissa * 10 ^ l.exponent.getD 0

/-! ## Reading -/

theorem isDigit_of_mem_whole {c : Char} (h : c ∈ l.whole) : isDigit c = true :=
  l.isDigit_of_mem c (List.mem_append_left _ h)

theorem isDigit_of_mem_fraction {c : Char} {f : List Char} (hf : l.fraction = some f)
    (h : c ∈ f) : isDigit c = true :=
  l.isDigit_of_mem c (List.mem_append_right _ (by rwa [hf]))

/-- A literal starts with a digit. -/
theorem exists_whole_eq : ∃ c cs, l.whole = c :: cs ∧ isDigit c = true := by
  obtain ⟨c, cs, hcs⟩ := List.exists_cons_of_ne_nil l.whole_ne
  exact ⟨c, cs, hcs, l.isDigit_of_mem_whole (by rw [hcs]; exact List.mem_cons_self)⟩

theorem head?_tail {c : Char} (h : c ∈ l.tail.head?) : c = 'e' := by
  rw [tail] at h
  cases hexp : l.exponent with
  | none => simp [hexp] at h
  | some e =>
    simp only [hexp, Option.map_some, Option.getD_some, exponentText, List.head?_cons,
      Option.mem_def, Option.some.injEq] at h
    exact h.symm

theorem readExponent_tail : readExponent l.tail = some (l.exponent.getD 0) := by
  rw [tail]
  cases hexp : l.exponent with
  | none => rfl
  | some e => exact readExponent_exponentText e

theorem takeSign_of_isDigit {c : Char} {cs : List Char} (h : isDigit c = true) :
    takeSign (c :: cs) = (false, c :: cs) := by
  have hminus : c ≠ '-' := by
    rintro rfl
    revert h
    decide
  have hplus : c ≠ '+' := by
    rintro rfl
    revert h
    decide
  rw [takeSign, if_neg hminus, if_neg hplus]

/-- **A literal denotes its value.** -/
theorem readDecimal_text : readDecimal l.text = some l.value := by
  obtain ⟨c, cs, hwhole, hc⟩ := l.exists_whole_eq
  have hsign : takeSign l.text = (false, l.text) := by
    rw [text, plain, hwhole]
    exact takeSign_of_isDigit hc
  have htail : ∀ c ∈ l.tail.head?, isDigit c = false ∧ c ≠ '_' := by
    intro c hc
    rw [l.head?_tail hc]
    decide
  have hwholeRun : takeDigits false l.text =
      (l.whole, (l.fraction.map ('.' :: ·)).getD [] ++ l.tail) := by
    rw [text, plain, List.append_assoc]
    refine takeDigits_append (fun c hc => l.isDigit_of_mem_whole hc) ?_ false
    cases hf : l.fraction with
    | none => exact htail
    | some f =>
      intro c hc
      simp only [Option.map_some, Option.getD_some, List.cons_append, List.head?_cons,
        Option.mem_def, Option.some.injEq] at hc
      rw [← hc]
      decide
  have hfraction : takeFraction ((l.fraction.map ('.' :: ·)).getD [] ++ l.tail) =
      (l.fraction.getD [], l.tail) := by
    cases hf : l.fraction with
    | none =>
      simp only [Option.map_none, Option.getD_none, List.nil_append]
      match ht : l.tail with
      | [] => rfl
      | c :: cs =>
        have hc : c = 'e' := l.head?_tail (by rw [ht]; rfl)
        have hdot : c ≠ '.' := by
          rw [hc]
          decide
        rw [takeFraction, if_neg hdot]
    | some f =>
      simp only [Option.map_some, Option.getD_some, List.cons_append, takeFraction, if_true]
      exact takeDigits_append (fun c hc => l.isDigit_of_mem_fraction hf hc) htail false
  have hne : l.whole ++ l.fraction.getD [] ≠ [] := List.append_ne_nil_of_left_ne_nil l.whole_ne _
  simp only [readDecimal, hsign, hwholeRun, hfraction, if_neg hne, readExponent_tail,
    Option.map_some, Bool.false_eq_true, if_false]
  rw [value, mantissa, digits, mul_assoc, ← zpow_add₀ (by norm_num), neg_add_eq_sub]

/-- `float` of a literal is its value, rounded once. -/
theorem readFloat_text : readFloat l.text = some (fl l.value) := by
  rw [readFloat_eq, readDecimal_text, Option.map_some]

/-- The characters of a literal. -/
theorem mem_text {c : Char} (h : c ∈ l.text) :
    isDigit c = true ∨ c = '.' ∨ c = 'e' ∨ c = '-' ∨ c = '+' := by
  rcases List.mem_append.1 h with hplain | htail
  · rcases List.mem_append.1 hplain with hwhole | hfraction
    · exact .inl (l.isDigit_of_mem_whole hwhole)
    · cases hf : l.fraction with
      | none => simp [hf] at hfraction
      | some f =>
        rw [hf, Option.map_some, Option.getD_some, List.mem_cons] at hfraction
        rcases hfraction with rfl | hmem
        · exact .inr (.inl rfl)
        · exact .inl (l.isDigit_of_mem_fraction hf hmem)
  · cases hexp : l.exponent with
    | none => simp [tail, hexp] at htail
    | some e =>
      rw [tail, hexp, Option.map_some, Option.getD_some, exponentText, List.mem_cons,
        List.mem_cons] at htail
      rcases htail with rfl | rfl | hmem
      · exact .inr (.inr (.inl rfl))
      · by_cases he : e < 0
        · rw [if_pos he]
          exact .inr (.inr (.inr (.inl rfl)))
        · rw [if_neg he]
          exact .inr (.inr (.inr (.inr rfl)))
      · exact .inl (isDigit_of_mem_padLeft (fun c hc => isDigit_of_mem_natText hc) hmem)

end Literal

/-! ## Digits without zeros at the end -/

theorem stripZeros_append (cs : List Char) :
    ∃ k, cs = stripZeros cs ++ List.replicate k '0' := by
  refine ⟨(cs.reverse.takeWhile (· = '0')).length, ?_⟩
  have hzeros : cs.reverse.takeWhile (· = '0') =
      List.replicate (cs.reverse.takeWhile (· = '0')).length '0' := by
    rw [List.eq_replicate_iff]
    refine ⟨rfl, fun c hc => ?_⟩
    have := List.mem_takeWhile_imp (p := fun c : Char => decide (c = '0')) hc
    exact of_decide_eq_true this
  have hsplit := List.takeWhile_append_dropWhile (p := (· = '0')) (l := cs.reverse)
  rw [stripZeros, ← List.reverse_replicate, ← hzeros, ← List.reverse_append, hsplit,
    List.reverse_reverse]

theorem natText_length_bounds {m : ℕ} (hm : m ≠ 0) :
    10 ^ ((natText m).length - 1) ≤ m ∧ m < 10 ^ (natText m).length := by
  have hlen : (natText m).length = (Nat.digits 10 m).length := by
    rw [natText_eq hm, List.length_map, List.length_reverse]
  rw [hlen]
  have hpos : (Nat.digits 10 m).length ≠ 0 := by
    rw [Ne, List.length_eq_zero_iff]
    exact Nat.digits_ne_nil_iff_ne_zero.2 hm
  obtain ⟨k, hk⟩ := Nat.exists_eq_succ_of_ne_zero hpos
  constructor
  · rw [← Nat.lt_digits_length_iff (by norm_num)]
    omega
  · exact Nat.lt_base_pow_length_digits (by norm_num)

/-- The digits that `layout` prints, and the zeros it leaves out. -/
theorem exists_stripZeros {m : ℕ} (hm : m ≠ 0) :
    ∃ k, (natText m).length = (stripZeros (natText m)).length + k ∧
      digitsValue (stripZeros (natText m)) * 10 ^ k = m ∧ stripZeros (natText m) ≠ [] ∧
      ∀ c ∈ stripZeros (natText m), isDigit c = true := by
  obtain ⟨k, hk⟩ := stripZeros_append (natText m)
  have hlen := congrArg List.length hk
  have hval := congrArg digitsValue hk
  rw [List.length_append, List.length_replicate] at hlen
  rw [digitsValue_natText, digitsValue_append, digitsValue_replicate_zero, List.length_replicate,
    add_zero] at hval
  refine ⟨k, hlen, hval.symm, ?_, ?_⟩
  · intro hnil
    rw [hnil] at hval
    exact hm (hval.trans (zero_mul _))
  · intro c hc
    apply isDigit_of_mem_natText (n := m)
    rw [hk]
    exact List.mem_append_left _ hc

/-! ## `layout` -/

theorem cast_mul_zpow_eq {v k m : ℕ} (h : v * 10 ^ k = m) {e x : ℤ} (hx : x = k + e) :
    (v : ℚ) * 10 ^ x = m * 10 ^ e := by
  rw [← h, hx, zpow_add₀ (by norm_num), zpow_natCast]
  push_cast
  ring

theorem isDigit_of_mem_append {a b : List Char} (ha : ∀ c ∈ a, isDigit c = true)
    (hb : ∀ c ∈ b, isDigit c = true) : ∀ c ∈ a ++ b, isDigit c = true := by
  intro c hc
  rcases List.mem_append.1 hc with h | h
  · exact ha c h
  · exact hb c h

theorem isDigit_of_mem_replicate (n : ℕ) : ∀ c ∈ List.replicate n '0', isDigit c = true := by
  intro c hc
  rw [List.eq_of_mem_replicate hc]
  rfl

/-- The literal of a number without an exponent. -/
theorem exists_layout_plain (limit : ℤ) (addDot0 : Bool) {m : ℕ} (hm : m ≠ 0) {e : ℤ}
    (hrange : -4 < (natText m).length + e ∧ (natText m).length + e ≤ limit) :
    ∃ l : Literal, l.text = layout limit addDot0 m e ∧ l.mantissa = m * 10 ^ e ∧
      l.exponent = none := by
  obtain ⟨k, hlen, hval, hne, hdigit⟩ := exists_stripZeros hm
  simp only [layout, if_pos hrange]
  generalize stripZeros (natText m) = ds at *
  have hpoint : ((natText m).length : ℤ) = ds.length + k := by exact_mod_cast hlen
  have hpos := List.length_pos_iff.2 hne
  rw [hpoint]
  by_cases hsmall : (ds.length : ℤ) + k + e ≤ 0
  · refine ⟨⟨['0'], some (List.replicate (-((ds.length : ℤ) + k + e)).toNat '0' ++ ds), none,
      by simp, by simp [hne], ?_⟩, ?_, ?_, rfl⟩
    · exact isDigit_of_mem_append (by simp [isDigit])
        (isDigit_of_mem_append (isDigit_of_mem_replicate _) hdigit)
    · simp [Literal.text, Literal.plain, Literal.tail, if_pos hsmall]
    · simp only [Literal.mantissa, Literal.digits, Option.getD_some, List.length_append,
        List.length_replicate, digitsValue_append, digitsValue_replicate_zero]
      rw [show digitsValue ['0'] = 0 from rfl, zero_mul, zero_mul, zero_add, zero_add]
      exact cast_mul_zpow_eq hval (by push_cast; omega)
  · rw [if_neg hsmall]
    by_cases hinside : (ds.length : ℤ) + k + e < ds.length
    · rw [if_pos hinside]
      obtain ⟨n, hn⟩ : ∃ n, ((ds.length : ℤ) + k + e).toNat = n := ⟨_, rfl⟩
      rw [hn]
      refine ⟨⟨ds.take n, some (ds.drop n), none, ?_, ?_, ?_⟩, ?_, ?_, rfl⟩
      · rw [Ne, List.take_eq_nil_iff]
        rintro (h0 | h0)
        · omega
        · exact hne h0
      · rw [Ne, Option.some.injEq, List.drop_eq_nil_iff]
        omega
      · rw [Option.getD_some, List.take_append_drop]
        exact hdigit
      · simp [Literal.text, Literal.plain, Literal.tail]
      · simp only [Literal.mantissa, Literal.digits, Option.getD_some, List.take_append_drop,
          List.length_drop]
        exact cast_mul_zpow_eq hval (by omega)
    · rw [if_neg hinside]
      obtain ⟨n, hn⟩ : ∃ n, ((ds.length : ℤ) + k + e).toNat - ds.length = n := ⟨_, rfl⟩
      rw [hn]
      cases addDot0 with
      | true =>
        refine ⟨⟨ds ++ List.replicate n '0', some ['0'], none, ?_, by simp, ?_⟩, ?_, ?_, rfl⟩
        · exact List.append_ne_nil_of_left_ne_nil hne _
        · exact isDigit_of_mem_append (isDigit_of_mem_append hdigit (isDigit_of_mem_replicate _))
            (by simp [isDigit])
        · simp [Literal.text, Literal.plain, Literal.tail]
        · simp only [Literal.mantissa, Literal.digits, Option.getD_some, digitsValue_append,
            digitsValue_replicate_zero, List.length_replicate, List.length_singleton]
          rw [show digitsValue ['0'] = 0 from rfl, add_zero, add_zero, mul_assoc, ← pow_add]
          push_cast
          rw [mul_assoc, ← zpow_natCast, ← zpow_add₀ (by norm_num)]
          exact cast_mul_zpow_eq hval (by push_cast; omega)
      | false =>
        refine ⟨⟨ds ++ List.replicate n '0', none, none, ?_, by simp, ?_⟩, ?_, ?_, rfl⟩
        · exact List.append_ne_nil_of_left_ne_nil hne _
        · exact isDigit_of_mem_append (isDigit_of_mem_append hdigit (isDigit_of_mem_replicate _))
            (by simp)
        · simp [Literal.text, Literal.plain, Literal.tail]
        · simp only [Literal.mantissa, Literal.digits, Option.getD_none, List.append_nil,
            digitsValue_append, digitsValue_replicate_zero, List.length_replicate]
          rw [add_zero]
          push_cast
          rw [mul_assoc, ← zpow_natCast, ← zpow_add₀ (by norm_num)]
          exact cast_mul_zpow_eq hval (by simp; omega)

/-- The literal of a number with an exponent. -/
theorem exists_layout_exponent (limit : ℤ) (addDot0 : Bool) {m : ℕ} (hm : m ≠ 0) {e : ℤ}
    (hrange : ¬ (-4 < (natText m).length + e ∧ (natText m).length + e ≤ limit)) :
    ∃ l : Literal, l.text = layout limit addDot0 m e ∧
      l.mantissa = m * 10 ^ (1 - (natText m).length : ℤ) ∧
      l.exponent = some ((natText m).length + e - 1) := by
  obtain ⟨k, hlen, hval, hne, hdigit⟩ := exists_stripZeros hm
  simp only [layout, if_neg hrange]
  generalize stripZeros (natText m) = ds at *
  have hpos := List.length_pos_iff.2 hne
  have htake : ds.take 1 ≠ [] := by
    rw [Ne, List.take_eq_nil_iff]
    rintro (h0 | h0)
    · omega
    · exact hne h0
  by_cases hone : ds.length = 1
  · refine ⟨⟨ds.take 1, none, some ((natText m).length + e - 1), htake, by simp, ?_⟩, ?_, ?_, rfl⟩
    · intro c hc
      rw [Option.getD_none, List.append_nil] at hc
      exact hdigit c (List.mem_of_mem_take hc)
    · simp [Literal.text, Literal.plain, Literal.tail, hone]
    · simp only [Literal.mantissa, Literal.digits, Option.getD_none, List.append_nil]
      rw [List.take_of_length_le (by omega)]
      exact cast_mul_zpow_eq hval (by simp; omega)
  · refine ⟨⟨ds.take 1, some (ds.drop 1), some ((natText m).length + e - 1), htake, ?_, ?_⟩,
      ?_, ?_, rfl⟩
    · rw [Ne, Option.some.injEq, List.drop_eq_nil_iff]
      omega
    · rw [Option.getD_some, List.take_append_drop]
      exact hdigit
    · simp [Literal.text, Literal.plain, Literal.tail, hone]
    · simp only [Literal.mantissa, Literal.digits, Option.getD_some, List.take_append_drop,
        List.length_drop]
      exact cast_mul_zpow_eq hval (by omega)

/-- **`layout` prints a literal of the number's value.** -/
theorem exists_layout (limit : ℤ) (addDot0 : Bool) {m : ℕ} (hm : m ≠ 0) (e : ℤ) :
    ∃ l : Literal, l.text = layout limit addDot0 m e ∧ l.value = m * 10 ^ e := by
  by_cases hrange : -4 < (natText m).length + e ∧ (natText m).length + e ≤ limit
  · obtain ⟨l, htext, hmantissa, hexp⟩ := exists_layout_plain limit addDot0 hm hrange
    refine ⟨l, htext, ?_⟩
    rw [Literal.value, hmantissa, hexp, Option.getD_none, zpow_zero, mul_one]
  · obtain ⟨l, htext, hmantissa, hexp⟩ := exists_layout_exponent limit addDot0 hm hrange
    refine ⟨l, htext, ?_⟩
    rw [Literal.value, hmantissa, hexp, Option.getD_some, mul_assoc, ← zpow_add₀ (by norm_num)]
    congr 2
    ring

theorem natText_mul_pow {m : ℕ} (hm : m ≠ 0) (k : ℕ) :
    natText (m * 10 ^ k) = natText m ++ List.replicate k '0' := by
  have hpos := Nat.pos_of_ne_zero hm
  have hne : m * 10 ^ k ≠ 0 := (Nat.mul_pos hpos (by positivity)).ne'
  rw [natText_eq hne, natText_eq hm, mul_comm, Nat.digits_base_pow_mul (by norm_num) hpos,
    List.reverse_append, List.map_append, List.reverse_replicate, List.map_replicate]
  rfl

theorem stripZeros_append_replicate (cs : List Char) (k : ℕ) :
    stripZeros (cs ++ List.replicate k '0') = stripZeros cs := by
  rw [stripZeros, stripZeros, List.reverse_append, List.reverse_replicate,
    List.dropWhile_append_of_pos]
  intro c hc
  rw [List.eq_of_mem_replicate hc]
  rfl

/-- **The text depends on the number only.** -/
theorem layout_eq_of_value (limit : ℤ) (addDot0 : Bool) {m n : ℕ} (hn : n ≠ 0) {e f : ℤ}
    (hle : e ≤ f) (h : (m : ℚ) * 10 ^ e = n * 10 ^ f) :
    layout limit addDot0 m e = layout limit addDot0 n f := by
  obtain ⟨k, hk⟩ := Int.le.dest hle
  have hten : (0 : ℚ) < 10 ^ e := by positivity
  have hm : m = n * 10 ^ k := by
    rw [← hk, zpow_add₀ (by norm_num), zpow_natCast] at h
    have : (m : ℚ) = n * 10 ^ k := by
      apply mul_right_cancel₀ hten.ne'
      linarith
    exact_mod_cast this
  have hpoint : ((natText (n * 10 ^ k)).length : ℤ) + e = (natText n).length + f := by
    rw [natText_mul_pow hn, List.length_append, List.length_replicate]
    push_cast
    omega
  simp only [layout, hm, hpoint]
  rw [natText_mul_pow hn, stripZeros_append_replicate]

/-! ## Integers and fixed-point numbers -/

theorem exists_natText (n : ℕ) : ∃ l : Literal, l.text = natText n ∧ l.value = n := by
  refine ⟨⟨natText n, none, none, natText_ne_nil n, by simp, ?_⟩, ?_, ?_⟩
  · intro c hc
    rw [Option.getD_none, List.append_nil] at hc
    exact isDigit_of_mem_natText hc
  · simp [Literal.text, Literal.plain, Literal.tail]
  · simp [Literal.value, Literal.mantissa, Literal.digits, digitsValue_natText]

theorem length_padLeft_natText {d n : ℕ} (hd : 0 < d) (hn : n < 10 ^ d) :
    (padLeft d (natText n)).length = d := by
  have hle : (natText n).length ≤ d := by
    rcases eq_or_ne n 0 with rfl | hne
    · exact hd
    · have hlow := (natText_length_bounds hne).1.trans_lt hn
      have := (Nat.pow_lt_pow_iff_right (by norm_num)).1 hlow
      omega
  rw [padLeft, List.length_append, List.length_replicate]
  omega

/-- **`f"{q:.df}"` is a literal of `q` rounded to `d` decimals.** -/
theorem exists_fixed {d : ℕ} (hd : 0 < d) {q : ℚ} (hq : 0 ≤ q) :
    ∃ l : Literal, l.text = (fixed d q).toList ∧
      l.value = (roundEven (q * 10 ^ d) : ℚ) / 10 ^ d := by
  have hround : 0 ≤ roundEven (q * 10 ^ d) := le_roundEven (by
    push_cast
    positivity)
  obtain ⟨n, hn⟩ := Int.eq_ofNat_of_zero_le hround
  have hlt : n % 10 ^ d < 10 ^ d := Nat.mod_lt _ (by positivity)
  have hne : padLeft d (natText (n % 10 ^ d)) ≠ [] := by
    rw [← List.length_pos_iff, length_padLeft_natText hd hlt]
    exact hd
  refine ⟨⟨natText (n / 10 ^ d), some (padLeft d (natText (n % 10 ^ d))), none,
    natText_ne_nil _, by simp [hne], ?_⟩, ?_, ?_⟩
  · exact isDigit_of_mem_append (fun c hc => isDigit_of_mem_natText hc)
      fun c hc => isDigit_of_mem_padLeft (fun c hc => isDigit_of_mem_natText hc) hc
  · simp [Literal.text, Literal.plain, Literal.tail, fixed, abs_of_nonneg hq, hn, hd.ne',
      not_lt.2 hq]
  · simp only [Literal.value, Literal.mantissa, Literal.digits, Option.getD_some,
      Option.getD_none, digitsValue_append, digitsValue_padLeft, digitsValue_natText,
      length_padLeft_natText hd hlt]
    rw [Nat.div_add_mod', hn, zpow_zero, mul_one, zpow_neg, zpow_natCast]
    push_cast
    rfl

/-! ## Floats -/

theorem roundDigits_value {p : ℕ} {x : ℚ} (hx : 0 < x) :
    ((roundDigits p x).1 : ℚ) * 10 ^ (roundDigits p x).2 = roundTo 10 p x := by
  have hround : 0 ≤ roundEven (x / 10 ^ (Int.log 10 x - (p - 1))) := le_roundEven (by
    push_cast
    positivity)
  rw [roundTo, place, abs_of_pos hx, Nat.cast_ofNat]
  simp only [roundDigits]
  rw [Nat.cast_natAbs, abs_of_nonneg hround]

theorem roundDigits_snd {p : ℕ} {x : ℚ} (hx : 0 < x) : (roundDigits p x).2 = place 10 p x := by
  rw [place, abs_of_pos hx]
  rfl

theorem roundDigits_fst {p : ℕ} (hp : 0 < p) {x : ℚ} (hx : 0 < x) :
    ((roundDigits p x).1 : ℤ) = roundEven (x / 10 ^ place 10 p x) ∧
      10 ^ (p - 1) ≤ (roundDigits p x).1 ∧ (roundDigits p x).1 ≤ 10 ^ p := by
  obtain ⟨hlow, hhigh⟩ := roundEven_scaled_bounds (b := 10) (by norm_num) hp hx
  rw [Nat.cast_ofNat] at hlow hhigh
  have hval : ((roundDigits p x).1 : ℤ) = roundEven (x / 10 ^ place 10 p x) := by
    rw [← roundDigits_snd hx]
    exact Int.natAbs_of_nonneg ((Int.natCast_nonneg _).trans (roundDigits_snd hx ▸ hlow))
  rw [← hval] at hlow hhigh
  exact ⟨hval, by exact_mod_cast hlow, by exact_mod_cast hhigh⟩

theorem length_natText_eq {m k : ℕ} (hlow : 10 ^ k ≤ m) (hhigh : m < 10 ^ (k + 1)) :
    (natText m).length = k + 1 := by
  have hm : m ≠ 0 := by
    have : 0 < 10 ^ k := by positivity
    omega
  obtain ⟨h0, h1⟩ := natText_length_bounds hm
  have hle := (Nat.pow_lt_pow_iff_right (by norm_num)).1 (h0.trans_lt hhigh)
  have hge := (Nat.pow_lt_pow_iff_right (by norm_num)).1 (hlow.trans_lt h1)
  omega

/-- **Where the point of a rounded number is.** -/
theorem point_le_iff {p : ℕ} (hp : 0 < p) {x : ℚ} (hx : 0 < x) (j : ℤ) :
    ((natText (roundDigits p x).1).length : ℤ) + (roundDigits p x).2 ≤ j ↔
      x < (10 ^ p - 1 / 2) * 10 ^ (j - p) := by
  obtain ⟨hfst, hlow, hhigh⟩ := roundDigits_fst hp hx
  rw [roundDigits_snd hx]
  obtain ⟨hxlow, hxhigh⟩ := (place_eq_iff (b := 10) (by norm_num) hx).1 (rfl : place 10 p x = _)
  generalize (roundDigits p x).1 = m at *
  generalize place 10 p x = e at *
  rw [Nat.cast_ofNat] at hxlow hxhigh
  have hmono : ∀ {a b : ℤ}, a ≤ b → (10 : ℚ) ^ a ≤ 10 ^ b :=
    fun h => zpow_le_zpow_right₀ (by norm_num) h
  have hten : ∀ k : ℤ, (10 : ℚ) ^ (p + k) = 10 ^ p * 10 ^ k := fun k => by
    rw [zpow_add₀ (by norm_num), zpow_natCast]
  have hone : (1 : ℚ) ≤ 10 ^ (p - 1) := one_le_pow₀ (by norm_num)
  have hpow : (10 : ℚ) ^ p = 10 * 10 ^ (p - 1) := by
    rw [← pow_succ', Nat.sub_add_cancel hp]
  -- the significand is `10 ^ p` exactly if the number is within half a place of it
  have hcarry : m < 10 ^ p ↔ x < (10 ^ p - 1 / 2) * 10 ^ e := by
    have heven : ((10 ^ p : ℕ) : ℤ) % 2 = 0 := by
      have : (2 : ℤ) ∣ ((10 ^ p : ℕ) : ℤ) := by
        exact_mod_cast dvd_pow (by norm_num : 2 ∣ 10) hp.ne'
      omega
    have hlt := roundEven_lt_iff heven (q := x / 10 ^ e)
    rw [← hfst, div_lt_iff₀ (by positivity)] at hlt
    push_cast at hlt
    rw [← hlt]
    exact_mod_cast Iff.rfl
  rcases hhigh.lt_or_eq with hm | hm
  · have hlen : (natText m).length = p := by
      have := length_natText_eq hlow (by rwa [Nat.sub_add_cancel hp])
      omega
    have hx' := hcarry.1 hm
    rw [hlen]
    constructor
    · intro hle
      refine hx'.trans_le (mul_le_mul_of_nonneg_left (hmono (by omega)) (by linarith))
    · intro hlt
      by_contra hgt
      have h := hmono (by omega : j ≤ p - 1 + e)
      rw [show j = p + (j - p) by ring, hten] at h
      have hpos : (0 : ℚ) < 10 ^ (j - p) := by positivity
      linarith
  · have hlen : (natText m).length = p + 1 :=
      length_natText_eq hm.ge (by rw [hm]; exact Nat.pow_lt_pow_right (by norm_num) (by omega))
    have hx' := mt hcarry.2 (by omega)
    rw [hlen]
    constructor
    · intro hle
      have h := hmono (by push_cast at hle; omega : p + e ≤ (p - 1 : ℤ) + (j - p))
      have hpos : (0 : ℚ) < 10 ^ (j - p) := by positivity
      have hcast : (p : ℤ) - 1 = ((p - 1 : ℕ) : ℤ) := by omega
      rw [zpow_add₀ (by norm_num) ((p : ℤ) - 1), hcast, zpow_natCast] at h
      have := mul_le_mul_of_nonneg_right (by linarith : (10 : ℚ) ^ (p - 1) ≤ 10 ^ p - 1 / 2) hpos.le
      linarith
    · intro hlt
      by_contra hgt
      have h := hmono (by push_cast at hgt; omega : j - p ≤ e)
      exact hx' (hlt.trans_le (mul_le_mul_of_nonneg_left h (by linarith)))

/-- Seventeen digits determine a binary64 number. -/
theorem fl_roundTo_seventeen {x : ℚ} (hx : 0 < x) (hfl : fl x = x) : fl (roundTo 10 17 x) = x := by
  have herr := abs_roundTo_sub_le (b := 10) (p := 17) (by norm_num) (by norm_num) hx
  apply fl_of_abs_sub_lt hx hfl
  refine herr.trans_lt ?_
  rw [div_lt_div_iff_of_pos_left hx (by norm_num) (by norm_num)]
  norm_num

/-- **The digits of `repr` read back as the number.** -/
theorem fl_shortest {x : ℚ} (hx : 0 < x) (hfl : fl x = x) :
    fl (((shortest x).1 : ℚ) * 10 ^ (shortest x).2) = x := by
  rw [shortest]
  generalize (List.range' 1 17).flatMap (fun p => neighbours p x) = candidates
  cases hfind : candidates.find? fun c => fl ((c.1 : ℚ) * 10 ^ c.2) = x with
  | none =>
    show fl (((roundDigits 17 x).1 : ℚ) * 10 ^ (roundDigits 17 x).2) = x
    rw [roundDigits_value hx]
    exact fl_roundTo_seventeen hx hfl
  | some c =>
    have := List.find?_some hfind
    exact of_decide_eq_true this

theorem shortest_ne_zero {x : ℚ} (hx : 0 < x) (hfl : fl x = x) : (shortest x).1 ≠ 0 := by
  intro h0
  have := fl_shortest hx hfl
  rw [h0, Nat.cast_zero, zero_mul, fl_zero] at this
  exact hx.ne this

/-- **`repr(x)` is a literal that reads back as `x`.** -/
theorem exists_floatText {x : ℚ} (hx : 0 ≤ x) (hfl : fl x = x) :
    ∃ l : Literal, l.text = (floatText x).toList ∧ fl l.value = x := by
  rcases hx.eq_or_lt with rfl | hpos
  · refine ⟨⟨['0'], some ['0'], none, by simp, by simp, by simp [isDigit]⟩, ?_, ?_⟩
    · simp [Literal.text, Literal.plain, Literal.tail, floatText]
    · simp [Literal.value, Literal.mantissa, Literal.digits, digitsValue]
  · obtain ⟨l, htext, hvalue⟩ :=
      exists_layout 16 true (shortest_ne_zero hpos hfl) (shortest x).2
    refine ⟨l, ?_, ?_⟩
    · rw [htext, floatText, String.toList_ofList, abs_of_pos hpos, if_neg (not_lt.2 hx),
        if_neg hpos.ne']
      rfl
    · rw [hvalue, fl_shortest hpos hfl]

end TransferTestbed
