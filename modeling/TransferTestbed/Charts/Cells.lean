import TransferTestbed.Charts.Labels

/-!
# Printing and reading a metric

The clients write a metric as `f"{x:.df}"`, as `str` of a float or of an integer, some of
them with a unit after it, and `_to_number` of `common/charts.py` reads the number a cell
starts with.

`\d` matches the decimal digits of every script and `float` reads them, so the table of
these digits is a parameter here, and so is the rounding of `float`: `float` is the identity
for exact arithmetic and `fl` for binary64.

Results:

* `toNumber_eq_toNumberWith`: the function of the charts, on ASCII cells.
* `exists_cell_fixed`, `exists_cell_intText`, `exists_cell_floatText`: what the printers
  write is a cell, and which number it holds.
* `toNumberWith_cell`: every cell reads back as the number printed, and exactly the texts
  that start with no number read as `None`.
-/

namespace TransferTestbed.Charts

open Decimal Numeral Binary64 Rounding

/-! ## Model -/

/-- The decimal digits of the Unicode database. -/
structure UnicodeDigits where
  value : Char → Option ℕ
  lt : ∀ c, ∀ d ∈ value c, d < 10
  ascii : ∀ c : Char, c.toNat < 128 → value c = if isDigit c then some (c.toNat - 48) else none
  space : ∀ c, Runs.isSpace c = true → value c = none

namespace UnicodeDigits

variable (digits : UnicodeDigits)

/-- `\d`. -/
def isDecimal (c : Char) : Bool := (digits.value c).isSome

/-- A digit as the ASCII digit of its value. -/
def toAscii (c : Char) : Char := ((digits.value c).map digitChar).getD c

end UnicodeDigits

/-- `_to_number(value)` (charts.py:152-157), with the digits of all scripts: they match and
    read like the ASCII digits of their values. -/
def toNumberWith {α : Type} (digits : UnicodeDigits) (float : ℚ → α) (value : Option String) :
    Option α :=
  value.bind fun value =>
    (matchNumber ((Runs.strip value).toList.map digits.toAscii)).bind fun m =>
      (readDecimal m).map float

/-- The sign before a number. -/
inductive Sign
  | none | plus | minus
  deriving DecidableEq, Repr

def Sign.text : Sign → List Char
  | .none => []
  | .plus => ['+']
  | .minus => ['-']

def Sign.apply : Sign → ℚ → ℚ
  | .minus, q => -q
  | _, q => q

/-- How a number without its sign is printed: as `f"{q:.df}"`, as `str` of the float whose
    digits are those of `m` and whose value they print as `m * 10 ^ e`, as `str` of an
    integer. -/
inductive Printed
  | fixed (d : ℕ) (q : ℚ≥0)
  | float (m : ℕ) (e : ℤ)
  | int (n : ℕ)

def Printed.text : Printed → List Char
  | .fixed d q => (Decimal.fixed d q).toList
  | .float m e => if m = 0 then ['0', '.', '0'] else layout 16 true m e
  | .int n => natText n

/-- The number that the digits denote. -/
def Printed.value : Printed → ℚ
  | .fixed d q => roundEven (q * 10 ^ d) / 10 ^ d
  | .float m e => m * 10 ^ e
  | .int n => n

/-- What the clients write after a number. -/
inductive MetricUnit
  | none | percent | megabytes
  deriving DecidableEq, Repr

def MetricUnit.text : MetricUnit → List Char
  | .none => []
  | .percent => ['%']
  | .megabytes => [' ', 'M', 'B']

/-- A cell with a number in it, between blanks. -/
structure MetricCell where
  before : List Char
  sign : Sign
  number : Printed
  unit : MetricUnit
  after : List Char
  blank : ∀ c ∈ before ++ after, Runs.isSpace c = true

namespace MetricCell

variable (cell : MetricCell)

/-- The cell without the blanks. -/
def core : List Char := cell.sign.text ++ cell.number.text ++ cell.unit.text

def text : String := String.ofList (cell.before ++ cell.core ++ cell.after)

/-- The number printed. -/
def value : ℚ := cell.sign.apply cell.number.value

end MetricCell

/-- A decimal number starts a text: after an optional sign there is a digit, or a point and
    a digit. -/
inductive StartsWithNumber (isDecimal : Char → Bool) : List Char → Prop
  | digit {sign : Sign} {c : Char} {rest : List Char} (hc : isDecimal c = true) :
      StartsWithNumber isDecimal (sign.text ++ c :: rest)
  | point {sign : Sign} {c : Char} {rest : List Char} (hc : isDecimal c = true) :
      StartsWithNumber isDecimal (sign.text ++ '.' :: c :: rest)

/-! ## The printers -/

/-- **What is printed is a literal of the number printed.** -/
theorem Printed.exists_literal (p : Printed) :
    ∃ l : Literal, l.text = p.text ∧ l.value = p.value := by
  cases p with
  | fixed d q =>
    have hq : (0 : ℚ) ≤ q := q.2
    rcases Nat.eq_zero_or_pos d with rfl | hd
    · obtain ⟨l, htext, hvalue⟩ := exists_natText (roundEven (|(q : ℚ)| * 10 ^ 0)).natAbs
      refine ⟨l, ?_, ?_⟩
      · rw [htext, Printed.text, Decimal.fixed, if_neg (not_lt.2 hq), if_pos rfl,
          String.toList_ofList]
      · have hround : 0 ≤ roundEven ((q : ℚ) * 10 ^ 0) := le_roundEven (by
          push_cast
          positivity)
        rw [hvalue, Printed.value, abs_of_nonneg hq, pow_zero, div_one, ← pow_zero (10 : ℚ),
          Nat.cast_natAbs, abs_of_nonneg hround]
    · exact exists_fixed hd hq
  | float m e =>
    rcases eq_or_ne m 0 with rfl | hm
    · refine ⟨⟨['0'], some ['0'], none, by simp, by simp, by simp [isDigit]⟩, ?_, ?_⟩
      · simp [Literal.text, Literal.plain, Literal.tail, Printed.text]
      · simp [Literal.value, Literal.mantissa, Literal.digits, digitsValue, Printed.value]
    · rw [Printed.text, if_neg hm]
      exact exists_layout 16 true hm e
  | int n => exact exists_natText n

/-- A number printed alone. -/
def MetricCell.plain (sign : Sign) (number : Printed) : MetricCell :=
  ⟨[], sign, number, .none, [], fun _ hc => (List.not_mem_nil hc).elim⟩

theorem MetricCell.text_plain (sign : Sign) (number : Printed) :
    (MetricCell.plain sign number).text = String.ofList (sign.text ++ number.text) := by
  simp [MetricCell.text, MetricCell.core, MetricCell.plain, MetricUnit.text]

/-- `f"{q:.df}"` prints `q` rounded to `d` decimals. -/
theorem exists_cell_fixed (d : ℕ) (q : ℚ) : ∃ cell : MetricCell,
    cell.text = Decimal.fixed d q ∧ cell.value = roundEven (q * 10 ^ d) / 10 ^ d := by
  have habs : ((Rat.nnabs q : ℚ≥0) : ℚ) = |q| := Rat.coe_nnabs q
  have htext : (Printed.fixed d (Rat.nnabs q)).text = (Decimal.fixed d |q|).toList := by
    rw [Printed.text, habs]
  rcases lt_or_ge q 0 with hq | hq
  · refine ⟨.plain .minus (.fixed d (Rat.nnabs q)), ?_, ?_⟩
    · rw [MetricCell.text_plain, htext]
      simp only [Decimal.fixed, abs_abs, if_pos hq, if_neg (not_lt.2 (abs_nonneg q)),
        String.toList_ofList]
      rfl
    · show -((roundEven ((Rat.nnabs q : ℚ) * 10 ^ d) : ℚ) / 10 ^ d) = _
      rw [habs, abs_of_neg hq, neg_mul, roundEven_neg]
      push_cast
      ring
  · refine ⟨.plain .none (.fixed d (Rat.nnabs q)), ?_, ?_⟩
    · rw [MetricCell.text_plain, htext, abs_of_nonneg hq]
      exact String.ofList_toList
    · show (roundEven ((Rat.nnabs q : ℚ) * 10 ^ d) : ℚ) / 10 ^ d = _
      rw [habs, abs_of_nonneg hq]

theorem exists_cell_intText (z : ℤ) : ∃ cell : MetricCell,
    cell.text = String.ofList (intText z) ∧ cell.value = z := by
  rcases lt_or_ge z 0 with hz | hz
  · refine ⟨.plain .minus (.int z.natAbs), ?_, ?_⟩
    · rw [MetricCell.text_plain, intText, if_pos hz]
      rfl
    · show -((z.natAbs : ℕ) : ℚ) = z
      rw [Nat.cast_natAbs, abs_of_neg hz]
      push_cast
      ring
  · refine ⟨.plain .none (.int z.natAbs), ?_, ?_⟩
    · rw [MetricCell.text_plain, intText, if_neg (not_lt.2 hz)]
      rfl
    · show ((z.natAbs : ℕ) : ℚ) = z
      rw [Nat.cast_natAbs, abs_of_nonneg hz]

/-- `str` of a float prints a number that rounds to it. -/
theorem exists_cell_floatText {x : ℚ} (hx : fl x = x) : ∃ cell : MetricCell,
    cell.text = floatText x ∧ fl cell.value = x := by
  rcases eq_or_ne x 0 with rfl | hne
  · refine ⟨.plain .none (.float 0 0), ?_, ?_⟩
    · rw [MetricCell.text_plain, floatText]
      rfl
    · show fl ((0 : ℕ) * 10 ^ (0 : ℤ) : ℚ) = 0
      rw [Nat.cast_zero, zero_mul, hx]
  · have hpos := abs_pos.2 hne
    have habs : fl |x| = |x| := by
      rcases abs_choice x with h | h
      · rw [h, hx]
      · rw [h, fl_neg, hx]
    have htext : (Printed.float (shortest |x|).1 (shortest |x|).2).text =
        layout 16 true (shortest |x|).1 (shortest |x|).2 :=
      if_neg (shortest_ne_zero hpos habs)
    have hround := fl_shortest hpos habs
    rcases lt_or_ge x 0 with hneg | hnonneg
    · refine ⟨.plain .minus (.float (shortest |x|).1 (shortest |x|).2), ?_, ?_⟩
      · rw [MetricCell.text_plain, htext, floatText, if_neg hne, if_pos hneg]
        rfl
      · show fl (-((shortest |x|).1 * 10 ^ (shortest |x|).2)) = x
        rw [fl_neg, hround, abs_of_neg hneg, neg_neg]
    · refine ⟨.plain .none (.float (shortest |x|).1 (shortest |x|).2), ?_, ?_⟩
      · rw [MetricCell.text_plain, htext, floatText, if_neg hne, if_neg (not_lt.2 hnonneg)]
        rfl
      · show fl ((shortest |x|).1 * 10 ^ (shortest |x|).2) = x
        rw [hround, abs_of_nonneg hnonneg]

/-! ## Blanks -/

/-- A start without blanks survives when blanks at the end are cut off. -/
theorem start_le_rdropWhile {start cs : List Char} (h : start <+: cs)
    (hstart : ∀ c ∈ start, Runs.isSpace c = false) : start <+: cs.rdropWhile Runs.isSpace := by
  induction cs using List.reverseRecOn with
  | nil => exact h
  | append_singleton cs c ih =>
    by_cases hc : Runs.isSpace c = true
    · rw [List.rdropWhile_concat_pos _ _ _ hc]
      rcases List.prefix_concat_iff.1 h with rfl | hle
      · have := hstart c (by simp)
        rw [hc] at this
        cases this
      · exact ih hle
    · rwa [List.rdropWhile_concat_neg _ _ _ hc]

/-! ## The expression -/

theorem Sign.optSign_append (sign : Sign) {body : List Char}
    (hbody : ∀ c ∈ body.head?, c ≠ '-' ∧ c ≠ '+') :
    optSign (sign.text ++ body) = (sign.text, body) := by
  cases sign with
  | plus => rfl
  | minus => rfl
  | none =>
    cases body with
    | nil => rfl
    | cons c cs =>
      obtain ⟨hminus, hplus⟩ := hbody c rfl
      show optSign (c :: cs) = ([], c :: cs)
      rw [optSign, if_neg (not_or.2 ⟨hminus, hplus⟩)]

theorem exists_optSign (cs : List Char) : ∃ sign : Sign, (optSign cs).1 = sign.text ∧
    sign.text ++ (optSign cs).2 = cs := by
  cases cs with
  | nil => exact ⟨.none, rfl, rfl⟩
  | cons c cs =>
    rw [optSign]
    split_ifs with h
    · rcases h with rfl | rfl
      · exact ⟨.minus, rfl, rfl⟩
      · exact ⟨.plus, rfl, rfl⟩
    · exact ⟨.none, rfl, rfl⟩

/-- The sign is matched and read before the number. -/
theorem matchNumber_sign (sign : Sign) {body : List Char}
    (hbody : ∀ c ∈ body.head?, c ≠ '-' ∧ c ≠ '+') :
    matchNumber (sign.text ++ body) = (matchNumber body).map (sign.text ++ ·) := by
  have hsign := sign.optSign_append hbody
  have hnone := Sign.none.optSign_append hbody
  rw [Sign.text, List.nil_append] at hnone
  simp only [matchNumber, hsign, hnone]
  split_ifs <;> simp

theorem readDecimal_sign (sign : Sign) {body : List Char}
    (hbody : ∀ c ∈ body.head?, c ≠ '-' ∧ c ≠ '+') :
    readDecimal (sign.text ++ body) = (readDecimal body).map sign.apply := by
  have hnone : takeSign body = (false, body) := by
    cases body with
    | nil => rfl
    | cons c cs =>
      obtain ⟨hminus, hplus⟩ := hbody c rfl
      rw [takeSign, if_neg hminus, if_neg hplus]
  have hsign : takeSign (sign.text ++ body) = (decide (sign = .minus), body) := by
    cases sign with
    | none => exact hnone
    | plus => rfl
    | minus => rfl
  simp only [readDecimal, hsign, hnone]
  by_cases hempty : (takeDigits false body).1 ++ (takeFraction (takeDigits false body).2).1 = []
  · rw [if_pos hempty, if_pos hempty, Option.map_none]
  · rw [if_neg hempty, if_neg hempty, Option.map_map]
    refine congrArg (Option.map · _) (funext fun e => ?_)
    cases sign <;> simp [Sign.apply]

/-- An exponent that is matched can be read. -/
theorem exists_readExponent (rest : List Char) : ∃ z, readExponent (optExponent rest) = some z := by
  cases rest with
  | nil => exact ⟨0, rfl⟩
  | cons c cs =>
    simp only [optExponent]
    split_ifs with h
    · obtain ⟨he, hne⟩ := h
      have hds : ∀ c ∈ (optSign cs).2.takeWhile isDigit, isDigit c = true :=
        fun c hc => List.mem_takeWhile_imp hc
      obtain ⟨sign, hsign, -⟩ := exists_optSign cs
      rw [hsign, List.cons_append, readExponent, if_pos he]
      generalize (optSign cs).2.takeWhile isDigit = ds at *
      cases sign with
      | minus => exact ⟨_, readInt_signed hne hds true⟩
      | plus => exact ⟨_, readInt_signed hne hds false⟩
      | none =>
        obtain ⟨d, ds', rfl⟩ := List.exists_cons_of_ne_nil hne
        have hrun := @takeDigits_append (d :: ds') [] hds (by simp) false
        rw [List.append_nil] at hrun
        show ∃ z, readInt (d :: ds') = some z
        simp only [readInt, Literal.takeSign_of_isDigit (hds d List.mem_cons_self), hrun]
        exact ⟨_, if_neg (by simp)⟩
    · exact ⟨0, rfl⟩

theorem optExponent_head {rest : List Char} {c : Char} (hc : c ∈ (optExponent rest).head?) :
    isDigit c = false ∧ c ≠ '_' ∧ c ≠ '.' := by
  cases rest with
  | nil => cases hc
  | cons d ds =>
    simp only [optExponent] at hc
    split_ifs at hc with h
    · obtain rfl : d = c := by simpa using hc
      rcases h.1 with rfl | rfl <;> decide
    · cases hc

/-- Digits, a fraction and an exponent that is matched are a number. -/
theorem exists_readDecimal {whole : List Char} (fraction : Option (List Char))
    (hdigit : ∀ c ∈ whole ++ fraction.getD [], isDigit c = true)
    (hne : whole ++ fraction.getD [] ≠ []) (rest : List Char) :
    ∃ q, readDecimal (whole ++ ((fraction.map ('.' :: ·)).getD [] ++ optExponent rest)) =
      some q := by
  have hwhole : ∀ c ∈ whole, isDigit c = true := fun c hc => hdigit c (List.mem_append_left _ hc)
  have hsign : takeSign (whole ++ ((fraction.map ('.' :: ·)).getD [] ++ optExponent rest)) =
      (false, whole ++ ((fraction.map ('.' :: ·)).getD [] ++ optExponent rest)) := by
    cases whole with
    | cons c cs => exact Literal.takeSign_of_isDigit (hwhole c List.mem_cons_self)
    | nil =>
      cases fraction with
      | none => exact absurd rfl hne
      | some f => rfl
  have hrun : takeDigits false (whole ++ ((fraction.map ('.' :: ·)).getD [] ++ optExponent rest)) =
      (whole, (fraction.map ('.' :: ·)).getD [] ++ optExponent rest) := by
    refine takeDigits_append hwhole ?_ false
    intro c hc
    cases fraction with
    | none => exact ⟨(optExponent_head hc).1, (optExponent_head hc).2.1⟩
    | some f =>
      obtain rfl : '.' = c := by simpa using hc
      decide
  have hfraction : takeFraction ((fraction.map ('.' :: ·)).getD [] ++ optExponent rest) =
      (fraction.getD [], optExponent rest) := by
    cases fraction with
    | none =>
      simp only [Option.map_none, Option.getD_none, List.nil_append]
      match hexp : optExponent rest with
      | [] => rfl
      | c :: cs =>
        have hc := @optExponent_head rest c (by rw [hexp]; rfl)
        rw [takeFraction, if_neg hc.2.2]
    | some f =>
      simp only [Option.map_some, Option.getD_some, List.cons_append, takeFraction, if_true]
      refine takeDigits_append (fun c hc => hdigit c (List.mem_append_right _ hc)) ?_ false
      exact fun c hc => ⟨(optExponent_head hc).1, (optExponent_head hc).2.1⟩
  obtain ⟨z, hz⟩ := exists_readExponent rest
  simp only [readDecimal, hsign, hrun, hfraction, if_neg hne, hz, Option.map_some]
  exact ⟨_, rfl⟩

/-! ## Where a number starts -/

/-- What follows the sign of a number. -/
def NumberBody (isDecimal : Char → Bool) (body : List Char) : Prop :=
  (∃ c ∈ body.head?, isDecimal c = true) ∨
    body.head? = some '.' ∧ ∃ c ∈ body.tail.head?, isDecimal c = true

theorem takeWhile_ne_nil_iff {p : Char → Bool} {cs : List Char} :
    cs.takeWhile p ≠ [] ↔ ∃ c ∈ cs.head?, p c = true := by
  cases cs with
  | nil => simp
  | cons c cs =>
    by_cases hc : p c = true
    · simp [hc]
    · simp [hc]

theorem not_sign_of_isDigit {c : Char} (hc : isDigit c = true) : c ≠ '-' ∧ c ≠ '+' := by
  constructor <;> (rintro rfl; revert hc; decide)

/-- Either a number starts after the sign, and it is matched and can be read, or nothing is
    matched. -/
theorem matchNumber_cases (cs : List Char) :
    (NumberBody isDigit (optSign cs).2 ∧
      ∃ m q, matchNumber cs = some m ∧ readDecimal m = some q) ∨
    ¬ NumberBody isDigit (optSign cs).2 ∧ matchNumber cs = none := by
  obtain ⟨sign, hsign, -⟩ := exists_optSign cs
  simp only [matchNumber, hsign]
  generalize (optSign cs).2 = body
  have hsplit := List.takeWhile_append_dropWhile (p := isDigit) (l := body)
  have hwhole := @takeWhile_ne_nil_iff isDigit body
  have hdigits : ∀ c ∈ body.takeWhile isDigit, isDigit c = true :=
    fun c hc => List.mem_takeWhile_imp hc
  generalize hrest : body.dropWhile isDigit = rest at *
  generalize body.takeWhile isDigit = whole at *
  have hhead : ∀ (f : Option (List Char)), whole ++ f.getD [] ≠ [] → ∀ tail : List Char, ∀ c ∈
      (whole ++ ((f.map ('.' :: ·)).getD [] ++ tail)).head?, c ≠ '-' ∧ c ≠ '+' := by
    intro f hne tail c hc
    cases whole with
    | cons d ds =>
      obtain rfl : d = c := by simpa using hc
      exact not_sign_of_isDigit (hdigits d List.mem_cons_self)
    | nil =>
      cases f with
      | none => exact absurd rfl hne
      | some f =>
        obtain rfl : '.' = c := by simpa using hc
        decide
  by_cases hpoint : rest.head? = some '.' ∧ (whole ≠ [] ∨ rest.tail.takeWhile isDigit ≠ [])
  · rw [if_pos hpoint]
    have hne : whole ++ (some (rest.tail.takeWhile isDigit)).getD [] ≠ [] := by
      rw [Option.getD_some, Ne, List.append_eq_nil_iff, not_and_or]
      exact hpoint.2
    have hdigit : ∀ c ∈ whole ++ (some (rest.tail.takeWhile isDigit)).getD [],
        isDigit c = true :=
      isDigit_of_mem_append hdigits fun c hc => List.mem_takeWhile_imp hc
    obtain ⟨q, hq⟩ := exists_readDecimal _ hdigit hne (rest.tail.dropWhile isDigit)
    refine .inl ⟨?_, _, sign.apply q, rfl, ?_⟩
    · rcases eq_or_ne whole [] with hnil | hne
      · rw [hnil, List.nil_append] at hsplit
        rw [← hsplit]
        exact .inr ⟨hpoint.1, takeWhile_ne_nil_iff.1 (hpoint.2.resolve_left (not_not.2 hnil))⟩
      · exact .inl (hwhole.1 hne)
    · have hread := readDecimal_sign sign (hhead _ hne (optExponent (rest.tail.dropWhile isDigit)))
      rw [hq, Option.map_some] at hread
      simpa using hread
  · rw [if_neg hpoint]
    by_cases hne : whole ≠ []
    · rw [if_pos hne]
      have hdigit : ∀ c ∈ whole ++ (none : Option (List Char)).getD [], isDigit c = true :=
        isDigit_of_mem_append hdigits (by simp)
      have hne' : whole ++ (none : Option (List Char)).getD [] ≠ [] :=
        List.append_ne_nil_of_left_ne_nil hne _
      obtain ⟨q, hq⟩ := exists_readDecimal _ hdigit hne' rest
      refine .inl ⟨.inl (hwhole.1 hne), _, sign.apply q, rfl, ?_⟩
      have hread := readDecimal_sign sign (hhead _ hne' (optExponent rest))
      rw [hq, Option.map_some] at hread
      simpa using hread
    · rw [if_neg hne]
      refine .inr ⟨?_, rfl⟩
      rintro (hdigit | ⟨hdot, hfraction⟩)
      · exact hne (hwhole.2 hdigit)
      · rw [not_not] at hne
        rw [hne, List.nil_append] at hsplit
        rw [← hsplit] at hdot hfraction
        exact hpoint ⟨hdot, .inr (takeWhile_ne_nil_iff.2 hfraction)⟩

/-- A number starts a text when it starts after the sign. -/
theorem startsWithNumber_iff {isDecimal : Char → Bool} (hminus : isDecimal '-' = false)
    (hplus : isDecimal '+' = false) (cs : List Char) :
    StartsWithNumber isDecimal cs ↔ NumberBody isDecimal (optSign cs).2 := by
  constructor
  · intro h
    cases h with
    | @digit sign c rest hc =>
      rw [sign.optSign_append]
      · exact .inl ⟨c, rfl, hc⟩
      · rintro d hd
        obtain rfl : c = d := by simpa using hd
        constructor <;> rintro rfl
        · rw [hminus] at hc
          cases hc
        · rw [hplus] at hc
          cases hc
    | @point sign c rest hc =>
      rw [sign.optSign_append]
      · exact .inr ⟨rfl, c, rfl, hc⟩
      · rintro d hd
        obtain rfl : '.' = d := by simpa using hd
        decide
  · obtain ⟨sign, -, hsplit⟩ := exists_optSign cs
    intro h
    rw [← hsplit]
    generalize (optSign cs).2 = body at h
    match body, h with
    | [], h => simp [NumberBody] at h
    | c :: rest, h =>
      rcases h with ⟨d, hd, hdigit⟩ | ⟨hdot, d, hd, hdigit⟩
      · obtain rfl : c = d := by simpa using hd
        exact .digit hdigit
      · obtain rfl : c = '.' := by simpa using hdot
        match rest, hd with
        | [], hd => cases hd
        | e :: rest, hd =>
          obtain rfl : e = d := by simpa using hd
          exact .point hdigit

theorem StartsWithNumber.append {isDecimal : Char → Bool} {cs : List Char}
    (h : StartsWithNumber isDecimal cs) (tail : List Char) :
    StartsWithNumber isDecimal (cs ++ tail) := by
  cases h with
  | digit hc =>
    rw [List.append_assoc]
    exact .digit hc
  | point hc =>
    rw [List.append_assoc]
    exact .point hc

/-- Blanks at the end do not matter. -/
theorem startsWithNumber_rdropWhile {isDecimal : Char → Bool}
    (hspace : ∀ c, isDecimal c = true → Runs.isSpace c = false) (cs : List Char) :
    StartsWithNumber isDecimal (cs.rdropWhile Runs.isSpace) ↔ StartsWithNumber isDecimal cs := by
  have hsign : ∀ sign : Sign, ∀ c ∈ sign.text, Runs.isSpace c = false := by
    intro sign c hc
    cases sign with
    | none => cases hc
    | plus => rw [List.mem_singleton.1 hc]; decide
    | minus => rw [List.mem_singleton.1 hc]; decide
  constructor
  · intro h
    obtain ⟨tail, htail⟩ := List.rdropWhile_prefix Runs.isSpace cs
    rw [← htail]
    exact h.append tail
  · intro h
    -- the characters up to the first digit are not blank
    have hstart : ∃ start, start <+: cs ∧ StartsWithNumber isDecimal start ∧
        ∀ c ∈ start, Runs.isSpace c = false := by
      cases h with
      | @digit sign c rest hc =>
        refine ⟨sign.text ++ [c], ⟨rest, by simp⟩, .digit hc, fun d hd => ?_⟩
        rcases List.mem_append.1 hd with hd | hd
        · exact hsign sign d hd
        · rw [List.mem_singleton.1 hd]
          exact hspace c hc
      | @point sign c rest hc =>
        refine ⟨sign.text ++ ['.', c], ⟨rest, by simp⟩, .point hc, fun d hd => ?_⟩
        rcases List.mem_append.1 hd with hd | hd
        · exact hsign sign d hd
        · rcases List.mem_cons.1 hd with rfl | hd
          · decide
          · rw [List.mem_singleton.1 hd]
            exact hspace c hc
    obtain ⟨start, hle, hnumber, hblank⟩ := hstart
    obtain ⟨tail, htail⟩ := start_le_rdropWhile hle hblank
    rw [← htail]
    exact hnumber.append tail

/-! ## Digits of other scripts -/

namespace UnicodeDigits

variable (digits : UnicodeDigits)

theorem isDecimal_ascii {c : Char} (hc : c.toNat < 128) : digits.isDecimal c = isDigit c := by
  rw [isDecimal, digits.ascii c hc]
  split_ifs with h
  · exact h.symm
  · exact (Bool.eq_false_iff.2 h).symm

theorem toAscii_of_ascii {c : Char} (hc : c.toNat < 128) : digits.toAscii c = c := by
  rw [toAscii, digits.ascii c hc]
  split_ifs with h
  · have hrange := h
    simp only [isDigit, Bool.and_eq_true, decide_eq_true_eq] at hrange
    rw [Option.map_some, Option.getD_some, digitChar,
      show 48 + (c.toNat - 48) = c.toNat by omega, Char.ofNat_toNat]
  · rfl

theorem isDigit_toAscii (c : Char) : isDigit (digits.toAscii c) = digits.isDecimal c := by
  rw [toAscii, isDecimal]
  cases hvalue : digits.value c with
  | some d => exact isDigit_digitChar (digits.lt c d hvalue)
  | none =>
    show isDigit c = false
    by_contra hdigit
    rw [Bool.not_eq_false] at hdigit
    have hrange := hdigit
    simp only [isDigit, Bool.and_eq_true, decide_eq_true_eq] at hrange
    have hascii := digits.ascii c (by omega)
    rw [if_pos hdigit, hvalue] at hascii
    cases hascii

/-- Only a character itself is read as a character that is no digit. -/
theorem toAscii_eq_iff {c x : Char} (hx : x.toNat < 128) (hdigit : isDigit x = false) :
    digits.toAscii c = x ↔ c = x := by
  constructor
  · intro h
    have hnone := digits.isDigit_toAscii c
    rw [h, hdigit, isDecimal] at hnone
    rw [toAscii, Option.isSome_eq_false_iff.1 hnone.symm |> Option.isNone_iff_eq_none.1] at h
    exact h
  · rintro rfl
    exact digits.toAscii_of_ascii hx

theorem optSign_map (cs : List Char) :
    (optSign (cs.map digits.toAscii)).2 = (optSign cs).2.map digits.toAscii := by
  cases cs with
  | nil => rfl
  | cons c cs =>
    have hminus := @toAscii_eq_iff digits c '-' (by decide) (by decide)
    have hplus := @toAscii_eq_iff digits c '+' (by decide) (by decide)
    rw [List.map_cons, optSign, optSign]
    by_cases h : c = '-' ∨ c = '+'
    · rw [if_pos h, if_pos (h.imp hminus.2 hplus.2)]
    · rw [if_neg h, if_neg (mt (Or.imp hminus.1 hplus.1) h), List.map_cons]

theorem numberBody_map (body : List Char) :
    NumberBody isDigit (body.map digits.toAscii) ↔ NumberBody digits.isDecimal body := by
  have hhead : ∀ cs : List Char, (∃ c ∈ (cs.map digits.toAscii).head?, isDigit c = true) ↔
      ∃ c ∈ cs.head?, digits.isDecimal c = true := by
    intro cs
    cases cs with
    | nil => simp
    | cons c cs => simp [digits.isDigit_toAscii]
  rw [NumberBody, NumberBody, hhead, ← List.map_tail, hhead]
  refine or_congr_right (and_congr_left fun _ => ?_)
  cases body with
  | nil => simp
  | cons c cs =>
    rw [List.map_cons, List.head?_cons, List.head?_cons, Option.some.injEq, Option.some.injEq]
    exact digits.toAscii_eq_iff (by decide) (by decide)

end UnicodeDigits

/-! ## Cells -/

variable {α : Type} (digits : UnicodeDigits) (float : ℚ → α)

/-- A text has no number exactly when none starts at its first character that is not
    blank. -/
theorem toNumberWith_eq_none_iff (text : String) :
    toNumberWith digits float (some text) = none ↔
      ¬ StartsWithNumber digits.isDecimal (text.toList.dropWhile Runs.isSpace) := by
  have hspace : ∀ c, digits.isDecimal c = true → Runs.isSpace c = false := by
    intro c hc
    by_contra hblank
    rw [UnicodeDigits.isDecimal, digits.space c (Bool.eq_true_of_not_eq_false hblank)] at hc
    cases hc
  have hminus : digits.isDecimal '-' = false := digits.isDecimal_ascii (by decide)
  have hplus : digits.isDecimal '+' = false := digits.isDecimal_ascii (by decide)
  rw [← startsWithNumber_rdropWhile hspace, ← Runs.toList_strip, startsWithNumber_iff hminus hplus,
    ← digits.numberBody_map, ← digits.optSign_map, toNumberWith, Option.bind_some]
  rcases matchNumber_cases ((Runs.strip text).toList.map digits.toAscii) with
    ⟨hstarts, m, q, hmatch, hread⟩ | ⟨hnot, hmatch⟩
  · rw [hmatch, Option.bind_some, hread]
    exact ⟨fun h => (Option.some_ne_none _ h).elim, fun h => absurd hstarts h⟩
  · rw [hmatch]
    exact ⟨fun _ => hnot, fun _ => rfl⟩

theorem Sign.mem_text {sign : Sign} {c : Char} (hc : c ∈ sign.text) : c = '-' ∨ c = '+' := by
  cases sign with
  | none => cases hc
  | plus => exact .inr (List.mem_singleton.1 hc)
  | minus => exact .inl (List.mem_singleton.1 hc)

theorem MetricUnit.ends_text (unit : MetricUnit) : Ends unit.text := by
  cases unit with
  | none => exact ends_nil
  | percent =>
    intro c hc
    obtain rfl : '%' = c := by simpa [MetricUnit.text] using hc
    decide
  | megabytes =>
    intro c hc
    obtain rfl : ' ' = c := by simpa [MetricUnit.text] using hc
    decide

section Core

variable {l : Literal} {sign : Sign} {unit : MetricUnit}

theorem toNat_lt_of_mem_core {c : Char} (hc : c ∈ sign.text ++ l.text ++ unit.text) :
    c.toNat < 128 := by
  rcases List.mem_append.1 hc with hc | hc
  · rcases List.mem_append.1 hc with hc | hc
    · rcases Sign.mem_text hc with rfl | rfl <;> decide
    · rcases l.mem_text hc with hdigit | rfl | rfl | rfl | rfl
      · simp only [isDigit, Bool.and_eq_true, decide_eq_true_eq] at hdigit
        omega
      all_goals decide
  · cases unit with
    | none => cases hc
    | percent =>
      rw [List.mem_singleton.1 hc]
      decide
    | megabytes =>
      simp only [MetricUnit.text, List.mem_cons, List.not_mem_nil, or_false] at hc
      rcases hc with rfl | rfl | rfl <;> decide

theorem not_isSpace_of_mem_signed {c : Char} (hc : c ∈ sign.text ++ l.text) :
    Runs.isSpace c = false := by
  rcases List.mem_append.1 hc with hc | hc
  · rcases Sign.mem_text hc with rfl | rfl <;> decide
  · exact not_isSpace_of_mem_text l c hc

/-- A cell neither starts nor ends with a blank once those around it are gone. -/
theorem not_isSpace_ends : (∀ c ∈ (sign.text ++ l.text ++ unit.text).head?,
      Runs.isSpace c = false) ∧
    ∀ c ∈ (sign.text ++ l.text ++ unit.text).getLast?, Runs.isSpace c = false := by
  obtain ⟨d, ds, hwhole, -⟩ := l.exists_whole_eq
  have hne : sign.text ++ l.text ≠ [] := by
    rw [Literal.text, Literal.plain, hwhole]
    simp
  constructor
  · intro c hc
    rw [List.head?_append_of_ne_nil _ hne] at hc
    exact not_isSpace_of_mem_signed (List.mem_of_mem_head? hc)
  · intro c hc
    cases unit with
    | none =>
      rw [MetricUnit.text, List.append_nil] at hc
      exact not_isSpace_of_mem_signed (List.mem_of_getLast? hc)
    | percent =>
      rw [List.getLast?_append] at hc
      obtain rfl : '%' = c := Option.some.inj hc
      decide
    | megabytes =>
      rw [List.getLast?_append] at hc
      obtain rfl : 'B' = c := Option.some.inj hc
      decide

end Core

/-- A cell is read as the number printed in it. -/
theorem toNumberWith_text (cell : MetricCell) :
    toNumberWith digits float (some cell.text) = some (float cell.value) := by
  obtain ⟨l, htext, hvalue⟩ := cell.number.exists_literal
  have hcore : cell.core = cell.sign.text ++ l.text ++ cell.unit.text := by
    rw [MetricCell.core, htext]
  obtain ⟨hhead, hlast⟩ := @not_isSpace_ends l cell.sign cell.unit
  rw [← hcore] at hhead hlast
  have hascii : cell.core.map digits.toAscii = cell.core := by
    refine (List.map_congr_left fun c hc => ?_).trans (List.map_id _)
    rw [hcore] at hc
    exact digits.toAscii_of_ascii (toNat_lt_of_mem_core hc)
  have hbody : ∀ rest : List Char, ∀ c ∈ (l.text ++ rest).head?, c ≠ '-' ∧ c ≠ '+' := by
    obtain ⟨d, ds, hwhole, hd⟩ := l.exists_whole_eq
    intro rest c hc
    rw [Literal.text, Literal.plain, hwhole] at hc
    obtain rfl : d = c := by simpa using hc
    exact not_sign_of_isDigit hd
  have hread := readDecimal_sign cell.sign (hbody [])
  rw [List.append_nil, l.readDecimal_text, Option.map_some, hvalue] at hread
  rw [toNumberWith, Option.bind_some, MetricCell.text,
    Runs.toList_strip_between cell.blank hhead hlast, hascii, hcore, List.append_assoc,
    matchNumber_sign _ (hbody _), matchNumber_append l cell.unit.ends_text, Option.map_some,
    Option.bind_some, hread, Option.map_some]
  rfl

/-- The function of the charts, on cells in ASCII. -/
theorem toNumber_eq_toNumberWith {text : String}
    (hascii : ∀ c ∈ (Runs.strip text).toList, c.toNat < 128) :
    toNumber (some text) = toNumberWith digits fl (some text) := by
  have hmap : (Runs.strip text).toList.map digits.toAscii = (Runs.strip text).toList :=
    (List.map_congr_left fun c hc => digits.toAscii_of_ascii (hascii c hc)).trans (List.map_id _)
  rw [toNumber, toNumberWith, Option.bind_some, Option.bind_some, hmap]
  refine congrArg (Option.bind _) (funext fun m => ?_)
  rw [readFloat_eq]

/-- **Cells read back as the number printed**: whatever `float` makes of a number, a cell
    gives it the very number that was printed, and there is none exactly in the texts in
    which no number starts at the first character that is not blank. -/
theorem toNumberWith_cell :
    (∀ cell : MetricCell,
      toNumberWith digits float (some cell.text) = some (float cell.value)) ∧
    ∀ text : String, toNumberWith digits float (some text) = none ↔
      ¬ StartsWithNumber digits.isDecimal (text.toList.dropWhile Runs.isSpace) :=
  ⟨toNumberWith_text digits float, toNumberWith_eq_none_iff digits float⟩

/-! ## A cell -/

/-- The zeros of the scripts with decimal digits, but for the ASCII one; each is followed by
    the other nine digits. -/
def otherZeros : List ℕ :=
  [0x660, 0x6f0, 0x7c0, 0x966, 0x9e6, 0xa66, 0xae6, 0xb66, 0xbe6, 0xc66, 0xce6, 0xd66, 0xde6, 0xe50,
    0xed0, 0xf20, 0x1040, 0x1090, 0x17e0, 0x1810, 0x1946, 0x19d0, 0x1a80, 0x1a90, 0x1b50, 0x1bb0,
    0x1c40, 0x1c50, 0xa620, 0xa8d0, 0xa900, 0xa9d0, 0xa9f0, 0xaa50, 0xabf0, 0xff10, 0x104a0,
    0x10d30, 0x11066, 0x110f0, 0x11136, 0x111d0, 0x112f0, 0x11450, 0x114d0, 0x11650, 0x116c0,
    0x11730, 0x118e0, 0x11950, 0x11c50, 0x11d50, 0x11da0, 0x11f50, 0x16a60, 0x16ac0, 0x16b50,
    0x1d7ce, 0x1d7d8, 0x1d7e2, 0x1d7ec, 0x1d7f6, 0x1e140, 0x1e2f0, 0x1e4f0, 0x1e950, 0x1fbf0]

/-- The zero of the digits that a code point is one of. -/
def zeroOf (zeros : List ℕ) (n : ℕ) : Option ℕ := zeros.find? fun z => z ≤ n ∧ n < z + 10

theorem zeroOf_eq_none_iff {zeros : List ℕ} {n : ℕ} :
    zeroOf zeros n = none ↔ ∀ z ∈ zeros, ¬ (z ≤ n ∧ n < z + 10) := by
  simp [zeroOf, List.find?_eq_none]

theorem zeroOf_otherZeros {n : ℕ} (h : n < 128) : zeroOf otherZeros n = none := by
  have hlarge : ∀ z ∈ otherZeros, 128 ≤ z := by decide
  refine zeroOf_eq_none_iff.2 fun z hz hle => ?_
  have := hlarge z hz
  omega

/-- The value of a code point as a decimal digit. -/
def digitValue (n : ℕ) : Option ℕ := (zeroOf (48 :: otherZeros) n).map fun z => n - z

theorem digitValue_lt {n d : ℕ} (h : digitValue n = some d) : d < 10 := by
  obtain ⟨z, hz, rfl⟩ := Option.map_eq_some_iff.1 h
  have hrange := List.find?_some hz
  simp only [decide_eq_true_eq] at hrange
  omega

theorem digitValue_ascii {c : Char} (h : c.toNat < 128) :
    digitValue c.toNat = if isDigit c then some (c.toNat - 48) else none := by
  have hother := zeroOf_otherZeros h
  rw [zeroOf] at hother
  rw [digitValue, zeroOf, List.find?_cons, hother]
  by_cases hdigit : isDigit c = true
  · have hrange := hdigit
    simp only [isDigit, Bool.and_eq_true, decide_eq_true_eq] at hrange
    rw [if_pos hdigit, decide_eq_true (by omega)]
    rfl
  · have hrange := hdigit
    simp only [isDigit, Bool.and_eq_true, decide_eq_true_eq] at hrange
    rw [if_neg hdigit, decide_eq_false (by omega)]
    rfl

/-- No space is a digit: the digits lie between the blocks of spaces. -/
theorem digitValue_space {c : Char} (h : Runs.isSpace c = true) : digitValue c.toNat = none := by
  have hgaps : ∀ z ∈ 48 :: otherZeros, 32 < z ∧ z + 10 ≤ 0x85 ∨ 0xa0 < z ∧ z + 10 ≤ 0x1680 ∨
      0x1680 < z ∧ z + 10 ≤ 0x2000 ∨ 0x3000 < z := by decide
  simp only [Runs.isSpace, Bool.or_eq_true, Bool.and_eq_true, decide_eq_true_eq] at h
  have hnone : zeroOf (48 :: otherZeros) c.toNat = none := by
    refine zeroOf_eq_none_iff.2 fun z hz hle => ?_
    have := hgaps z hz
    omega
  rw [digitValue, hnone]
  rfl

/-- The decimal digits of Unicode 15.1. -/
def unicodeDigits : UnicodeDigits where
  value c := digitValue c.toNat
  lt _ _ hd := digitValue_lt hd
  ascii _ hc := digitValue_ascii hc
  space _ hc := digitValue_space hc

/-- The cell `' -2.71%'`. -/
def percentCell : MetricCell where
  before := [' ']
  sign := .minus
  number := .fixed 2 (271 / 100)
  unit := .percent
  after := []
  blank := by simp [Runs.isSpace]

theorem toNumberWith_cell_percent :
    percentCell.text = " -2.71%" ∧
      toNumberWith unicodeDigits fl (some percentCell.text) = some (fl (-(271 / 100))) ∧
      toNumberWith unicodeDigits fl (some "X") = none := by
  have hvalue : percentCell.value = -(271 / 100) := by decide +kernel
  refine ⟨by decide +kernel, ?_, ?_⟩
  · rw [← hvalue]
    exact (toNumberWith_cell unicodeDigits fl).1 percentCell
  · have hminus : unicodeDigits.isDecimal '-' = false :=
      unicodeDigits.isDecimal_ascii (by decide)
    have hplus : unicodeDigits.isDecimal '+' = false := unicodeDigits.isDecimal_ascii (by decide)
    have hletter : unicodeDigits.isDecimal 'X' = false := unicodeDigits.isDecimal_ascii (by decide)
    refine ((toNumberWith_cell unicodeDigits fl).2 "X").2 ?_
    rw [startsWithNumber_iff hminus hplus]
    simp [NumberBody, optSign, Runs.isSpace, hletter]

end TransferTestbed.Charts
