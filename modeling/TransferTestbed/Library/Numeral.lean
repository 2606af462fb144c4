import TransferTestbed.Library.Decimal

/-!
# Reading numerals

Python's `int(text)` and `float(text)` on a text without surrounding blanks, for
ASCII digits: an optional sign, digits with single underscores between them and,
for floats, a fraction and an exponent. The names of infinities and of NaN are
not numerals here.

* `readFloat_eq`: `float` is the number denoted, rounded once.
* `takeDigits_append`: a run of digits is taken whole.
* `digitsValue_natText`: the digits of an integer have its value.
* `readExponent_exponentText`: the exponent of a printed float is read back.
-/

namespace TransferTestbed.Numeral

open Decimal

/-- The sign a text starts with, and the rest: `true` is a minus. -/
def takeSign : List Char → Bool × List Char
  | [] => (false, [])
  | c :: cs => if c = '-' then (true, cs) else if c = '+' then (false, cs) else (false, c :: cs)

/-- The digits a text starts with, and the rest. A single underscore may stand
    between two digits; `after` says that the text follows a digit. -/
def takeDigits : Bool → List Char → List Char × List Char
  | _, [] => ([], [])
  | after, c :: cs =>
    if isDigit c then (c :: (takeDigits true cs).1, (takeDigits true cs).2)
    else if after && c = '_' && (cs.head?.any isDigit) then takeDigits false cs
    else ([], c :: cs)

/-- The value of a digit string. -/
def digitsValue (ds : List Char) : ℕ := ds.foldl (fun acc c => 10 * acc + (c.toNat - 48)) 0

/-- `int(text)`; `none` is the `ValueError`. -/
def readInt (text : List Char) : Option ℤ :=
  let signed := takeSign text
  let run := takeDigits false signed.2
  if run.1 = [] ∨ run.2 ≠ [] then none
  else some (if signed.1 then -(digitsValue run.1 : ℤ) else digitsValue run.1)

/-- The fraction after the digits of a float: its digits and the rest. -/
def takeFraction : List Char → List Char × List Char
  | [] => ([], [])
  | c :: cs => if c = '.' then takeDigits false cs else ([], c :: cs)

/-- The exponent at the end of a float. -/
def readExponent : List Char → Option ℤ
  | [] => some 0
  | c :: cs => if c = 'e' ∨ c = 'E' then readInt cs else none

/-- `float(text)`; `none` is the `ValueError`. Exponents are unbounded: the number is rounded as
    in the normal range, where Python gives an infinity or a subnormal beyond it. -/
def readFloat (text : List Char) : Option ℚ :=
  let signed := takeSign text
  let whole := takeDigits false signed.2
  let fraction := takeFraction whole.2
  if whole.1 ++ fraction.1 = [] then none
  else
    (readExponent fraction.2).map fun e =>
      let shift : ℤ := e - fraction.1.length
      let value := Binary64.fl (digitsValue (whole.1 ++ fraction.1) * 10 ^ shift)
      if signed.1 then -value else value

/-- The number that the text of a float denotes, before it is rounded to binary64. -/
def readDecimal (text : List Char) : Option ℚ :=
  let signed := takeSign text
  let whole := takeDigits false signed.2
  let fraction := takeFraction whole.2
  if whole.1 ++ fraction.1 = [] then none
  else
    (readExponent fraction.2).map fun e =>
      let shift : ℤ := e - fraction.1.length
      let value : ℚ := digitsValue (whole.1 ++ fraction.1) * 10 ^ shift
      if signed.1 then -value else value

/-- `float` rounds the number once. -/
theorem readFloat_eq (text : List Char) : readFloat text = (readDecimal text).map Binary64.fl := by
  simp only [readFloat, readDecimal]
  by_cases hempty : (takeDigits false (takeSign text).2).1 ++
      (takeFraction (takeDigits false (takeSign text).2).2).1 = []
  · rw [if_pos hempty, if_pos hempty, Option.map_none]
  · rw [if_neg hempty, if_neg hempty, Option.map_map]
    generalize (takeSign text).1 = minus
    cases minus with
    | false => simp only [Bool.false_eq_true, if_false, Function.comp_def]
    | true => simp only [if_true, Function.comp_def, Binary64.fl_neg]

/-! ## Runs of digits -/

theorem takeDigits_append {ds rest : List Char} (hds : ∀ c ∈ ds, isDigit c = true)
    (hrest : ∀ c ∈ rest.head?, isDigit c = false ∧ c ≠ '_') (after : Bool) :
    takeDigits after (ds ++ rest) = (ds, rest) := by
  induction ds generalizing after with
  | nil =>
    match rest, hrest with
    | [], _ => rfl
    | c :: cs, hrest =>
      obtain ⟨hdigit, hbar⟩ := hrest c rfl
      simp [takeDigits, hdigit, hbar]
  | cons d ds ih =>
    have hd := hds d List.mem_cons_self
    have htail := ih (fun c hc => hds c (List.mem_cons_of_mem _ hc)) true
    rw [List.cons_append, takeDigits, if_pos hd, htail]

theorem digitsValue_append (a b : List Char) :
    digitsValue (a ++ b) = digitsValue a * 10 ^ b.length + digitsValue b := by
  have hacc : ∀ (cs : List Char) (acc : ℕ),
      cs.foldl (fun acc c => 10 * acc + (c.toNat - 48)) acc =
        acc * 10 ^ cs.length + digitsValue cs := by
    intro cs
    induction cs with
    | nil =>
      intro acc
      simp [digitsValue]
    | cons c cs ih =>
      intro acc
      have hhead : digitsValue (c :: cs) = (10 * 0 + (c.toNat - 48)) * 10 ^ cs.length +
          digitsValue cs := ih _
      rw [List.foldl_cons, ih, hhead, List.length_cons]
      ring
  rw [digitsValue, List.foldl_append, hacc]
  rfl

theorem digitsValue_replicate_zero (n : ℕ) : digitsValue (List.replicate n '0') = 0 := by
  induction n with
  | zero => rfl
  | succ n ih =>
    rw [List.replicate_succ', digitsValue_append, ih]
    rfl

theorem digitsValue_map_digitChar {ds : List ℕ} (h : ∀ d ∈ ds, d < 10) :
    digitsValue (ds.map digitChar) = Nat.ofDigits 10 ds.reverse := by
  induction ds using List.reverseRecOn with
  | nil => rfl
  | append_singleton ds d ih =>
    have hd : digitsValue [digitChar d] = d := by
      simp only [digitsValue, List.foldl_cons, List.foldl_nil]
      rw [toNat_digitChar (h d (by simp))]
      omega
    rw [List.map_append, List.map_singleton, digitsValue_append,
      ih fun x hx => h x (by simp [hx]), List.length_singleton, hd, List.reverse_append,
      List.reverse_singleton, List.singleton_append, Nat.ofDigits_cons]
    push_cast
    ring

theorem digitsValue_natText (n : ℕ) : digitsValue (natText n) = n := by
  rcases eq_or_ne n 0 with rfl | hn
  · rfl
  · rw [natText_eq hn, digitsValue_map_digitChar, List.reverse_reverse, Nat.ofDigits_digits]
    intro d hd
    exact Nat.digits_lt_base (by norm_num) (List.mem_reverse.1 hd)

theorem isDigit_of_mem_natText {n : ℕ} {c : Char} (h : c ∈ natText n) : isDigit c = true := by
  rcases eq_or_ne n 0 with rfl | hn
  · rw [natText, if_pos rfl, List.mem_singleton] at h
    rw [h]
    rfl
  · rw [natText_eq hn, List.mem_map] at h
    obtain ⟨d, hd, rfl⟩ := h
    exact isDigit_digitChar (Nat.digits_lt_base (by norm_num) (List.mem_reverse.1 hd))

theorem natText_ne_nil (n : ℕ) : natText n ≠ [] := by
  obtain ⟨c, cs, hcs, -⟩ := isDigit_head_natText n
  rw [hcs]
  exact List.cons_ne_nil _ _

/-- Two integers have different texts. -/
theorem intText_injective : Function.Injective intText := by
  have hminus (n m : ℕ) : '-' :: natText n ≠ natText m := by
    intro h
    have hdigit : isDigit '-' = true :=
      isDigit_of_mem_natText (n := m) (h ▸ List.mem_cons_self)
    exact absurd hdigit (by decide)
  have hvalue {n m : ℕ} (h : natText n = natText m) : n = m := by
    rw [← digitsValue_natText n, h, digitsValue_natText]
  intro z z' h
  unfold intText at h
  split_ifs at h with hz hz' hz'
  · have := hvalue (List.cons.inj h).2
    omega
  · exact absurd h (hminus _ _)
  · exact absurd h.symm (hminus _ _)
  · have := hvalue h
    omega

theorem digitsValue_padLeft (w : ℕ) (cs : List Char) :
    digitsValue (padLeft w cs) = digitsValue cs := by
  rw [padLeft, digitsValue_append, digitsValue_replicate_zero, zero_mul, zero_add]

theorem isDigit_of_mem_padLeft {w : ℕ} {cs : List Char} (h : ∀ c ∈ cs, isDigit c = true)
    {c : Char} (hc : c ∈ padLeft w cs) : isDigit c = true := by
  rcases List.mem_append.1 hc with hzero | hmem
  · rw [List.eq_of_mem_replicate hzero]
    rfl
  · exact h c hmem

/-! ## Exponents -/

theorem readInt_signed {ds : List Char} (hne : ds ≠ []) (hds : ∀ c ∈ ds, isDigit c = true)
    (negative : Bool) :
    readInt ((if negative then '-' else '+') :: ds) =
      some (if negative then -(digitsValue ds : ℤ) else digitsValue ds) := by
  have hrun := @takeDigits_append ds [] hds (by simp) false
  rw [List.append_nil] at hrun
  cases negative with
  | true => simp [readInt, takeSign, hrun, hne]
  | false => simp [readInt, takeSign, hrun, hne]

theorem readExponent_exponentText (e : ℤ) : readExponent (exponentText e) = some e := by
  have hds : ∀ c ∈ padLeft 2 (natText e.natAbs), isDigit c = true :=
    fun c hc => isDigit_of_mem_padLeft (fun c hc => isDigit_of_mem_natText hc) hc
  have hne : padLeft 2 (natText e.natAbs) ≠ [] := by
    rw [padLeft]
    exact List.append_ne_nil_of_right_ne_nil _ (natText_ne_nil _)
  have hread := readInt_signed hne hds (decide (e < 0))
  simp only [decide_eq_true_eq, digitsValue_padLeft, digitsValue_natText] at hread
  rw [exponentText, readExponent, if_pos (.inl rfl), hread]
  congr 1
  by_cases he : e < 0
  · rw [if_pos he]
    omega
  · rw [if_neg he]
    omega

end TransferTestbed.Numeral
