import TransferTestbed.Common.Runs
import TransferTestbed.Library.Dict
import TransferTestbed.Library.Literal

/-!
# Size labels

`common/charts.py` puts a point at the size of its file: the size is printed with three
significant digits (`_client_label`, `_pcap_label`), and the first number in the label
is the x coordinate (`_label_sort_key`). The two regular expressions differ: the one of
`_to_number` knows exponents, the one of `_label_sort_key` does not.

Results:

* `toNumber_text`: a cell that holds a literal is read as its value.
* `head?_labelSortKey`: the first number of a label is what stands before its exponent.
* `x_eq_rounded_size_iff`: for which sizes the x coordinate is the rounded size.
-/

namespace TransferTestbed.Charts

open Decimal Numeral Binary64 Rounding

/-! ## Cells -/

/-- The cells of a row of `csv.DictReader`: `none` for a column the line does not reach. -/
abbrev Row := Dict String (Option String)

/-- `row.get(column)`. -/
def cell (row : Row) (column : String) : Option String := (row.get? column).join

/-- `[-+]?`: the sign a text starts with, and the rest. -/
def optSign : List Char → List Char × List Char
  | [] => ([], [])
  | c :: cs => if c = '-' ∨ c = '+' then ([c], cs) else ([], c :: cs)

/-- `(?:[eE][-+]?\d+)?`: the exponent a text starts with. -/
def optExponent : List Char → List Char
  | [] => []
  | c :: cs =>
    let ds := (optSign cs).2.takeWhile isDigit
    if (c = 'e' ∨ c = 'E') ∧ ds ≠ [] then c :: (optSign cs).1 ++ ds else []

/-- The match of `[-+]?(?:\d+(?:\.\d*)?|\.\d+)(?:[eE][-+]?\d+)?` at the start of a text. -/
def matchNumber (cs : List Char) : Option (List Char) :=
  let sign := (optSign cs).1
  let whole := (optSign cs).2.takeWhile isDigit
  let rest := (optSign cs).2.dropWhile isDigit
  if rest.head? = some '.' ∧ (whole ≠ [] ∨ rest.tail.takeWhile isDigit ≠ []) then
    some (sign ++ whole ++ '.' :: rest.tail.takeWhile isDigit ++
      optExponent (rest.tail.dropWhile isDigit))
  else if whole ≠ [] then some (sign ++ whole ++ optExponent rest)
  else none

/-- `_to_number(value)` (charts.py:152-157), of a cell whose digits are ASCII digits. -/
def toNumber (value : Option String) : Option ℚ :=
  value.bind fun value => (matchNumber (Runs.strip value).toList).bind readFloat

/-! ## Labels -/

/-- The text of a size in MB. -/
def sizeLabel (size : ℚ) : String := general 3 size ++ " MB"

/-- `_client_label(row, protocol)` (charts.py:179-184). -/
def clientLabel (row : Row) : String :=
  match toNumber (cell row "file_size") with
  | some size => sizeLabel size
  | none => "?"

/-- `text.replace(w, "")`, for a non-empty `w`. -/
def removeAll (w : List Char) : List Char → List Char
  | [] => []
  | c :: cs =>
    if w.isPrefixOf (c :: cs) then removeAll w (cs.drop (w.length - 1)) else c :: removeAll w cs
termination_by cs => cs.length
decreasing_by
  · simp only [List.length_drop, List.length_cons]
    omega
  · simp

/-- A cell that counts as true. -/
def truthy (cell : Option String) : Option String := cell.filter fun s => s ≠ ""

/-- `size / (1024 * 1024)`. -/
def megabytes (size : ℚ) : ℚ := fl (size / 2 ^ 20)

/-- `_pcap_label(row, protocol)` (charts.py:187-198). -/
def pcapLabel (row : Row) : String :=
  match toNumber (cell row "file_size_bytes") with
  | some size => if size ≠ 0 then sizeLabel (megabytes size) else name
  | none => name
where
  name :=
    let name := (((truthy (cell row "filename")).or (truthy (cell row "label"))).getD "?")
    String.ofList (removeAll ".bin".toList
      (removeAll "binary_file_".toList (Runs.strip name).toList))

/-- `_size_mb_client(row)` (charts.py:201-202). -/
def sizeMbClient (row : Row) : Option ℚ := toNumber (cell row "file_size")

/-- `_size_mb_pcap(row)` (charts.py:205-207). -/
def sizeMbPcap (row : Row) : Option ℚ :=
  (toNumber (cell row "file_size_bytes")).bind fun size =>
    if size ≠ 0 then some (megabytes size) else none

/-- The match of `[-+]?\d+(?:\.\d+)?` at the start of a text, and the rest. -/
def matchPlain (cs : List Char) : Option (List Char × List Char) :=
  let sign := (optSign cs).1
  let whole := (optSign cs).2.takeWhile isDigit
  let rest := (optSign cs).2.dropWhile isDigit
  if whole = [] then none
  else if rest.head? = some '.' ∧ rest.tail.takeWhile isDigit ≠ [] then
    some (sign ++ whole ++ '.' :: rest.tail.takeWhile isDigit, rest.tail.dropWhile isDigit)
  else some (sign ++ whole, rest)

/-- `re.findall` of that expression; each match or character takes one unit of fuel. -/
def findPlain : ℕ → List Char → List (List Char)
  | 0, _ => []
  | _ + 1, [] => []
  | fuel + 1, c :: cs =>
    match matchPlain (c :: cs) with
    | some (m, rest) => m :: findPlain fuel rest
    | none => findPlain fuel cs

/-- `_label_sort_key(label)` (charts.py:210-212). -/
def labelSortKey (label : String) : List ℚ :=
  let nums := (findPlain label.toList.length label.toList).filterMap readFloat
  if nums = [] then [0] else nums

/-! ## Reading a literal -/

theorem takeWhile_append_of_head? {p : Char → Bool} {ds rest : List Char}
    (hds : ∀ c ∈ ds, p c = true) (hrest : ∀ c ∈ rest.head?, p c = false) :
    (ds ++ rest).takeWhile p = ds ∧ (ds ++ rest).dropWhile p = rest := by
  rw [List.takeWhile_append_of_pos hds, List.dropWhile_append_of_pos hds]
  match rest, hrest with
  | [], _ => simp
  | c :: cs, hrest =>
    have hc := hrest c rfl
    simp [hc]

theorem optSign_of_isDigit {c : Char} {cs : List Char} (h : isDigit c = true) :
    optSign (c :: cs) = ([], c :: cs) := by
  have hne : ¬ (c = '-' ∨ c = '+') := by
    rintro (rfl | rfl) <;> revert h <;> decide
  rw [optSign, if_neg hne]

theorem head?_tail_append (l : Literal) {rest : List Char} {c : Char}
    (hc : c ∈ (l.tail ++ rest).head?) : c = 'e' ∨ c ∈ rest.head? := by
  match ht : l.tail, hc with
  | [], hc => exact .inr hc
  | d :: ds, hc =>
    have hd : d = 'e' := l.head?_tail (by rw [ht]; rfl)
    simp only [List.cons_append, List.head?_cons, Option.mem_def, Option.some.injEq] at hc
    exact .inl (hc ▸ hd)

/-- No fraction starts after the digits of a literal without one. -/
theorem head?_tail_append_ne_dot (l : Literal) {rest : List Char}
    (hrest : ∀ c ∈ rest.head?, c ≠ '.') : (l.tail ++ rest).head? ≠ some '.' := by
  intro h
  rcases head?_tail_append l h with he | hr
  · exact absurd he (by decide)
  · exact hrest _ hr rfl

/-- The digits a literal starts with, where no digit, point or exponent follows it. -/
theorem takeWhile_text (l : Literal) {rest : List Char}
    (hrest : ∀ c ∈ rest.head?, isDigit c = false) :
    (l.text ++ rest).takeWhile isDigit = l.whole ∧
      (l.text ++ rest).dropWhile isDigit =
        (l.fraction.map ('.' :: ·)).getD [] ++ (l.tail ++ rest) := by
  have htext : l.text ++ rest = l.whole ++
      ((l.fraction.map ('.' :: ·)).getD [] ++ (l.tail ++ rest)) := by
    simp only [Literal.text, Literal.plain, List.append_assoc]
  rw [htext]
  refine takeWhile_append_of_head? (fun c hc => l.isDigit_of_mem_whole hc) ?_
  intro c hc
  cases hf : l.fraction with
  | some f =>
    simp only [hf, Option.map_some, Option.getD_some, List.cons_append, List.head?_cons,
      Option.mem_def, Option.some.injEq] at hc
    rw [← hc]
    decide
  | none =>
    rw [hf, Option.map_none, Option.getD_none, List.nil_append] at hc
    rcases head?_tail_append l hc with rfl | h
    · decide
    · exact hrest c h

theorem takeWhile_fraction (l : Literal) {f rest : List Char} (hf : l.fraction = some f)
    (hrest : ∀ c ∈ rest.head?, isDigit c = false) :
    (f ++ (l.tail ++ rest)).takeWhile isDigit = f ∧
      (f ++ (l.tail ++ rest)).dropWhile isDigit = l.tail ++ rest := by
  refine takeWhile_append_of_head? (fun c hc => l.isDigit_of_mem_fraction hf hc) ?_
  intro c hc
  rcases head?_tail_append l hc with rfl | h
  · decide
  · exact hrest c h

theorem optSign_text (l : Literal) (rest : List Char) :
    optSign (l.text ++ rest) = ([], l.text ++ rest) := by
  obtain ⟨c, cs, hwhole, hc⟩ := l.exists_whole_eq
  rw [Literal.text, Literal.plain, hwhole]
  exact optSign_of_isDigit hc

/-- What may follow a numeral: nothing that would continue it. -/
def Ends (rest : List Char) : Prop :=
  ∀ c ∈ rest.head?, isDigit c = false ∧ c ≠ '.' ∧ c ≠ 'e' ∧ c ≠ 'E'

theorem ends_nil : Ends [] := by
  intro c hc
  cases hc

theorem optExponent_of_ends {rest : List Char} (hrest : Ends rest) : optExponent rest = [] := by
  cases rest with
  | nil => rfl
  | cons c cs =>
    obtain ⟨-, -, he, hE⟩ := hrest c rfl
    simp only [optExponent]
    rw [if_neg fun h => h.1.elim he hE]

theorem optExponent_tail (l : Literal) {rest : List Char} (hrest : Ends rest) :
    optExponent (l.tail ++ rest) = l.tail := by
  rw [Literal.tail]
  cases l.exponent with
  | none => exact optExponent_of_ends hrest
  | some e =>
    have hds : ∀ c ∈ padLeft 2 (natText e.natAbs), isDigit c = true :=
      fun c hc => isDigit_of_mem_padLeft (fun c hc => isDigit_of_mem_natText hc) hc
    have hne : padLeft 2 (natText e.natAbs) ≠ [] :=
      List.append_ne_nil_of_right_ne_nil _ (natText_ne_nil _)
    have hsign : ∀ cs, optSign ((if e < 0 then '-' else '+') :: cs) =
        ([if e < 0 then '-' else '+'], cs) := by
      intro cs
      by_cases he : e < 0
      · rw [if_pos he]
        rfl
      · rw [if_neg he]
        rfl
    have htake : (padLeft 2 (natText e.natAbs) ++ rest).takeWhile isDigit =
        padLeft 2 (natText e.natAbs) :=
      (takeWhile_append_of_head? hds fun c hc => (hrest c hc).1).1
    simp only [Option.map_some, Option.getD_some, exponentText, optExponent, List.cons_append,
      hsign, htake]
    rw [if_pos ⟨.inl trivial, hne⟩]
    rfl

/-- The expression of `_to_number` matches a literal, and nothing of what follows it. -/
theorem matchNumber_append (l : Literal) {rest : List Char} (hrest : Ends rest) :
    matchNumber (l.text ++ rest) = some l.text := by
  have hsign := optSign_text l rest
  obtain ⟨htake, hdrop⟩ := takeWhile_text l fun c hc => (hrest c hc).1
  simp only [matchNumber, hsign, htake, hdrop, List.nil_append]
  cases hf : l.fraction with
  | none =>
    have hhead := head?_tail_append_ne_dot l fun c hc => (hrest c hc).2.1
    rw [Option.map_none, Option.getD_none, List.nil_append, if_neg (fun h => hhead h.1),
      if_pos l.whole_ne, optExponent_tail l hrest, Literal.text, Literal.plain, hf,
      Option.map_none, Option.getD_none, List.append_nil]
  | some f =>
    have hfrac := takeWhile_fraction l hf fun c hc => (hrest c hc).1
    simp only [Option.map_some, Option.getD_some, List.cons_append, List.head?_cons,
      List.tail_cons, true_and, hfrac]
    rw [if_pos (.inl l.whole_ne), optExponent_tail l hrest, Literal.text, Literal.plain, hf]
    simp

/-- The expression of `_to_number` matches a literal whole. -/
theorem matchNumber_text (l : Literal) : matchNumber l.text = some l.text := by
  have h := matchNumber_append l ends_nil
  rwa [List.append_nil] at h

theorem not_isSpace_of_isDigit {c : Char} (h : isDigit c = true) : Runs.isSpace c = false := by
  simp only [isDigit, Bool.and_eq_true, decide_eq_true_eq] at h
  simp only [Runs.isSpace, Bool.or_eq_false_iff, Bool.and_eq_false_iff, decide_eq_false_iff_not]
  omega

theorem not_isSpace_of_mem_text (l : Literal) : ∀ c ∈ l.text, Runs.isSpace c = false := by
  intro c hc
  rcases l.mem_text hc with hdigit | rfl | rfl | rfl | rfl
  · exact not_isSpace_of_isDigit hdigit
  all_goals decide

/-- **A cell that holds a literal is read as its value.** -/
theorem toNumber_text (l : Literal) {text : String} (h : l.text = text.toList) :
    toNumber (some text) = some (fl l.value) := by
  have hstrip : Runs.strip text = text := Runs.strip_eq_self (by
    rw [← h]
    exact not_isSpace_of_mem_text l)
  rw [toNumber, Option.bind_some, hstrip, ← h, matchNumber_text, Option.bind_some,
    Literal.readFloat_text]

theorem matchNumber_minus {cs : List Char} (h : optSign cs = ([], cs)) :
    matchNumber ('-' :: cs) = (matchNumber cs).map ('-' :: ·) := by
  have hminus : optSign ('-' :: cs) = (['-'], cs) := rfl
  simp only [matchNumber, h, hminus]
  split_ifs <;> simp

theorem readFloat_minus {cs : List Char} (h : takeSign cs = (false, cs)) :
    readFloat ('-' :: cs) = (readFloat cs).map fun x => -x := by
  have hminus : takeSign ('-' :: cs) = (true, cs) := rfl
  simp only [readFloat, h, hminus, Bool.false_eq_true, if_true, if_false]
  split_ifs with hempty
  · rfl
  · rw [Option.map_map]
    rfl

/-- A literal after a minus sign. -/
theorem toNumber_minus (l : Literal) {text : String} (h : '-' :: l.text = text.toList) :
    toNumber (some text) = some (-fl l.value) := by
  have hsign : optSign l.text = ([], l.text) := by simpa using optSign_text l []
  have htake : takeSign l.text = (false, l.text) := by
    obtain ⟨c, cs, hwhole, hc⟩ := l.exists_whole_eq
    rw [Literal.text, Literal.plain, hwhole]
    exact Literal.takeSign_of_isDigit hc
  have hstrip : Runs.strip text = text := Runs.strip_eq_self (by
    rw [← h]
    intro c hc
    rcases List.mem_cons.1 hc with rfl | hc
    · decide
    · exact not_isSpace_of_mem_text l c hc)
  rw [toNumber, Option.bind_some, hstrip, ← h, matchNumber_minus hsign, matchNumber_text,
    Option.map_some, Option.bind_some, readFloat_minus htake, Literal.readFloat_text,
    Option.map_some]

/-- A formatted float is read as a number. -/
theorem exists_toNumber_fixed {d : ℕ} (hd : 0 < d) (q : ℚ) :
    ∃ value, toNumber (some (fixed d q)) = some value := by
  rcases lt_or_ge q 0 with hq | hq
  · obtain ⟨l, hl, -⟩ := exists_fixed hd (neg_nonneg.2 hq.le)
    have hminus : (fixed d q).toList = '-' :: (fixed d (-q)).toList := by
      simp only [fixed, abs_neg, if_pos hq, if_neg (not_lt.2 (neg_nonneg.2 hq.le)),
        String.toList_ofList]
    exact ⟨_, toNumber_minus l (by rw [hl, hminus])⟩
  · obtain ⟨l, hl, -⟩ := exists_fixed hd hq
    exact ⟨_, toNumber_text l hl⟩

/-- A printed integer is read as a number. -/
theorem exists_toNumber_intText (z : ℤ) :
    ∃ value, toNumber (some (String.ofList (intText z))) = some value := by
  obtain ⟨l, hl, -⟩ := exists_natText z.natAbs
  rcases lt_or_ge z 0 with hz | hz
  · exact ⟨_, toNumber_minus l (by rw [String.toList_ofList, intText, if_pos hz, hl])⟩
  · exact ⟨_, toNumber_text l (by rw [String.toList_ofList, intText, if_neg (not_lt.2 hz), hl])⟩

/-! ## The first number of a label -/

/-- The expression of `_label_sort_key` stops before the exponent. -/
theorem matchPlain_text (l : Literal) {rest : List Char}
    (hrest : ∀ c ∈ rest.head?, isDigit c = false ∧ c ≠ '.') :
    matchPlain (l.text ++ rest) = some (l.plain, l.tail ++ rest) := by
  obtain ⟨htake, hdrop⟩ := takeWhile_text l fun c hc => (hrest c hc).1
  simp only [matchPlain, optSign_text, htake, hdrop, if_neg l.whole_ne, List.nil_append]
  cases hf : l.fraction with
  | none =>
    have hhead := head?_tail_append_ne_dot l fun c hc => (hrest c hc).2
    rw [Option.map_none, Option.getD_none, List.nil_append, if_neg (fun h => hhead h.1),
      Literal.plain, hf, Option.map_none, Option.getD_none, List.append_nil]
  | some f =>
    obtain ⟨hfrac, hrest'⟩ := takeWhile_fraction l hf fun c hc => (hrest c hc).1
    have hne : f ≠ [] := by
      rintro rfl
      exact l.fraction_ne hf
    simp only [Option.map_some, Option.getD_some, List.cons_append, List.head?_cons,
      List.tail_cons, true_and, hfrac, hrest']
    rw [if_pos hne, Literal.plain, hf]
    rfl

/-- The digits and the fraction of a literal are a literal. -/
theorem readFloat_plain (l : Literal) : readFloat l.plain = some (fl l.mantissa) := by
  have h := Literal.readFloat_text { l with exponent := none }
  have htext : Literal.text { l with exponent := none } = l.plain := by
    simp [Literal.text, Literal.plain, Literal.tail]
  have hvalue : Literal.value { l with exponent := none } = l.mantissa := by
    simp [Literal.value, Literal.mantissa, Literal.digits]
  rwa [htext, hvalue] at h

/-- **The first number of a label is what stands before the exponent.** -/
theorem head?_labelSortKey (l : Literal) {label : String} {rest : List Char}
    (hlabel : label.toList = l.text ++ rest)
    (hrest : ∀ c ∈ rest.head?, isDigit c = false ∧ c ≠ '.') :
    (labelSortKey label).head? = some (fl l.mantissa) := by
  obtain ⟨c, cs, hwhole, -⟩ := l.exists_whole_eq
  have hcons : l.text ++ rest = c :: (l.text ++ rest).tail := by
    rw [Literal.text, Literal.plain, hwhole]
    rfl
  have hlen : (l.text ++ rest).length = (l.text ++ rest).tail.length + 1 := by
    conv_lhs => rw [hcons, List.length_cons]
  have hfind : ∃ ms, findPlain (l.text ++ rest).length (l.text ++ rest) = l.plain :: ms := by
    rw [hlen, hcons, findPlain, ← hcons, matchPlain_text l hrest]
    exact ⟨_, rfl⟩
  obtain ⟨ms, hms⟩ := hfind
  rw [labelSortKey, hlabel, hms, List.filterMap_cons_some (readFloat_plain l)]
  simp

/-! ## The x coordinate -/

/-- `_label_sort_key(label)[0]` (charts.py:328). -/
def xCoordinate (label : String) : ℚ := (labelSortKey label).headD 0

/-- The labels of a file of `size` MB: the text itself, and what the two label functions
    give for a row whose size function gives `size`. -/
inductive IsLabel : ℚ → String → Prop
  | text (size : ℚ) : IsLabel size (sizeLabel size)
  | client {row : Row} {size : ℚ} (h : sizeMbClient row = some size) :
      IsLabel size (clientLabel row)
  | pcap {row : Row} {size : ℚ} (h : sizeMbPcap row = some size) :
      IsLabel size (pcapLabel row)

theorem IsLabel.eq {size : ℚ} {label : String} (h : IsLabel size label) :
    label = sizeLabel size := by
  cases h with
  | text => rfl
  | client h =>
    rw [sizeMbClient] at h
    rw [clientLabel, h]
  | @pcap row _ h =>
    rw [sizeMbPcap, Option.bind_eq_some_iff] at h
    obtain ⟨bytes, hbytes, hsize⟩ := h
    by_cases hzero : bytes ≠ 0
    · rw [if_pos hzero, Option.some.injEq] at hsize
      rw [pcapLabel, hbytes, ← hsize]
      exact if_pos hzero
    · rw [if_neg hzero] at hsize
      exact absurd hsize (by simp)

/-- The sizes that are printed without an exponent. -/
def InRange (s : ℚ) : Prop := 9995 / 10 ^ 8 ≤ s ∧ s < 1999 / 2

theorem inRange_iff {s : ℚ} (hs : 0 < s) :
    InRange s ↔ -4 < ((natText (roundDigits 3 s).1).length : ℤ) + (roundDigits 3 s).2 ∧
      ((natText (roundDigits 3 s).1).length : ℤ) + (roundDigits 3 s).2 ≤ 3 := by
  have hlow := point_le_iff (p := 3) (by norm_num) hs (-4)
  have hhigh := point_le_iff (p := 3) (by norm_num) hs 3
  norm_num at hlow hhigh
  have hlow' : -4 < ((natText (roundDigits 3 s).1).length : ℤ) + (roundDigits 3 s).2 ↔
      1999 / 20000000 ≤ s := by
    rw [← not_le, hlow, not_lt]
  rw [InRange, hhigh, hlow']
  norm_num

theorem toList_sizeLabel {s : ℚ} (hs : 0 < s) :
    (sizeLabel s).toList =
      layout 3 false (roundDigits 3 s).1 (roundDigits 3 s).2 ++ " MB".toList := by
  rw [sizeLabel, general, String.toList_append, String.toList_ofList, if_neg hs.ne',
    if_neg (not_lt.2 hs.le), abs_of_pos hs]
  rfl

theorem roundDigits_ne_zero {s : ℚ} (hs : 0 < s) : (roundDigits 3 s).1 ≠ 0 := by
  have := (roundDigits_fst (p := 3) (by norm_num) hs).2.1
  omega

theorem xCoordinate_of_literal {s : ℚ} (hs : 0 < s) {l : Literal}
    (hl : l.text = layout 3 false (roundDigits 3 s).1 (roundDigits 3 s).2) :
    xCoordinate (sizeLabel s) = fl l.mantissa := by
  have hhead := @head?_labelSortKey l (sizeLabel s) " MB".toList
    (by rw [hl]; exact toList_sizeLabel hs) (by simp [isDigit])
  rw [xCoordinate, List.headD_eq_head?_getD, hhead]
  rfl

/-- In the usual range the x coordinate is the rounded size. -/
theorem xCoordinate_of_inRange {s : ℚ} (hs : 0 < s) (h : InRange s) :
    xCoordinate (sizeLabel s) = fl (roundTo 10 3 s) := by
  obtain ⟨l, htext, hmantissa, -⟩ :=
    exists_layout_plain 3 false (roundDigits_ne_zero hs) ((inRange_iff hs).1 h)
  rw [xCoordinate_of_literal hs htext, hmantissa, roundDigits_value hs]

theorem fl_of_le {m : ℕ} (h : m ≤ 2 ^ 53) : fl m = m := by
  have := fl_natCast_mul_zpow h 0
  rwa [zpow_zero, mul_one] at this

/-- Outside of it the exponent is lost: the x coordinate is at least 1 and at most 10. -/
theorem xCoordinate_of_not_inRange {s : ℚ} (hs : 0 < s) (h : ¬ InRange s) :
    1 ≤ xCoordinate (sizeLabel s) ∧ xCoordinate (sizeLabel s) ≤ 10 ∧
      (roundTo 10 3 s < 1 / 2 ∨ 1000 ≤ roundTo 10 3 s) := by
  have hm := roundDigits_ne_zero hs
  have hrange := mt (inRange_iff hs).2 h
  obtain ⟨l, htext, hmantissa, -⟩ := exists_layout_exponent 3 false hm hrange
  obtain ⟨hlow, hhigh⟩ := natText_length_bounds hm
  have hvalue := roundDigits_value (p := 3) hs
  rw [xCoordinate_of_literal hs htext]
  obtain ⟨n, hn⟩ := Nat.exists_eq_succ_of_ne_zero
    (List.length_pos_iff.2 (natText_ne_nil (roundDigits 3 s).1)).ne'
  generalize (roundDigits 3 s).1 = m at *
  generalize (roundDigits 3 s).2 = e at *
  rw [hn] at hlow hhigh hrange hmantissa
  have hpow : (0 : ℚ) < 10 ^ n := by positivity
  have hmantissa' : l.mantissa * 10 ^ n = m := by
    rw [hmantissa, mul_assoc, ← zpow_natCast, ← zpow_add₀ (by norm_num)]
    push_cast
    rw [show 1 - ((n : ℤ) + 1) + n = 0 by ring, zpow_zero, mul_one]
  have hmlow : (10 : ℚ) ^ n ≤ m := by exact_mod_cast hlow
  have hmhigh : (m : ℚ) < 10 ^ n * 10 := by
    rw [← pow_succ]
    exact_mod_cast hhigh
  have hone : 1 ≤ l.mantissa := by
    by_contra hlt
    have := mul_lt_mul_of_pos_right (not_le.1 hlt) hpow
    linarith
  have hten : l.mantissa < 10 := by
    by_contra hge
    have := mul_le_mul_of_nonneg_right (not_lt.1 hge) hpow.le
    linarith
  refine ⟨?_, ?_, ?_⟩
  · have := fl_mono hone
    rwa [show fl 1 = 1 by exact_mod_cast fl_of_le (m := 1) (by norm_num)] at this
  · have := fl_mono hten.le
    rwa [show fl 10 = 10 by exact_mod_cast fl_of_le (m := 10) (by norm_num)] at this
  · -- the rounded size is the mantissa times a power of ten with at least four places
    have hround : roundTo 10 3 s = l.mantissa * 10 ^ (n + e) := by
      rw [← hvalue, ← hmantissa', mul_assoc, ← zpow_natCast, ← zpow_add₀ (by norm_num)]
    rw [hround]
    push_cast at hrange
    by_cases hlarge : 3 ≤ n + e
    · right
      have : (10 : ℚ) ^ (3 : ℤ) ≤ 10 ^ (n + e) := zpow_le_zpow_right₀ (by norm_num) hlarge
      norm_num at this
      nlinarith
    · left
      have : (10 : ℚ) ^ (n + e) ≤ 10 ^ (-5 : ℤ) := zpow_le_zpow_right₀ (by norm_num) (by omega)
      have hpos : (0 : ℚ) < 10 ^ (n + e) := by positivity
      norm_num at this
      nlinarith

/-! ## Order and distinct labels -/

/-- Two different three-digit numbers stay different in binary64. -/
theorem fl_roundTo_lt {s t : ℚ} (hs : 0 < s) (ht : 0 < t) (h : roundTo 10 3 s < roundTo 10 3 t) :
    fl (roundTo 10 3 s) < fl (roundTo 10 3 t) := by
  have hpos := roundTo_pos (b := 10) (p := 3) (by norm_num) (by norm_num) hs
  have hgap := roundTo_add_le (b := 10) (p := 3) (by norm_num) (by norm_num) hs ht h
  have hleft := (abs_le.1 (abs_fl_sub_le hpos.le)).2
  have hright := (abs_le.1 (abs_fl_sub_le (hpos.trans h).le)).1
  norm_num at hgap hleft hright
  linarith

/-- Labels of the same rounded size are the same. -/
theorem sizeLabel_eq_of_roundTo {s t : ℚ} (hs : 0 < s) (ht : 0 < t)
    (h : roundTo 10 3 s = roundTo 10 3 t) : sizeLabel s = sizeLabel t := by
  have hvalue : ((roundDigits 3 s).1 : ℚ) * 10 ^ (roundDigits 3 s).2 =
      ((roundDigits 3 t).1 : ℚ) * 10 ^ (roundDigits 3 t).2 := by
    rw [roundDigits_value hs, roundDigits_value ht, h]
  apply String.toList_injective
  rw [toList_sizeLabel hs, toList_sizeLabel ht]
  congr 1
  rcases le_total (roundDigits 3 s).2 (roundDigits 3 t).2 with hle | hle
  · exact layout_eq_of_value 3 false (roundDigits_ne_zero ht) hle hvalue
  · exact (layout_eq_of_value 3 false (roundDigits_ne_zero hs) hle hvalue.symm).symm

/-- **The x coordinate is the rounded size exactly from 0.00009995 MB up to 999.5 MB**;
    within that range it keeps the order, and different labels have different x. -/
theorem x_eq_rounded_size_iff {s t : ℚ} {label label' : String} (hs : 0 < s) (ht : 0 < t)
    (hlabel : IsLabel s label) (hlabel' : IsLabel t label') :
    (xCoordinate label = fl (roundTo 10 3 s) ↔ InRange s) ∧
      (InRange s → InRange t → (s ≤ t → xCoordinate label ≤ xCoordinate label') ∧
        (label ≠ label' → xCoordinate label ≠ xCoordinate label')) := by
  rw [hlabel.eq, hlabel'.eq]
  refine ⟨⟨?_, xCoordinate_of_inRange hs⟩, fun hins hint => ⟨?_, ?_⟩⟩
  · intro hx
    by_contra hout
    obtain ⟨hlow, hhigh, hround⟩ := xCoordinate_of_not_inRange hs hout
    have hpos := roundTo_pos (b := 10) (p := 3) (by norm_num) (by norm_num) hs
    rw [hx] at hlow hhigh
    rcases hround with hsmall | hlarge
    · have hhalf := fl_natCast_mul_zpow (m := 1) (by norm_num) (-1)
      have hmono := fl_mono hsmall.le
      norm_num at hhalf
      linarith
    · have hthousand := fl_of_le (m := 1000) (by norm_num)
      have hmono := fl_mono hlarge
      norm_num at hthousand
      linarith
  · intro hle
    rw [xCoordinate_of_inRange hs hins, xCoordinate_of_inRange ht hint]
    exact fl_mono (roundTo_mono (by norm_num) (by norm_num) hs hle)
  · intro hne
    rw [xCoordinate_of_inRange hs hins, xCoordinate_of_inRange ht hint]
    rcases lt_trichotomy (roundTo 10 3 s) (roundTo 10 3 t) with hlt | heq | hgt
    · exact (fl_roundTo_lt hs ht hlt).ne
    · exact absurd (sizeLabel_eq_of_roundTo hs ht heq) hne
    · exact (fl_roundTo_lt ht hs hgt).ne'

/-- A file of one and a file of twenty megabytes. -/
theorem x_of_one_and_twenty :
    xCoordinate (clientLabel [("file_size", some "1.0")]) = fl (roundTo 10 3 1) ∧
      xCoordinate (clientLabel [("file_size", some "1.0")]) ≤
        xCoordinate (pcapLabel [("file_size_bytes", some "20971520")]) := by
  have hone : sizeMbClient [("file_size", some "1.0")] = some 1 := by decide +kernel
  have htwenty : sizeMbPcap [("file_size_bytes", some "20971520")] = some 20 := by decide +kernel
  have h := x_eq_rounded_size_iff (by norm_num) (by norm_num) (.client hone) (.pcap htwenty)
  have hrange : InRange 1 := by
    constructor <;> norm_num
  have hrange' : InRange 20 := by
    constructor <;> norm_num
  exact ⟨h.1.2 hrange, (h.2 hrange hrange').1 (by norm_num)⟩

/-- A file of 1000 MB is labelled `1e+03 MB` and drawn at 1 MB, before one of 20 MB. -/
theorem x_of_thousand :
    clientLabel [("file_size", some "1000.0")] = "1e+03 MB" ∧
      labelSortKey "1e+03 MB" = [1, 3] ∧
      xCoordinate (clientLabel [("file_size", some "1000.0")]) = 1 ∧ fl (roundTo 10 3 1000) = 1000 ∧
      xCoordinate (clientLabel [("file_size", some "1000.0")]) <
        xCoordinate (clientLabel [("file_size", some "20.0")]) := by
  decide +kernel

end TransferTestbed.Charts
