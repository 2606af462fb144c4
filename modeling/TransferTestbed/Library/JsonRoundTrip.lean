import TransferTestbed.Library.JsonDocument
import TransferTestbed.Library.Literal

/-!
# JSON documents, written and read back

What `json.dump` writes of a value is read by `json.load` as the same value: of numbers without
zeros in front, of floats by the literal that `repr` prints, of strings by their escapes, of
arrays and objects element by element, at any depth.

Results:

* `readNumber_intText`, `readNumber_floatText`: the numbers.
* `load_fullText`: reading what was written gives the value back.
-/

namespace TransferTestbed.JsonDocument

open Decimal Json JsonStream Numeral

/-! ## Reading numbers that were written -/

/-- What may follow a number. -/
def Ends (rest : List Char) : Prop :=
  ∀ c ∈ rest.head?, isDigit c = false ∧ c ≠ '.' ∧ c ≠ 'e' ∧ c ≠ 'E'

theorem Ends.digits {rest : List Char} (h : Ends rest) : ∀ c ∈ rest.head?, isDigit c = false :=
  fun c hc => (h c hc).1

theorem span_digits {ds rest : List Char} (hds : ∀ c ∈ ds, isDigit c = true)
    (hrest : ∀ c ∈ rest.head?, isDigit c = false) :
    (ds ++ rest).takeWhile isDigit = ds ∧ (ds ++ rest).dropWhile isDigit = rest := by
  rw [List.takeWhile_append_of_pos hds, List.dropWhile_append_of_pos hds]
  cases rest with
  | nil => simp
  | cons c cs => simp [hrest c rfl]

/-- The digits of an integer without zeros in front. -/
def NoLeadingZero (ds : List Char) : Prop := ds = ['0'] ∨ ∃ c cs, ds = c :: cs ∧ c ≠ '0'

theorem takeNat_digits {ds rest : List Char} (hds : ∀ c ∈ ds, isDigit c = true)
    (hzero : NoLeadingZero ds) (hrest : ∀ c ∈ rest.head?, isDigit c = false) :
    takeNat (ds ++ rest) = some (ds, rest) := by
  rcases hzero with rfl | ⟨c, cs, rfl, hc⟩
  · rfl
  · obtain ⟨htake, hdrop⟩ := span_digits (fun d hd => hds d (List.mem_cons_of_mem c hd)) hrest
    rw [List.cons_append, takeNat, if_neg hc, if_pos (hds c List.mem_cons_self), htake, hdrop]

theorem takePoint_nil {rest : List Char} (h : ∀ c ∈ rest.head?, c ≠ '.') :
    takePoint rest = ([], rest) := by
  cases rest with
  | nil => rfl
  | cons c cs => rw [takePoint, if_neg fun hdot => h c rfl hdot.1]

theorem takePoint_digits {ds rest : List Char} (hne : ds ≠ []) (hds : ∀ c ∈ ds, isDigit c = true)
    (hrest : ∀ c ∈ rest.head?, isDigit c = false) :
    takePoint ('.' :: (ds ++ rest)) = ('.' :: ds, rest) := by
  obtain ⟨htake, hdrop⟩ := span_digits hds hrest
  rw [takePoint, htake, hdrop, if_pos ⟨rfl, hne⟩]

theorem takePower_nil {rest : List Char} (h : ∀ c ∈ rest.head?, c ≠ 'e' ∧ c ≠ 'E') :
    takePower rest = ([], rest) := by
  cases rest with
  | nil => rfl
  | cons c cs =>
    obtain ⟨hlower, hupper⟩ := h c rfl
    simp [takePower, hlower, hupper]

theorem takePower_exponentText (e : ℤ) {rest : List Char}
    (hrest : ∀ c ∈ rest.head?, isDigit c = false) :
    takePower (exponentText e ++ rest) = (exponentText e, rest) := by
  have hds : ∀ c ∈ padLeft 2 (natText e.natAbs), isDigit c = true :=
    fun c hc => isDigit_of_mem_padLeft (fun c hc => isDigit_of_mem_natText hc) hc
  have hne : padLeft 2 (natText e.natAbs) ≠ [] := by
    rw [padLeft]
    exact List.append_ne_nil_of_right_ne_nil _ (natText_ne_nil _)
  obtain ⟨htake, hdrop⟩ := span_digits hds hrest
  have hsign : takeSignText ((if e < 0 then '-' else '+') ::
      (padLeft 2 (natText e.natAbs) ++ rest)) =
      ([if e < 0 then '-' else '+'], padLeft 2 (natText e.natAbs) ++ rest) := by
    rw [takeSignText, if_pos]
    by_cases he : e < 0
    · exact .inl (if_pos he)
    · exact .inr (if_neg he)
  simp only [exponentText, List.cons_append, takePower, hsign, htake, hdrop]
  rw [if_pos ⟨.inl trivial, hne⟩]
  rfl

/-- The value with the other sign. -/
def negate : Value → Value
  | .int z => .int (-z)
  | .float q => .float (-q)
  | v => v

theorem takeNat_head {cs t rest : List Char} (h : takeNat cs = some (t, rest)) :
    ∃ c ds, t = c :: ds ∧ isDigit c = true := by
  obtain ⟨hne, hdigits, -⟩ := takeNat_spec h
  obtain ⟨c, ds, rfl⟩ := List.exists_cons_of_ne_nil hne
  exact ⟨c, ds, rfl, hdigits c List.mem_cons_self⟩

theorem readInt_minus {c : Char} (hc : isDigit c = true) (ds : List Char) :
    readInt ('-' :: c :: ds) = (readInt (c :: ds)).map (- ·) := by
  have hminus : takeSign ('-' :: c :: ds) = (true, c :: ds) := rfl
  simp only [readInt, hminus, Literal.takeSign_of_isDigit hc, if_true, Bool.false_eq_true, if_false]
  split_ifs
  · rfl
  · rfl

theorem readFloat_minus {c : Char} (hc : isDigit c = true) (ds : List Char) :
    readFloat ('-' :: c :: ds) = (readFloat (c :: ds)).map (- ·) := by
  have hminus : takeSign ('-' :: c :: ds) = (true, c :: ds) := rfl
  simp only [readFloat, hminus, Literal.takeSign_of_isDigit hc, if_true, Bool.false_eq_true,
    if_false]
  split_ifs
  · rfl
  · rw [Option.map_map]
    rfl

theorem readNumber_minus {cs : List Char} (h : ∀ c ∈ cs.head?, c ≠ '-') :
    readNumber ('-' :: cs) = (readNumber cs).map fun r => (negate r.1, r.2) := by
  have hwhole : takeWhole cs = takeNat cs := by
    cases cs with
    | nil => rfl
    | cons c cs => rw [takeWhole, if_neg (h c rfl)]
  have hminus : takeWhole ('-' :: cs) = (takeNat cs).map fun r => ('-' :: r.1, r.2) := rfl
  rw [readNumber, readNumber, hminus, hwhole]
  cases hnat : takeNat cs with
  | none => rfl
  | some r =>
    obtain ⟨c, ds, hds, hc⟩ := takeNat_head hnat
    simp only [Option.map_some, Option.bind_some, hds, List.cons_append]
    split_ifs
    · rw [readInt_minus hc, Option.map_map, Option.map_map]
      rfl
    · rw [readFloat_minus hc, Option.map_map, Option.map_map]
      rfl

theorem noLeadingZero_natText (n : ℕ) : NoLeadingZero (natText n) := by
  rcases eq_or_ne n 0 with rfl | hn
  · exact .inl rfl
  · right
    have hlast := Nat.getLast_digit_ne_zero 10 hn
    have hne : Nat.digits 10 n ≠ [] := Nat.digits_ne_nil_iff_ne_zero.2 hn
    rw [natText_eq hn]
    obtain ⟨d, ds, hds⟩ := List.exists_cons_of_ne_nil (mt List.reverse_eq_nil_iff.1 hne)
    have hd : d < 10 := by
      apply Nat.digits_lt_base (b := 10) (m := n) (by norm_num)
      rw [← List.mem_reverse, hds]
      exact List.mem_cons_self
    have hzero : d ≠ 0 := by
      have h := congrArg List.head? hds
      rw [List.head?_reverse, List.getLast?_eq_some_getLast hne, List.head?_cons] at h
      rw [← Option.some.inj h]
      exact hlast
    rw [hds, List.map_cons]
    exact ⟨_, _, rfl, digitChar_ne_zero hd hzero⟩

theorem readInt_natText (n : ℕ) : readInt (natText n) = some (n : ℤ) := by
  obtain ⟨c, cs, hcs, hc⟩ := isDigit_head_natText n
  have hrun := @takeDigits_append (natText n) [] (fun c hc => isDigit_of_mem_natText hc) (by simp)
    false
  have hsign : takeSign (natText n) = (false, natText n) := by
    rw [hcs]
    exact Literal.takeSign_of_isDigit hc
  rw [List.append_nil] at hrun
  simp [readInt, hsign, hrun, natText_ne_nil, digitsValue_natText]

theorem readNumber_natText (n : ℕ) {rest : List Char} (hrest : Ends rest) :
    readNumber (natText n ++ rest) = some (.int n, rest) := by
  obtain ⟨c, cs, hcs, hc⟩ := isDigit_head_natText n
  have hnat := takeNat_digits (fun c hc => isDigit_of_mem_natText hc) (noLeadingZero_natText n)
    hrest.digits
  have hwhole : takeWhole (natText n ++ rest) = takeNat (natText n ++ rest) := by
    rw [hcs, List.cons_append, takeWhole, if_neg (isDigit_ne hc (by decide))]
  rw [readNumber, hwhole, hnat]
  simp only [Option.bind_some, takePoint_nil fun c hc => (hrest c hc).2.1,
    takePower_nil fun c hc => (hrest c hc).2.2, and_self, if_true, readInt_natText,
    Option.map_some]

theorem readNumber_intText (z : ℤ) {rest : List Char} (hrest : Ends rest) :
    readNumber (intText z ++ rest) = some (.int z, rest) := by
  have hnat := readNumber_natText z.natAbs hrest
  obtain ⟨c, cs, hcs, hc⟩ := isDigit_head_natText z.natAbs
  unfold intText
  split_ifs with hz
  · rw [List.cons_append, readNumber_minus, hnat]
    · simp only [Option.map_some, negate, Option.some.injEq, Prod.mk.injEq, Value.int.injEq,
        and_true]
      omega
    · intro d hd
      rw [hcs, List.cons_append, List.head?_cons, Option.mem_some_iff] at hd
      exact hd ▸ isDigit_ne hc (by decide)
  · rw [hnat]
    simp only [Option.some.injEq, Prod.mk.injEq, Value.int.injEq, and_true]
    omega

/-- A literal that is written for a float: no zero in front, and a fraction or an exponent. -/
structure IsFloat (l : Literal) : Prop where
  whole : NoLeadingZero l.whole
  point : l.fraction ≠ none ∨ l.exponent ≠ none

theorem readNumber_literal {l : Literal} (hl : IsFloat l) {rest : List Char} (hrest : Ends rest) :
    readNumber (l.text ++ rest) = some (.float (Binary64.fl l.value), rest) := by
  have htail : ∀ c ∈ (l.tail ++ rest).head?, isDigit c = false ∧ c ≠ '.' := by
    intro c hc
    rw [List.head?_append] at hc
    rcases Option.or_eq_some_iff.1 hc with hc | ⟨-, hc⟩
    · rw [l.head?_tail hc]
      decide
    · exact ⟨(hrest c hc).1, (hrest c hc).2.1⟩
  have hpoint : takePoint ((l.fraction.map ('.' :: ·)).getD [] ++ (l.tail ++ rest)) =
      ((l.fraction.map ('.' :: ·)).getD [], l.tail ++ rest) := by
    cases hf : l.fraction with
    | none => exact takePoint_nil fun c hc => (htail c hc).2
    | some f =>
      exact takePoint_digits (fun h => l.fraction_ne (h ▸ hf))
        (fun c hc => l.isDigit_of_mem_fraction hf hc) fun c hc => (htail c hc).1
  have hpower : takePower (l.tail ++ rest) = (l.tail, rest) := by
    rw [Literal.tail]
    cases l.exponent with
    | none => exact takePower_nil fun c hc => (hrest c hc).2.2
    | some e => exact takePower_exponentText e hrest.digits
  obtain ⟨c, cs, hwhole, hc⟩ := l.exists_whole_eq
  have htext : l.text ++ rest =
      l.whole ++ ((l.fraction.map ('.' :: ·)).getD [] ++ (l.tail ++ rest)) := by
    rw [Literal.text, Literal.plain]
    simp only [List.append_assoc]
  have hnat : takeWhole (l.text ++ rest) =
      some (l.whole, (l.fraction.map ('.' :: ·)).getD [] ++ (l.tail ++ rest)) := by
    rw [htext, ← takeNat_digits (fun c hc => l.isDigit_of_mem_whole hc) hl.whole]
    · rw [hwhole, List.cons_append, takeWhole, if_neg (isDigit_ne hc (by decide))]
    · cases l.fraction with
      | none => exact fun c hc => (htail c hc).1
      | some f =>
        intro c hc
        rw [← Option.some.inj hc]
        rfl
  have hfloat : ¬ ((l.fraction.map ('.' :: ·)).getD [] = [] ∧ l.tail = []) := by
    rintro ⟨hfraction, hexponent⟩
    rcases hl.point with h | h
    · obtain ⟨f, hf⟩ := Option.ne_none_iff_exists'.1 h
      rw [hf] at hfraction
      cases hfraction
    · obtain ⟨e, he⟩ := Option.ne_none_iff_exists'.1 h
      rw [Literal.tail, he] at hexponent
      cases hexponent
  rw [readNumber, hnat]
  simp only [Option.bind_some, hpoint, hpower, if_neg hfloat]
  rw [show l.whole ++ (l.fraction.map ('.' :: ·)).getD [] ++ l.tail = l.text from rfl,
    l.readFloat_text, Option.map_some]

/-- How the text of a float starts, and that it is not the text of an integer. -/
structure FloatShape (t : List Char) : Prop where
  start : (∃ rest, t = '0' :: '.' :: rest) ∨ ∃ c rest, t = c :: rest ∧ c ≠ '0'
  point : '.' ∈ t ∨ 'e' ∈ t

theorem isFloat_of_text {l : Literal} (h : FloatShape l.text) : IsFloat l := by
  obtain ⟨c, cs, hwhole, hc⟩ := l.exists_whole_eq
  have htext : l.text = c :: (cs ++ ((l.fraction.map ('.' :: ·)).getD [] ++ l.tail)) := by
    rw [Literal.text, Literal.plain, hwhole]
    simp
  constructor
  · rcases h.start with ⟨rest, hrest⟩ | ⟨d, rest, hrest, hd⟩
    · rw [htext, List.cons.injEq] at hrest
      rw [hwhole, hrest.1]
      have hrest := hrest.2
      cases cs with
      | nil => exact .inl rfl
      | cons d ds =>
        have hdigit := l.isDigit_of_mem_whole (c := d) (by simp [hwhole])
        have hdot : d = '.' := by
          rw [List.cons_append, List.cons.injEq] at hrest
          exact hrest.1
        rw [hdot] at hdigit
        exact absurd hdigit (by decide)
    · rw [htext, List.cons.injEq] at hrest
      rw [hwhole, hrest.1]
      exact .inr ⟨d, cs, rfl, hd⟩
  · by_contra hnone
    rw [not_or, not_not, not_not] at hnone
    have hdigits : ∀ c ∈ l.text, isDigit c = true := by
      intro d hd
      rw [Literal.text, Literal.plain, Literal.tail, hnone.1, hnone.2] at hd
      simp only [Option.map_none, Option.getD_none, List.append_nil] at hd
      exact l.isDigit_of_mem_whole hd
    rcases h.point with hdot | he
    · exact absurd (hdigits _ hdot) (by decide)
    · exact absurd (hdigits _ he) (by decide)

/-- The digits that `layout` prints start with one that is not zero. -/
theorem exists_stripZeros_cons {m : ℕ} (hm : m ≠ 0) :
    ∃ c ds, stripZeros (natText m) = c :: ds ∧ c ≠ '0' := by
  obtain ⟨k, hk⟩ := stripZeros_append (natText m)
  obtain ⟨-, -, -, hne, -⟩ := exists_stripZeros hm
  obtain ⟨d, ds, hds⟩ := List.exists_cons_of_ne_nil hne
  rcases noLeadingZero_natText m with hzero | ⟨c, cs, hcs, hc⟩
  · have hvalue := digitsValue_natText m
    rw [hzero] at hvalue
    exact absurd hvalue.symm hm
  · rw [hds, hcs, List.cons_append, List.cons.injEq] at hk
    exact ⟨d, ds, hds, hk.1 ▸ hc⟩

theorem floatShape_layout (limit : ℤ) {m : ℕ} (hm : m ≠ 0) (e : ℤ) :
    FloatShape (layout limit true m e) := by
  obtain ⟨c, ds, hds, hc⟩ := exists_stripZeros_cons hm
  simp only [layout, hds]
  split_ifs with hrange hsmall hinside hone
  · exact ⟨.inl ⟨_, rfl⟩, .inl (by simp)⟩
  · obtain ⟨n, hn⟩ : ∃ n, ((natText m).length + e).toNat = n + 1 :=
      Nat.exists_eq_succ_of_ne_zero (by omega)
    rw [hn]
    exact ⟨.inr ⟨c, _, rfl, hc⟩, .inl (by simp)⟩
  · exact ⟨.inr ⟨c, _, rfl, hc⟩, .inl (by simp)⟩
  · exact ⟨.inr ⟨c, _, rfl, hc⟩, .inr (by simp [exponentText])⟩
  · exact ⟨.inr ⟨c, _, rfl, hc⟩, .inr (by simp [exponentText])⟩

theorem floatShape_floatText {x : ℚ} (hx : 0 ≤ x) (hfl : Binary64.fl x = x) :
    FloatShape (floatText x).toList := by
  rw [floatText, String.toList_ofList, if_neg (not_lt.2 hx), List.nil_append]
  split_ifs with hzero
  · exact ⟨.inl ⟨_, rfl⟩, .inl (by simp)⟩
  · have hpos := lt_of_le_of_ne hx (Ne.symm hzero)
    rw [abs_of_pos hpos]
    exact floatShape_layout 16 (shortest_ne_zero hpos hfl) _

/-- A float is read back, up to the sign. -/
theorem readNumber_floatText_of_nonneg {x : ℚ} (hx : 0 ≤ x) (hfl : Binary64.fl x = x)
    {rest : List Char} (hrest : Ends rest) :
    readNumber ((floatText x).toList ++ rest) = some (.float x, rest) := by
  obtain ⟨l, htext, hvalue⟩ := exists_floatText hx hfl
  have hshape := floatShape_floatText hx hfl
  rw [← htext] at hshape ⊢
  rw [readNumber_literal (isFloat_of_text hshape) hrest, hvalue]

theorem floatText_neg {x : ℚ} (hx : x < 0) :
    (floatText x).toList = '-' :: (floatText (-x)).toList := by
  have hnot : ¬ -x < 0 := by linarith
  rw [floatText, floatText, String.toList_ofList, String.toList_ofList, if_pos hx, if_neg hnot,
    abs_neg]
  simp only [neg_eq_zero, List.nil_append, List.cons_append]

theorem readNumber_floatText {x : ℚ} (hfl : Binary64.fl x = x) {rest : List Char}
    (hrest : Ends rest) : readNumber ((floatText x).toList ++ rest) = some (.float x, rest) := by
  rcases lt_or_ge x 0 with hx | hx
  · have hneg : Binary64.fl (-x) = -x := by rw [Binary64.fl_neg, hfl]
    have hread := readNumber_floatText_of_nonneg (by linarith : 0 ≤ -x) hneg hrest
    rw [floatText_neg hx, List.cons_append, readNumber_minus, hread]
    · simp [negate]
    · intro d hd
      obtain ⟨l, htext, -⟩ := exists_floatText (by linarith : 0 ≤ -x) hneg
      obtain ⟨c, cs, hwhole, hc⟩ := l.exists_whole_eq
      rw [← htext, Literal.text, Literal.plain, hwhole] at hd
      rw [← Option.some.inj hd]
      exact isDigit_ne hc (by decide)
  · exact readNumber_floatText_of_nonneg hx hfl hrest

/-! ## Reading documents that were written -/

mutual

/-- A value that is written as it is: every part is serialisable, floats are binary64 numbers,
    and no key of a dictionary is there twice. -/
def Exact : Value → Prop
  | .float q => Binary64.fl q = q
  | .list vs => ExactAll vs
  | .dict ms => (ms.map Prod.fst).Nodup ∧ ExactMembers ms
  | .other => False
  | _ => True

def ExactAll : List Value → Prop
  | [] => True
  | v :: vs => Exact v ∧ ExactAll vs

def ExactMembers : List (String × Value) → Prop
  | [] => True
  | (_, v) :: ms => Exact v ∧ ExactMembers ms

end

mutual

theorem serialisable_of_exact : ∀ v : Value, Exact v → serialisable v = true
  | .null, _ => rfl
  | .bool _, _ => rfl
  | .int _, _ => rfl
  | .float _, _ => rfl
  | .word _, _ => rfl
  | .str _, _ => rfl
  | .list vs, h => by
    rw [serialisable]
    exact serialisableAll_of_exactAll vs h
  | .dict ms, h => by
    rw [serialisable]
    exact serialisableMembers_of_exactMembers ms h.2
  | .other, h => h.elim

theorem serialisableAll_of_exactAll : ∀ vs : List Value, ExactAll vs → serialisableAll vs = true
  | [], _ => rfl
  | v :: vs, h => by
    rw [serialisableAll, serialisable_of_exact v h.1, serialisableAll_of_exactAll vs h.2]
    rfl

theorem serialisableMembers_of_exactMembers : ∀ ms : List (String × Value), ExactMembers ms →
    serialisableMembers ms = true
  | [], _ => rfl
  | (_, v) :: ms, h => by
    rw [serialisableMembers, serialisable_of_exact v h.1,
      serialisableMembers_of_exactMembers ms h.2]
    rfl

end

/-- The text of elements, from the first one on. -/
def elementsText (level : ℕ) : List Value → List Char
  | [] => []
  | v :: vs => fullText (pieces level v) ++ fullText (elementPieces level vs)

/-- The text of members, from the first one on. -/
def membersText (level : ℕ) : List (String × Value) → List Char
  | [] => []
  | (k, v) :: ms => stringText k ++ ([':', ' '] ++
      (fullText (pieces level v) ++ fullText (memberPieces level ms)))

theorem fullText_elementPieces (level : ℕ) (v : Value) (vs : List Value) :
    fullText (elementPieces level (v :: vs)) =
      ',' :: (newline level ++ elementsText level (v :: vs)) := by
  rw [elementPieces, fullText_cons_some, fullText_append, elementsText, List.cons_append]

theorem fullText_memberPieces (level : ℕ) (m : String × Value) (ms : List (String × Value)) :
    fullText (memberPieces level (m :: ms)) =
      ',' :: (newline level ++ membersText level (m :: ms)) := by
  obtain ⟨k, v⟩ := m
  rw [memberPieces, fullText_cons_some, fullText_cons_some, fullText_cons_some, fullText_append,
    membersText, List.cons_append]

theorem fullText_list (level : ℕ) (v : Value) (vs : List Value) :
    fullText (pieces level (.list (v :: vs))) = '[' :: (newline (level + 1) ++
      (elementsText (level + 1) (v :: vs) ++ (newline level ++ [']']))) := by
  rw [pieces]
  simp only [fullText_append, fullText, elementsText, List.append_assoc,
    List.cons_append, List.append_nil]

theorem fullText_dict (level : ℕ) (m : String × Value) (ms : List (String × Value)) :
    fullText (pieces level (.dict (m :: ms))) = '{' :: (newline (level + 1) ++
      (membersText (level + 1) (m :: ms) ++ (newline level ++ ['}']))) := by
  obtain ⟨k, v⟩ := m
  rw [pieces]
  simp only [fullText_append, fullText, membersText, List.append_assoc,
    List.cons_append, List.append_nil]

theorem skipSpace_newline (level : ℕ) (cs : List Char) :
    skipSpace (newline level ++ cs) = skipSpace cs := by
  have hspace : ∀ c ∈ newline level, isSpace c = true := by
    intro c hc
    rcases List.mem_cons.1 hc with rfl | hc
    · rfl
    · rw [List.eq_of_mem_replicate hc]
      rfl
  exact List.dropWhile_append_of_pos hspace

theorem ends_newline (level : ℕ) (rest : List Char) : Ends (newline level ++ rest) := by
  intro c hc
  rw [← Option.some.inj hc]
  decide

theorem ends_comma (rest : List Char) : Ends (',' :: rest) := by
  intro c hc
  rw [← Option.some.inj hc]
  decide

/-- Neither a space nor a bracket that closes. -/
def Starts (cs : List Char) : Prop :=
  ∃ c ds, cs = c :: ds ∧ isSpace c = false ∧ c ≠ ']'

theorem Starts.append {cs : List Char} (h : Starts cs) (ds : List Char) : Starts (cs ++ ds) := by
  obtain ⟨c, es, rfl, hc⟩ := h
  exact ⟨c, es ++ ds, rfl, hc⟩

theorem Starts.skipSpace {cs : List Char} (h : Starts cs) : skipSpace cs = cs := by
  obtain ⟨c, ds, rfl, hc, -⟩ := h
  exact skipSpace_cons hc ds

theorem isSpace_of_isNumeral {c : Char} (h : isNumeral c = true) :
    isSpace c = false ∧ c ≠ ']' ∧ c ≠ quote ∧ c ≠ '[' ∧ c ≠ '{' := by
  have hne : ∀ e : Char, isNumeral e = false → c ≠ e := by
    rintro e he rfl
    rw [h] at he
    cases he
  refine ⟨?_, hne _ (by decide), hne _ (by decide), hne _ (by decide), hne _ (by decide)⟩
  rw [Bool.eq_false_iff]
  intro hspace
  have hcode : c = ' ' ∨ c.toNat = 9 ∨ c.toNat = 10 ∨ c.toNat = 13 := by
    simpa [isSpace, or_assoc] using hspace
  have hcode : c = ' ' ∨ c = Char.ofNat 9 ∨ c = Char.ofNat 10 ∨ c = Char.ofNat 13 := by
    rcases hcode with h | h | h | h
    · exact .inl h
    · exact .inr (.inl (by rw [← h, Char.ofNat_toNat]))
    · exact .inr (.inr (.inl (by rw [← h, Char.ofNat_toNat])))
    · exact .inr (.inr (.inr (by rw [← h, Char.ofNat_toNat])))
  rcases hcode with h | h | h | h
  · exact hne _ (by decide) h
  · exact hne _ (by decide) h
  · exact hne _ (by decide) h
  · exact hne _ (by decide) h

/-- The text of a number, as `readValue` sees it. -/
theorem readValue_numeral {t rest : List Char} {v : Value} (ht : AllNumeral t)
    (hread : readNumber (t ++ rest) = some (v, rest)) (fuel : ℕ) :
    readValue (fuel + 1) (t ++ rest) = some (v, rest) ∧ Starts t := by
  cases t with
  | nil =>
    obtain ⟨used, hne, -, hrest⟩ := readNumber_consumes hread
    exact absurd (List.self_eq_append_left.1 hrest) hne
  | cons c cs =>
    obtain ⟨hspace, hlist, hquote, hopen, hbrace⟩ := isSpace_of_isNumeral (ht c List.mem_cons_self)
    refine ⟨?_, c, cs, rfl, hspace, hlist⟩
    rw [List.cons_append] at hread ⊢
    rw [readValue, if_neg hquote, if_neg hopen, if_neg hbrace, readAtom, hread]
    rfl

theorem readValue_word {w : FloatWord} (fuel : ℕ) (rest : List Char) :
    readValue (fuel + 1) (w.text ++ rest) = some (.word w, rest) := by
  cases w with
  | nan => rfl
  | infinity => rfl
  | negInfinity => rfl

theorem readValue_stringText (fuel : ℕ) (s : String) (rest : List Char) :
    readValue (fuel + 1) (stringText s ++ rest) = some (.str s, rest) := by
  rw [stringText, List.cons_append, List.cons_append, List.append_assoc, readValue, if_pos rfl,
    List.singleton_append, readString_escaped]
  rfl

theorem readKey_stringText (k : String) (rest : List Char) :
    readKey (stringText k ++ ([':', ' '] ++ rest)) = some (k, skipSpace rest) := by
  rw [stringText, List.cons_append, List.cons_append, List.append_assoc, readKey, if_pos rfl,
    List.singleton_append, readString_escaped]
  rfl

theorem starts_pieces (level : ℕ) : ∀ v : Value, Exact v → Starts (fullText (pieces level v))
  | .null, _ => ⟨'n', _, rfl, by decide⟩
  | .bool true, _ => ⟨'t', _, rfl, by decide⟩
  | .bool false, _ => ⟨'f', _, rfl, by decide⟩
  | .int z, _ => by
    have hread := @readNumber_intText z [] (by simp [Ends])
    rw [pieces, fullText_cons_some]
    exact (readValue_numeral (allNumeral_intText z) hread 0).2.append _
  | .float q, h => by
    have hread := @readNumber_floatText q h [] (by simp [Ends])
    rw [pieces, fullText_cons_some]
    exact (readValue_numeral (allNumeral_floatText q) hread 0).2.append _
  | .word .nan, _ => ⟨'N', _, rfl, by decide⟩
  | .word .infinity, _ => ⟨'I', _, rfl, by decide⟩
  | .word .negInfinity, _ => ⟨'-', _, rfl, by decide⟩
  | .str _, _ => ⟨quote, _, rfl, by decide⟩
  | .list [], _ => ⟨'[', _, rfl, by decide⟩
  | .list (v :: vs), _ => ⟨'[', _, fullText_list level v vs, by decide⟩
  | .dict [], _ => ⟨'{', _, rfl, by decide⟩
  | .dict (m :: ms), _ => ⟨'{', _, fullText_dict level m ms, by decide⟩
  | .other, h => h.elim

mutual

/-- What was written of a value is read, whatever ends it, from some amount of fuel on. -/
theorem readValue_pieces (level : ℕ) : ∀ (v : Value) (rest : List Char), Exact v → Ends rest →
    ∃ n, ∀ fuel, readValue (fuel + n) (fullText (pieces level v) ++ rest) = some (v, rest)
  | .null, _, _, _ => ⟨1, fun _ => rfl⟩
  | .bool true, _, _, _ => ⟨1, fun _ => rfl⟩
  | .bool false, _, _, _ => ⟨1, fun _ => rfl⟩
  | .int z, rest, _, hrest => by
    rw [pieces, fullText_cons_some, fullText, List.append_nil]
    exact ⟨1, fun fuel =>
      (readValue_numeral (allNumeral_intText z) (readNumber_intText z hrest) fuel).1⟩
  | .float q, rest, hq, hrest => by
    rw [pieces, fullText_cons_some, fullText, List.append_nil]
    exact ⟨1, fun fuel =>
      (readValue_numeral (allNumeral_floatText q) (readNumber_floatText hq hrest) fuel).1⟩
  | .word w, rest, _, _ => by
    rw [pieces, fullText_cons_some, fullText, List.append_nil]
    exact ⟨1, fun fuel => readValue_word fuel rest⟩
  | .str s, rest, _, _ => by
    rw [pieces, fullText_cons_some, fullText, List.append_nil]
    exact ⟨1, fun fuel => readValue_stringText fuel s rest⟩
  | .list [], _, _, _ => ⟨1, fun _ => rfl⟩
  | .list (v :: vs), rest, hv, _ => by
    have hspace := skipSpace_newline level (']' :: rest)
    rw [skipSpace_cons (by decide)] at hspace
    have hstarts := (starts_pieces (level + 1) v hv.1).append
      (fullText (elementPieces (level + 1) vs) ++ (newline level ++ ']' :: rest))
    obtain ⟨n, hread⟩ := readElements_elementsText (level + 1) (v :: vs)
      (newline level ++ ']' :: rest) rest (List.cons_ne_nil v vs) hv (ends_newline level _) hspace
    refine ⟨n + 1, fun fuel => ?_⟩
    rw [fullText_list]
    simp only [List.append_assoc, List.cons_append, List.nil_append]
    have hread := hread fuel
    rw [elementsText, List.append_assoc] at hread ⊢
    rw [← Nat.add_assoc, readValue, if_neg (by decide), if_pos rfl, skipSpace_newline,
      hstarts.skipSpace]
    obtain ⟨c, cs, hcs, -, hend⟩ := hstarts
    rw [hcs] at hread ⊢
    dsimp only
    rw [if_neg hend, hread]
    rfl
  | .dict [], _, _, _ => ⟨1, fun _ => rfl⟩
  | .dict (m :: ms), rest, hm, _ => by
    have hspace := skipSpace_newline level ('}' :: rest)
    rw [skipSpace_cons (by decide)] at hspace
    obtain ⟨n, hread⟩ := readMembers_membersText (level + 1) (m :: ms)
      (newline level ++ '}' :: rest) rest (List.cons_ne_nil m ms) hm.2 (ends_newline level _) hspace
    refine ⟨n + 1, fun fuel => ?_⟩
    rw [fullText_dict]
    simp only [List.append_assoc, List.cons_append, List.nil_append]
    have hread := hread fuel
    obtain ⟨cs, hcs⟩ : ∃ cs, membersText (level + 1) (m :: ms) ++ (newline level ++ '}' :: rest) =
        quote :: cs := ⟨_, rfl⟩
    rw [hcs] at hread ⊢
    rw [← Nat.add_assoc, readValue, if_neg (by decide), if_neg (by decide), if_pos rfl,
      skipSpace_newline, skipSpace_cons (by decide)]
    dsimp only
    rw [if_neg (by decide), hread, Option.map_some, Dict.ofPairs_of_nodup hm.1]
  | .other, _, h, _ => h.elim

theorem readElements_elementsText (level : ℕ) : ∀ (vs : List Value) (after rest : List Char),
    vs ≠ [] → ExactAll vs → Ends after → skipSpace after = ']' :: rest →
    ∃ n, ∀ fuel, readElements (fuel + n) (elementsText level vs ++ after) = some (vs, rest)
  | [], _, _, hne, _, _, _ => absurd rfl hne
  | [v], after, rest, _, hv, hends, hskip => by
    obtain ⟨n, hread⟩ := readValue_pieces level v after hv.1 hends
    have htext : elementsText level [v] ++ after = fullText (pieces level v) ++ after := by
      rw [elementsText, elementPieces, fullText, List.append_nil]
    refine ⟨n + 1, fun fuel => ?_⟩
    rw [htext, ← Nat.add_assoc, readElements, hread]
    simp only [Option.bind_some, hskip]
    rw [if_neg (by decide), if_pos trivial]
  | v :: w :: ws, after, rest, _, hv, hends, hskip => by
    have htext : elementsText level (v :: w :: ws) ++ after = fullText (pieces level v) ++
        ',' :: (newline level ++ (elementsText level (w :: ws) ++ after)) := by
      rw [elementsText, fullText_elementPieces]
      simp only [List.append_assoc, List.cons_append]
    have hstarts : Starts (elementsText level (w :: ws) ++ after) := by
      rw [elementsText, List.append_assoc]
      exact (starts_pieces level w hv.2.1).append _
    obtain ⟨n, hread⟩ := readValue_pieces level v _ hv.1 (ends_comma _)
    obtain ⟨m, hrest⟩ := readElements_elementsText level (w :: ws) after rest
      (List.cons_ne_nil w ws) hv.2 hends hskip
    refine ⟨m + n + 1, fun fuel => ?_⟩
    have hhead := hread (fuel + m)
    have htail := hrest (fuel + n)
    rw [Nat.add_right_comm] at htail
    rw [htext, show fuel + (m + n + 1) = fuel + m + n + 1 by omega, readElements, hhead]
    simp only [Option.bind_some]
    rw [skipSpace_cons (by decide)]
    dsimp only
    rw [if_pos rfl, skipSpace_newline, hstarts.skipSpace, htail]
    rfl

theorem readMembers_membersText (level : ℕ) : ∀ (ms : List (String × Value))
    (after rest : List Char), ms ≠ [] → ExactMembers ms → Ends after →
    skipSpace after = '}' :: rest →
    ∃ n, ∀ fuel, readMembers (fuel + n) (membersText level ms ++ after) = some (ms, rest)
  | [], _, _, hne, _, _, _ => absurd rfl hne
  | [(k, v)], after, rest, _, hv, hends, hskip => by
    obtain ⟨n, hread⟩ := readValue_pieces level v after hv.1 hends
    have htext : membersText level [(k, v)] ++ after =
        stringText k ++ ([':', ' '] ++ (fullText (pieces level v) ++ after)) := by
      rw [membersText, memberPieces, fullText, List.append_nil]
      simp only [List.append_assoc, List.cons_append]
    refine ⟨n + 1, fun fuel => ?_⟩
    rw [htext, ← Nat.add_assoc, readMembers, readKey_stringText]
    simp only [Option.bind_some]
    rw [((starts_pieces level v hv.1).append after).skipSpace, hread]
    simp only [Option.bind_some, hskip]
    rw [if_neg (by decide), if_pos trivial]
  | (k, v) :: m :: ms, after, rest, _, hv, hends, hskip => by
    have htext : membersText level ((k, v) :: m :: ms) ++ after =
        stringText k ++ ([':', ' '] ++ (fullText (pieces level v) ++
          ',' :: (newline level ++ (membersText level (m :: ms) ++ after)))) := by
      rw [membersText, fullText_memberPieces]
      simp only [List.append_assoc, List.cons_append]
    obtain ⟨i, hread⟩ := readValue_pieces level v _ hv.1 (ends_comma _)
    obtain ⟨j, hrest⟩ := readMembers_membersText level (m :: ms) after rest
      (List.cons_ne_nil m ms) hv.2 hends hskip
    obtain ⟨cs, hcs⟩ : ∃ cs, membersText level (m :: ms) ++ after = quote :: cs := ⟨_, rfl⟩
    refine ⟨j + i + 1, fun fuel => ?_⟩
    have hhead := hread (fuel + j)
    have htail := hrest (fuel + i)
    rw [Nat.add_right_comm, hcs] at htail
    rw [htext, show fuel + (j + i + 1) = fuel + j + i + 1 by omega, readMembers,
      readKey_stringText]
    simp only [Option.bind_some]
    rw [((starts_pieces level v hv.1).append _).skipSpace, hhead]
    simp only [Option.bind_some]
    rw [skipSpace_cons (by decide)]
    dsimp only
    rw [if_pos rfl, skipSpace_newline, hcs, skipSpace_cons (by decide), htail]
    rfl

end

/-- **Reading what was written gives the value back.** -/
theorem load_fullText {v : Value} (h : Exact v) : load (fullText (pieces 0 v)) = some v := by
  obtain ⟨n, hread⟩ := readValue_pieces 0 v [] h (by simp [Ends])
  have hread := hread (2 * (fullText (pieces 0 v)).length + 1)
  rw [List.append_nil, readValue_of_le (by omega)] at hread
  rw [load, (starts_pieces 0 v h).skipSpace, hread]
  rfl

end TransferTestbed.JsonDocument
