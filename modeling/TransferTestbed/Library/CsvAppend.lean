import TransferTestbed.Library.Csv

/-!
# Appending to CSV texts

What the reader makes of a text to which the writer has appended records. If the text ends
with a line break, they are read as records of their own; if it does not, the first one goes
on in the last line.

* `parse_append`: a text that ends with a line break.
* `length_lt_of_parse_append`: a text that does not.
-/

namespace TransferTestbed.Csv

/-! ## Ends of texts -/

/-- Whether the reader is in a quoted field at the end of the text. -/
def endsQuoted : Reader → List Char → Bool
  | s, [] => s.mode = .inQuotedField
  | s, c :: cs =>
    let s := s.char c
    if endsLine c cs then
      let s := s.endOfLine
      if s.mode = .startRecord then endsQuoted .init cs else endsQuoted s cs
    else endsQuoted s cs

/-- Every quoted field of the text is closed. -/
def Closed (text : List Char) : Prop := endsQuoted .init text = false

instance (text : List Char) : Decidable (Closed text) :=
  inferInstanceAs (Decidable (endsQuoted .init text = false))

/-- The last character of the text is a line break. -/
def EndsWithBreak (text : List Char) : Prop := ∃ c ∈ text.getLast?, Reader.isNewline c = true

instance (text : List Char) : Decidable (EndsWithBreak text) :=
  decidable_of_iff (text.getLast?.any Reader.isNewline = true) (Option.any_eq_true _ _)

theorem isNewline_iff {c : Char} : Reader.isNewline c = true ↔ c = cr ∨ c = lf := by
  simp [Reader.isNewline]

/-! ## One character -/

@[simp] theorem Reader.mode_save (s : Reader) (m : Mode) : (s.save m).mode = m := rfl

@[simp] theorem Reader.mode_add (s : Reader) (m : Mode) (c : Char) : (s.add m c).mode = m := rfl

@[simp] theorem Reader.mode_goto (s : Reader) (m : Mode) : (s.goto m).mode = m := rfl

section

variable {s : Reader} {c : Char}

/-- What a character does to the reader in a field. -/
theorem char_cases (h : Closing s ∨ s.mode = .inQuotedField) :
    s.char c = s.save .startField ∨ s.char c = s.save .eatCrnl ∨
      (∃ m, (m = .inField ∨ m = .inQuotedField) ∧ s.char c = s.add m c) ∨
      ∃ m, (m = .inQuotedField ∨ m = .quoteInQuotedField) ∧ s.char c = s.goto m := by
  rcases h with (hm | hm | hm) | hm
  · simp only [Reader.char, hm, Reader.startField]
    split_ifs
    · exact .inr (.inl rfl)
    · exact .inr (.inr (.inr ⟨_, .inl rfl, rfl⟩))
    · exact .inl rfl
    · exact .inr (.inr (.inl ⟨_, .inl rfl, rfl⟩))
  · simp only [Reader.char, hm]
    split_ifs
    · exact .inr (.inl rfl)
    · exact .inl rfl
    · exact .inr (.inr (.inl ⟨_, .inl rfl, rfl⟩))
  · simp only [Reader.char, hm]
    split_ifs
    · exact .inr (.inr (.inl ⟨_, .inr rfl, rfl⟩))
    · exact .inl rfl
    · exact .inr (.inl rfl)
    · exact .inr (.inr (.inl ⟨_, .inl rfl, rfl⟩))
  · simp only [Reader.char, hm]
    split_ifs
    · exact .inr (.inr (.inr ⟨_, .inr rfl, rfl⟩))
    · exact .inr (.inr (.inl ⟨_, .inr rfl, rfl⟩))

/-- Only a line break ends a record. -/
theorem eatCrnl_of_char (h : (s.char c).mode = .eatCrnl) :
    s.mode = .eatCrnl ∨ Reader.isNewline c = true := by
  by_contra hnot
  obtain ⟨hmode, hc⟩ := not_or.1 hnot
  cases hm : s.mode with
  | eatCrnl => exact hmode hm
  | startRecord | startField | inField | inQuotedField | quoteInQuotedField =>
    simp only [Reader.char, hm, Reader.startField, hc, Bool.false_eq_true, if_false] at h
    split_ifs at h <;> simp at h

theorem char_ne_startRecord (s : Reader) (c : Char) : (s.char c).mode ≠ .startRecord := by
  intro h
  cases hm : s.mode with
  | eatCrnl => simp [Reader.char, hm] at h
  | startRecord | startField | inField | inQuotedField | quoteInQuotedField =>
    simp only [Reader.char, hm, Reader.startField] at h
    split_ifs at h <;> simp at h

/-- In the middle of a line, after all its quotes. -/
theorem closing_char (hmode : s.mode = .eatCrnl → Reader.isNewline c = true)
    (hc : Reader.isNewline c = false) (h : (s.char c).mode ≠ .inQuotedField) :
    Closing (s.char c) := by
  cases hm : (s.char c).mode with
  | startField => exact .inl hm
  | inField => exact .inr (.inl hm)
  | quoteInQuotedField => exact .inr (.inr hm)
  | inQuotedField => exact absurd hm h
  | startRecord => exact absurd hm (char_ne_startRecord s c)
  | eatCrnl =>
    have htrue := (eatCrnl_of_char hm).elim hmode id
    rw [hc] at htrue
    cases htrue

/-- At the end of a line the record is complete, or the reader is in quotes. -/
theorem endOfLine_cases (s : Reader) :
    s.endOfLine.mode = .startRecord ∨ s.mode = .inQuotedField ∧ s.endOfLine = s := by
  cases hm : s.mode <;> simp [Reader.endOfLine, hm, Reader.save, Reader.goto]

end

/-! ## A text that ends with a line break -/

theorem endsLine_append {c : Char} {cs : List Char} (h : cs ≠ []) (more : List Char) :
    endsLine c (cs ++ more) = endsLine c cs := by
  obtain ⟨d, ds, rfl⟩ := List.exists_cons_of_ne_nil h
  rfl

theorem parseFrom_append {s : Reader} {text more : List Char} (hclosed : endsQuoted s text = false)
    (hends : EndsWithBreak text) (hmore : more.head? ≠ some lf) :
    parseFrom s (text ++ more) = parseFrom s text ++ parse more := by
  induction text generalizing s with
  | nil =>
    obtain ⟨c, hc, -⟩ := hends
    cases hc
  | cons c cs ih =>
    rcases eq_or_ne cs [] with rfl | hcs
    · obtain ⟨d, hd, hnewline⟩ := hends
      obtain rfl : c = d := by simpa using hd
      have hline (ds : List Char) (hds : ds.head? ≠ some lf) : endsLine c ds = true := by
        rcases isNewline_iff.1 hnewline with rfl | rfl
        · simp [endsLine, hds]
        · simp [endsLine]
      have hlast := hline [] (by simp)
      simp only [endsQuoted, hlast, if_true] at hclosed
      rw [List.singleton_append]
      simp only [parseFrom, hlast, hline more hmore, if_true]
      rcases endOfLine_cases (s.char c) with hmode | ⟨hquoted, hstays⟩
      · simp [hmode, Reader.init, parse]
      · rw [hstays, if_neg (by simp [hquoted])] at hclosed
        simp [hquoted] at hclosed
    · have hends' : EndsWithBreak cs := by
        rwa [EndsWithBreak, List.getLast?_cons_of_ne_nil hcs] at hends
      rw [List.cons_append]
      simp only [endsQuoted] at hclosed
      simp only [parseFrom, endsLine_append hcs]
      split_ifs at hclosed ⊢ with hline hmode
      · rw [ih hclosed hends', List.cons_append]
      · exact ih hclosed hends'
      · exact ih hclosed hends'

theorem head?_render (rs : List Record) : (render rs).head? ≠ some lf := by
  cases rs with
  | nil => simp [render]
  | cons r rs =>
    have hcr : cr ≠ lf := by decide
    have hquote : quote ≠ lf := by decide
    rw [render, List.flatMap_cons, recordText]
    split_ifs with h
    · simpa using hquote
    · rcases eq_or_ne r [] with rfl | hr
      · simpa [fieldsText] using hcr
      · obtain ⟨c, tail, htext, -, hclf⟩ := fieldsText_head hr h
        simpa [htext] using hclf

/-- **Appending after a line break**: the records are read as records of their own. -/
theorem parse_append {text : List Char} (hclosed : Closed text) (hends : EndsWithBreak text)
    (rs : List Record) : parse (text ++ render rs) = parse text ++ rs := by
  rw [parse, parseFrom_append hclosed hends (head?_render rs), parse_render]
  rfl

/-! ## A text that does not -/

/-- After a CR that does not end the line there is an LF. -/
def Pending (s : Reader) (cs : List Char) : Prop := s.mode = .eatCrnl → cs.head? = some lf

theorem Pending.char {s : Reader} {c : Char} {cs : List Char} (h : Pending s (c :: cs))
    (hline : endsLine c cs = false) : Pending (s.char c) cs := by
  intro hmode
  simp only [endsLine, Bool.or_eq_false_iff, decide_eq_false_iff_not] at hline
  rcases eatCrnl_of_char hmode with heat | hnewline
  · exact absurd (Option.some.inj (h heat)) hline.1.1
  · rcases isNewline_iff.1 hnewline with rfl | rfl
    · simpa using hline.1.2
    · exact absurd rfl hline.1.1

/-- The last record of a text without a line break at its end is the reader's, and what is
    appended goes on with it. -/
theorem parseFrom_split {s : Reader} {text : List Char} (hpending : Pending s text)
    (hne : text ≠ []) (hclosed : endsQuoted s text = false) (hends : ¬ EndsWithBreak text) :
    ∃ before t, Closing t ∧ parseFrom s text = before ++ [(t.save .startRecord).fields.reverse] ∧
      ∀ more ≠ [], parseFrom s (text ++ more) = before ++ parseFrom t more := by
  induction text generalizing s with
  | nil => exact absurd rfl hne
  | cons c cs ih =>
    rcases eq_or_ne cs [] with rfl | hcs
    · have hnewline : Reader.isNewline c = false := by
        by_contra h
        exact hends ⟨c, rfl, by simpa using h⟩
      have hlast : endsLine c [] = true := by simp [endsLine]
      have hclosing : Closing (s.char c) := by
        refine closing_char (fun hmode => ?_) hnewline fun hquoted => ?_
        · obtain rfl : c = lf := Option.some.inj (hpending hmode)
          rfl
        · simp [endsQuoted, hlast, Reader.endOfLine, hquoted] at hclosed
      refine ⟨[], s.char c, hclosing, ?_, fun more h => ?_⟩
      · have hend : (s.char c).endOfLine = (s.char c).save .startRecord := by
          rcases hclosing with hm | hm | hm <;> simp [Reader.endOfLine, hm]
        simp [parseFrom, hlast, hend, Reader.init]
      · have hmore : endsLine c more = false := by
          refine endsLine_of_ne (fun e => ?_) (fun e => ?_) h
          · simp [e, Reader.isNewline] at hnewline
          · simp [e, Reader.isNewline] at hnewline
        rw [List.singleton_append, parseFrom_char s hmore, List.nil_append]
    · have hends' : ¬ EndsWithBreak cs := by
        rwa [EndsWithBreak, List.getLast?_cons_of_ne_nil hcs] at hends
      simp only [endsQuoted] at hclosed
      simp only [List.cons_append, parseFrom, endsLine_append hcs]
      split_ifs at hclosed ⊢ with hline hmode
      · obtain ⟨before, t, hclosing, hparse, hmore⟩ :=
          ih (fun h => by cases h) hcs hclosed hends'
        refine ⟨(s.char c).endOfLine.fields.reverse :: before, t, hclosing, ?_, fun more h => ?_⟩
        · rw [hparse, List.cons_append]
        · rw [hmore more h, List.cons_append]
      · refine ih (fun heat => ?_) hcs hclosed hends'
        rcases endOfLine_cases (s.char c) with h | ⟨hquoted, hstays⟩
        · exact absurd h hmode
        · rw [hstays, hquoted] at heat
          cases heat
      · exact ih (hpending.char (Bool.eq_false_iff.2 hline)) hcs hclosed hends'

/-! ## The record that goes on -/

/-- The record has the fields of the reader, the field it is in with what is added to it, and
    then others. -/
def Extends (s : Reader) (r : Record) : Prop :=
  ∃ added rest, r = s.fields.reverse ++ String.ofList (s.field.reverse ++ added) :: rest

section

variable {s : Reader} {c : Char} {cs : List Char} {r : Record} {rs : List Record}

theorem extends_save (s : Reader) (m : Mode) : Extends s (s.save m).fields.reverse :=
  ⟨[], [], by simp [Reader.save]⟩

theorem Extends.of_save {m : Mode} (h : Extends (s.save m) r) : Extends s r := by
  obtain ⟨added, rest, rfl⟩ := h
  exact ⟨[], String.ofList added :: rest, by simp [Reader.save]⟩

theorem Extends.of_add {m : Mode} (h : Extends (s.add m c) r) : Extends s r := by
  obtain ⟨added, rest, rfl⟩ := h
  exact ⟨c :: added, rest, by simp [Reader.add]⟩

/-- After the end of its record the reader adds nothing to it. -/
theorem eq_of_eatCrnl (hs : s.mode = .eatCrnl) (h : parseFrom s cs = r :: rs) :
    r = s.fields.reverse := by
  induction cs with
  | nil => simp [parseFrom, hs] at h
  | cons c cs ih =>
    have hchar : s.char c = s := by simp [Reader.char, hs]
    rw [parseFrom, hchar] at h
    split_ifs at h with hline
    · simp only [Reader.endOfLine, hs, Reader.goto, if_true] at h
      exact (List.cons.inj h).1.symm
    · exact ih h

/-- **The first record** that is read from within a field goes on with it. -/
theorem extends_of_parseFrom (hs : Closing s ∨ s.mode = .inQuotedField)
    (h : parseFrom s cs = r :: rs) : Extends s r := by
  induction cs generalizing s with
  | nil =>
    rw [parseFrom] at h
    split_ifs at h
    rw [← (List.cons.inj h).1]
    exact extends_save s _
  | cons c cs ih =>
    -- the reader after the character, at the end of a line or within it
    have hnext (t : Reader) (ht : Closing t ∨ t.mode = .inQuotedField)
        (hparse : parseFrom s (c :: cs) = if endsLine c cs then
            if t.endOfLine.mode = .startRecord then
              t.endOfLine.fields.reverse :: parseFrom .init cs
            else parseFrom t.endOfLine cs
          else parseFrom t cs) : Extends t r := by
      rw [hparse] at h
      split_ifs at h with hline hmode
      · have hend : t.endOfLine = t.save .startRecord := by
          rcases ht with (hm | hm | hm) | hm
          · simp [Reader.endOfLine, hm]
          · simp [Reader.endOfLine, hm]
          · simp [Reader.endOfLine, hm]
          · simp [Reader.endOfLine, hm] at hmode
        rw [hend] at h
        rw [← (List.cons.inj h).1]
        exact extends_save t _
      · rcases endOfLine_cases t with hm | ⟨-, hstays⟩
        · exact absurd hm hmode
        · rw [hstays] at h
          exact ih ht h
      · exact ih ht h
    rcases char_cases (c := c) hs with hchar | hchar | ⟨m, hm, hchar⟩ | ⟨m, hm, hchar⟩
    · exact (hnext _ (.inl (.inl rfl)) (by rw [parseFrom, hchar])).of_save
    · have hrecord : r = (s.save .eatCrnl).fields.reverse := by
        rw [parseFrom, hchar] at h
        split_ifs at h with hline
        · exact (List.cons.inj h).1.symm
        · exact eq_of_eatCrnl rfl h
      rw [hrecord]
      exact extends_save s _
    · refine (hnext (s.add m c) ?_ (by rw [parseFrom, hchar])).of_add
      rcases hm with rfl | rfl
      · exact .inl (.inr (.inl rfl))
      · exact .inr rfl
    · refine hnext (s.goto m) ?_ (by rw [parseFrom, hchar])
      rcases hm with rfl | rfl
      · exact .inr rfl
      · exact .inl (.inr (.inr rfl))

/-- A field that has grown. -/
theorem Extends.ne_of_lt {t : Reader} (h : Extends t r) (hfields : t.fields = s.fields)
    (hlt : s.field.length < t.field.length) : r ≠ (s.save .startRecord).fields.reverse := by
  rintro rfl
  obtain ⟨added, rest, heq⟩ := h
  rw [Reader.save, hfields, List.reverse_cons, List.append_cancel_left_eq] at heq
  have hlength := congrArg (fun f => f.toList.length) (List.cons.inj heq).1
  simp only [String.toList_ofList, List.length_reverse, List.length_append] at hlength
  omega

/-- A field more. -/
theorem Extends.ne_of_save (h : Extends (s.save .startField) r) :
    r ≠ (s.save .startRecord).fields.reverse := by
  rintro rfl
  obtain ⟨added, rest, heq⟩ := h
  have hlength := congrArg List.length heq
  simp [Reader.save] at hlength

/-- A character more. -/
theorem ne_of_parseFrom_add {m : Mode} (hm : m = .inField ∨ m = .inQuotedField)
    (h : parseFrom (s.add m c) cs = r :: rs) : r ≠ (s.save .startRecord).fields.reverse := by
  have hmode : Closing (s.add m c) ∨ (s.add m c).mode = .inQuotedField := by
    rcases hm with rfl | rfl
    · exact .inl (.inr (.inl rfl))
    · exact .inr rfl
  exact (extends_of_parseFrom hmode h).ne_of_lt rfl (Nat.lt_succ_self _)

/-- A quote that does not begin a field is a character of it. -/
theorem ne_of_parseFrom_quote (hs : Closing s) (hmode : s.mode ≠ .startField) (hcs : cs ≠ [])
    (h : parseFrom s (quote :: cs) = r :: rs) : r ≠ (s.save .startRecord).fields.reverse := by
  have hcomma : quote ≠ comma := by decide
  have hnewline : Reader.isNewline quote = false := by decide
  rw [parseFrom_char s (endsLine_of_ne (by decide) (by decide) hcs)] at h
  rcases hs with hm | hm | hm
  · exact absurd hm hmode
  · have hchar : s.char quote = s.add .inField quote := by
      simp [Reader.char, hm, hcomma, hnewline]
    rw [hchar] at h
    exact ne_of_parseFrom_add (.inl rfl) h
  · have hchar : s.char quote = s.add .inQuotedField quote := by simp [Reader.char, hm]
    rw [hchar] at h
    exact ne_of_parseFrom_add (.inr rfl) h

/-- A field that is not empty goes on with the one of the reader. -/
theorem ne_of_parseFrom_fieldText (hs : Closing s) {f : String} (hf : f ≠ "") (hcs : cs ≠ [])
    (h : parseFrom s (fieldText f ++ cs) = r :: rs) :
    r ≠ (s.save .startRecord).fields.reverse := by
  obtain ⟨d, body, hlist⟩ : ∃ d body, f.toList = d :: body :=
    List.exists_cons_of_ne_nil (mt String.toList_eq_nil_iff.1 hf)
  unfold fieldText at h
  split_ifs at h with hspecial
  · simp only [List.cons_append, List.append_assoc, List.nil_append] at h
    by_cases hmode : s.mode = .startField
    · have hchar : s.char quote = ⟨.inQuotedField, s.field, s.fields⟩ := by
        simp [Reader.char, hmode, Reader.startField, Reader.isNewline, Reader.goto, quote, cr, lf]
      rw [parseFrom_char s (endsLine_of_ne (by decide) (by decide) (by simp)), hchar,
        parseFrom_quoted _ _ _ hcs] at h
      refine (extends_of_parseFrom (.inl (.inr (.inr rfl))) h).ne_of_lt rfl ?_
      simp only [hlist, List.length_append, List.length_reverse, List.length_cons]
      omega
    · exact ne_of_parseFrom_quote hs hmode (by simp) h
  · rw [hlist] at h hspecial
    obtain ⟨hcomma, hquote, hcr, hlf⟩ := not_isSpecial (c := d) (by simp_all)
    have hchar : s.char d = s.add .inField d := by
      rcases hs with hm | hm | hm <;>
        simp [Reader.char, hm, Reader.startField, Reader.isNewline, hcomma, hquote, hcr, hlf]
    rw [List.cons_append, parseFrom_char s (endsLine_of_ne hcr hlf (by simp [hcs])), hchar] at h
    exact ne_of_parseFrom_add (.inl rfl) h

end

/-- **A record that goes on in a line** changes the line's record, unless it is empty. -/
theorem ne_of_parseFrom_recordText {s : Reader} (hs : Closing s) {r : Record} (hr : r ≠ [])
    (hempty : r = [""] → s.mode ≠ .startField) {cs : List Char} {first : Record}
    {rest : List Record} (h : parseFrom s (recordText r ++ cs) = first :: rest) :
    first ≠ (s.save .startRecord).fields.reverse := by
  unfold recordText at h
  split_ifs at h with hblank
  · exact ne_of_parseFrom_quote hs (hempty hblank) (by simp) h
  · cases r with
    | nil => exact absurd rfl hr
    | cons f fs =>
      obtain ⟨suffix, htext, hsuffix, hcomma⟩ : ∃ suffix,
          fieldsText (f :: fs) ++ [cr, lf] ++ cs = fieldText f ++ suffix ∧ suffix ≠ [] ∧
            (f = "" → ∃ tail, suffix = comma :: tail ∧ tail ≠ []) := by
        cases fs with
        | nil =>
          refine ⟨[cr, lf] ++ cs, by simp [fieldsText], by simp, fun hf => ?_⟩
          rw [hf] at hblank
          exact absurd rfl hblank
        | cons g fs =>
          refine ⟨comma :: (fieldsText (g :: fs) ++ [cr, lf] ++ cs), ?_, by simp, fun _ => ?_⟩
          · rw [fieldsText_cons_cons]
            simp
          · exact ⟨_, rfl, by simp⟩
      rw [htext] at h
      by_cases hf : f = ""
      · obtain ⟨tail, rfl, htail⟩ := hcomma hf
        subst hf
        have hnone : fieldText "" = [] := rfl
        rw [hnone, List.nil_append, parseFrom_comma hs htail] at h
        exact (extends_of_parseFrom (.inl (.inl rfl)) h).ne_of_save
      · exact ne_of_parseFrom_fieldText hs hf hsuffix h

/-- A record that leaves the line's record as it is has been swallowed by it. -/
theorem parseFrom_recordText_of_empty {s : Reader} (hs : Closing s) {r : Record}
    (hr : r = [] ∨ r = [""] ∧ s.mode = .startField) (cs : List Char) :
    parseFrom s (recordText r ++ cs) =
      (s.save .startRecord).fields.reverse :: parseFrom .init cs := by
  rcases hr with rfl | ⟨rfl, hmode⟩
  · exact parseFrom_crlf hs cs
  · have hopen : s.char quote = ⟨.inQuotedField, s.field, s.fields⟩ := by
      simp [Reader.char, hmode, Reader.startField, Reader.isNewline, Reader.goto, quote, cr, lf]
    have hcs : cr :: lf :: cs ≠ [] := by simp
    have hquoted := parseFrom_quoted [] s.field s.fields hcs
    have htext : recordText [""] ++ cs = quote :: quote :: cr :: lf :: cs := rfl
    rw [htext, parseFrom_char s (endsLine_of_ne (by decide) (by decide) (by simp)), hopen]
    exact hquoted.trans (parseFrom_crlf (.inr (.inr rfl)) cs)

/-- **Appending without a line break**: if the records of the text are still there, there are
    fewer new ones than have been written. -/
theorem length_lt_of_parse_append {text : List Char} (hne : text ≠ []) (hclosed : Closed text)
    (hends : ¬ EndsWithBreak text) {rs : List Record} (hrs : rs ≠ []) {new : List Record}
    (h : parse (text ++ render rs) = parse text ++ new) : new.length < rs.length := by
  obtain ⟨before, s, hs, hparse, hmore⟩ :=
    parseFrom_split (fun h => by cases h) hne hclosed hends
  obtain ⟨r, rs, rfl⟩ := List.exists_cons_of_ne_nil hrs
  have htext : render (r :: rs) = recordText r ++ render rs := List.flatMap_cons
  have hnonempty : recordText r ++ render rs ≠ [] := by simp [recordText]
  rw [parse, parse, hparse, htext, hmore _ hnonempty, List.append_assoc,
    List.append_cancel_left_eq, List.singleton_append] at h
  have hempty : r = [] ∨ r = [""] ∧ s.mode = .startField := by
    by_contra hnot
    obtain ⟨hr, hmode⟩ := not_or.1 hnot
    exact ne_of_parseFrom_recordText hs hr (fun hblank hstart => hmode ⟨hblank, hstart⟩) h rfl
  rw [parseFrom_recordText_of_empty hs hempty] at h
  rw [← (List.cons.inj h).2, ← parse, parse_render]
  exact Nat.lt_succ_self _

end TransferTestbed.Csv
