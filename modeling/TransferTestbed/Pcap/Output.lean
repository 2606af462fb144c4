import Mathlib.Data.List.DropRight
import TransferTestbed.Pcap.Tshark

/-!
# An output of tshark as its lines

The analyzer strips an output as a whole before it cuts it into lines, so the blank lines
at its end disappear and the last line that stays loses the blanks at its end. A loop that
passes over blank lines, and takes a line like the line without these blanks, sees the
lines as they were printed.

Results:

* `filterMap_dataLines`: what such a loop collects.
* `csvFields_rstrip`: the blanks at the end of a line belong to its last cell.
-/

namespace TransferTestbed.Pcap

open Runs

/-- The text of a header and the lines after it, each with its line feed. -/
def outputOf (header : String) (lines : List String) : String :=
  String.ofList (Lines.unlines ((header :: lines).map String.toList))

/-- No line of an output has the end of a line in it, and its header is not blank. -/
structure IsOutput (header : String) (lines : List String) : Prop where
  notBlank : isBlank header = false
  isLine : ∀ line ∈ header :: lines, Lines.IsLine line.toList

theorem isOutput_of_all {header : String} {lines : List String}
    (h : (!isBlank header &&
      (header :: lines).all fun line => line.toList.all fun c => !Lines.isLineBreak c) = true) :
    IsOutput header lines := by
  simp only [Bool.and_eq_true, Bool.not_eq_true', List.all_eq_true] at h
  exact ⟨h.1, h.2⟩

/-- `line.rstrip()`. -/
def rstrip (line : String) : String := String.ofList (line.toList.rdropWhile isSpace)

/-! ## Blanks at the end -/

/-- A text is what is left of it and blanks. -/
theorem exists_rdropWhile_append (cs : List Char) :
    ∃ ws, (∀ c ∈ ws, isSpace c = true) ∧ cs.rdropWhile isSpace ++ ws = cs := by
  refine ⟨cs.rtakeWhile isSpace, fun c hc => List.mem_rtakeWhile_imp hc, ?_⟩
  rw [List.rdropWhile_append_rtakeWhile]

theorem rdropWhile_subset (cs : List Char) : cs.rdropWhile isSpace ⊆ cs := by
  have h := List.rdropWhile_prefix isSpace cs
  exact h.subset

theorem rdropWhile_append_blank (cs : List Char) {ws : List Char}
    (hws : ∀ c ∈ ws, isSpace c = true) :
    (cs ++ ws).rdropWhile isSpace = cs.rdropWhile isSpace := by
  rw [List.rdropWhile, List.rdropWhile, List.reverse_append,
    List.dropWhile_append_of_pos fun c hc => hws c (List.mem_reverse.1 hc)]

theorem rdropWhile_append_of_ne_nil (cs : List Char) {ds : List Char}
    (hds : ds.rdropWhile isSpace ≠ []) :
    (cs ++ ds).rdropWhile isSpace = cs ++ ds.rdropWhile isSpace := by
  obtain ⟨ws, hws, hsplit⟩ := exists_rdropWhile_append ds
  obtain ⟨front, last, hlast⟩ : ∃ front last, ds.rdropWhile isSpace = front ++ [last] :=
    ⟨_, _, (List.dropLast_append_getLast hds).symm⟩
  have hnot : ¬ isSpace last = true := by
    have := List.rdropWhile_last_not isSpace ds hds
    simpa only [hlast, List.getLast_append_singleton] using this
  have hcut : ∀ es : List Char, (es ++ (front ++ [last])).rdropWhile isSpace =
      es ++ (front ++ [last]) := by
    intro es
    rw [← List.append_assoc, List.rdropWhile_concat_neg _ _ _ hnot]
  rw [← hsplit, ← List.append_assoc, rdropWhile_append_blank _ hws, hlast, hcut,
    rdropWhile_append_blank _ hws, List.rdropWhile_concat_neg _ _ _ hnot]

/-- Blanks at the end of a text do not count. -/
theorem strip_append_blank (s : String) {ws : List Char} (hws : ∀ c ∈ ws, isSpace c = true) :
    strip (String.ofList (s.toList ++ ws)) = strip s := by
  apply String.toList_injective
  rw [toList_strip, toList_strip, String.toList_ofList]
  by_cases hblank : ∀ c ∈ s.toList, isSpace c = true
  · rw [List.dropWhile_append_of_pos hblank, List.dropWhile_eq_nil_iff.2 hblank,
      List.dropWhile_eq_nil_iff.2 hws]
  · have hne : s.toList.dropWhile isSpace ≠ [] := mt List.dropWhile_eq_nil_iff.1 hblank
    rw [List.dropWhile_append, if_neg (by simpa using hne), rdropWhile_append_blank _ hws]

theorem isBlank_iff {s : String} : isBlank s = true ↔ ∀ c ∈ s.toList, isSpace c = true := by
  rw [isBlank, decide_eq_true_eq, ← String.toList_inj, toList_strip]
  show List.rdropWhile _ _ = [] ↔ _
  rw [List.rdropWhile_eq_nil_iff]
  constructor
  · intro h c hc
    by_contra hspace
    exact hspace (h c (mem_dropWhile hc (Bool.eq_false_iff.2 hspace)))
  · intro h c hc
    exact h c ((List.dropWhile_suffix isSpace).subset hc)

/-! ## Cutting the text -/

section Cutting

variable {header : String} {lines : List String}

theorem outputOf_concat (header : String) (lines : List String) (line : String) :
    outputOf header (lines ++ [line]) =
      String.ofList ((outputOf header lines).toList ++ (line.toList ++ [Lines.lf])) := by
  simp [outputOf, Lines.unlines]

theorem dataLines_concat_blank {line : String} (hblank : isBlank line = true) :
    dataLines (outputOf header (lines ++ [line])) = dataLines (outputOf header lines) := by
  have hws : ∀ c ∈ line.toList ++ [Lines.lf], isSpace c = true := by
    intro c hc
    rcases List.mem_append.1 hc with hc | hc
    · exact isBlank_iff.1 hblank c hc
    · exact isSpace_lf c hc
  rw [dataLines, dataLines, outputLines, outputLines, outputOf_concat,
    strip_append_blank _ hws]

theorem rdropWhile_ne_nil {line : String} (h : isBlank line = false) :
    line.toList.rdropWhile isSpace ≠ [] := by
  intro hnil
  have := isBlank_iff.2 (List.rdropWhile_eq_nil_iff.1 hnil)
  rw [h] at this
  cases this

theorem isBlank_rstrip {line : String} (h : isBlank line = false) :
    isBlank (rstrip line) = false := by
  rw [Bool.eq_false_iff, Ne, isBlank_iff, rstrip, String.toList_ofList]
  intro hall
  have hne := rdropWhile_ne_nil h
  have hlast := List.rdropWhile_last_not isSpace line.toList hne
  exact hlast (hall _ (List.getLast_mem hne))

theorem isLine_of_subset {a b : List Char} (h : Lines.IsLine b) (hsub : a ⊆ b) : Lines.IsLine a :=
  fun c hc => h c (hsub hc)

/-- An output without the blanks around it, when its last line is not blank. -/
theorem toList_strip_outputOf {line : String} (hheader : isBlank header = false)
    (hline : isBlank line = false) : (strip (outputOf header (lines ++ [line]))).toList =
      Lines.unlines (header.toList.dropWhile isSpace :: lines.map String.toList) ++
        line.toList.rdropWhile isSpace := by
  have hne : header.toList.dropWhile isSpace ≠ [] := by
    intro hnil
    have := isBlank_iff.2 (List.dropWhile_eq_nil_iff.1 hnil)
    rw [hheader] at this
    cases this
  have htext : (outputOf header (lines ++ [line])).toList =
      header.toList ++ (([Lines.lf] ++ Lines.unlines (lines.map String.toList)) ++
        (line.toList ++ [Lines.lf])) := by
    simp [outputOf, Lines.unlines]
  rw [toList_strip, htext, List.dropWhile_append, if_neg (by simpa using hne),
    ← List.append_assoc, ← List.append_assoc, rdropWhile_append_blank _ isSpace_lf,
    rdropWhile_append_of_ne_nil _ (rdropWhile_ne_nil hline), ← List.append_assoc]
  rfl

/-- The lines of an output whose last line is not blank. -/
theorem dataLines_concat {line : String} (h : IsOutput header (lines ++ [line]))
    (hline : isBlank line = false) :
    dataLines (outputOf header (lines ++ [line])) = lines ++ [rstrip line] := by
  have hfirst : Lines.IsLine (header.toList.dropWhile isSpace) :=
    isLine_of_subset (h.isLine header List.mem_cons_self) (List.dropWhile_suffix isSpace).subset
  have hcut : Lines.IsLine (line.toList.rdropWhile isSpace) :=
    isLine_of_subset (h.isLine line (by simp)) (rdropWhile_subset _)
  have hall : ∀ l ∈ header.toList.dropWhile isSpace :: lines.map String.toList, Lines.IsLine l := by
    intro l hl
    rcases List.mem_cons.1 hl with rfl | hl
    · exact hfirst
    · obtain ⟨m, hm, rfl⟩ := List.mem_map.1 hl
      exact h.isLine m (by simp [hm])
  have hback : (lines.map String.toList).map String.ofList = lines := by
    rw [List.map_map]
    exact (List.map_congr_left fun l _ => String.ofList_toList).trans (List.map_id _)
  rw [dataLines, outputLines, toList_strip_outputOf h.notBlank hline,
    Lines.splitlines_unlines hall hcut (rdropWhile_ne_nil hline), List.cons_append,
    List.map_cons, List.drop_one, List.tail_cons, List.map_append, hback, List.map_singleton,
    rstrip]

theorem dataLines_nil (h : IsOutput header []) : dataLines (outputOf header []) = [] := by
  have htext : outputOf header [] = String.ofList (header.toList ++ [Lines.lf]) := by
    simp [outputOf, Lines.unlines]
  have hne : (strip header).toList ≠ [] := by
    intro hnil
    have : isBlank header = true := by
      rw [isBlank, decide_eq_true_eq]
      exact String.toList_eq_nil_iff.1 hnil
    rw [h.notBlank] at this
    cases this
  have hline : Lines.IsLine (strip header).toList := by
    refine isLine_of_subset (h.isLine header List.mem_cons_self) ?_
    rw [toList_strip]
    exact List.Subset.trans (rdropWhile_subset _) (List.dropWhile_suffix isSpace).subset
  rw [dataLines, outputLines, htext, strip_append_blank _ isSpace_lf,
    Lines.splitlines_last hline hne]
  rfl

/-- **What a loop over the lines collects**, if it passes over blank lines and takes the
    others like without the blanks at their end. -/
theorem filterMap_dataLines {β : Type} {f : String → Option β} (h : IsOutput header lines)
    (hblank : ∀ line, isBlank line = true → f line = none)
    (hrstrip : ∀ line ∈ lines, isBlank line = false → f (rstrip line) = f line) :
    (dataLines (outputOf header lines)).filterMap f = lines.filterMap f := by
  induction lines using List.reverseRecOn with
  | nil =>
    rw [dataLines_nil h]
  | append_singleton lines line ih =>
    cases hline : isBlank line with
    | true =>
      have hlines : IsOutput header lines :=
        ⟨h.notBlank, fun l hl => h.isLine l (by
          rw [← List.cons_append]
          exact List.mem_append_left _ hl)⟩
      rw [dataLines_concat_blank hline,
        ih hlines fun l hl => hrstrip l (List.mem_append_left _ hl),
        List.filterMap_append, List.filterMap_cons_none (hblank line hline), List.filterMap_nil,
        List.append_nil]
    | false =>
      rw [dataLines_concat h hline, List.filterMap_append, List.filterMap_append]
      congr 1
      have heq := hrstrip line (by simp) hline
      cases hf : f line with
      | none =>
        rw [List.filterMap_cons_none (heq.trans hf), List.filterMap_cons_none hf]
      | some b =>
        rw [List.filterMap_cons_some (heq.trans hf), List.filterMap_cons_some hf]

end Cutting

/-! ## The cells of a line -/

open Csv (Reader)

/-- A character within a line does not end it for the reader either. -/
theorem isNewline_of_not_isLineBreak {c : Char} (h : Lines.isLineBreak c = false) :
    Reader.isNewline c = false := by
  obtain ⟨hcr, hlf⟩ := ne_newline_of_plain h
  simp [Reader.isNewline, hcr, hlf]

/-- Within a line the reader stays within a record. -/
theorem char_mode {s : Reader} {c : Char} (hs : s.mode ≠ .eatCrnl)
    (hc : Reader.isNewline c = false) :
    (s.char c).mode ≠ .eatCrnl ∧ (s.char c).mode ≠ .startRecord := by
  cases hmode : s.mode with
  | eatCrnl => exact absurd hmode hs
  | startRecord =>
    simp only [Reader.char, hmode, hc, Reader.startField, Bool.false_eq_true, if_false]
    split_ifs <;> simp [Reader.goto, Reader.save, Reader.add]
  | startField =>
    simp only [Reader.char, hmode, hc, Reader.startField, Bool.false_eq_true, if_false]
    split_ifs <;> simp [Reader.goto, Reader.save, Reader.add]
  | inField =>
    simp only [Reader.char, hmode, hc, Bool.false_eq_true, if_false]
    split_ifs <;> simp [Reader.save, Reader.add]
  | inQuotedField =>
    simp only [Reader.char, hmode]
    split_ifs <;> simp [Reader.goto, Reader.add]
  | quoteInQuotedField =>
    simp only [Reader.char, hmode, hc, Bool.false_eq_true, if_false]
    split_ifs <;> simp [Reader.save, Reader.add]

/-- The cells of a reader at the end of a line. -/
def cellsOf (s : Reader) : List String := s.fields.reverse ++ [String.ofList s.field.reverse]

theorem parseFrom_line {cs : List Char} (hne : cs ≠ []) (hcs : Lines.IsLine cs) {s : Reader}
    (hs : s.mode ≠ .eatCrnl) : Csv.parseFrom s cs = [cellsOf (cs.foldl Reader.char s)] := by
  induction cs generalizing s with
  | nil => exact absurd rfl hne
  | cons c cs ih =>
    have hbreak := hcs c List.mem_cons_self
    obtain ⟨hcr, hlf⟩ := ne_newline_of_plain hbreak
    obtain ⟨heat, hstart⟩ := char_mode hs (isNewline_of_not_isLineBreak hbreak)
    rcases eq_or_ne cs [] with rfl | hrest
    · have hends : Csv.endsLine c [] = true := by simp [Csv.endsLine]
      rw [List.foldl_cons, List.foldl_nil, Csv.parseFrom, hends]
      generalize s.char c = t at *
      cases hmode : t.mode with
      | eatCrnl => exact absurd hmode heat
      | startRecord => exact absurd hmode hstart
      | startField =>
        simp [Reader.endOfLine, hmode, Reader.save, cellsOf, Csv.parseFrom, Reader.init]
      | inField =>
        simp [Reader.endOfLine, hmode, Reader.save, cellsOf, Csv.parseFrom, Reader.init]
      | inQuotedField => simp [Reader.endOfLine, hmode, Reader.save, cellsOf, Csv.parseFrom]
      | quoteInQuotedField =>
        simp [Reader.endOfLine, hmode, Reader.save, cellsOf, Csv.parseFrom, Reader.init]
    · rw [Csv.parseFrom_char _ (Csv.endsLine_of_ne hcr hlf hrest), List.foldl_cons]
      exact ih hrest (fun d hd => hcs d (List.mem_cons_of_mem _ hd)) heat

/-- The cells of a line are what the reader holds at its end. -/
theorem csvFields_eq {line : String} (hne : line.toList ≠ []) (hline : Lines.IsLine line.toList) :
    csvFields line = cellsOf (line.toList.foldl Reader.char .init) := by
  rw [csvFields, Csv.parse, parseFrom_line hne hline (by decide)]
  rfl

/-- A blank goes into the cell that is being read. -/
theorem char_blank {s : Reader} {c : Char} (hs : s.mode ≠ .eatCrnl) (hspace : isSpace c = true)
    (hbreak : Lines.isLineBreak c = false) :
    (s.char c).fields = s.fields ∧ (s.char c).field = c :: s.field := by
  have hnewline := isNewline_of_not_isLineBreak hbreak
  have hcomma : c ≠ Csv.comma := by
    rintro rfl
    revert hspace
    decide
  have hquote : c ≠ Csv.quote := by
    rintro rfl
    revert hspace
    decide
  cases hmode : s.mode with
  | eatCrnl => exact absurd hmode hs
  | _ => simp [Reader.char, Reader.startField, hmode, hnewline, hcomma, hquote, Reader.add]

theorem foldl_blank {s : Reader} {ws : List Char} (hs : s.mode ≠ .eatCrnl)
    (hspace : ∀ c ∈ ws, isSpace c = true) (hbreak : Lines.IsLine ws) :
    (ws.foldl Reader.char s).fields = s.fields ∧
      (ws.foldl Reader.char s).field = ws.reverse ++ s.field := by
  induction ws generalizing s with
  | nil => exact ⟨rfl, rfl⟩
  | cons c ws ih =>
    have hc := hbreak c List.mem_cons_self
    obtain ⟨hfields, hfield⟩ := char_blank hs (hspace c List.mem_cons_self) hc
    obtain ⟨heat, -⟩ := char_mode hs (isNewline_of_not_isLineBreak hc)
    obtain ⟨hfields', hfield'⟩ := ih heat (fun d hd => hspace d (List.mem_cons_of_mem _ hd))
      fun d hd => hbreak d (List.mem_cons_of_mem _ hd)
    rw [List.foldl_cons]
    refine ⟨hfields'.trans hfields, hfield'.trans ?_⟩
    rw [hfield, List.reverse_cons, List.append_assoc, List.singleton_append]

theorem foldl_mode {s : Reader} {cs : List Char} (hs : s.mode ≠ .eatCrnl)
    (hcs : Lines.IsLine cs) : (cs.foldl Reader.char s).mode ≠ .eatCrnl := by
  induction cs generalizing s with
  | nil => exact hs
  | cons c cs ih =>
    have hc := isNewline_of_not_isLineBreak (hcs c List.mem_cons_self)
    exact ih (char_mode hs hc).1 fun d hd => hcs d (List.mem_cons_of_mem _ hd)

/-- **The blanks at the end of a line belong to its last cell.** -/
theorem csvFields_rstrip {line : String} (hline : Lines.IsLine line.toList)
    (hblank : isBlank line = false) :
    ∃ cells last ws, (∀ c ∈ ws, isSpace c = true) ∧ csvFields (rstrip line) = cells ++ [last] ∧
      csvFields line = cells ++ [String.ofList (last.toList ++ ws)] := by
  obtain ⟨ws, hws, hsplit⟩ := exists_rdropWhile_append line.toList
  have hcut := rdropWhile_ne_nil hblank
  have hne : line.toList ≠ [] := by
    rw [← hsplit]
    exact List.append_ne_nil_of_left_ne_nil hcut ws
  have hlineCut : Lines.IsLine (line.toList.rdropWhile isSpace) :=
    isLine_of_subset hline (rdropWhile_subset _)
  have hlineWs : Lines.IsLine ws := by
    refine isLine_of_subset hline ?_
    rw [← hsplit]
    exact List.subset_append_right _ _
  have hleft := @csvFields_eq (rstrip line) (by rwa [rstrip, String.toList_ofList])
    (by rwa [rstrip, String.toList_ofList])
  have hright := csvFields_eq hne hline
  rw [rstrip, String.toList_ofList] at hleft
  rw [← hsplit, List.foldl_append] at hright
  obtain ⟨hfields, hfield⟩ := foldl_blank (foldl_mode (s := .init) (by decide) hlineCut) hws hlineWs
  generalize (line.toList.rdropWhile isSpace).foldl Reader.char .init = s at *
  refine ⟨s.fields.reverse, String.ofList s.field.reverse, ws, hws, hleft, ?_⟩
  rw [hright, cellsOf, hfields, hfield, List.reverse_append, List.reverse_reverse,
    String.toList_ofList]

end TransferTestbed.Pcap
