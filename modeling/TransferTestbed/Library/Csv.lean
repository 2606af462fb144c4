import TransferTestbed.Library.Dict

/-!
# CSV

The writer and the reader of Python's `csv` module in the default dialect
(delimiter `,`, quote `"`, doubled quotes, minimal quoting, line terminator
CR LF), on files opened with `newline=""`, and `DictReader` and `DictWriter`
over them.

* `parse_render`: reading written records gives the records back.
* `readDicts_render`: reading written dictionaries gives each key its text back.
-/

namespace TransferTestbed.Csv

def comma : Char := Char.ofNat 44

def quote : Char := Char.ofNat 34

def cr : Char := Char.ofNat 13

def lf : Char := Char.ofNat 10

abbrev Record := List String

/-! ## Writing -/

/-- The characters that make the writer quote a field. -/
def isSpecial (c : Char) : Bool := c = comma || c = quote || c = cr || c = lf

/-- A character of a quoted field. -/
def double (c : Char) : List Char := if c = quote then [quote, quote] else [c]

def fieldText (f : String) : List Char :=
  if f.toList.any isSpecial then quote :: f.toList.flatMap double ++ [quote] else f.toList

def fieldsText : Record → List Char
  | [] => []
  | [f] => fieldText f
  | f :: fs => fieldText f ++ comma :: fieldsText fs

/-- `writer.writerow(r)`. A record whose only field is empty is quoted, so that
    its line is not blank. -/
def recordText (r : Record) : List Char :=
  (if r = [""] then [quote, quote] else fieldsText r) ++ [cr, lf]

def render (rs : List Record) : List Char := rs.flatMap recordText

/-! ## Reading -/

/-- The states of the reader, as `_csv.c` names them. -/
inductive Mode where
  | startRecord
  | startField
  | inField
  | inQuotedField
  | quoteInQuotedField
  | eatCrnl
deriving DecidableEq, Repr

/-- The reader between two characters: its state, the field read so far and the
    fields before it, both with the last one first. -/
structure Reader where
  mode : Mode
  field : List Char
  fields : List String
deriving DecidableEq, Repr

namespace Reader

def init : Reader := ⟨.startRecord, [], []⟩

def save (s : Reader) (m : Mode) : Reader := ⟨m, [], String.ofList s.field.reverse :: s.fields⟩

def add (s : Reader) (m : Mode) (c : Char) : Reader := ⟨m, c :: s.field, s.fields⟩

def goto (s : Reader) (m : Mode) : Reader := { s with mode := m }

def isNewline (c : Char) : Bool := c = cr || c = lf

/-- `parse_process_char` in the state `START_FIELD`. -/
def startField (s : Reader) (c : Char) : Reader :=
  if isNewline c then s.save .eatCrnl
  else if c = quote then s.goto .inQuotedField
  else if c = comma then s.save .startField
  else s.add .inField c

/-- `parse_process_char` on a character of the file. -/
def char (s : Reader) (c : Char) : Reader :=
  match s.mode with
  | .startRecord => if isNewline c then s.goto .eatCrnl else s.startField c
  | .startField => s.startField c
  | .inField =>
    if isNewline c then s.save .eatCrnl
    else if c = comma then s.save .startField
    else s.add .inField c
  | .inQuotedField => if c = quote then s.goto .quoteInQuotedField else s.add .inQuotedField c
  | .quoteInQuotedField =>
    if c = quote then s.add .inQuotedField c
    else if c = comma then s.save .startField
    else if isNewline c then s.save .eatCrnl
    else s.add .inField c
  -- only the rest of the line's terminator can follow in the same line
  | .eatCrnl => s

/-- `parse_process_char` on the end of a line. -/
def endOfLine (s : Reader) : Reader :=
  match s.mode with
  | .startRecord => s
  | .startField | .inField | .quoteInQuotedField => s.save .startRecord
  | .inQuotedField => s
  | .eatCrnl => s.goto .startRecord

end Reader

/-- `c` is the last character of a line when `cs` follows: lines end with CR, LF
    or CR LF. -/
def endsLine (c : Char) (cs : List Char) : Bool :=
  c = lf || (c = cr && cs.head? ≠ some lf) || cs.isEmpty

/-- `list(csv.reader(fh))`, from a state of the reader. -/
def parseFrom : Reader → List Char → List Record
  | s, [] => if s.mode = .inQuotedField then [(s.save .startRecord).fields.reverse] else []
  | s, c :: cs =>
    let s := s.char c
    if endsLine c cs then
      let s := s.endOfLine
      if s.mode = .startRecord then s.fields.reverse :: parseFrom .init cs else parseFrom s cs
    else parseFrom s cs

def parse (cs : List Char) : List Record := parseFrom .init cs

/-! ## Dictionaries -/

/-- A row of `csv.DictReader`: its cells, `none` for a missing one, and the list
    under the key `None` that holds the fields beyond the header. -/
structure DictRow where
  cells : Dict String (Option String)
  rest : Option (List String)
deriving DecidableEq, Repr

def dictRow (fieldnames : List String) (r : Record) : DictRow where
  cells := (Dict.ofPairs (fieldnames.zip (r.map some))).update
    ((fieldnames.drop r.length).map fun k => (k, none))
  rest := if fieldnames.length < r.length then some (r.drop fieldnames.length) else none

/-- `list(csv.DictReader(fh))`: the first record is the header, blank lines are skipped. -/
def readDicts (cs : List Char) : List DictRow :=
  match parse cs with
  | [] => []
  | fieldnames :: rs => (rs.filter (· ≠ [])).map (dictRow fieldnames)

/-- `DictWriter._dict_to_list`: `none` is the `ValueError` for a key outside `fieldnames`. -/
def dictToList (fieldnames : List String) (row : Dict String String) : Option Record :=
  if ∀ k ∈ row.keys, k ∈ fieldnames then
    some (fieldnames.map fun k => (row.get? k).getD "")
  else none

/-- `DictWriter.writerows`: the records written, and whether it returns. The rows
    before the first one it rejects are written. -/
def writeRows (fieldnames : List String) : List (Dict String String) → List Record × Bool
  | [] => ([], true)
  | row :: rows =>
    match dictToList fieldnames row with
    | none => ([], false)
    | some r => (r :: (writeRows fieldnames rows).1, (writeRows fieldnames rows).2)

/-! ## Reading fields -/

/-- A field ends here: these states save it at a comma or a newline. -/
def Closing (s : Reader) : Prop :=
  s.mode = .startField ∨ s.mode = .inField ∨ s.mode = .quoteInQuotedField

theorem char_comma {s : Reader} (h : Closing s) : s.char comma = s.save .startField := by
  have hcq : comma ≠ quote := by decide
  have hnl : Reader.isNewline comma = false := by decide
  rcases h with h | h | h <;> simp [Reader.char, Reader.startField, h, hcq, hnl]

theorem char_cr {s : Reader} (h : Closing s) : s.char cr = s.save .eatCrnl := by
  have hq : cr ≠ quote := by decide
  have hc : cr ≠ comma := by decide
  have hnl : Reader.isNewline cr = true := by decide
  rcases h with h | h | h <;> simp [Reader.char, Reader.startField, h, hq, hc, hnl]

theorem endsLine_of_ne {c : Char} (hcr : c ≠ cr) (hlf : c ≠ lf) {cs : List Char} (hcs : cs ≠ []) :
    endsLine c cs = false := by
  simp [endsLine, hcr, hlf, hcs]

theorem endsLine_cr_lf (cs : List Char) : endsLine cr (lf :: cs) = false := by
  have hne : cr ≠ lf := by decide
  simp [endsLine, hne]

/-- A character within a line. -/
theorem parseFrom_char (s : Reader) {c : Char} {cs : List Char} (h : endsLine c cs = false) :
    parseFrom s (c :: cs) = parseFrom (s.char c) cs := by
  simp [parseFrom, h]

theorem parseFrom_comma {s : Reader} (h : Closing s) {cs : List Char} (hcs : cs ≠ []) :
    parseFrom s (comma :: cs) = parseFrom (s.save .startField) cs := by
  rw [parseFrom_char s (endsLine_of_ne (by decide) (by decide) hcs), char_comma h]

/-- The last line of a file, without a terminator, is a record if it ends between two fields. -/
theorem parseFrom_line {cs : List Char} (hne : cs ≠ []) (hline : ∀ c ∈ cs, c ≠ cr ∧ c ≠ lf)
    (s : Reader) (hclosing : Closing (cs.foldl .char s)) :
    parseFrom s cs = [((cs.foldl .char s).save .startRecord).fields.reverse] := by
  induction cs generalizing s with
  | nil => exact absurd rfl hne
  | cons c cs ih =>
    obtain ⟨hcr, hlf⟩ := hline c (by simp)
    rcases eq_or_ne cs [] with rfl | hcs
    · have hend : endsLine c [] = true := by simp [endsLine]
      have hsave : (s.char c).endOfLine = (s.char c).save .startRecord := by
        rcases hclosing with h | h | h <;>
          (rw [List.foldl_cons, List.foldl_nil] at h; simp only [Reader.endOfLine, h])
      rw [parseFrom, if_pos hend]
      simp only [hsave]
      rfl
    · rw [parseFrom_char s (endsLine_of_ne hcr hlf hcs), List.foldl_cons]
      exact ih hcs (fun d hd => hline d (by simp [hd])) (s.char c) hclosing

/-- The line terminator completes the record. -/
theorem parseFrom_crlf {s : Reader} (h : Closing s) (cs : List Char) :
    parseFrom s (cr :: lf :: cs) = (s.save .eatCrnl).fields.reverse :: parseFrom .init cs := by
  have hlf : endsLine lf cs = true := by simp [endsLine]
  rw [parseFrom_char s (endsLine_cr_lf cs), char_cr h]
  simp [parseFrom, hlf, Reader.save, Reader.char, Reader.endOfLine, Reader.goto]

theorem not_isSpecial {c : Char} (h : isSpecial c = false) :
    c ≠ comma ∧ c ≠ quote ∧ c ≠ cr ∧ c ≠ lf := by
  simpa [isSpecial, and_assoc] using h

/-- The inside of a quoted field up to its closing quote. -/
theorem parseFrom_quoted (body : List Char) (f : List Char) (fs : List String) {cs : List Char}
    (hcs : cs ≠ []) :
    parseFrom ⟨.inQuotedField, f, fs⟩ (body.flatMap double ++ quote :: cs) =
      parseFrom ⟨.quoteInQuotedField, body.reverse ++ f, fs⟩ cs := by
  induction body generalizing f with
  | nil =>
    rw [List.flatMap_nil, List.nil_append,
      parseFrom_char _ (endsLine_of_ne (by decide) (by decide) hcs)]
    rfl
  | cons c body ih =>
    have hne : body.flatMap double ++ quote :: cs ≠ [] := by simp
    rw [List.flatMap_cons, List.append_assoc, List.reverse_cons, List.append_assoc]
    by_cases hc : c = quote
    · have hquote (m : List Char) (hm : m ≠ []) : endsLine quote m = false :=
        endsLine_of_ne (by decide) (by decide) hm
      have hdouble : double c = [quote, quote] := if_pos hc
      rw [hdouble, List.cons_append, List.cons_append, List.nil_append,
        parseFrom_char _ (hquote _ (by simp)), parseFrom_char _ (hquote _ hne), hc]
      exact ih (quote :: f)
    · have hdouble : double c = [c] := if_neg hc
      have hchar : Reader.char ⟨.inQuotedField, f, fs⟩ c = ⟨.inQuotedField, c :: f, fs⟩ := by
        simp [Reader.char, hc, Reader.add]
      rw [hdouble, List.singleton_append]
      -- a newline inside quotes ends a line of the file and not the record
      have hstep : parseFrom ⟨.inQuotedField, f, fs⟩ (c :: (body.flatMap double ++ quote :: cs)) =
          parseFrom ⟨.inQuotedField, c :: f, fs⟩ (body.flatMap double ++ quote :: cs) := by
        rw [parseFrom, hchar]
        simp [Reader.endOfLine]
      rw [hstep]
      exact ih (c :: f)

/-- An unquoted field, once begun. -/
theorem parseFrom_plain (body : List Char) (hbody : ∀ c ∈ body, isSpecial c = false)
    (f : List Char) (fs : List String) {cs : List Char} (hcs : cs ≠ []) :
    parseFrom ⟨.inField, f, fs⟩ (body ++ cs) =
      parseFrom ⟨.inField, body.reverse ++ f, fs⟩ cs := by
  induction body generalizing f with
  | nil => rfl
  | cons c body ih =>
    obtain ⟨hcomma, hquote, hcr, hlf⟩ := not_isSpecial (hbody c (by simp))
    have hchar : Reader.char ⟨.inField, f, fs⟩ c = ⟨.inField, c :: f, fs⟩ := by
      simp [Reader.char, Reader.isNewline, hcomma, hcr, hlf, Reader.add]
    rw [List.cons_append, parseFrom_char _ (endsLine_of_ne hcr hlf (by simp [hcs])), hchar,
      ih (fun d hd => hbody d (by simp [hd])), List.reverse_cons, List.append_assoc]
    rfl

/-- Reading a written field leaves the reader with that field, ready to save it. -/
theorem parseFrom_fieldText (s : String) (fs : List String) (cs : List Char) (hcs : cs ≠ []) :
    ∃ q : Reader, parseFrom ⟨.startField, [], fs⟩ (fieldText s ++ cs) = parseFrom q cs ∧
      Closing q ∧ q.field = s.toList.reverse ∧ q.fields = fs := by
  unfold fieldText
  split_ifs with h
  · refine ⟨⟨.quoteInQuotedField, s.toList.reverse ++ [], fs⟩, ?_, Or.inr (Or.inr rfl), by simp,
      rfl⟩
    have hopen : Reader.char ⟨.startField, [], fs⟩ quote = ⟨.inQuotedField, [], fs⟩ := rfl
    simp only [List.cons_append, List.append_assoc, List.nil_append]
    rw [parseFrom_char _ (endsLine_of_ne (by decide) (by decide) (by simp)), hopen,
      parseFrom_quoted _ _ _ hcs]
  · cases hs : s.toList with
    | nil => exact ⟨⟨.startField, [], fs⟩, rfl, Or.inl rfl, rfl, rfl⟩
    | cons c body =>
      have hplain : ∀ d ∈ c :: body, isSpecial d = false := by
        rw [hs] at h
        simpa using h
      obtain ⟨hcomma, hquote, hcr, hlf⟩ := not_isSpecial (hplain c (by simp))
      have hchar : Reader.char ⟨.startField, [], fs⟩ c = ⟨.inField, [c], fs⟩ := by
        simp [Reader.char, Reader.startField, Reader.isNewline, hcomma, hquote, hcr, hlf,
          Reader.add]
      refine ⟨⟨.inField, body.reverse ++ [c], fs⟩, ?_, Or.inr (Or.inl rfl), by simp, rfl⟩
      rw [List.cons_append, parseFrom_char _ (endsLine_of_ne hcr hlf (by simp [hcs])), hchar,
        parseFrom_plain body (fun d hd => hplain d (by simp [hd])) _ _ hcs]

/-! ## Reading records -/

theorem fieldsText_cons_cons (s t : String) (r : Record) :
    fieldsText (s :: t :: r) = fieldText s ++ comma :: fieldsText (t :: r) := rfl

theorem save_fields_of_field {q : Reader} {s : String} (h : q.field = s.toList.reverse) (m : Mode) :
    q.save m = ⟨m, [], s :: q.fields⟩ := by
  rw [Reader.save, h, List.reverse_reverse, String.ofList_toList]

theorem parseFrom_fieldsText (r : Record) (hr : r ≠ []) (fs : List String) (cs : List Char) :
    parseFrom ⟨.startField, [], fs⟩ (fieldsText r ++ cr :: lf :: cs) =
      (fs.reverse ++ r) :: parseFrom .init cs := by
  induction r generalizing fs with
  | nil => exact absurd rfl hr
  | cons s r ih =>
    cases r with
    | nil =>
      obtain ⟨q, hq, hclose, hfield, hfields⟩ :=
        parseFrom_fieldText s fs (cr :: lf :: cs) (by simp)
      rw [fieldsText, hq, parseFrom_crlf hclose, save_fields_of_field hfield, hfields]
      simp
    | cons t r =>
      obtain ⟨q, hq, hclose, hfield, hfields⟩ := parseFrom_fieldText s fs
        (comma :: (fieldsText (t :: r) ++ cr :: lf :: cs)) (by simp)
      rw [fieldsText_cons_cons, List.append_assoc, List.cons_append, hq,
        parseFrom_comma hclose (by simp), save_fields_of_field hfield, hfields, ih (by simp),
        List.reverse_cons, List.append_assoc]
      rfl

/-- A record does not begin with a newline, so its first field starts at once. -/
theorem parseFrom_init_cons {c : Char} (hcr : c ≠ cr) (hlf : c ≠ lf) (cs : List Char) :
    parseFrom .init (c :: cs) = parseFrom ⟨.startField, [], []⟩ (c :: cs) := by
  have hchar : Reader.init.char c = Reader.char ⟨.startField, [], []⟩ c := by
    simp [Reader.init, Reader.char, Reader.isNewline, hcr, hlf, Reader.startField, Reader.goto,
      Reader.save, Reader.add]
  rw [parseFrom, parseFrom, hchar]

theorem fieldText_eq_nil_or (s : String) :
    s = "" ∧ fieldText s = [] ∨ ∃ c cs, fieldText s = c :: cs ∧ c ≠ cr ∧ c ≠ lf := by
  unfold fieldText
  split_ifs with h
  · exact Or.inr ⟨quote, _, rfl, by decide, by decide⟩
  · cases hs : s.toList with
    | nil => exact Or.inl ⟨String.toList_eq_nil_iff.1 hs, rfl⟩
    | cons c body =>
      have hc : isSpecial c = false := by
        rw [hs] at h
        exact (by simpa using h : isSpecial c = false ∧ _).1
      obtain ⟨-, -, hcr, hlf⟩ := not_isSpecial hc
      exact Or.inr ⟨c, body, rfl, hcr, hlf⟩

theorem fieldsText_head {r : Record} (hr : r ≠ []) (h : r ≠ [""]) :
    ∃ c cs, fieldsText r = c :: cs ∧ c ≠ cr ∧ c ≠ lf := by
  cases r with
  | nil => exact absurd rfl hr
  | cons s r =>
    cases r with
    | nil =>
      rcases fieldText_eq_nil_or s with ⟨rfl, -⟩ | hc
      · exact absurd rfl h
      · exact hc
    | cons t r =>
      rw [fieldsText_cons_cons]
      rcases fieldText_eq_nil_or s with ⟨-, hs⟩ | ⟨c, cs, hs, hc⟩
      · exact ⟨comma, fieldsText (t :: r), by rw [hs]; rfl, by decide, by decide⟩
      · exact ⟨c, cs ++ comma :: fieldsText (t :: r), by rw [hs]; rfl, hc⟩

/-- Reading a written record. -/
theorem parseFrom_recordText (r : Record) (cs : List Char) :
    parseFrom .init (recordText r ++ cs) = r :: parseFrom .init cs := by
  unfold recordText
  rw [List.append_assoc]
  split_ifs with h
  · have hcs : cr :: lf :: cs ≠ [] := by simp
    have hquoted := parseFrom_quoted [] [] [] hcs
    rw [h]
    simp only [List.cons_append, List.nil_append]
    rw [parseFrom_char _ (endsLine_of_ne (by decide) (by decide) (by simp))]
    exact hquoted.trans (parseFrom_crlf (Or.inr (Or.inr rfl)) cs)
  · rcases eq_or_ne r [] with rfl | hr
    · have hlf : endsLine lf cs = true := by simp [endsLine]
      simp only [fieldsText, List.nil_append, List.cons_append]
      rw [parseFrom_char _ (endsLine_cr_lf cs)]
      simp [parseFrom, hlf, Reader.init, Reader.char, Reader.isNewline, Reader.goto,
        Reader.endOfLine]
    · obtain ⟨c, tail, htext, hccr, hclf⟩ := fieldsText_head hr h
      have hread := parseFrom_fieldsText r hr [] cs
      rw [htext] at hread ⊢
      simp only [List.cons_append, List.nil_append] at hread ⊢
      rw [parseFrom_init_cons hccr hclf, hread]
      rfl

theorem parse_recordText_append (r : Record) (cs : List Char) :
    parse (recordText r ++ cs) = r :: parse cs := parseFrom_recordText r cs

/-- **Reading written records gives the records back.** -/
theorem parse_render (rs : List Record) : parse (render rs) = rs := by
  induction rs with
  | nil => rfl
  | cons r rs ih =>
    rw [render, List.flatMap_cons, parse_recordText_append]
    exact congrArg _ ih

@[simp] theorem render_append (rs ts : List Record) : render (rs ++ ts) = render rs ++ render ts :=
  List.flatMap_append

/-! ## Reading dictionaries -/

theorem dictRow_map {fieldnames : List String} (h : fieldnames.Nodup) (f : String → String) :
    dictRow fieldnames (fieldnames.map f) =
      ⟨fieldnames.map fun k => (k, some (f k)), none⟩ := by
  have hzip : fieldnames.zip ((fieldnames.map f).map some) =
      fieldnames.map fun k => (k, some (f k)) := by
    have hz := @List.zip_map' _ _ _ id (some ∘ f) fieldnames
    rwa [List.map_id, ← List.map_map] at hz
  have hkeys : ((fieldnames.map fun k => (k, some (f k))).map Prod.fst).Nodup := by
    rwa [List.map_map, show Prod.fst ∘ (fun k => (k, some (f k))) = id from rfl, List.map_id]
  rw [dictRow, hzip, Dict.ofPairs_of_nodup hkeys]
  simp [Dict.update]

theorem readDicts_render {fieldnames : List String} (h : fieldnames.Nodup) (hne : fieldnames ≠ [])
    (rows : List (String → String)) :
    readDicts (render (fieldnames :: rows.map fieldnames.map)) =
      rows.map fun f => ⟨fieldnames.map fun k => (k, some (f k)), none⟩ := by
  have hfilter : (rows.map fun f => fieldnames.map f).filter (· ≠ []) =
      rows.map fun f => fieldnames.map f := by
    rw [List.filter_eq_self]
    intro r hr
    obtain ⟨f, -, rfl⟩ := List.mem_map.1 hr
    simpa using hne
  rw [readDicts, parse_render]
  simp only
  rw [hfilter, List.map_map]
  exact List.map_congr_left fun f _ => dictRow_map h f

/-- Reading mapped fields under a header. -/
theorem cells_dictRow_map (fieldnames : List String) (g : String → String) (r : Record) :
    (dictRow fieldnames (r.map g)).cells =
      (dictRow fieldnames r).cells.mapValues (Option.map g) := by
  have hzip : fieldnames.zip ((r.map g).map some) =
      Dict.mapValues (Option.map g) (fieldnames.zip (r.map some)) := by
    rw [List.map_map, List.zip_map_right, Dict.mapValues, List.zip_map_right, List.map_map]
    rfl
  have hmissing : (fieldnames.drop r.length).map (fun k => (k, (none : Option String))) =
      Dict.mapValues (Option.map g) ((fieldnames.drop r.length).map fun k => (k, none)) := by
    rw [Dict.mapValues, List.map_map]
    rfl
  rw [dictRow, dictRow, Dict.ofPairs, Dict.ofPairs, Dict.mapValues_update, Dict.mapValues_update,
    hzip, List.length_map, ← hmissing]
  rfl

end TransferTestbed.Csv
