import TransferTestbed.Common.Runs
import TransferTestbed.Library.Lines

/-!
# Queries to tshark (`common/pcap_analyzer.py`)

`run_tshark`, the per-protocol configuration, and how the analyzer cuts the text
that comes back: one line per frame after a header, one CSV record per line.
tshark itself is a function from its arguments, without the pcap's path, to its
standard output; `none` is a failure.

Results:
* `csvFields_quotedLine`: a line of quoted cells is cut into these cells.
* `outputLines_fieldsOutput`: the lines, from what tshark prints.
-/

namespace TransferTestbed.Pcap

open Runs

/-! ## Configuration (lines 7–50) -/

/-- An entry of `PROTOCOL_CONFIG`. -/
structure ProtocolConfig where
  filter : String
  typeFields : List String
  isTcp : Bool
  decodeAs : List String
deriving DecidableEq, Repr

/-- `PROTOCOL_CONFIG`. -/
def protocolConfig : Dict String ProtocolConfig :=
  [("mqtt", ⟨"mqtt", ["mqtt.msgtype"], true, []⟩),
    ("http", ⟨"http", ["http.request.method", "http.response.code"], true, []⟩),
    ("coap", ⟨"coap", ["coap.code"], false, []⟩),
    ("amqp", ⟨"amqp", ["amqp.type"], true, []⟩),
    ("grpc", ⟨"http2", ["http2.type"], true, ["-d", "tcp.port==50051,http2"]⟩),
    ("lwm2m", ⟨"coap", ["coap.code"], false, []⟩)]

def retransmissionFilter : String :=
  "tcp.analysis.retransmission or tcp.analysis.fast_retransmission or " ++
    "tcp.analysis.spurious_retransmission"

/-- tshark on one pcap. -/
abbrev Tshark := List String → Option String

/-- The arguments after the pcap's path. -/
def tsharkArgs (displayFilter : Option String) (fields extraArgs : List String) : List String :=
  ["-T", "fields", "-E", "separator=,", "-E", "quote=d", "-E", "header=y"] ++ extraArgs ++
    (match displayFilter with
      | none => []
      | some filter => ["-Y", filter]) ++
    fields.flatMap fun field => ["-e", field]

/-- `run_tshark(pcap_file, display_filter, fields, extra_args)` (lines 115–171). -/
def runTshark (tshark : Tshark) (displayFilter : Option String) (fields extraArgs : List String) :
    Option String :=
  tshark (tsharkArgs displayFilter fields extraArgs)

/-! ## Cutting the output -/

/-- `output.strip().splitlines()`. -/
def outputLines (output : String) : List String :=
  (Lines.splitlines (strip output).toList).map String.ofList

/-- The lines after the header. -/
def dataLines (output : String) : List String := (outputLines output).drop 1

/-- `list(csv.reader([line]))[0]`, for a line that is not blank. The limit of the csv module,
    131072 characters in a field, is not modelled: it is far above what a field here holds. -/
def csvFields (line : String) : List String := ((Csv.parse line.toList).head?).getD []

/-- `not line.strip()`. -/
def isBlank (line : String) : Bool := strip line = ""

/-- `_parse_frame_type(line, type_fields)` (lines 182–190): the first type field that
    is not empty, after the frame's number and length. -/
def parseFrameType (parts typeFields : List String) : String :=
  (((parts.drop 2).take typeFields.length).find? (· ≠ "")).getD "UNKNOWN"

/-! ## What tshark prints -/

/-- A cell without a quote and without the end of a line. -/
def Plain (cell : String) : Prop :=
  ∀ c ∈ cell.toList, Lines.isLineBreak c = false ∧ c ≠ Csv.quote

/-- A cell with `-E quote=d`; one without a value is not quoted. -/
def quotedCell (cell : String) : List Char :=
  if cell = "" then [] else Csv.quote :: cell.toList ++ [Csv.quote]

/-- The cells of a line, with `-E separator=,`. -/
def quotedLine : List String → List Char
  | [] => []
  | [cell] => quotedCell cell
  | cell :: cells => quotedCell cell ++ Csv.comma :: quotedLine cells

/-- The standard output for `-T fields -E header=y`: the names of the fields, then a
    line for each frame. -/
def fieldsOutput (fields : List String) (rows : List (List String)) : String :=
  String.ofList (Lines.unlines ((",".intercalate fields).toList :: rows.map quotedLine))

/-! ## Reading a line back -/

theorem ne_newline_of_plain {c : Char} (h : Lines.isLineBreak c = false) :
    c ≠ Csv.cr ∧ c ≠ Csv.lf := by
  constructor
  · rintro rfl
    revert h
    decide
  · rintro rfl
    revert h
    decide

/-- The cells of a line that is not empty. -/
def Printed (cells : List String) : Prop := cells ≠ [] ∧ cells ≠ [""]

theorem printed_of_ne {cell : String} (h : cell ≠ "") (cells : List String) :
    Printed (cell :: cells) := by
  refine ⟨List.cons_ne_nil cell cells, fun hcells => ?_⟩
  exact h (List.cons.inj hcells).1

theorem printed_cons_cons (cell next : String) (cells : List String) :
    Printed (cell :: next :: cells) := by
  refine ⟨List.cons_ne_nil _ _, fun hcells => ?_⟩
  exact List.cons_ne_nil _ _ (List.cons.inj hcells).2

/-- The inside of a quoted cell. -/
theorem foldl_plain {body : List Char}
    (hbody : ∀ c ∈ body, Lines.isLineBreak c = false ∧ c ≠ Csv.quote) (f : List Char)
    (fs : List String) :
    body.foldl .char ⟨.inQuotedField, f, fs⟩ =
      (⟨.inQuotedField, body.reverse ++ f, fs⟩ : Csv.Reader) := by
  induction body generalizing f with
  | nil => rfl
  | cons c body ih =>
    have hchar : Csv.Reader.char ⟨.inQuotedField, f, fs⟩ c = ⟨.inQuotedField, c :: f, fs⟩ := by
      simp [Csv.Reader.char, (hbody c (by simp)).2, Csv.Reader.add]
    rw [List.foldl_cons, hchar, ih (fun d hd => hbody d (by simp [hd])), List.reverse_cons,
      List.append_assoc]
    rfl

/-- A cell, quoted or not, is read up to where it may end. -/
theorem foldl_quotedCell {cell : String} (h : Plain cell) (fs : List String) :
    ∃ m, (quotedCell cell).foldl .char ⟨.startField, [], fs⟩ =
      (⟨m, cell.toList.reverse, fs⟩ : Csv.Reader) ∧ Csv.Closing ⟨m, cell.toList.reverse, fs⟩ := by
  by_cases hempty : cell = ""
  · rw [quotedCell, if_pos hempty, hempty]
    exact ⟨.startField, rfl, .inl rfl⟩
  · rw [quotedCell, if_neg hempty, List.cons_append, List.foldl_cons, List.foldl_append]
    refine ⟨.quoteInQuotedField, ?_, .inr (.inr rfl)⟩
    have hopen : Csv.Reader.char ⟨.startField, [], fs⟩ Csv.quote = ⟨.inQuotedField, [], fs⟩ := rfl
    rw [hopen, foldl_plain h [] fs, List.append_nil]
    rfl

/-- The cells of a line, up to its end. -/
theorem foldl_quotedLine {cells : List String} (hne : cells ≠ [])
    (h : ∀ cell ∈ cells, Plain cell) (fs : List String) :
    ∃ r : Csv.Reader, (quotedLine cells).foldl .char ⟨.startField, [], fs⟩ = r ∧ Csv.Closing r ∧
      (r.save .startRecord).fields.reverse = fs.reverse ++ cells := by
  induction cells generalizing fs with
  | nil => exact absurd rfl hne
  | cons cell cells ih =>
    obtain ⟨m, hcell, hclosing⟩ := foldl_quotedCell (h cell (by simp)) fs
    rcases eq_or_ne cells [] with rfl | hcells
    · refine ⟨_, hcell, hclosing, ?_⟩
      simp [Csv.Reader.save]
    · obtain ⟨next, rest, rfl⟩ := List.exists_cons_of_ne_nil hcells
      obtain ⟨r, hr, hclosed, hfields⟩ := ih hcells (fun c hc => h c (by simp [hc])) (cell :: fs)
      refine ⟨r, ?_, hclosed, ?_⟩
      · rw [quotedLine, List.foldl_append, hcell, List.foldl_cons, Csv.char_comma hclosing]
        · simpa [Csv.Reader.save] using hr
        · simp
      · simpa using hfields

theorem mem_quotedLine {cells : List String} {c : Char} (hc : c ∈ quotedLine cells) :
    c = Csv.quote ∨ c = Csv.comma ∨ ∃ cell ∈ cells, c ∈ cell.toList := by
  have hquoted {cell : String} (hc : c ∈ quotedCell cell) : c = Csv.quote ∨ c ∈ cell.toList := by
    rw [quotedCell] at hc
    split_ifs at hc
    · cases hc
    · simp only [List.cons_append, List.mem_cons, List.mem_append, List.not_mem_nil,
        or_false] at hc
      rcases hc with hc | hc | hc
      · exact .inl hc
      · exact .inr hc
      · exact .inl hc
  induction cells with
  | nil => cases hc
  | cons cell cells ih =>
    rcases eq_or_ne cells [] with rfl | hcells
    · exact (hquoted hc).imp_right fun h => .inr ⟨cell, List.mem_cons_self, h⟩
    · obtain ⟨next, rest, rfl⟩ := List.exists_cons_of_ne_nil hcells
      simp only [quotedLine, List.mem_append, List.mem_cons] at hc
      rcases hc with hc | hc | hc
      · exact (hquoted hc).imp_right fun h => .inr ⟨cell, List.mem_cons_self, h⟩
      · exact .inr (.inl hc)
      · refine (ih hc).imp_right (Or.imp_right ?_)
        rintro ⟨found, hmem, h⟩
        exact ⟨found, List.mem_cons_of_mem cell hmem, h⟩

/-- A line begins with a quote or a comma. -/
theorem head?_quotedLine {cells : List String} (h : Printed cells) :
    ∃ c, (quotedLine cells).head? = some c ∧ (c = Csv.quote ∨ c = Csv.comma) := by
  obtain ⟨hne, hblank⟩ := h
  obtain ⟨cell, rest, rfl⟩ := List.exists_cons_of_ne_nil hne
  by_cases hcell : cell = ""
  · subst hcell
    have hrest : rest ≠ [] := by
      rintro rfl
      exact hblank rfl
    obtain ⟨next, rest, rfl⟩ := List.exists_cons_of_ne_nil hrest
    exact ⟨Csv.comma, rfl, .inr rfl⟩
  · refine ⟨Csv.quote, ?_, .inl rfl⟩
    unfold quotedLine
    split
    · contradiction
    · next hcells =>
      rw [← (List.cons.inj hcells).1, quotedCell, if_neg hcell]
      rfl
    · next hcells =>
      rw [← (List.cons.inj hcells).1, quotedCell, if_neg hcell]
      rfl

/-- So it ends. -/
theorem getLast?_quotedLine {cells : List String} (h : Printed cells) :
    ∃ c, (quotedLine cells).getLast? = some c ∧ (c = Csv.quote ∨ c = Csv.comma) := by
  obtain ⟨hne, hblank⟩ := h
  induction cells with
  | nil => exact absurd rfl hne
  | cons cell cells ih =>
    rcases eq_or_ne cells [] with rfl | hcells
    · have hcell : cell ≠ "" := fun hcell => hblank (by rw [hcell])
      refine ⟨Csv.quote, ?_, .inl rfl⟩
      rw [quotedLine, quotedCell, if_neg hcell, List.getLast?_append]
      rfl
    · obtain ⟨next, rest, rfl⟩ := List.exists_cons_of_ne_nil hcells
      have hsplit : (quotedLine (cell :: next :: rest)).getLast? =
          some ((quotedLine (next :: rest)).getLast?.getD Csv.comma) := by
        rw [quotedLine, List.getLast?_append, List.getLast?_cons]
        · rfl
        · simp
      by_cases hlast : next :: rest = [""]
      · rw [hsplit, hlast]
        exact ⟨Csv.comma, rfl, .inr rfl⟩
      · obtain ⟨c, hc, hchar⟩ := ih hcells hlast
        rw [hsplit, hc]
        exact ⟨c, rfl, hchar⟩

/-- A line of quoted cells is cut into these cells. -/
theorem csvFields_quotedLine {cells : List String} (hprinted : Printed cells)
    (h : ∀ cell ∈ cells, Plain cell) : csvFields (String.ofList (quotedLine cells)) = cells := by
  obtain ⟨c, hhead, hchar⟩ := head?_quotedLine hprinted
  obtain ⟨r, hfold, hclosing, hfields⟩ := foldl_quotedLine hprinted.1 h []
  obtain ⟨cs, hcs⟩ : ∃ cs, quotedLine cells = c :: cs := by
    cases hline : quotedLine cells with
    | nil =>
      rw [hline] at hhead
      cases hhead
    | cons d cs =>
      rw [hline] at hhead
      exact ⟨cs, by rw [Option.some.inj hhead]⟩
  -- at a quote and at a comma the start of a record is the start of a field
  have hstart : (quotedLine cells).foldl .char Csv.Reader.init = r := by
    rw [← hfold, hcs, List.foldl_cons, List.foldl_cons]
    rcases hchar with rfl | rfl
    · rfl
    · rfl
  have hline : ∀ d ∈ quotedLine cells, d ≠ Csv.cr ∧ d ≠ Csv.lf := by
    intro d hd
    rcases mem_quotedLine hd with rfl | rfl | ⟨cell, hcell, hmem⟩
    · decide
    · decide
    · exact ne_newline_of_plain (h cell hcell d hmem).1
  rw [csvFields, String.toList_ofList, Csv.parse,
    Csv.parseFrom_line (by rw [hcs]; simp) hline _ (hstart ▸ hclosing), hstart, hfields]
  rfl

/-! ## Reading the lines back -/

/-- A line that `strip` leaves alone at both ends. -/
structure Solid (line : List Char) : Prop where
  isLine : Lines.IsLine line
  head : ∃ c, line.head? = some c ∧ isSpace c = false
  last : ∃ c, line.getLast? = some c ∧ isSpace c = false

theorem Solid.ne_nil {line : List Char} (h : Solid line) : line ≠ [] := by
  rintro rfl
  obtain ⟨c, hc, -⟩ := h.head
  cases hc

theorem isSpace_lf : ∀ c ∈ [Lines.lf], isSpace c = true := by
  intro c hc
  rw [List.mem_singleton.1 hc]
  decide

/-- `strip` removes the last line feed and no more. -/
theorem strip_concat_lf {cs : List Char} (hhead : ∃ c, cs.head? = some c ∧ isSpace c = false)
    (hlast : ∃ c, cs.getLast? = some c ∧ isSpace c = false) :
    strip (String.ofList (cs ++ [Lines.lf])) = String.ofList cs := by
  obtain ⟨c, hc, hcs⟩ := hhead
  obtain ⟨d, hd, hds⟩ := hlast
  apply String.toList_injective
  rw [String.toList_ofList]
  refine @toList_strip_between [] cs [Lines.lf] isSpace_lf ?_ ?_
  · intro x hx
    rw [hc] at hx
    rw [← Option.some.inj hx, hcs]
  · intro x hx
    rw [hd] at hx
    rw [← Option.some.inj hx, hds]

/-- Solid lines written one after the other are read back. -/
theorem outputLines_unlines {lines : List (List Char)} (hne : lines ≠ [])
    (h : ∀ line ∈ lines, Solid line) :
    outputLines (String.ofList (Lines.unlines lines)) = lines.map String.ofList := by
  obtain ⟨front, last, rfl⟩ : ∃ front last, lines = front ++ [last] :=
    ⟨_, _, (List.dropLast_append_getLast hne).symm⟩
  have hlast := h last (by simp)
  have htext : Lines.unlines (front ++ [last]) = Lines.unlines front ++ last ++ [Lines.lf] := by
    simp [Lines.unlines]
  have hhead : ∃ c, (Lines.unlines front ++ last).head? = some c ∧ isSpace c = false := by
    cases front with
    | nil => exact hlast.head
    | cons line front =>
      obtain ⟨c, hc, hspace⟩ := (h line (by simp)).head
      refine ⟨c, ?_, hspace⟩
      rw [Lines.unlines, List.flatMap_cons, List.append_assoc, List.append_assoc,
        List.head?_append, hc]
      rfl
  have hend : ∃ c, (Lines.unlines front ++ last).getLast? = some c ∧ isSpace c = false := by
    obtain ⟨c, hc, hspace⟩ := hlast.last
    refine ⟨c, ?_, hspace⟩
    rw [List.getLast?_append, hc]
    rfl
  rw [outputLines, htext, strip_concat_lf hhead hend, String.toList_ofList,
    Lines.splitlines_unlines (fun line hl => (h line (by simp [hl])).isLine) hlast.isLine
      hlast.ne_nil]

theorem solid_quotedLine {cells : List String} (hprinted : Printed cells)
    (h : ∀ cell ∈ cells, Plain cell) : Solid (quotedLine cells) := by
  have hspace {c : Char} (hc : c = Csv.quote ∨ c = Csv.comma) : isSpace c = false := by
    rcases hc with rfl | rfl
    · decide
    · decide
  obtain ⟨c, hhead, hc⟩ := head?_quotedLine hprinted
  obtain ⟨d, hlast, hd⟩ := getLast?_quotedLine hprinted
  refine ⟨fun x hx => ?_, ⟨c, hhead, hspace hc⟩, ⟨d, hlast, hspace hd⟩⟩
  rcases mem_quotedLine hx with rfl | rfl | ⟨cell, hcell, hmem⟩
  · decide
  · decide
  · exact (h cell hcell x hmem).1

/-- The lines of what tshark prints: the header, then a line for each frame. -/
theorem outputLines_fieldsOutput {fields : List String}
    (hheader : Solid (",".intercalate fields).toList) {rows : List (List String)}
    (h : ∀ row ∈ rows, Printed row ∧ ∀ cell ∈ row, Plain cell) :
    outputLines (fieldsOutput fields rows) =
      ",".intercalate fields :: rows.map fun row => String.ofList (quotedLine row) := by
  have hsolid : ∀ line ∈ (",".intercalate fields).toList :: rows.map quotedLine, Solid line := by
    intro line hl
    rcases List.mem_cons.1 hl with rfl | hl
    · exact hheader
    · obtain ⟨row, hrow, rfl⟩ := List.mem_map.1 hl
      exact solid_quotedLine (h row hrow).1 (h row hrow).2
  rw [fieldsOutput, outputLines_unlines (by simp) hsolid, List.map_cons, String.ofList_toList,
    List.map_map]
  rfl

end TransferTestbed.Pcap
