import TransferTestbed.Library.CsvAppend
import TransferTestbed.Output.WriteCsv

/-!
# Appending to existing files

`write_to_csv` on a file that has a header already, and `write_to_csv` when the writer
raises. The header is only looked at for its first three cells; the cells of a new row
stand in the order of the writer's own fields, whatever the header says. Nor is the end of
the file looked at: without a line break there, the first new row goes on in the last line.

Results:
* `respectsHeader_iff`: when the new rows are read back under the old header.
* `respectsHeader_of_aligned`: in particular when the fields stand under their own names.
* `failedWrite_spec`: what a write that raises leaves.
-/

namespace TransferTestbed.WriteCsv

open Runs

/-! ## Statements -/

/-- A well-formed file: it has a header, and every quoted field is closed. -/
structure CsvFile where
  text : List Char
  header : Csv.Record
  records : List Csv.Record
  parse_text : Csv.parse text = header :: records
  closed : Csv.Closed text

/-- A new row as it is read: every column of the header that the row defines, with its
    metadata where the file has them, holds its value. -/
def HeldBy (header : Csv.Record) (md : MetaRow) (row : Row) (d : Csv.DictRow) : Prop :=
  ∀ k ∈ header, ∀ c, (record (useMeta (some header)) md row).get? k = some c →
    d.cells.get? k = some (some c.text)

/-- Appending returns; the earlier records, the header among them, are read as before, so that
    `DictReader` gives the earlier rows and then the new ones, which hold their values. -/
def RespectsHeader (md : MetaRow) (file : CsvFile) (fieldnames : List String)
    (rows : List (MeasurementRow fieldnames)) : Prop :=
  ∃ text records new,
    writeToCsv md (some file.text) fieldnames (rows.map MeasurementRow.cells) =
      (some text, true) ∧
    Csv.parse text = Csv.parse file.text ++ records ∧
    Csv.readDicts text = Csv.readDicts file.text ++ new ∧
    List.Forall₂ (fun row d => HeldBy file.header md row.cells d) rows new

/-- The writer's own fields for a file. -/
def CsvFile.fields (file : CsvFile) (fieldnames : List String) : List String :=
  allFields (useMeta (some file.header)) fieldnames

/-- The field whose cell is read under a column of the header. -/
def fieldUnder (header fields : List String) (k : String) : Option String :=
  ((Csv.dictRow header fields).cells.get? k).join

/-! ## Appending under a header -/

variable {md : MetaRow} {file : CsvFile} {fieldnames : List String}
  {rows : List (MeasurementRow fieldnames)}

theorem existingHeader_text (file : CsvFile) :
    existingHeader (some file.text) = some file.header := by
  rw [existingHeader, Option.bind_some, file.parse_text, List.head?_cons]

/-- The records that are appended for the rows. -/
def newRecords (md : MetaRow) (file : CsvFile) (rows : List (MeasurementRow fieldnames)) :
    List Csv.Record :=
  rows.map fun row => rowRecord (useMeta (some file.header)) md fieldnames row.cells

theorem writeToCsv_existing (md : MetaRow) (file : CsvFile)
    (rows : List (MeasurementRow fieldnames)) :
    writeToCsv md (some file.text) fieldnames (rows.map MeasurementRow.cells) =
      (some (file.text ++ Csv.render (newRecords md file rows)), true) := by
  rw [writeToCsv]
  split_ifs with hnil
  · rw [List.map_eq_nil_iff] at hnil
    rw [hnil, newRecords, List.map_nil, Csv.render, List.flatMap_nil, List.append_nil]
  · rw [existingHeader_text, appendedText_rows]
    simp only [reduceCtorEq, if_false, List.nil_append, Option.getD_some, newRecords]

/-- What `DictReader` makes of further records. -/
theorem readDicts_of_parse {text : List Char} {records : List Csv.Record}
    (h : Csv.parse text = Csv.parse file.text ++ records) :
    Csv.readDicts text = Csv.readDicts file.text ++
      (records.filter (· ≠ [])).map (Csv.dictRow file.header) := by
  rw [Csv.readDicts, Csv.readDicts, h, file.parse_text]
  simp only [List.cons_append, List.filter_append, List.map_append]

/-- **One row under a header** holds its values iff the field under each of its columns
    has the same text. -/
theorem heldBy_iff (md : MetaRow) (file : CsvFile) (row : Row) :
    HeldBy file.header md row (Csv.dictRow file.header
        (rowRecord (useMeta (some file.header)) md fieldnames row)) ↔
      ∀ k ∈ file.header, ∀ c, (record (useMeta (some file.header)) md row).get? k = some c →
        ∃ f, fieldUnder file.header (file.fields fieldnames) k = some f ∧
          cellText md row f = c.text := by
  have hcells : (Csv.dictRow file.header
      (rowRecord (useMeta (some file.header)) md fieldnames row)).cells =
        (Csv.dictRow file.header (file.fields fieldnames)).cells.mapValues
          (Option.map (cellText md row)) := Csv.cells_dictRow_map _ _ _
  have hcell (k : String) (t : String) :
      ((Csv.dictRow file.header (file.fields fieldnames)).cells.mapValues
          (Option.map (cellText md row))).get? k = some (some t) ↔
        ∃ f, fieldUnder file.header (file.fields fieldnames) k = some f ∧
          cellText md row f = t := by
    rw [Dict.get?_mapValues, fieldUnder]
    cases (Csv.dictRow file.header (file.fields fieldnames)).cells.get? k with
    | none => simp
    | some f => cases f <;> simp
  simp only [HeldBy, hcells, hcell]

/-- A record without cells is a blank line, which `DictReader` skips. -/
theorem filter_newRecords (h : file.fields fieldnames ≠ []) :
    (newRecords md file rows).filter (· ≠ []) = newRecords md file rows := by
  rw [List.filter_eq_self]
  intro r hr
  obtain ⟨row, -, rfl⟩ := List.mem_map.1 hr
  rw [CsvFile.fields] at h
  simpa [rowRecord] using h

theorem filter_newRecords_nil (h : file.fields fieldnames = []) :
    (newRecords md file rows).filter (· ≠ []) = [] := by
  rw [List.filter_eq_nil_iff]
  intro r hr
  obtain ⟨row, -, rfl⟩ := List.mem_map.1 hr
  rw [CsvFile.fields] at h
  simp [rowRecord, h]

theorem length_newRecords : (newRecords md file rows).length = rows.length := List.length_map _

/-- The rows that are read are those of the new records. -/
theorem respectsHeader_iff_records :
    RespectsHeader md file fieldnames rows ↔ ∃ records,
      Csv.parse (file.text ++ Csv.render (newRecords md file rows)) =
        Csv.parse file.text ++ records ∧
      List.Forall₂ (fun row d => HeldBy file.header md row.cells d) rows
        ((records.filter (· ≠ [])).map (Csv.dictRow file.header)) := by
  constructor
  · rintro ⟨text, records, new, hwrite, hparse, hread, hheld⟩
    rw [writeToCsv_existing, Prod.mk.injEq, Option.some.injEq] at hwrite
    obtain ⟨rfl, -⟩ := hwrite
    rw [readDicts_of_parse hparse] at hread
    exact ⟨records, hparse, by rwa [List.append_cancel_left hread]⟩
  · rintro ⟨records, hparse, hheld⟩
    exact ⟨_, records, _, writeToCsv_existing md file rows, hparse, readDicts_of_parse hparse,
      hheld⟩

/-- After a line break the new rows are read as those of the header. -/
theorem respectsHeader_iff_forall₂ (hends : Csv.EndsWithBreak file.text) :
    RespectsHeader md file fieldnames rows ↔
      List.Forall₂ (fun row d => HeldBy file.header md row.cells d) rows
        (((newRecords md file rows).filter (· ≠ [])).map (Csv.dictRow file.header)) := by
  have hparse := Csv.parse_append file.closed hends (newRecords md file rows)
  rw [respectsHeader_iff_records]
  constructor
  · rintro ⟨records, hrecords, hheld⟩
    rw [hparse] at hrecords
    rwa [List.append_cancel_left hrecords]
  · intro hheld
    exact ⟨_, hparse, hheld⟩

/-- Without a line break the first new row is lost. -/
theorem not_respectsHeader_of_not_endsWithBreak (hne : rows ≠ [])
    (hends : ¬ Csv.EndsWithBreak file.text) : ¬ RespectsHeader md file fieldnames rows := by
  intro h
  obtain ⟨records, hparse, hheld⟩ := respectsHeader_iff_records.1 h
  have htext : file.text ≠ [] := by
    intro hnil
    have := file.parse_text
    rw [hnil] at this
    cases this
  have hnew : newRecords md file rows ≠ [] := mt List.map_eq_nil_iff.1 hne
  have hlt := Csv.length_lt_of_parse_append htext file.closed hends hnew hparse
  have hlength := hheld.length_eq
  have hle : (records.filter (· ≠ [])).length ≤ records.length := List.length_filter_le _ _
  rw [List.length_map] at hlength
  rw [length_newRecords] at hlt
  omega

theorem respectsHeader_nil (md : MetaRow) (file : CsvFile) (fieldnames : List String) :
    RespectsHeader md file fieldnames [] :=
  respectsHeader_iff_records.2 ⟨[], by simp [newRecords, Csv.render], .nil⟩

/-- **When appending respects the header**: for every file with a header and every rows
    with columns as keys, iff no row is written, or the file ends with a line break, there is a
    field at all, and under every column that a row defines stands a field with the text of that
    column. -/
theorem respectsHeader_iff (md : MetaRow) (file : CsvFile) (fieldnames : List String)
    (rows : List (MeasurementRow fieldnames)) :
    RespectsHeader md file fieldnames rows ↔
      (rows ≠ [] → Csv.EndsWithBreak file.text ∧ file.fields fieldnames ≠ []) ∧
        ∀ row ∈ rows, ∀ k ∈ file.header, ∀ c,
          (record (useMeta (some file.header)) md row.cells).get? k = some c →
            ∃ f, fieldUnder file.header (file.fields fieldnames) k = some f ∧
              cellText md row.cells f = c.text := by
  rcases eq_or_ne rows [] with rfl | hne
  · exact iff_of_true (respectsHeader_nil md file fieldnames) (by simp)
  rw [forall_prop_of_true hne]
  by_cases hends : Csv.EndsWithBreak file.text
  · rw [respectsHeader_iff_forall₂ hends, and_iff_right hends]
    by_cases hfields : file.fields fieldnames = []
    · rw [filter_newRecords_nil hfields, List.map_nil, List.forall₂_nil_right_iff]
      exact iff_of_false hne fun h => h.1 hfields
    · rw [filter_newRecords hfields, newRecords, List.map_map, List.forall₂_map_right_iff,
        List.forall₂_same, and_iff_right hfields]
      refine forall₂_congr fun row _ => ?_
      exact heldBy_iff md file row.cells
  · exact iff_of_false (not_respectsHeader_of_not_endsWithBreak hne hends) fun h => hends h.1.1

/-- A file with two columns in the other order than the writer's. -/
def legacyFile : CsvFile where
  text := Csv.render [["file_size", "protocol"]]
  header := ["file_size", "protocol"]
  records := []
  parse_text := Csv.parse_render _
  closed := by decide +kernel

def legacyRow : MeasurementRow ["protocol", "file_size"] where
  cells := [("protocol", .str "coap"), ("file_size", .str "2.0")]
  nodup := by simp [Dict.keys]
  keys_mem := by simp [Dict.keys]

/-- The size is read as the protocol. -/
theorem not_respectsHeader_reordered :
    ¬ RespectsHeader ⟨"", "", ""⟩ legacyFile ["protocol", "file_size"] [legacyRow] := by
  have hfields : legacyFile.fields ["protocol", "file_size"] ≠ [] := by decide +kernel
  have hends : Csv.EndsWithBreak legacyFile.text := by decide +kernel
  intro h
  rw [respectsHeader_iff_forall₂ hends, filter_newRecords hfields, newRecords, List.map_singleton,
    List.map_singleton, List.forall₂_cons] at h
  have hunder : fieldUnder legacyFile.header (legacyFile.fields ["protocol", "file_size"])
      "protocol" = some "file_size" := by decide +kernel
  obtain ⟨f, hf, htext⟩ := (heldBy_iff ⟨"", "", ""⟩ legacyFile legacyRow.cells).1 h.1 "protocol"
    (by simp [legacyFile]) (.str "coap") (by decide +kernel)
  rw [hunder] at hf
  obtain rfl := Option.some.inj hf
  exact absurd htext (by decide +kernel)

/-! ## Aligned files -/

/-- Under every column that is one of the writer's fields stands that field. -/
def Aligned (header fields : List String) : Prop :=
  ∀ k ∈ header, k ∈ fields → fieldUnder header fields k = some k

/-- What a row defines is what the writer writes. -/
theorem cellText_of_record {row : MeasurementRow fieldnames} {withMeta : Bool} {k : String}
    {c : Cell} (h : (record withMeta md row.cells).get? k = some c) :
    k ∈ allFields withMeta fieldnames ∧ cellText md row.cells k = c.text := by
  have hkey : k ∈ (record withMeta md row.cells).keys := by
    by_contra hk
    rw [← Dict.get?_eq_none_iff, h] at hk
    cases hk
  refine ⟨mem_keys_record row md withMeta hkey, ?_⟩
  rw [get?_record row.nodup] at h
  rw [cellText]
  by_cases hmeta : k ∈ metaFields
  · rw [if_pos hmeta] at h ⊢
    cases withMeta with
    | true =>
      rw [if_pos rfl] at h
      rw [h]
      rfl
    | false => cases h
  · rw [if_neg hmeta] at h ⊢
    rw [h]
    rfl

/-- **Aligned files** respect their header, whatever is written. -/
theorem respectsHeader_of_aligned (md : MetaRow) (rows : List (MeasurementRow fieldnames))
    (hends : Csv.EndsWithBreak file.text) (hne : file.fields fieldnames ≠ [])
    (haligned : Aligned file.header (file.fields fieldnames)) :
    RespectsHeader md file fieldnames rows := by
  rw [respectsHeader_iff_forall₂ hends, filter_newRecords hne, newRecords, List.map_map,
    List.forall₂_map_right_iff, List.forall₂_same]
  intro row _
  refine (heldBy_iff md file row.cells).2 fun k hk c hc => ?_
  obtain ⟨hfield, htext⟩ := cellText_of_record hc
  exact ⟨k, haligned k hk hfield, htext⟩

/-- A file with the writer's own fields as its header is aligned. -/
theorem aligned_self {fields : List String} (h : fields.Nodup) : Aligned fields fields := by
  intro k hk _
  have hself := Csv.dictRow_map h id
  rw [List.map_id] at hself
  rw [fieldUnder, hself, Dict.get?_map_pair (fun f => some (id f)) hk]
  rfl

/-! ## Writes that raise -/

/-- Every key of the row is a column or a metadata column. -/
def Accepted (fieldnames : List String) (row : Row) : Prop :=
  ∀ k ∈ row.keys, k ∉ metaFields → k ∈ fieldnames

instance (fieldnames : List String) : DecidablePred (Accepted fieldnames) := fun row =>
  List.decidableBAll _ row.keys

/-- The rows before the first one that is not accepted. -/
def acceptedRows (fieldnames : List String) (data : List Row) : List Row :=
  data.takeWhile fun row => Accepted fieldnames row

/-- The record of an accepted row. -/
def recordOf (header : Option Csv.Record) (md : MetaRow) (fieldnames : List String) (row : Row) :
    Csv.Record :=
  (allFields (useMeta header) fieldnames).map fun k =>
    ((texts (record (useMeta header) md row)).get? k).getD ""

theorem mem_allFields {withMeta : Bool} {fieldnames : List String} {k : String} :
    k ∈ allFields withMeta fieldnames ↔
      withMeta = true ∧ k ∈ metaFields ∨ k ∈ fieldnames ∧ k ∉ metaFields := by
  rw [allFields, List.mem_append, List.mem_filter, decide_eq_true_eq]
  cases withMeta with
  | true => simp
  | false => simp

theorem mem_keys_record_iff {withMeta : Bool} {row : Row} {k : String} :
    k ∈ (record withMeta md row).keys ↔
      withMeta = true ∧ k ∈ metaFields ∨ k ∈ row.keys ∧ k ∉ metaFields := by
  have hown : k ∈ Dict.keys (row.filter fun p => p.1 ∉ metaFields) ↔
      k ∈ row.keys ∧ k ∉ metaFields := by
    simp only [Dict.keys, List.mem_map, List.mem_filter, decide_eq_true_eq]
    constructor
    · rintro ⟨p, ⟨hp, hmeta⟩, rfl⟩
      exact ⟨⟨p, hp, rfl⟩, hmeta⟩
    · rintro ⟨⟨p, hp, rfl⟩, hmeta⟩
      exact ⟨p, ⟨hp, hmeta⟩, rfl⟩
  cases withMeta with
  | true =>
    simp only [record, if_true]
    rw [Dict.mem_keys_update, keys_meta, hown, true_and]
  | false =>
    simp only [record, Bool.false_eq_true, if_false, false_and, false_or]
    exact hown

/-- The writer takes a row iff it is accepted. -/
theorem dictToList_record (header : Option Csv.Record) (md : MetaRow) (fieldnames : List String)
    (row : Row) :
    Csv.dictToList (allFields (useMeta header) fieldnames)
        (texts (record (useMeta header) md row)) =
      if Accepted fieldnames row then some (recordOf header md fieldnames row) else none := by
  have haccepted : (∀ k ∈ (texts (record (useMeta header) md row)).keys,
      k ∈ allFields (useMeta header) fieldnames) ↔ Accepted fieldnames row := by
    simp only [keys_texts, mem_keys_record_iff, mem_allFields]
    constructor
    · intro h k hk hmeta
      rcases h k (.inr ⟨hk, hmeta⟩) with ⟨-, hm⟩ | ⟨hfield, -⟩
      · exact absurd hm hmeta
      · exact hfield
    · rintro h k (hm | ⟨hk, hmeta⟩)
      · exact .inl hm
      · exact .inr ⟨h k hk hmeta, hmeta⟩
  rw [Csv.dictToList]
  by_cases h : Accepted fieldnames row
  · rw [if_pos (haccepted.2 h), if_pos h]
    rfl
  · rw [if_neg (fun hall => h (haccepted.1 hall)), if_neg h]

/-- The rows before the first one that is not accepted are written. -/
theorem writeRows_data (header : Option Csv.Record) (md : MetaRow) (fieldnames : List String)
    (data : List Row) :
    Csv.writeRows (allFields (useMeta header) fieldnames)
        (data.map fun row => texts (record (useMeta header) md row)) =
      ((acceptedRows fieldnames data).map (recordOf header md fieldnames),
        decide (∀ row ∈ data, Accepted fieldnames row)) := by
  induction data with
  | nil => rfl
  | cons row data ih =>
    rw [List.map_cons, Csv.writeRows, dictToList_record, acceptedRows]
    by_cases h : Accepted fieldnames row
    · rw [if_pos h, List.takeWhile_cons_of_pos (by simpa using h), ih]
      simp [h, acceptedRows]
    · rw [if_neg h, List.takeWhile_cons_of_neg (by simpa using h)]
      simp [h]

/-- What a call writes: a header if it saw none, and the accepted rows. -/
def writtenRecords (header : Option Csv.Record) (md : MetaRow) (fieldnames : List String)
    (data : List Row) : List Csv.Record :=
  (if header = none then [allFields (useMeta header) fieldnames] else []) ++
    (acceptedRows fieldnames data).map (recordOf header md fieldnames)

theorem appendedText_data (header : Option Csv.Record) (md : MetaRow) (fieldnames : List String)
    (data : List Row) :
    appendedText header md fieldnames data =
      (Csv.render (writtenRecords header md fieldnames data),
        decide (∀ row ∈ data, Accepted fieldnames row)) := by
  rw [appendedText, writtenRecords, writeRows_data]

theorem render_eq_nil_iff {rs : List Csv.Record} : Csv.render rs = [] ↔ rs = [] := by
  rw [Csv.render, List.flatMap_eq_nil_iff]
  constructor
  · intro h
    cases rs with
    | nil => rfl
    | cons r rs => simpa [Csv.recordText] using h r List.mem_cons_self
  · rintro rfl
    simp

/-- **What a write that raises leaves**: it raises iff some row has a key that is neither a
    column nor a metadata column; then the file gets a header if it had none and the rows
    before the first such row, so that it is unchanged iff it had a header and its first
    row is the one. -/
theorem failedWrite_spec (md : MetaRow) (file : Option (List Char)) (fieldnames : List String)
    (data : List Row) :
    ((writeToCsv md file fieldnames data).2 = false ↔ ∃ row ∈ data, ¬ Accepted fieldnames row) ∧
      ((writeToCsv md file fieldnames data).2 = false →
        (writeToCsv md file fieldnames data).1 = some (file.getD [] ++
            Csv.render (writtenRecords (existingHeader file) md fieldnames data)) ∧
          ((writeToCsv md file fieldnames data).1 = file ↔
            existingHeader file ≠ none ∧ acceptedRows fieldnames data = [])) := by
  by_cases hdata : data = []
  · subst hdata
    simp [writeToCsv]
  rw [writeToCsv, if_neg hdata, appendedText_data]
  refine ⟨by simp, fun _ => ⟨rfl, ?_⟩⟩
  have hnone : writtenRecords (existingHeader file) md fieldnames data = [] ↔
      existingHeader file ≠ none ∧ acceptedRows fieldnames data = [] := by
    rw [writtenRecords, List.append_eq_nil_iff, List.map_eq_nil_iff]
    refine and_congr_left fun _ => ?_
    split_ifs with h
    · simp [h]
    · simp [h]
  rw [← hnone]
  cases file with
  | none =>
    refine iff_of_false (by simp) ?_
    rw [hnone]
    exact fun h => h.1 rfl
  | some text =>
    rw [Option.getD_some, Option.some.injEq, List.append_right_eq_self, render_eq_nil_iff]

/-- One row with an unknown column, and no file: the file is created with a header. -/
theorem header_left_by_failedWrite :
    (writeToCsv ⟨"", "", ""⟩ none ["protocol"] [[("packet_types", .str "")]]).2 = false ∧
      (writeToCsv ⟨"", "", ""⟩ none ["protocol"] [[("packet_types", .str "")]]).1 =
        some (Csv.render [["run_id", "timestamp", "network_profile", "protocol"]]) := by
  decide +kernel

end TransferTestbed.WriteCsv
