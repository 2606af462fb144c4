import TransferTestbed.Common.Runs
import TransferTestbed.Library.Binary64Order
import TransferTestbed.Library.Decimal

/-!
# Measurement files (`output/write_csv.py`)

`write_to_csv` on the text of one file, in the two steps it takes: reading the
existing header, then opening for append and writing. `writeMeasurement` places
the file in the directory of the active run.

Results:
* `appendedText_rows`: what one call appends, for rows whose keys are columns.
* `writeToCsv_rows`: the file after a call.
-/

namespace TransferTestbed.WriteCsv

open Runs

/-! ## Cells -/

/-- A value of a measurement row. -/
inductive Cell where
  | none
  | str (s : String)
  | int (z : ℤ)
  | float (q : ℚ)
  | bool (b : Bool)
deriving DecidableEq, Repr

/-- The text the `csv` writer gives a value. -/
def Cell.text : Cell → String
  | .none => ""
  | .str s => s
  | .int z => String.ofList (Decimal.intText z)
  | .float q => Decimal.floatText q
  | .bool true => "True"
  | .bool false => "False"

abbrev Row := Dict String Cell

/-- A row of one of the writers: a dictionary whose keys are columns of its file. -/
structure MeasurementRow (fieldnames : List String) where
  cells : Row
  nodup : cells.keys.Nodup
  keys_mem : ∀ k ∈ cells.keys, k ∈ fieldnames

/-! ## Goodputs -/

/-- `duration * 1_000_000`, by which the programs divide what they have transferred. -/
def microseconds (duration : ℚ) : ℚ := Binary64.fl (duration * 1000000)

/-- `(size * 8) / (duration * 1_000_000)`, the goodput in the rows of every program. -/
def goodputMbps (size : ℕ) (duration : ℚ) : ℚ :=
  Binary64.fl (Binary64.fl (size * 8) / microseconds duration)

/-- The division raises iff no time has passed. -/
@[simp] theorem microseconds_eq_zero {duration : ℚ} : microseconds duration = 0 ↔ duration = 0 := by
  rw [microseconds, Binary64.fl_eq_zero, mul_eq_zero, or_iff_left (by norm_num)]

theorem goodputMbps_nonneg (size : ℕ) {duration : ℚ} (h : 0 ≤ duration) :
    0 ≤ goodputMbps size duration :=
  Binary64.fl_nonneg (div_nonneg (Binary64.fl_nonneg (by positivity))
    (Binary64.fl_nonneg (by positivity)))

/-! ## `write_to_csv` (lines 50–94) -/

def metaFields : List String := ["run_id", "timestamp", "network_profile"]

/-- `_meta_row()`. -/
structure MetaRow where
  runId : String
  timestamp : String
  networkProfile : String
deriving DecidableEq, Repr

def MetaRow.cells (m : MetaRow) : Row :=
  [("run_id", .str m.runId), ("timestamp", .str m.timestamp),
    ("network_profile", .str m.networkProfile)]

/-- `_existing_header(path)`, on the text of the file if there is one. -/
def existingHeader (file : Option (List Char)) : Option Csv.Record :=
  file.bind fun text => (Csv.parse text).head?

/-- Whether rows get the metadata columns, given the header seen. -/
def useMeta : Option Csv.Record → Bool
  | none => true
  | some header => header.take metaFields.length = metaFields

/-- One row as it is passed to the writer. -/
def record (withMeta : Bool) (md : MetaRow) (row : Row) : Row :=
  let own := row.filter fun p => p.1 ∉ metaFields
  if withMeta then md.cells.update own else own

def allFields (withMeta : Bool) (fieldnames : List String) : List String :=
  (if withMeta then metaFields else []) ++ fieldnames.filter fun f => f ∉ metaFields

def texts (row : Row) : Dict String String := row.map fun p => (p.1, p.2.text)

/-- What is written after the header has been looked up, and whether the writer
    returns: it raises at the first row with a key that is not a column. -/
def appendedText (header : Option Csv.Record) (md : MetaRow) (fieldnames : List String)
    (data : List Row) : List Char × Bool :=
  let fields := allFields (useMeta header) fieldnames
  let rows := data.map fun row => texts (record (useMeta header) md row)
  let written := Csv.writeRows fields rows
  (Csv.render ((if header = none then [fields] else []) ++ written.1), written.2)

/-- `write_to_csv` on the text of the file: its new text, and whether it returns. -/
def writeToCsv (md : MetaRow) (file : Option (List Char)) (fieldnames : List String)
    (data : List Row) : Option (List Char) × Bool :=
  if data = [] then (file, true)
  else
    let appended := appendedText (existingHeader file) md fieldnames data
    (some (file.getD [] ++ appended.1), appended.2)

/-! ## The files (lines 24–48, 96–225) -/

def metaRow (env : Env) (timestamp : String) (t : OutputTree) : MetaRow where
  runId := (activeRunId env t).getD ""
  timestamp := timestamp
  networkProfile := getenv env "NETWORK_PROFILE" ""

/-- The text of `{kind}_measurements.csv` in a run or in the flat directory. -/
def measurementText (t : OutputTree) (dest : Option String) (kind : String) : Option (List Char) :=
  (t.measurements dest).bind fun m => m.csv.get? kind

/-- `write_to_csv(_measurement_file(kind), fieldnames, data)`, and whether it returns. -/
def writeMeasurement (kind : String) (fieldnames : List String) (env : Env) (timestamp : String)
    (t : OutputTree) (data : List Row) : OutputTree × Bool :=
  let dest := activeRunId env t
  let written :=
    writeToCsv (metaRow env timestamp t) (measurementText t dest kind) fieldnames data
  match written.1 with
  | none => (t, written.2)
  | some text => (t.modify dest fun m => { m with csv := m.csv.insert kind text }, written.2)

def httpFields : List String :=
  ["protocol", "file_size", "time_to_transfer", "latency_tcp_rtt", "latency_ttfb", "goodput_mbps",
    "integrity_ok", "avg_cpu_usage", "peak_ram_usage", "energy_est"]

def mqttFields : List String :=
  ["protocol", "qos", "side", "file_size", "sender_duration", "receiver_duration", "latency",
    "goodput_mbps", "integrity_ok", "avg_cpu_usage", "peak_ram_usage", "energy_est"]

def coapFields : List String :=
  ["protocol", "file_size", "time_to_transfer", "latency", "goodput_mbps", "integrity_ok",
    "avg_cpu_usage", "peak_ram_usage", "energy_est"]

def amqpFields : List String :=
  ["protocol", "side", "file_size", "sender_duration", "receiver_duration", "latency",
    "goodput_mbps", "integrity_ok", "avg_cpu_usage", "peak_ram_usage", "energy_est"]

def grpcFields : List String :=
  ["protocol", "side", "file_size", "sender_duration", "receiver_duration", "latency",
    "goodput_mbps", "integrity_ok", "avg_cpu_usage", "peak_ram_usage", "energy_est"]

def pcapFields : List String :=
  ["protocol", "filename", "label", "qos", "file_size_bytes", "total_packets", "total_wire_bytes",
    "protocol_packets", "protocol_wire_bytes", "retransmissions", "duration_seconds",
    "total_overhead_bytes", "overhead_percentage", "wire_throughput_mbps", "goodput_mbps",
    "packet_types"]

def lwm2mFields : List String :=
  ["protocol", "side", "file_size", "download_duration", "latency", "goodput_mbps", "integrity_ok",
    "avg_cpu_usage", "peak_ram_usage", "energy_est"]

/-- The kinds of measurement files. -/
inductive Kind where
  | http
  | mqtt
  | coap
  | amqp
  | grpc
  | lwm2m
  | pcap
deriving DecidableEq, Repr

def Kind.name : Kind → String
  | .http => "http"
  | .mqtt => "mqtt"
  | .coap => "coap"
  | .amqp => "amqp"
  | .grpc => "grpc"
  | .lwm2m => "lwm2m"
  | .pcap => "pcap"

def Kind.fieldnames : Kind → List String
  | .http => httpFields
  | .mqtt => mqttFields
  | .coap => coapFields
  | .amqp => amqpFields
  | .grpc => grpcFields
  | .lwm2m => lwm2mFields
  | .pcap => pcapFields

/-- `write_to_file_{kind}(data)`. -/
def writeToFile (kind : Kind) := writeMeasurement kind.name kind.fieldnames

/-! ## What a call appends -/

/-- The text of a column of a written row. -/
def cellText (md : MetaRow) (row : Row) (k : String) : String :=
  (((if k ∈ metaFields then md.cells.get? k else row.get? k)).map Cell.text).getD ""

/-- The record a row is written as. -/
def rowRecord (withMeta : Bool) (md : MetaRow) (fieldnames : List String) (row : Row) :
    Csv.Record := (allFields withMeta fieldnames).map (cellText md row)

theorem get?_texts (row : Row) (k : String) : (texts row).get? k = (row.get? k).map Cell.text :=
  Dict.get?_mapValues Cell.text row k

theorem keys_texts (row : Row) : (texts row).keys = row.keys :=
  Dict.keys_mapValues Cell.text row

theorem get?_filter (row : Row) (k : String) :
    Dict.get? (row.filter fun p => p.1 ∉ metaFields) k =
      if k ∈ metaFields then none else row.get? k := by
  induction row with
  | nil => simp
  | cons p row ih =>
    by_cases hp : p.1 ∈ metaFields
    · rw [List.filter_cons_of_neg (by simpa using hp), ih, Dict.get?_cons]
      split_ifs with hk hpk
      · rfl
      · exact absurd (hpk ▸ hp) hk
      · rfl
    · rw [List.filter_cons_of_pos (by simpa using hp), Dict.get?_cons, Dict.get?_cons, ih]
      split_ifs with hpk hk
      · exact absurd (hpk ▸ hk) hp
      · rfl
      · rfl
      · rfl

theorem keys_meta (m : MetaRow) : m.cells.keys = metaFields := rfl

/-- The metadata come first; a row's own metadata keys are dropped. -/
theorem record_eq {row : Row} (h : row.keys.Nodup) (md : MetaRow) (withMeta : Bool) :
    record withMeta md row =
      (if withMeta then md.cells else []) ++ row.filter fun p => p.1 ∉ metaFields := by
  have hkeys : (Dict.keys (row.filter fun p => p.1 ∉ metaFields)).Nodup :=
    h.sublist (List.filter_sublist.map _)
  cases withMeta with
  | false => rfl
  | true =>
    simp only [record, if_true]
    apply Dict.update_of_disjoint _ _ hkeys
    intro k hk
    obtain ⟨p, hp, rfl⟩ := List.mem_map.1 hk
    rw [keys_meta]
    simpa using (List.mem_filter.1 hp).2

theorem get?_record {row : Row} (h : row.keys.Nodup) (md : MetaRow) (withMeta : Bool)
    (k : String) : (record withMeta md row).get? k =
      if k ∈ metaFields then (if withMeta then md.cells.get? k else none) else row.get? k := by
  rw [record_eq h, Dict.get?_append, get?_filter]
  by_cases hk : k ∈ metaFields
  · cases withMeta <;> simp [hk]
  · have hmeta : md.cells.get? k = none := by rwa [Dict.get?_eq_none_iff, keys_meta]
    cases withMeta <;> simp [hk, hmeta]

theorem mem_keys_record {fieldnames : List String} (row : MeasurementRow fieldnames)
    (md : MetaRow) (withMeta : Bool) {k : String}
    (hk : k ∈ (record withMeta md row.cells).keys) : k ∈ allFields withMeta fieldnames := by
  rw [record_eq row.nodup, Dict.keys, List.map_append, List.mem_append] at hk
  rw [allFields, List.mem_append]
  rcases hk with hk | hk
  · cases withMeta with
    | false => simp at hk
    | true => exact Or.inl hk
  · obtain ⟨p, hp, rfl⟩ := List.mem_map.1 hk
    rw [List.mem_filter] at hp
    refine Or.inr (List.mem_filter.2 ⟨row.keys_mem _ (List.mem_map_of_mem hp.1), ?_⟩)
    simpa using hp.2

theorem mem_metaFields_of_allFields {withMeta : Bool} {fieldnames : List String} {k : String}
    (hk : k ∈ allFields withMeta fieldnames) (hmeta : k ∈ metaFields) : withMeta = true := by
  cases withMeta with
  | true => rfl
  | false =>
    rw [allFields, List.mem_append, List.mem_filter] at hk
    simp [hmeta] at hk

/-- A row whose keys are columns is accepted. -/
theorem dictToList_row {fieldnames : List String} (row : MeasurementRow fieldnames)
    (md : MetaRow) (withMeta : Bool) :
    Csv.dictToList (allFields withMeta fieldnames) (texts (record withMeta md row.cells)) =
      some (rowRecord withMeta md fieldnames row.cells) := by
  rw [Csv.dictToList, if_pos]
  · refine congrArg some (List.map_congr_left fun k hk => ?_)
    rw [get?_texts, get?_record row.nodup, cellText]
    by_cases hmeta : k ∈ metaFields
    · simp [hmeta, mem_metaFields_of_allFields hk hmeta]
    · simp [hmeta]
  · intro k hk
    rw [keys_texts] at hk
    exact mem_keys_record row md withMeta hk

theorem writeRows_rows {fieldnames : List String} (rows : List (MeasurementRow fieldnames))
    (md : MetaRow) (withMeta : Bool) :
    Csv.writeRows (allFields withMeta fieldnames)
        (rows.map fun row => texts (record withMeta md row.cells)) =
      (rows.map fun row => rowRecord withMeta md fieldnames row.cells, true) := by
  induction rows with
  | nil => rfl
  | cons row rows ih => rw [List.map_cons, Csv.writeRows, dictToList_row, ih]; rfl

/-- A call whose rows have columns as keys appends its rows, after a header if it
    saw none, and returns. -/
theorem appendedText_rows {fieldnames : List String} (header : Option Csv.Record) (md : MetaRow)
    (rows : List (MeasurementRow fieldnames)) :
    appendedText header md fieldnames (rows.map MeasurementRow.cells) =
      (Csv.render ((if header = none then [allFields (useMeta header) fieldnames] else []) ++
        rows.map fun row => rowRecord (useMeta header) md fieldnames row.cells), true) := by
  have hrows := writeRows_rows rows md (useMeta header)
  rw [appendedText, List.map_map]
  simp only [Function.comp_def, hrows]

theorem existingHeader_render (header : Csv.Record) (rs : List Csv.Record) :
    existingHeader (some (Csv.render (header :: rs))) = some header := by
  rw [existingHeader, Option.bind_some, Csv.parse_render]
  rfl

theorem useMeta_allFields (fieldnames : List String) :
    useMeta (some (allFields true fieldnames)) = true := by
  simp [useMeta, allFields, metaFields]

/-- On a file whose header has the metadata columns, or on no file, a call appends
    its rows under that header. -/
theorem writeToCsv_rows {fieldnames : List String} (md : MetaRow) (recs : List Csv.Record)
    {rows : List (MeasurementRow fieldnames)} (h : rows ≠ []) :
    let header := allFields true fieldnames
    let new := rows.map fun row => rowRecord true md fieldnames row.cells
    writeToCsv md none fieldnames (rows.map MeasurementRow.cells) =
        (some (Csv.render (header :: new)), true) ∧
      writeToCsv md (some (Csv.render (header :: recs))) fieldnames
          (rows.map MeasurementRow.cells) =
        (some (Csv.render (header :: (recs ++ new))), true) := by
  have hne : rows.map MeasurementRow.cells ≠ [] := by simpa using h
  constructor
  · rw [writeToCsv, if_neg hne, appendedText_rows]
    rfl
  · rw [writeToCsv, if_neg hne, existingHeader_render, appendedText_rows, useMeta_allFields]
    simp [← Csv.render_append]

/-! ## What a call leaves alone -/

theorem marker_writeMeasurement (kind : String) (fieldnames : List String) (env : Env)
    (timestamp : String) (t : OutputTree) (data : List Row) :
    (writeMeasurement kind fieldnames env timestamp t data).1.marker = t.marker := by
  simp only [writeMeasurement]
  split
  · rfl
  · exact marker_modify t _ _

theorem activeRunId_congr {t t' : OutputTree} (h : t'.marker = t.marker) (env : Env) :
    activeRunId env t' = activeRunId env t := by
  simp only [activeRunId, readMarker, h]

theorem writeToCsv_eq_none {md : MetaRow} {file : Option (List Char)} {fieldnames : List String}
    {data : List Row} (h : (writeToCsv md file fieldnames data).1 = none) : file = none := by
  simp only [writeToCsv] at h
  split_ifs at h
  exact h

theorem measurementText_writeMeasurement (kind : String) (fieldnames : List String) (env : Env)
    (timestamp : String) (t : OutputTree) (data : List Row) :
    measurementText (writeMeasurement kind fieldnames env timestamp t data).1 (activeRunId env t)
        kind =
      (writeToCsv (metaRow env timestamp t) (measurementText t (activeRunId env t) kind) fieldnames
        data).1 := by
  simp only [writeMeasurement]
  split
  · rename_i h
    rw [h]
    exact writeToCsv_eq_none h
  · rename_i text h
    rw [h, measurementText, measurements_modify_self, Option.bind_some, Dict.get?_insert,
      if_pos rfl]

theorem writeMeasurement_returns (kind : String) (fieldnames : List String) (env : Env)
    (timestamp : String) (t : OutputTree) (data : List Row) :
    (writeMeasurement kind fieldnames env timestamp t data).2 =
      (writeToCsv (metaRow env timestamp t) (measurementText t (activeRunId env t) kind) fieldnames
        data).2 := by
  simp only [writeMeasurement]
  split <;> rfl

end TransferTestbed.WriteCsv
