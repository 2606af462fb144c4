import TransferTestbed.Output.WriteCsv
import TransferTestbed.Library.Json

/-!
# Rows of the pcap analysis

The dictionaries `analyze_pcap` returns, `write_to_file_pcap`, and what
`runs.load_csv` reads back: a CSV cell of each row holds the JSON text of the
packet-type histogram.

* `loadCsv_writeToFilePcap`: the rows of a run read back are those written, in order.
-/

namespace TransferTestbed.PcapRows

open Runs WriteCsv

/-- A Python number. -/
inductive Number where
  | int (z : ℤ)
  | float (q : ℚ)
deriving DecidableEq, Repr

def Number.cell : Number → Cell
  | .int z => .int z
  | .float q => .float q

/-- `packet_types`: counts by packet type. -/
structure Histogram where
  counts : Dict String ℤ
  nodup : counts.keys.Nodup

def Histogram.object (h : Histogram) : Json.Object := h.counts.map fun p => (p.1, .int p.2)

/-- What `analyze_pcap` returns (`pcap_analyzer.py`, lines 392–409). -/
structure PcapResult where
  filename : Option String
  label : Option String
  protocol : Option String
  qos : Option ℤ
  fileSizeBytes : ℤ
  totalPackets : ℤ
  totalWireBytes : ℤ
  protocolPackets : ℤ
  protocolWireBytes : ℤ
  retransmissions : ℤ
  durationSeconds : Number
  totalOverheadBytes : ℤ
  overheadPercentage : Number
  wireThroughputMbps : Number
  goodputMbps : Number
  packetTypes : Histogram

def optStr : Option String → Cell
  | none => .none
  | some s => .str s

def optInt : Option ℤ → Cell
  | none => .none
  | some z => .int z

/-- The record `write_to_file_pcap` builds: the dictionary with `packet_types` as
    its JSON text. -/
def PcapResult.row (r : PcapResult) : Row :=
  [("filename", optStr r.filename), ("label", optStr r.label), ("protocol", optStr r.protocol),
    ("qos", optInt r.qos), ("file_size_bytes", .int r.fileSizeBytes),
    ("total_packets", .int r.totalPackets), ("total_wire_bytes", .int r.totalWireBytes),
    ("protocol_packets", .int r.protocolPackets),
    ("protocol_wire_bytes", .int r.protocolWireBytes), ("retransmissions", .int r.retransmissions),
    ("duration_seconds", r.durationSeconds.cell),
    ("total_overhead_bytes", .int r.totalOverheadBytes),
    ("overhead_percentage", r.overheadPercentage.cell),
    ("wire_throughput_mbps", r.wireThroughputMbps.cell), ("goodput_mbps", r.goodputMbps.cell),
    ("packet_types", .str (String.ofList (Json.dumps r.packetTypes.object)))]

/-- `write_to_file_pcap(data)` (`write_csv.py`, lines 197–225). -/
def writeToFilePcap (env : Env) (timestamp : String) (t : OutputTree) (data : List PcapResult) :
    OutputTree × Bool :=
  writeToFile .pcap env timestamp t (data.map PcapResult.row)

/-- A call: the environment and the clock of its process, and its argument. -/
structure Call where
  env : Env
  timestamp : String
  data : List PcapResult

/-- Sequential calls, and whether all of them return. -/
def writeAll (t : OutputTree) : List Call → OutputTree × Bool
  | [] => (t, true)
  | c :: cs =>
    let written := writeToFilePcap c.env c.timestamp t c.data
    let rest := writeAll written.1 cs
    (rest.1, written.2 && rest.2)

/-! ## Reading back -/

/-- `row` is what reading gives for the dictionary `r` written in the run `rid`. -/
structure ReadsAs (rid : String) (r : PcapResult) (row : Csv.DictRow) : Prop where
  keys : row.cells.keys = metaFields ++ pcapFields
  rest : row.rest = none
  runId : row.cells.get? "run_id" = some (some rid)
  cells : ∀ k v, (k, v) ∈ r.row → row.cells.get? k = some (some v.text)
  packetTypes : ∃ text : String, row.cells.get? "packet_types" = some (some text) ∧
    Json.loads text.toList = some r.packetTypes.object

theorem keys_row (r : PcapResult) :
    r.row.keys = ["filename", "label", "protocol", "qos", "file_size_bytes", "total_packets",
      "total_wire_bytes", "protocol_packets", "protocol_wire_bytes", "retransmissions",
      "duration_seconds", "total_overhead_bytes", "overhead_percentage", "wire_throughput_mbps",
      "goodput_mbps", "packet_types"] := rfl

/-- The dictionaries of `analyze_pcap` have the columns of the pcap file as keys. -/
def PcapResult.measurementRow (r : PcapResult) : MeasurementRow pcapFields where
  cells := r.row
  nodup := by rw [keys_row]; decide
  keys_mem := by rw [keys_row]; decide

theorem map_row (data : List PcapResult) :
    data.map PcapResult.row = (data.map PcapResult.measurementRow).map MeasurementRow.cells := by
  rw [List.map_map]
  rfl

theorem allFields_pcap : allFields true pcapFields = metaFields ++ pcapFields := by decide

theorem nodup_allFields : (allFields true pcapFields).Nodup := by decide

theorem loads_object (h : Histogram) : Json.loads (Json.dumps h.object) = some h.object := by
  apply Json.loads_dumps
  have hkeys : h.object.keys = h.counts.keys := by simp [Histogram.object, Dict.keys]
  rw [hkeys]
  exact h.nodup

theorem disjoint_metaFields (r : PcapResult) : ∀ k ∈ r.row.keys, k ∉ metaFields := by
  rw [keys_row]
  decide

theorem cellText_row (md : MetaRow) (r : PcapResult) {k : String} {v : Cell} (h : (k, v) ∈ r.row) :
    k ∈ allFields true pcapFields ∧ cellText md r.row k = v.text := by
  have hk : k ∈ r.row.keys := List.mem_map_of_mem h
  constructor
  · rw [allFields_pcap, List.mem_append]
    exact Or.inr (r.measurementRow.keys_mem k hk)
  · have hget : r.row.get? k = some v := Dict.get?_of_mem r.measurementRow.nodup h
    rw [cellText, if_neg (disjoint_metaFields r k hk), hget]
    rfl

/-- Reading a row of the pcap file gives the dictionary it was written from. -/
theorem readsAs_row (md : MetaRow) (r : PcapResult) :
    ReadsAs md.runId r
      ⟨(allFields true pcapFields).map fun k => (k, some (cellText md r.row k)), none⟩ := by
  have hcells (k : String) (v : Cell) (h : (k, v) ∈ r.row) :
      Dict.get? ((allFields true pcapFields).map fun k => (k, some (cellText md r.row k))) k =
        some (some v.text) := by
    obtain ⟨hmem, htext⟩ := cellText_row md r h
    rw [Dict.get?_map_pair (fun k => some (cellText md r.row k)) hmem, htext]
  have hpacket :
      ("packet_types", .str (String.ofList (Json.dumps r.packetTypes.object))) ∈ r.row := by
    simp [PcapResult.row]
  refine ⟨?_, rfl, ?_, hcells, _, hcells _ _ hpacket, ?_⟩
  · simp [Dict.keys, allFields_pcap, Function.comp_def]
  · rw [Dict.get?_map_pair (fun k => some (cellText md r.row k)) (by decide)]
    rfl
  · rw [Cell.text, String.toList_ofList]
    exact loads_object r.packetTypes

/-! ## The file after a sequence of calls -/

/-- The text of the pcap file once the records `recs` have been written. -/
def pcapText (recs : List Csv.Record) : Option (List Char) :=
  if recs = [] then none else some (Csv.render (allFields true pcapFields :: recs))

def newRecords (md : MetaRow) (data : List PcapResult) : List Csv.Record :=
  data.map fun r => rowRecord true md pcapFields r.row

theorem writeToCsv_pcapText (md : MetaRow) (recs : List Csv.Record) (data : List PcapResult) :
    writeToCsv md (pcapText recs) pcapFields (data.map PcapResult.row) =
      (pcapText (recs ++ newRecords md data), true) := by
  rcases eq_or_ne data [] with rfl | hdata
  · simp [writeToCsv, newRecords]
  have hrows : data.map PcapResult.measurementRow ≠ [] := by simpa using hdata
  have hnew : recs ++ newRecords md data ≠ [] := by simp [newRecords, hdata]
  have hmap : (data.map PcapResult.measurementRow).map
      (fun row => rowRecord true md pcapFields row.cells) = newRecords md data := by
    rw [List.map_map]
    rfl
  obtain ⟨habsent, hpresent⟩ := writeToCsv_rows md recs hrows
  rw [hmap] at habsent hpresent
  rw [map_row]
  rcases eq_or_ne recs [] with rfl | hrecs
  · rw [pcapText, if_pos rfl, habsent, pcapText, if_neg hnew, List.nil_append]
  · rw [pcapText, if_neg hrecs, hpresent, pcapText, if_neg hnew]

/-- One call while the run `rid` is active. -/
theorem writeToFilePcap_pcapText {env : Env} {t : OutputTree} {rid : String}
    (hactive : activeRunId env t = some rid) {recs : List Csv.Record}
    (hfile : measurementText t (some rid) "pcap" = pcapText recs) (timestamp : String)
    (data : List PcapResult) :
    (writeToFilePcap env timestamp t data).2 = true ∧
      measurementText (writeToFilePcap env timestamp t data).1 (some rid) "pcap" =
        pcapText (recs ++ newRecords (metaRow env timestamp t) data) := by
  have htext := measurementText_writeMeasurement "pcap" pcapFields env timestamp t
    (data.map PcapResult.row)
  have hret := writeMeasurement_returns "pcap" pcapFields env timestamp t
    (data.map PcapResult.row)
  rw [hactive, hfile, writeToCsv_pcapText] at htext hret
  exact ⟨hret, htext⟩

/-- The rows a record list reads as, one for each dictionary. -/
theorem readDicts_records {rid : String} (rows : List (MetaRow × PcapResult))
    (h : ∀ p ∈ rows, p.1.runId = rid) :
    List.Forall₂ (ReadsAs rid) (rows.map Prod.snd)
      (Csv.readDicts (Csv.render (allFields true pcapFields ::
        rows.map fun p => rowRecord true p.1 pcapFields p.2.row))) := by
  have hread := Csv.readDicts_render nodup_allFields (by decide)
    (rows.map fun p => cellText p.1 p.2.row)
  rw [List.map_map, List.map_map] at hread
  have heq : (rows.map fun p => rowRecord true p.1 pcapFields p.2.row) =
      rows.map ((allFields true pcapFields).map ∘ fun p => cellText p.1 p.2.row) := rfl
  rw [heq, hread, List.forall₂_map_left_iff, List.forall₂_map_right_iff, List.forall₂_same]
  intro p hp
  rw [← h p hp]
  exact readsAs_row p.1 p.2

/-- What a sequence of calls leaves in the file of the active run. -/
theorem writeAll_pcapText {rid : String} (calls : List Call) (t : OutputTree)
    (hactive : ∀ c ∈ calls, activeRunId c.env t = some rid) (recs : List Csv.Record)
    (hfile : measurementText t (some rid) "pcap" = pcapText recs) :
    (writeAll t calls).2 = true ∧ ∃ rows : List (MetaRow × PcapResult),
      rows.map Prod.snd = calls.flatMap Call.data ∧ (∀ p ∈ rows, p.1.runId = rid) ∧
      measurementText (writeAll t calls).1 (some rid) "pcap" =
        pcapText (recs ++ rows.map fun p => rowRecord true p.1 pcapFields p.2.row) := by
  induction calls generalizing t recs with
  | nil => exact ⟨rfl, [], rfl, by simp, by simpa [writeAll] using hfile⟩
  | cons c calls ih =>
    have hc := hactive c (by simp)
    obtain ⟨hret, htext⟩ := writeToFilePcap_pcapText hc hfile c.timestamp c.data
    have hmarker := marker_writeMeasurement "pcap" pcapFields c.env c.timestamp t
      (c.data.map PcapResult.row)
    obtain ⟨hrest, rows, hrows, hrid, hfinal⟩ :=
      ih (writeToFilePcap c.env c.timestamp t c.data).1
        (fun d hd => (activeRunId_congr hmarker d.env).trans (hactive d (by simp [hd]))) _ htext
    refine ⟨by simp [writeAll, hret, hrest],
      (c.data.map fun r => (metaRow c.env c.timestamp t, r)) ++ rows, ?_, ?_, ?_⟩
    · simp [hrows, Function.comp_def]
    · intro p hp
      rcases List.mem_append.1 hp with hp | hp
      · obtain ⟨r, -, rfl⟩ := List.mem_map.1 hp
        simp [metaRow, hc]
      · exact hrid p hp
    · rw [writeAll, hfinal, List.append_assoc, List.map_append, List.map_map]
      rfl

/-- **The pcap rows of a run survive the file.** Calls made while the run is
    active, from no pcap file on, leave a file that reads as one row for each
    dictionary, in order; when none was written there is no file. -/
theorem loadCsv_writeToFilePcap (t : OutputTree) (rid : String) (calls : List Call)
    (hactive : ∀ c ∈ calls, activeRunId c.env t = some rid)
    (habsent : measurementText t (some rid) "pcap" = none) :
    (writeAll t calls).2 = true ∧
      match loadCsv (writeAll t calls).1 rid "pcap" with
      | none => calls.flatMap Call.data = []
      | some rows => calls.flatMap Call.data ≠ [] ∧
          List.Forall₂ (ReadsAs rid) (calls.flatMap Call.data) rows := by
  obtain ⟨hret, rows, hrows, hrid, hfinal⟩ := writeAll_pcapText calls t hactive [] habsent
  have hload : loadCsv (writeAll t calls).1 rid "pcap" =
      (measurementText (writeAll t calls).1 (some rid) "pcap").map Csv.readDicts := rfl
  refine ⟨hret, ?_⟩
  rw [hload, hfinal, List.nil_append, ← hrows]
  rcases eq_or_ne rows [] with rfl | hne
  · simp [pcapText]
  · rw [pcapText, if_neg (by simpa using hne)]
    exact ⟨by simpa using hne, readDicts_records rows hrid⟩

/-- A run without a pcap file, named by the marker. -/
def freshRun : OutputTree := ⟨some "r", [("r", ⟨⟨[], []⟩, none⟩)], ⟨[], []⟩⟩

/-- A result whose filename holds every special character of CSV, with one packet type. -/
def sampleResult : PcapResult where
  filename := some "a,b\r\n\"c\".bin"
  label := some "a,b\r\n\"c\".bin_1"
  protocol := some "mqtt"
  qos := some 1
  fileSizeBytes := 10
  totalPackets := 2
  totalWireBytes := 150
  protocolPackets := 1
  protocolWireBytes := 90
  retransmissions := 0
  durationSeconds := .float (1 / 4)
  totalOverheadBytes := 140
  overheadPercentage := .float 1400
  wireThroughputMbps := .int 0
  goodputMbps := .int 0
  packetTypes := ⟨[("PUB,\"LISH", 1)], by decide⟩

theorem loadCsv_writeToFilePcap_sample :
    (writeAll freshRun [⟨[], "2026-01-01T00:00:00+00:00", [sampleResult]⟩]).2 = true ∧
      match loadCsv (writeAll freshRun [⟨[], "2026-01-01T00:00:00+00:00", [sampleResult]⟩]).1 "r"
          "pcap" with
      | none => [sampleResult] = []
      | some rows => [sampleResult] ≠ [] ∧ List.Forall₂ (ReadsAs "r") [sampleResult] rows :=
  loadCsv_writeToFilePcap freshRun "r" [⟨[], "2026-01-01T00:00:00+00:00", [sampleResult]⟩]
    (by decide) (by decide)

/-- After calls that write no dictionary `load_csv` gives `None`, not a list of rows. -/
theorem loadCsv_of_no_rows :
    activeRunId [] freshRun = some "r" ∧ measurementText freshRun (some "r") "pcap" = none ∧
      ¬ ∃ rows, loadCsv (writeAll freshRun [⟨[], "2026-01-01T00:00:00+00:00", []⟩]).1 "r" "pcap" =
          some rows ∧ List.Forall₂ (ReadsAs "r") [] rows := by
  refine ⟨by decide, by decide, ?_⟩
  rintro ⟨rows, hrows, -⟩
  have hnone : loadCsv (writeAll freshRun [⟨[], "2026-01-01T00:00:00+00:00", []⟩]).1 "r" "pcap" =
      none := by decide
  rw [hnone] at hrows
  cases hrows

end TransferTestbed.PcapRows
