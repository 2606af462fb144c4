import TransferTestbed.Charts.Series
import TransferTestbed.Output.PcapRows
import TransferTestbed.Transfer.Senders

/-!
# Charts of MQTT transfers

The files that the writers of the MQTT pair and of the pcap analysis append to, one call
after the other; a call that finds no file writes the header first, also where another
call has just created the file. The QoS of a transfer goes from the command line into the
control message, from there into the receiver's rows, and from the rows into the series.

Results:
* `mem_csvRows_fileText`: the rows of a written file.
* `chartsOk_iff`: when all charts of MQTT transfers can be drawn.
-/

namespace TransferTestbed.Charts

open Numeral WriteCsv PcapRows Transfer

/-! ## Written files -/

/-- One call of a writer with one row: whether it finds no file, and its metadata. -/
structure Append (α : Type) where
  absent : Bool
  md : MetaRow
  row : α

section Append

variable {fieldnames : List String} {α : Type} (measurement : α → MeasurementRow fieldnames)

/-- What `write_to_csv` appends. -/
def Append.text (a : Append α) : List Char :=
  (appendedText (if a.absent then none else some (allFields true fieldnames)) a.md fieldnames
    [(measurement a.row).cells]).1

/-- The text of the file after the calls; the first one finds no file. -/
def fileText : List (Append α) → List Char
  | [] => []
  | a :: as =>
    Append.text measurement { a with absent := true } ++ as.flatMap (Append.text measurement)

end Append

/-- A row of the MQTT pair, whose QoS is one the client accepts, or unknown to the receiver
    where the control message has none. -/
inductive MqttRow where
  | sender (b : Broker) (qos : Fin 3) (fileSize : ℕ)
  | receiver (s : Receiver) (qos : Option (Fin 3)) (duration : ℚ) (stats : ResourceMonitor.Stats)
      (integrityOk : Bool)

namespace MqttRow

def qos : MqttRow → Option (Fin 3)
  | sender _ q _ => some q
  | receiver _ q _ _ _ => q

/-- The dictionary that is passed to `write_to_file_mqtt`. -/
def cells : MqttRow → WriteCsv.Row
  | sender b q fileSize => senderRow .mqtt b q fileSize
  | receiver s q duration stats integrityOk =>
    let currentQos : Json.Scalar := (q.map fun q => .int q).getD (.str "unknown")
    receiverRow .mqtt { s with currentQos := currentQos } duration stats integrityOk

def measurement (r : MqttRow) : MeasurementRow mqttFields where
  cells := r.cells
  nodup := by cases r <;> simp [cells, senderRow, receiverRow, Dict.keys]
  keys_mem := by cases r <;> simp [cells, senderRow, receiverRow, Dict.keys, mqttFields]

end MqttRow

/-- A pcap row of an MQTT transfer. -/
structure PcapRow where
  result : PcapResult
  qos : Fin 3
  protocol_eq : result.protocol = some "mqtt"
  qos_eq : result.qos = some (qos.val : ℤ)

namespace PcapRow

def measurement (r : PcapRow) : MeasurementRow pcapFields := r.result.measurementRow

end PcapRow

/-- A run directory after some MQTT transfers. -/
def runDirectory (mqtt : List (Append MqttRow)) (pcap : List (Append PcapRow)) :
    Dict String (List Char) :=
  [("mqtt", fileText MqttRow.measurement mqtt), ("pcap", fileText PcapRow.measurement pcap)]

/-! ## Charts -/

/-- All charts of a run directory can be drawn with this `--qos` list. -/
def ChartsOk (qos : List ℤ) (dir : Dict String (List Char)) : Prop :=
  ∀ selected : List String, (∀ p ∈ selected, p ∈ protocols) → ∀ side fileSizes,
    (∀ metric ∈ clientMetrics,
      ChartOk clientSource ⟨qos, side, fileSizes⟩ (clientRows selected [dir]) metric.2) ∧
    ∀ metric ∈ pcapMetrics,
      ChartOk pcapSource ⟨qos, side, fileSizes⟩ (pcapRows selected [dir]) (pcapFieldsOf metric)

/-- No row of an unknown QoS; with `--qos` one header line in the MQTT file; and no row of
    QoS 0 unless `--qos` leaves 0 out. -/
structure Drawable (qos : List ℤ) (mqtt : List (Append MqttRow)) (pcap : List (Append PcapRow)) :
    Prop where
  known : ∀ a ∈ mqtt, a.row.qos ≠ none
  oneHeader : qos ≠ [] → ∀ a ∈ mqtt.tail, a.absent = false
  mqtt_ne_zero : qos = [] ∨ 0 ∈ qos → ∀ a ∈ mqtt, a.row.qos ≠ some 0
  pcap_ne_zero : qos = [] ∨ 0 ∈ qos → ∀ a ∈ pcap, a.row.qos ≠ 0

/-! ## Reading a written file -/

/-- What a row that was written for each column reads as. -/
def lineRow (fieldnames : List String) (f : String → String) : Row :=
  (allFields true fieldnames).map fun k => (k, some (f k))

theorem cell_lineRow {fieldnames : List String} (f : String → String) {k : String}
    (hk : k ∈ allFields true fieldnames) : cell (lineRow fieldnames f) k = some (f k) := by
  rw [cell, lineRow, Dict.get?_map_pair (fun k => some (f k)) hk]
  rfl

section Append

variable {fieldnames : List String} {α : Type} (measurement : α → MeasurementRow fieldnames)

/-- The texts of a call's row, by column. -/
def Append.texts (a : Append α) : String → String := cellText a.md (measurement a.row).cells

/-- The records a call appends, by column: the header is each column's name. -/
def Append.records (a : Append α) : List (String → String) :=
  (if a.absent then [id] else []) ++ [a.texts measurement]

theorem Append.text_eq (a : Append α) : a.text measurement =
    Csv.render ((a.records measurement).map fun f => (allFields true fieldnames).map f) := by
  have hrows := appendedText_rows (if a.absent then none else some (allFields true fieldnames))
    a.md [measurement a.row]
  rw [List.map_singleton] at hrows
  rw [Append.text, hrows, records, List.map_append]
  cases a.absent with
  | true => simp [useMeta, rowRecord, texts]
  | false => simp [useMeta_allFields, rowRecord, texts]

theorem fileText_cons (a : Append α) (as : List (Append α)) :
    fileText measurement (a :: as) = Csv.render (allFields true fieldnames ::
      (a.texts measurement :: as.flatMap (Append.records measurement)).map
        fun f => (allFields true fieldnames).map f) := by
  have hrest : as.flatMap (Append.text measurement) = Csv.render
      ((as.flatMap (Append.records measurement)).map
        fun f => (allFields true fieldnames).map f) := by
    induction as with
    | nil => rfl
    | cons b as ih =>
      rw [List.flatMap_cons, List.flatMap_cons, ih, Append.text_eq, List.map_append,
        Csv.render_append]
  rw [fileText, Append.text_eq, hrest, ← Csv.render_append]
  simp [Append.records, Append.texts]

/-- **The rows of a written file** are those of its calls, and a header line for each later
    call that finds no file. -/
theorem mem_csvRows_fileText (hnodup : (allFields true fieldnames).Nodup) (as : List (Append α))
    {row : Row} : row ∈ csvRows (fileText measurement as) ↔
      (∃ a ∈ as, row = lineRow fieldnames (a.texts measurement)) ∨
        (∃ a ∈ as.tail, a.absent = true) ∧ row = lineRow fieldnames id := by
  cases as with
  | nil => simp [fileText, csvRows, Csv.readDicts, Csv.parse, Csv.parseFrom, Csv.Reader.init]
  | cons a as =>
    have hne : allFields true fieldnames ≠ [] := by simp [allFields, metaFields]
    have hread := Csv.readDicts_render hnodup hne
      (a.texts measurement :: as.flatMap (Append.records measurement))
    rw [csvRows, fileText_cons, hread, List.map_map]
    simp only [List.mem_map, List.mem_cons, List.mem_flatMap, Append.records, List.mem_append,
      Function.comp_apply, List.tail_cons]
    constructor
    · rintro ⟨f, rfl | ⟨b, hb, hf⟩, rfl⟩
      · exact .inl ⟨a, .inl rfl, rfl⟩
      · rcases hf with hf | hf
        · split_ifs at hf with habsent
          · rw [List.mem_singleton] at hf
            subst hf
            exact .inr ⟨⟨b, hb, habsent⟩, rfl⟩
          · cases hf
        · obtain rfl : f = b.texts measurement := by simpa using hf
          exact .inl ⟨b, .inr hb, rfl⟩
    · rintro (⟨b, rfl | hb, rfl⟩ | ⟨⟨b, hb, habsent⟩, rfl⟩)
      · exact ⟨b.texts measurement, .inl rfl, rfl⟩
      · exact ⟨b.texts measurement, .inr ⟨b, hb, .inr (.inl rfl)⟩, rfl⟩
      · exact ⟨id, .inr ⟨b, hb, .inl (by rw [if_pos habsent]; exact List.mem_cons_self)⟩, rfl⟩

end Append

/-! ## The rows of MQTT transfers -/

/-- The QoS as the cells have it. -/
def qosText : Option (Fin 3) → String
  | none => "unknown"
  | some q => String.ofList (Decimal.intText (q : ℕ))

theorem readInt_qosText (q : Option (Fin 3)) :
    readInt (qosText q).toList = q.map fun level : Fin 3 => (level.val : ℤ) := by
  rcases q with _ | q
  · decide +kernel
  · fin_cases q <;> decide +kernel

theorem strip_qosText (q : Option (Fin 3)) :
    Runs.strip (qosText q) = qosText q ∧ qosText q ≠ "" := by
  rcases q with _ | q
  · decide +kernel
  · fin_cases q <;> decide +kernel

theorem qosOf_of_cell {row : Row} {q : Option (Fin 3)} (h : cell row "qos" = some (qosText q)) :
    qosOf "mqtt" row = some (qosText q) := by
  obtain ⟨hstrip, hne⟩ := strip_qosText q
  simp only [qosOf, h, Option.getD_some, hstrip, if_neg hne, if_true]

theorem styles_iff (q : Option (Fin 3)) :
    (lineStyle ("mqtt", some (qosText q)) ≠ none ∧ barStyle ("mqtt", some (qosText q)) ≠ none) ↔
      q ≠ none ∧ q ≠ some 0 := by
  rcases q with _ | q
  · decide +kernel
  · fin_cases q <;> decide +kernel

/-- What the filter for the QoS keeps. -/
theorem keepsQos_qosText {wanted : List ℤ} {q : Option (Fin 3)}
    (h : keepsQos wanted (some (qosText q)) = .ok true) :
    wanted = [] ∨ ∃ level, q = some level ∧ (level.val : ℤ) ∈ wanted := by
  by_cases hwanted : wanted = []
  · exact .inl hwanted
  · simp only [keepsQos, if_neg hwanted, readInt_qosText] at h
    cases q with
    | none => cases h
    | some level =>
      simp only [Option.map_some, Except.ok.injEq, decide_eq_true_eq] at h
      exact .inr ⟨level, rfl, h⟩

theorem keepsQos_of_mem {wanted : List ℤ} {level : Fin 3}
    (h : wanted = [] ∨ (level.val : ℤ) ∈ wanted) :
    keepsQos wanted (some (qosText (some level))) = .ok true := by
  by_cases hwanted : wanted = []
  · exact if_pos hwanted
  · simp only [keepsQos, if_neg hwanted, readInt_qosText, Option.map_some,
      h.resolve_left hwanted, decide_true]

theorem nodup_allFields_mqtt : (allFields true mqttFields).Nodup := by decide

section MqttRows

variable (a : Append MqttRow)

/-- The row of a call as it is read. -/
def mqttRow : Row := lineRow mqttFields (a.texts MqttRow.measurement)

theorem cell_mqttRow {k : String} {v : Cell} (hmeta : k ∉ metaFields) (hfield : k ∈ mqttFields)
    (hget : a.row.cells.get? k = some v) : cell (mqttRow a) k = some v.text := by
  have hk : k ∈ allFields true mqttFields :=
    List.mem_append.2 (.inr (List.mem_filter.2 ⟨hfield, by simpa using hmeta⟩))
  rw [mqttRow, cell_lineRow _ hk, Append.texts, cellText, if_neg hmeta]
  show some ((Option.map Cell.text (a.row.cells.get? k)).getD "") = _
  rw [hget]
  rfl

theorem qosOf_mqttRow : qosOf "mqtt" (mqttRow a) = some (qosText a.row.qos) := by
  apply qosOf_of_cell
  obtain ⟨absent, md, row⟩ := a
  cases row with
  | sender b q fileSize =>
    exact cell_mqttRow _ (k := "qos") (v := .int (q : ℕ)) (by decide) (by decide) rfl
  | receiver s q duration stats integrityOk =>
    cases q with
    | none => exact cell_mqttRow _ (k := "qos") (v := .str "unknown") (by decide) (by decide) rfl
    | some q => exact cell_mqttRow _ (k := "qos") (v := .int (q : ℕ)) (by decide) (by decide) rfl

/-- Every row has a goodput. -/
theorem exists_goodput : ∃ value, toNumber (cell (mqttRow a) "goodput_mbps") = some value := by
  obtain ⟨absent, md, row⟩ := a
  cases row with
  | sender b q fileSize =>
    rw [cell_mqttRow _ (k := "goodput_mbps") (v := .str _) (by decide) (by decide) rfl]
    exact exists_toNumber_fixed (by norm_num) _
  | receiver s q duration stats integrityOk =>
    rw [cell_mqttRow _ (k := "goodput_mbps") (v := .str _) (by decide) (by decide) rfl]
    exact exists_toNumber_fixed (by norm_num) _

end MqttRows

section PcapRows

variable (a : Append PcapRow)

/-- The row of a call as it is read. -/
def pcapRow : Row := lineRow pcapFields (a.texts PcapRow.measurement)

theorem cell_pcapRow {k : String} {v : Cell} (h : (k, v) ∈ a.row.result.row) :
    cell (pcapRow a) k = some v.text := by
  obtain ⟨hk, htext⟩ := cellText_row a.md a.row.result h
  rw [pcapRow, cell_lineRow _ hk]
  exact congrArg some htext

theorem protocolOf_pcapRow : protocolOf (pcapRow a) = "mqtt" := by
  have hcell := cell_pcapRow a (k := "protocol") (v := optStr a.row.result.protocol)
    (by simp [PcapResult.row])
  rw [a.row.protocol_eq] at hcell
  rw [protocolOf, hcell]
  decide +kernel

theorem qosOf_pcapRow : qosOf "mqtt" (pcapRow a) = some (qosText (some a.row.qos)) := by
  have hcell := cell_pcapRow a (k := "qos") (v := optInt a.row.result.qos)
    (by simp [PcapResult.row])
  rw [a.row.qos_eq] at hcell
  exact qosOf_of_cell hcell

theorem exists_totalPackets :
    ∃ value, toNumber (cell (pcapRow a) "total_packets") = some value := by
  have hcell := cell_pcapRow a (k := "total_packets") (v := .int a.row.result.totalPackets)
    (by simp [PcapResult.row])
  rw [hcell]
  exact exists_toNumber_intText _

end PcapRows

/-! ## The charts of a run directory -/

section RunDirectory

variable {qos : List ℤ} {mqtt : List (Append MqttRow)} {pcap : List (Append PcapRow)}

theorem mem_mqttRows {row : Row} :
    row ∈ loadRows [runDirectory mqtt pcap] "mqtt" ↔
      (∃ a ∈ mqtt, row = mqttRow a) ∨
        (∃ a ∈ mqtt.tail, a.absent = true) ∧ row = lineRow mqttFields id := by
  have hload : loadRows [runDirectory mqtt pcap] "mqtt" =
      csvRows (fileText MqttRow.measurement mqtt) := List.append_nil _
  rw [hload]
  exact mem_csvRows_fileText MqttRow.measurement nodup_allFields_mqtt mqtt

theorem mem_pcapRows {row : Row} (h : row ∈ loadRows [runDirectory mqtt pcap] "pcap") :
    (∃ a ∈ pcap, row = pcapRow a) ∨ row = lineRow pcapFields id := by
  have hload : loadRows [runDirectory mqtt pcap] "pcap" =
      csvRows (fileText PcapRow.measurement pcap) := List.append_nil _
  rw [hload, mem_csvRows_fileText PcapRow.measurement nodup_allFields] at h
  rcases h with h | ⟨-, h⟩
  · exact .inl h
  · exact .inr h

theorem entry_mqtt {selected : List String} (hselected : ∀ p ∈ selected, p ∈ protocols)
    {entry : String × List Row} (h : entry ∈ clientRows selected [runDirectory mqtt pcap]) :
    entry = ("mqtt", loadRows [runDirectory mqtt pcap] "mqtt") := by
  obtain ⟨p, rows⟩ := entry
  obtain ⟨hp, hrows, hne⟩ := mem_clientRows.1 h
  simp only at hp hrows hne
  by_cases hmqtt : p = "mqtt"
  · subst hmqtt
    exact Prod.ext rfl hrows
  · have hpcap : p ≠ "pcap" := by
      rintro rfl
      exact absurd (hselected _ hp) (by decide)
    have hnone : (runDirectory mqtt pcap).get? p = none := by
      simp [runDirectory, Dict.get?_cons, Ne.symm hmqtt, Ne.symm hpcap]
    refine absurd ?_ hne
    rw [hrows]
    simp [loadRows, hnone]

/-- The columns of the MQTT metrics hold no number in a header line. -/
theorem toNumber_header {metric : String × Dict String String} (hmetric : metric ∈ clientMetrics)
    {field : String} (hfield : truthy (metric.2.get? "mqtt") = some field) :
    toNumber (cell (lineRow mqttFields id) field) = none := by
  have hcolumn : field ∈ ["goodput_mbps", "sender_duration", "latency"] := by
    simp only [clientMetrics, List.mem_cons, List.not_mem_nil, or_false] at hmetric
    rcases hmetric with rfl | rfl | rfl | rfl | rfl | rfl
    · obtain rfl : "goodput_mbps" = field := Option.some.inj hfield
      decide
    · obtain rfl : "sender_duration" = field := Option.some.inj hfield
      decide
    · obtain rfl : "latency" = field := Option.some.inj hfield
      decide
    · cases hfield
    · cases hfield
    · cases hfield
  have hcolumns : ∀ field ∈ ["goodput_mbps", "sender_duration", "latency"],
      field ∈ allFields true mqttFields := by decide
  rw [cell_lineRow _ (hcolumns field hcolumn)]
  simp only [List.mem_cons, List.not_mem_nil, or_false] at hcolumn
  rcases hcolumn with rfl | rfl | rfl <;> decide +kernel

theorem readInt_header : readInt "qos".toList = none := by decide +kernel

theorem qosOf_header : qosOf "mqtt" (lineRow mqttFields id) = some "qos" := by
  rw [qosOf, if_pos rfl, cell_lineRow _ (by decide)]
  decide +kernel

/-- A row that the filters keep has a style, unless its QoS is 0 or unknown. -/
theorem styles_of_keepsRow {source : Source} {args : Args} {effective : Option String} {row : Row}
    {q : Option (Fin 3)} (hqos : qosOf "mqtt" row = some (qosText q))
    (hkeeps : keepsRow source args "mqtt" effective row = true) (hknown : q ≠ none)
    (hzero : args.qos = [] ∨ 0 ∈ args.qos → q ≠ some 0) :
    lineStyle ("mqtt", qosOf "mqtt" row) ≠ none ∧ barStyle ("mqtt", qosOf "mqtt" row) ≠ none := by
  rw [hqos, styles_iff]
  refine ⟨hknown, ?_⟩
  rintro rfl
  simp only [keepsRow, Bool.and_eq_true, decide_eq_true_eq, hqos] at hkeeps
  refine hzero ?_ rfl
  rcases keepsQos_qosText hkeeps.1.1 with h | ⟨level, hlevel, h⟩
  · exact .inl h
  · obtain rfl := Option.some.inj hlevel
    exact .inr h

theorem Drawable.clientChart (h : Drawable qos mqtt pcap) {selected : List String}
    (hselected : ∀ p ∈ selected, p ∈ protocols) (side : SideChoice) (fileSizes : List ℚ)
    {metric : String × Dict String String} (hmetric : metric ∈ clientMetrics) :
    ChartOk clientSource ⟨qos, side, fileSizes⟩
      (clientRows selected [runDirectory mqtt pcap]) metric.2 := by
  rw [chartOk_iff (nodup_clientRows _ _)]
  constructor
  · intro entry hentry _ row hrow text hqos hargs hread
    rw [entry_mqtt hselected hentry] at hrow hqos
    rcases mem_mqttRows.1 hrow with ⟨a, ha, rfl⟩ | ⟨⟨a, ha, habsent⟩, rfl⟩
    · rw [qosOf_mqttRow] at hqos
      obtain rfl := Option.some.inj hqos
      rw [readInt_qosText, Option.map_eq_none_iff] at hread
      exact h.known a ha hread
    · rw [h.oneHeader hargs a ha] at habsent
      cases habsent
  · intro entry hentry e he
    rw [entry_mqtt hselected hentry] at he
    cases hfield : truthy (metric.2.get? "mqtt") with
    | none =>
      simp only [entriesOf, hfield] at he
      cases he
    | some field =>
      obtain ⟨row, hrow, hkeeps, value, hvalue, rfl⟩ := (mem_entriesOf hfield).1 he
      rcases mem_mqttRows.1 hrow with ⟨a, ha, rfl⟩ | ⟨-, rfl⟩
      · exact styles_of_keepsRow (qosOf_mqttRow a) hkeeps (h.known a ha)
          fun hzero => h.mqtt_ne_zero hzero a ha
      · rw [toNumber_header hmetric hfield] at hvalue
        cases hvalue

theorem protocolOf_header : protocolOf (lineRow pcapFields id) ∉ protocols := by
  rw [protocolOf, cell_lineRow _ (by decide)]
  decide +kernel

theorem Drawable.pcapChart (h : Drawable qos mqtt pcap) (selected : List String)
    (side : SideChoice) (fileSizes : List ℚ) (metric : String) :
    ChartOk pcapSource ⟨qos, side, fileSizes⟩ (pcapRows selected [runDirectory mqtt pcap])
      (pcapFieldsOf metric) := by
  have hrows (p : String) (hp : p ∈ protocols) (row : Row)
      (hrow : row ∈ (loadRows [runDirectory mqtt pcap] "pcap").filter
        fun row => protocolOf row = p ∧ p ∈ selected) :
      p = "mqtt" ∧ ∃ a ∈ pcap, row = pcapRow a := by
    obtain ⟨hload, hprotocol⟩ := List.mem_filter.1 hrow
    obtain rfl : protocolOf row = p := (of_decide_eq_true hprotocol).1
    rcases mem_pcapRows hload with ⟨a, ha, rfl⟩ | rfl
    · exact ⟨protocolOf_pcapRow a, a, ha, rfl⟩
    · exact absurd hp protocolOf_header
  rw [chartOk_iff (nodup_pcapRows _ _)]
  constructor
  · intro entry hentry _ row hrow text hqos _ hread
    obtain ⟨p, hp, rfl⟩ := List.mem_map.1 hentry
    obtain ⟨rfl, a, -, rfl⟩ := hrows p hp row hrow
    rw [qosOf_pcapRow] at hqos
    obtain rfl := Option.some.inj hqos
    rw [readInt_qosText] at hread
    cases hread
  · intro entry hentry e he
    obtain ⟨p, hp, rfl⟩ := List.mem_map.1 hentry
    cases hfield : truthy ((pcapFieldsOf metric).get? p) with
    | none =>
      simp only [entriesOf, hfield] at he
      cases he
    | some field =>
      obtain ⟨row, hrow, hkeeps, value, -, rfl⟩ := (mem_entriesOf hfield).1 he
      obtain ⟨rfl, a, ha, rfl⟩ := hrows p hp row hrow
      exact styles_of_keepsRow (qosOf_pcapRow a) hkeeps (by simp) fun hzero hlevel =>
        h.pcap_ne_zero hzero a ha (Option.some.inj hlevel)

theorem loads_goodput (a : Append MqttRow) (ha : a ∈ mqtt) :
    ("mqtt", loadRows [runDirectory mqtt pcap] "mqtt") ∈
      clientRows protocols [runDirectory mqtt pcap] := by
  have hselected : "mqtt" ∈ protocols := by decide
  refine mem_clientRows.2 ⟨hselected, rfl, ?_⟩
  exact List.ne_nil_of_mem (mem_mqttRows.2 (.inl ⟨a, ha, rfl⟩))

theorem loads_totalPackets (a : Append PcapRow) (ha : a ∈ pcap) :
    ∃ rows, ("mqtt", rows) ∈ pcapRows protocols [runDirectory mqtt pcap] ∧ pcapRow a ∈ rows := by
  have hload : loadRows [runDirectory mqtt pcap] "pcap" =
      csvRows (fileText PcapRow.measurement pcap) := List.append_nil _
  refine ⟨_, List.mem_map.2 ⟨"mqtt", by decide, rfl⟩, ?_⟩
  rw [hload]
  refine List.mem_filter.2 ⟨?_, decide_eq_true ⟨protocolOf_pcapRow a, by decide⟩⟩
  exact (mem_csvRows_fileText PcapRow.measurement nodup_allFields pcap).2 (.inl ⟨a, ha, rfl⟩)

theorem drawable_of_chartsOk (h : ChartsOk qos (runDirectory mqtt pcap)) :
    Drawable qos mqtt pcap := by
  obtain ⟨hclient, hpcap⟩ := h protocols (fun _ hp => hp) .both []
  have hgoodput := hclient ("goodput_mbps", _) List.mem_cons_self
  rw [chartOk_iff (nodup_clientRows _ _)] at hgoodput
  obtain ⟨hreadable, hstyles⟩ := hgoodput
  have hpackets := hpcap "total_packets" (by decide)
  rw [chartOk_iff (nodup_pcapRows _ _)] at hpackets
  -- every MQTT row that the QoS filter keeps has a style
  have hmqtt (a : Append MqttRow) (ha : a ∈ mqtt)
      (hkept : keepsQos qos (some (qosText a.row.qos)) = .ok true) :
      a.row.qos ≠ none ∧ a.row.qos ≠ some 0 := by
    obtain ⟨value, hvalue⟩ := exists_goodput a
    have hstyle := hstyles _ (loads_goodput a ha) _ ((mem_entriesOf rfl).2
      ⟨mqttRow a, mem_mqttRows.2 (.inl ⟨a, ha, rfl⟩), ?_, value, hvalue, rfl⟩)
    · rw [qosOf_mqttRow] at hstyle
      exact (styles_iff _).1 hstyle
    · simp only [keepsRow, qosOf_mqttRow, hkept, decide_true, Bool.true_and]
      cases clientSource.size (mqttRow a) <;> rfl
  have hreadRow (row : Row) (hrow : row ∈ loadRows [runDirectory mqtt pcap] "mqtt")
      (a : Append MqttRow) (ha : a ∈ mqtt) : Readable ⟨qos, .both, []⟩ "mqtt" row := by
    have hfield : truthy (some "goodput_mbps") ≠ none := by decide
    exact hreadable _ (loads_goodput a ha) hfield row hrow
  refine ⟨fun a ha hnone => ?_, fun hqos a ha => ?_, fun hzero a ha hlevel => ?_,
    fun hzero a ha hlevel => ?_⟩
  · by_cases hqos : qos = []
    · have hkept : keepsQos qos (some (qosText a.row.qos)) = .ok true := by simp [keepsQos, hqos]
      exact (hmqtt a ha hkept).1 hnone
    · refine hreadRow _ (mem_mqttRows.2 (.inl ⟨a, ha, rfl⟩)) a ha _ (qosOf_mqttRow a) hqos ?_
      rw [readInt_qosText, hnone]
      rfl
  · by_contra habsent
    rw [Bool.not_eq_false] at habsent
    exact hreadRow _ (mem_mqttRows.2 (.inr ⟨⟨a, ha, habsent⟩, rfl⟩)) a (List.mem_of_mem_tail ha) _
      qosOf_header hqos readInt_header
  · have hkept := @keepsQos_of_mem qos 0 hzero
    rw [← hlevel] at hkept
    exact (hmqtt a ha hkept).2 hlevel
  · obtain ⟨value, hvalue⟩ := exists_totalPackets a
    have hkept := @keepsQos_of_mem qos 0 hzero
    rw [← hlevel] at hkept
    obtain ⟨rows, hentry, hrow⟩ := @loads_totalPackets mqtt pcap a ha
    have hstyle := hpackets.2 _ hentry _ ((mem_entriesOf rfl).2
      ⟨pcapRow a, hrow, ?_, value, hvalue, rfl⟩)
    · rw [qosOf_pcapRow, hlevel, styles_iff] at hstyle
      exact hstyle.2 rfl
    · simp only [keepsRow, qosOf_pcapRow, hkept, decide_true, Bool.true_and]
      cases pcapSource.size (pcapRow a) <;> rfl

/-- **All charts of MQTT transfers can be drawn** exactly when no row has an unknown QoS,
    `--qos` meets no second header line, and no row that it keeps has QoS 0. -/
theorem chartsOk_iff (qos : List ℤ) (mqtt : List (Append MqttRow)) (pcap : List (Append PcapRow)) :
    ChartsOk qos (runDirectory mqtt pcap) ↔ Drawable qos mqtt pcap :=
  ⟨drawable_of_chartsOk, fun h _ hselected side fileSizes =>
    ⟨fun _ hmetric => h.clientChart hselected side fileSizes hmetric,
      fun metric _ => h.pcapChart _ side fileSizes metric⟩⟩

end RunDirectory

/-- The analysis of a QoS 0 transfer. -/
def pcapAtZero : PcapRow where
  result := { sampleResult with protocol := some "mqtt", qos := some 0 }
  qos := ⟨0, by decide⟩
  protocol_eq := rfl
  qos_eq := rfl

/-- A sender row or a pcap row of QoS 0 cannot be drawn, and `--qos 1` raises at a receiver
    row whose QoS is unknown. -/
theorem not_chartsOk_zero_unknown :
    ¬ ChartsOk [] (runDirectory [⟨true, ⟨"", "", ""⟩, .sender (brokerOf .ack) 0 1⟩] []) ∧
      ¬ ChartsOk [] (runDirectory [] [⟨true, ⟨"", "", ""⟩, pcapAtZero⟩]) ∧
      ¬ ChartsOk [1] (runDirectory
        [⟨true, ⟨"", "", ""⟩, .receiver (.init []) none 1 .zero true⟩] []) := by
  refine ⟨fun h => ?_, fun h => ?_, fun h => ?_⟩
  · exact (drawable_of_chartsOk h).mqtt_ne_zero (.inl rfl) _ List.mem_cons_self rfl
  · exact (drawable_of_chartsOk h).pcap_ne_zero (.inl rfl) _ List.mem_cons_self rfl
  · exact (drawable_of_chartsOk h).known _ List.mem_cons_self rfl

end TransferTestbed.Charts
