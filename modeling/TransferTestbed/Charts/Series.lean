import TransferTestbed.Charts.Collect

/-!
# The series of a chart

The metrics of `common/charts.py`, the rows it loads from the measurement files, and the
styles in which `_plot_line` and `_draw_bars` draw a series: the color of its protocol and
the line style or hatch of its QoS.

* `chartOk_iff`: when a chart can be drawn.
-/

namespace TransferTestbed.Charts

open Numeral

/-! ## Tables (charts.py:65-144) -/

/-- `PROTOCOLS`. -/
def protocols : List String := ["http", "mqtt", "coap", "amqp", "grpc", "lwm2m"]

/-- `COLORS`. -/
def colors : Dict String String :=
  [("http", "#1f77b4"), ("mqtt", "#ff7f0e"), ("coap", "#2ca02c"), ("amqp", "#d62728"),
    ("grpc", "#9467bd"), ("lwm2m", "#8c564b")]

/-- `QOS_STYLES`. -/
def qosStyles : Dict (Option String) String := [(none, "-"), (some "1", "--"), (some "2", ":")]

/-- `QOS_HATCH`. -/
def qosHatch : Dict (Option String) (Option String) :=
  [(none, none), (some "1", some "//"), (some "2", some "xx")]

/-- The `fields` of `CLIENT_METRICS`. -/
def clientMetrics : Dict String (Dict String String) :=
  [("goodput_mbps",
      [("http", "goodput_mbps"), ("coap", "goodput_mbps"), ("mqtt", "goodput_mbps"),
        ("amqp", "goodput_mbps"), ("grpc", "goodput_mbps"), ("lwm2m", "goodput_mbps")]),
    ("transfer_time",
      [("http", "time_to_transfer"), ("coap", "time_to_transfer"), ("mqtt", "sender_duration"),
        ("amqp", "sender_duration"), ("grpc", "sender_duration"),
        ("lwm2m", "download_duration")]),
    ("latency",
      [("http", "latency_tcp_rtt"), ("coap", "latency"), ("mqtt", "latency"), ("amqp", "latency"),
        ("grpc", "latency"), ("lwm2m", "latency")]),
    ("avg_cpu_pct",
      [("http", "avg_cpu_usage"), ("coap", "avg_cpu_usage"), ("amqp", "avg_cpu_usage"),
        ("grpc", "avg_cpu_usage"), ("lwm2m", "avg_cpu_usage")]),
    ("peak_ram_mb",
      [("http", "peak_ram_usage"), ("coap", "peak_ram_usage"), ("amqp", "peak_ram_usage"),
        ("grpc", "peak_ram_usage"), ("lwm2m", "peak_ram_usage")]),
    ("energy_j",
      [("http", "energy_est"), ("coap", "energy_est"), ("amqp", "energy_est"),
        ("grpc", "energy_est"), ("lwm2m", "energy_est")])]

/-- The keys of `PCAP_METRICS`. -/
def pcapMetrics : List String :=
  ["goodput_mbps", "wire_throughput_mbps", "overhead_percentage", "total_overhead_bytes",
    "total_wire_bytes", "retransmissions", "total_packets"]

/-- `{p: metric for p in PROTOCOLS}`. -/
def pcapFieldsOf (metric : String) : Dict String String := protocols.map fun p => (p, metric)

/-! ## Styles (charts.py:349-350, 397) -/

/-- `COLORS[key[0]]` and `QOS_STYLES[key[1]]` of `_plot_line`; `none` is a `KeyError`. -/
def lineStyle (key : Key) : Option (String × String) := do
  return (← colors.get? key.1, ← qosStyles.get? key.2)

/-- `COLORS[key[0]]` and `QOS_HATCH[key[1]]` of `_draw_bars`; `none` is a `KeyError`. -/
def barStyle (key : Key) : Option (String × Option String) := do
  return (← colors.get? key.1, ← qosHatch.get? key.2)

/-! ## Rows of the files (charts.py:160-162, 567-622) -/

/-- `_csv_rows(path)`. -/
def csvRows (text : List Char) : List Row := (Csv.readDicts text).map Csv.DictRow.cells

/-- The rows of the files `{base}_measurements.csv` in the given directories. -/
def loadRows (dirs : List (Dict String (List Char))) (base : String) : List Row :=
  dirs.flatMap fun dir => ((dir.get? base).map csvRows).getD []

/-- `client_rows`: the protocols of `--protocols` that have rows. -/
def clientRows (selected : List String) (dirs : List (Dict String (List Char))) :
    Dict String (List Row) :=
  selected.foldl (fun rows p =>
    if loadRows dirs p = [] then rows else rows.insert p (loadRows dirs p)) []

/-- `(row.get("protocol") or "").strip().lower()`. Among the texts that lower to a
    protocol only ASCII letters are upper case. -/
def protocolOf (row : Row) : String :=
  String.ofList ((Runs.strip ((cell row "protocol").getD "")).toList.map Char.toLower)

/-- `pcap_rows`. -/
def pcapRows (selected : List String) (dirs : List (Dict String (List Char))) :
    Dict String (List Row) :=
  protocols.map fun p =>
    (p, (loadRows dirs "pcap").filter fun row => protocolOf row = p ∧ p ∈ selected)

/-! ## Drawing -/

/-- `_collect` returns, and every key of the result has its styles. -/
def ChartOk (source : Source) (args : Args) (rowsByProtocol : Dict String (List Row))
    (fields : Dict String String) : Prop :=
  ∃ data, collect source args rowsByProtocol fields = .ok data ∧
    ∀ key ∈ data.keys, lineStyle key ≠ none ∧ barStyle key ≠ none

/-! ## Loaded rows -/

theorem get?_clientRows (selected : List String) (dirs : List (Dict String (List Char)))
    (p : String) : (clientRows selected dirs).get? p =
      if p ∈ selected ∧ loadRows dirs p ≠ [] then some (loadRows dirs p) else none := by
  induction selected using List.reverseRecOn with
  | nil => simp [clientRows]
  | append_singleton selected q ih =>
    rw [clientRows, List.foldl_append, List.foldl_cons, List.foldl_nil, ← clientRows]
    by_cases hq : loadRows dirs q = []
    · rw [if_pos hq, ih]
      by_cases hp : p = q
      · simp [hp, hq]
      · simp [hp]
    · rw [if_neg hq, Dict.get?_insert, ih]
      by_cases hp : p = q
      · simp [hp, hq]
      · simp [hp]

theorem nodup_clientRows (selected : List String) (dirs : List (Dict String (List Char))) :
    (clientRows selected dirs).keys.Nodup := by
  induction selected using List.reverseRecOn with
  | nil => exact List.nodup_nil
  | append_singleton selected q ih =>
    rw [clientRows, List.foldl_append, List.foldl_cons, List.foldl_nil, ← clientRows]
    split_ifs
    · exact ih
    · exact Dict.nodup_keys_insert ih _ _

theorem mem_clientRows {selected : List String} {dirs : List (Dict String (List Char))}
    {entry : String × List Row} : entry ∈ clientRows selected dirs ↔
      entry.1 ∈ selected ∧ entry.2 = loadRows dirs entry.1 ∧ entry.2 ≠ [] := by
  obtain ⟨p, rows⟩ := entry
  constructor
  · intro h
    have hget := Dict.get?_of_mem (nodup_clientRows selected dirs) h
    rw [get?_clientRows] at hget
    split_ifs at hget with hp
    obtain rfl := Option.some.inj hget
    exact ⟨hp.1, rfl, hp.2⟩
  · rintro ⟨hp, hrows, hne⟩
    refine Dict.mem_of_get? ((get?_clientRows selected dirs p).trans ?_)
    rw [if_pos ⟨hp, hrows ▸ hne⟩, ← hrows]

theorem nodup_pcapRows (selected : List String) (dirs : List (Dict String (List Char))) :
    (pcapRows selected dirs).keys.Nodup := by
  have hkeys : (pcapRows selected dirs).keys = protocols := by
    rw [Dict.keys, pcapRows, List.map_map]
    exact List.map_id _
  rw [hkeys]
  decide

/-! ## One chart -/

section Chart

variable {source : Source} {args : Args} {fields : Dict String String}

/-- A chart can be drawn when no row raises and what the rows add has its styles. -/
theorem chartOk_iff {rows : Dict String (List Row)} (hnodup : rows.keys.Nodup) :
    ChartOk source args rows fields ↔
      (∀ entry ∈ rows, EntryReadable args fields entry) ∧
        ∀ entry ∈ rows, ∀ e ∈ entriesOf source args fields entry,
          lineStyle e.1 ≠ none ∧ barStyle e.1 ≠ none := by
  rcases @collect_cases source args fields rows hnodup with
    ⟨hread, data, hdata, hgroups⟩ | ⟨hread, e, herror⟩
  · constructor
    · rintro ⟨data', hdata', hstyles⟩
      obtain rfl : data = data' := Except.ok.inj (hdata.symm.trans hdata')
      refine ⟨hread, fun entry hentry e he => hstyles e.1 (hgroups.mem_keys_iff.2 ⟨e, ?_, rfl⟩)⟩
      exact List.mem_flatMap.2 ⟨entry, hentry, he⟩
    · rintro ⟨-, hstyles⟩
      refine ⟨data, hdata, fun key hkey => ?_⟩
      obtain ⟨e, he, rfl⟩ := hgroups.mem_keys_iff.1 hkey
      obtain ⟨entry, hentry, he⟩ := List.mem_flatMap.1 he
      exact hstyles entry hentry e he
  · constructor
    · rintro ⟨data, hdata, -⟩
      rw [herror] at hdata
      cases hdata
    · rintro ⟨h, -⟩
      exact absurd h hread

theorem mem_entriesOf {entry : String × List Row} {field : String}
    (hfield : truthy (fields.get? entry.1) = some field) {e : Key × String × ℚ} :
    e ∈ entriesOf source args fields entry ↔ ∃ row ∈ entry.2,
      keepsRow source args entry.1 (effectiveSide args.side entry.2) row = true ∧
      ∃ value, toNumber (cell row field) = some value ∧
        e = ((entry.1, qosOf entry.1 row), source.label row, value) := by
  simp only [entriesOf, hfield, List.mem_filterMap, entryOf]
  refine exists_congr fun row => and_congr_right fun _ => ?_
  by_cases hkeeps : keepsRow source args entry.1 (effectiveSide args.side entry.2) row = true
  · simp [hkeeps, eq_comm]
  · simp [hkeeps]

end Chart

end TransferTestbed.Charts
