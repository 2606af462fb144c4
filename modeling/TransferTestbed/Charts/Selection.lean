import TransferTestbed.Charts.Collect

/-!
# Which rows a chart is made of

`_collect` of `common/charts.py` on rows with the cells that the writers produce, without
`--file-sizes`: each row that passes the QoS and the side filter adds its value to one
list, and no other value is there.

Results:
* `sides_apart`: unless `--side both`, the rows that pass have one side.
* `collect_lossless`: the lists hold the values of these rows, and rows of several runs
  are collected into the concatenated lists.
-/

namespace TransferTestbed.Charts

open Numeral

/-! ## Specification -/

/-- The measurement files of the clients, and the pcap file. -/
inductive Table where
  | client
  | pcap
deriving DecidableEq, Repr

/-- The `side` cells that the writers produce. -/
def Table.sides : Table → String → List String
  | .client, p =>
    if p ∈ ["mqtt", "amqp", "grpc"] then ["sender", "receiver"]
    else if p = "lwm2m" then ["client"]
    else [""]
  | .pcap, _ => [""]

/-- Rows with the cells that the writers produce: no other side, and for MQTT a QoS that is
    empty or an integer. -/
structure WrittenRows (table : Table) (rows : Dict String (List Row)) : Prop where
  nodup : rows.keys.Nodup
  sides : ∀ entry ∈ rows, ∀ row ∈ entry.2, sideOf row ∈ table.sides entry.1
  qos : ∀ entry ∈ rows, ∀ row ∈ entry.2, ∀ text, qosOf entry.1 row = some text →
    readInt text.toList ≠ none

/-- The rows of a protocol that pass the filters for the QoS and the side. -/
def passing (args : Args) (entry : String × List Row) : List Row :=
  entry.2.filter fun row => keepsQos args.qos (qosOf entry.1 row) = .ok true ∧
    keepsSide (effectiveSide args.side entry.2) row = true

/-- The values of the rows that pass, each with its protocol, QoS and label. -/
def contributions (source : Source) (args : Args) (fields : Dict String String)
    (rows : Dict String (List Row)) : List (Key × String × ℚ) :=
  rows.flatMap fun entry =>
    match truthy (fields.get? entry.1) with
    | none => []
    | some field => (passing args entry).filterMap fun row =>
      (toNumber (cell row field)).map fun value =>
        ((entry.1, qosOf entry.1 row), source.label row, value)

/-- No two sides among the rows of a protocol that pass, unless both are asked for. `auto`
    takes the sender's rows if there are any, and all rows otherwise. -/
structure SidesApart (args : Args) (entry : String × List Row) : Prop where
  oneSide : args.side ≠ .both → ∀ r ∈ passing args entry, ∀ r' ∈ passing args entry,
    sideOf r = sideOf r'
  auto : args.side = .auto →
    if ∃ r ∈ entry.2, sideOf r = "sender" then ∀ r ∈ passing args entry, sideOf r = "sender"
    else ∀ r ∈ entry.2, keepsSide (effectiveSide args.side entry.2) r = true

/-- The rows of a protocol; none if the protocol is missing. -/
def rowsOf (rows : Dict String (List Row)) (p : String) : List Row := (rows.get? p).getD []

/-! ## Sides -/

theorem Table.sides_cases (table : Table) (p : String) :
    table.sides p = ["sender", "receiver"] ∨ ∃ s, s ≠ "sender" ∧ table.sides p = [s] := by
  cases table with
  | pcap => exact .inr ⟨"", by decide, rfl⟩
  | client =>
    simp only [Table.sides]
    split_ifs
    · exact .inl rfl
    · exact .inr ⟨"client", by decide, rfl⟩
    · exact .inr ⟨"", by decide, rfl⟩

theorem keepsSide_some {side : String} {row : Row} :
    keepsSide (some side) row = true ↔ sideOf row = "" ∨ sideOf row = side := by
  simp [keepsSide]

theorem effectiveSide_auto_of_sender {rows : List Row} (h : ∃ r ∈ rows, sideOf r = "sender") :
    effectiveSide .auto rows = some "sender" := by
  obtain ⟨r, hr, hside⟩ := h
  have hmem : "sender" ∈ ((rows.map sideOf).filter fun s => s ≠ "").dedup := by
    rw [List.mem_dedup, List.mem_filter]
    exact ⟨List.mem_map.2 ⟨r, hr, hside⟩, by decide⟩
  exact if_pos hmem

/-- `auto` keeps every row of a protocol that has one side. -/
theorem keepsSide_auto_of_forall {rows : List Row} {s : String} (h : ∀ r ∈ rows, sideOf r = s)
    {row : Row} (hrow : row ∈ rows) : keepsSide (effectiveSide .auto rows) row = true := by
  by_cases hsender : "sender" = s
  · rw [effectiveSide_auto_of_sender ⟨row, hrow, (h row hrow).trans hsender.symm⟩, keepsSide_some]
    exact .inr ((h row hrow).trans hsender.symm)
  · have hmap : rows.map sideOf = List.replicate rows.length s :=
      List.map_eq_replicate_iff.2 h
    have hlength : rows.length ≠ 0 := (List.length_pos_of_mem hrow).ne'
    by_cases hs : s = ""
    · have hnone : effectiveSide .auto rows = none := by
        simp [effectiveSide, hmap, hs]
      rw [hnone]
      rfl
    · have hsome : effectiveSide .auto rows = some s := by
        simp [effectiveSide, hmap, hs, List.replicate_dedup hlength, hsender]
      rw [hsome, keepsSide_some]
      exact .inr (h row hrow)

theorem mem_passing {args : Args} {entry : String × List Row} {row : Row}
    (h : row ∈ passing args entry) :
    row ∈ entry.2 ∧ keepsSide (effectiveSide args.side entry.2) row = true := by
  obtain ⟨hrow, hkeeps⟩ := List.mem_filter.1 h
  exact ⟨hrow, (of_decide_eq_true hkeeps).2⟩

/-- Two sides to choose from. -/
theorem sidesApart_of_two (args : Args) {entry : String × List Row}
    (h : ∀ row ∈ entry.2, sideOf row ∈ ["sender", "receiver"]) : SidesApart args entry := by
  have hne (row : Row) (hrow : row ∈ entry.2) : sideOf row ≠ "" := by
    intro hempty
    exact absurd (hempty ▸ h row hrow) (by decide)
  have hkept {side : String} {row : Row} (hside : effectiveSide args.side entry.2 = some side)
      (hrow : row ∈ passing args entry) : sideOf row = side := by
    obtain ⟨hmem, hkeeps⟩ := mem_passing hrow
    rw [hside, keepsSide_some] at hkeeps
    exact hkeeps.resolve_left (hne row hmem)
  have hreceiver (hno : ¬ ∃ r ∈ entry.2, sideOf r = "sender") (row : Row) (hrow : row ∈ entry.2) :
      sideOf row = "receiver" := by
    have hmem := h row hrow
    simp only [List.mem_cons, List.not_mem_nil, or_false] at hmem
    exact hmem.resolve_left fun hsender => hno ⟨row, hrow, hsender⟩
  constructor
  · intro hargs r hr r' hr'
    cases hside : args.side with
    | both => exact absurd hside hargs
    | sender =>
      have heffective : effectiveSide args.side entry.2 = some "sender" := by rw [hside]; rfl
      rw [hkept heffective hr, hkept heffective hr']
    | receiver =>
      have heffective : effectiveSide args.side entry.2 = some "receiver" := by rw [hside]; rfl
      rw [hkept heffective hr, hkept heffective hr']
    | auto =>
      by_cases hsender : ∃ r ∈ entry.2, sideOf r = "sender"
      · have heffective := effectiveSide_auto_of_sender hsender
        rw [← hside] at heffective
        rw [hkept heffective hr, hkept heffective hr']
      · rw [hreceiver hsender r (mem_passing hr).1, hreceiver hsender r' (mem_passing hr').1]
  · intro hside
    split_ifs with hsender
    · intro r hr
      have heffective := effectiveSide_auto_of_sender hsender
      rw [← hside] at heffective
      exact hkept heffective hr
    · intro r hr
      rw [hside]
      exact keepsSide_auto_of_forall (hreceiver hsender) hr

/-- All rows of one side, which is not the sender. -/
theorem sidesApart_of_one (args : Args) {entry : String × List Row} {side : String}
    (hside : side ≠ "sender") (h : ∀ row ∈ entry.2, sideOf row = side) :
    SidesApart args entry := by
  constructor
  · intro _ r hr r' hr'
    rw [h r (mem_passing hr).1, h r' (mem_passing hr').1]
  · intro hauto
    have hno : ¬ ∃ r ∈ entry.2, sideOf r = "sender" := by
      rintro ⟨r, hr, hsender⟩
      exact hside ((h r hr).symm.trans hsender)
    rw [if_neg hno, hauto]
    exact fun r hr => keepsSide_auto_of_forall h hr

/-- **No two sides** among the rows of a protocol that pass. -/
theorem sides_apart {table : Table} (args : Args) {entry : String × List Row}
    (h : ∀ row ∈ entry.2, sideOf row ∈ table.sides entry.1) : SidesApart args entry := by
  rcases table.sides_cases entry.1 with htwo | ⟨side, hside, hone⟩
  · rw [htwo] at h
    exact sidesApart_of_two args h
  · rw [hone] at h
    exact sidesApart_of_one args hside fun row hrow => List.mem_singleton.1 (h row hrow)

/-! ## Contributions -/

section Contributions

variable {source : Source} {args : Args} {fields : Dict String String}

theorem keepsSize_nil (size : Option ℚ) : keepsSize [] size = true := by
  cases size <;> rfl

/-- What `_collect` adds for a protocol are the values of the rows that pass. -/
theorem entriesOf_eq (hsizes : args.fileSizes = []) (entry : String × List Row) :
    entriesOf source args fields entry =
      match truthy (fields.get? entry.1) with
      | none => []
      | some field => (passing args entry).filterMap fun row =>
        (toNumber (cell row field)).map fun value =>
          ((entry.1, qosOf entry.1 row), source.label row, value) := by
  unfold entriesOf
  cases truthy (fields.get? entry.1) with
  | none => rfl
  | some field =>
    simp only [passing, List.filterMap_filter]
    refine List.filterMap_congr fun row _ => ?_
    have hkeeps : keepsRow source args entry.1 (effectiveSide args.side entry.2) row = true ↔
        keepsQos args.qos (qosOf entry.1 row) = .ok true ∧
          keepsSide (effectiveSide args.side entry.2) row = true := by
      simp [keepsRow, hsizes, keepsSize_nil]
    simp only [entryOf, hkeeps, decide_eq_true_eq]

theorem contributions_eq (hsizes : args.fileSizes = []) (rows : Dict String (List Row)) :
    contributions source args fields rows = rows.flatMap (entriesOf source args fields) :=
  List.flatMap_congr fun entry _ => (entriesOf_eq hsizes entry).symm

theorem entriesOf_nil (p : String) : entriesOf source args fields (p, []) = [] := by
  unfold entriesOf
  split <;> rfl

/-- With an explicit side the rows of a protocol are collected one by one. -/
theorem entriesOf_append (hside : args.side ≠ .auto) (p : String) (left right : List Row) :
    entriesOf source args fields (p, left ++ right) =
      entriesOf source args fields (p, left) ++ entriesOf source args fields (p, right) := by
  have heffective (rows rows' : List Row) :
      effectiveSide args.side rows = effectiveSide args.side rows' := by
    cases h : args.side with
    | auto => exact absurd h hside
    | sender | receiver | both => rfl
  unfold entriesOf
  cases truthy (fields.get? p) with
  | none => rfl
  | some field =>
    simp only
    rw [List.filterMap_append, heffective (left ++ right) left, heffective right left]

theorem select_eq_nil {es : List (Key × String × ℚ)} {key : Key} (h : ∀ e ∈ es, e.1.1 ≠ key.1)
    (label : String) : Grouping.select es key label = [] := by
  by_contra hne
  obtain ⟨e, he, rfl, -⟩ := Grouping.select_ne_nil_iff.1 hne
  exact h e he rfl

/-- The list of a key comes from the rows of its protocol. -/
theorem select_entries {rows : Dict String (List Row)} (hnodup : rows.keys.Nodup) (key : Key)
    (label : String) :
    Grouping.select (rows.flatMap (entriesOf source args fields)) key label =
      Grouping.select (entriesOf source args fields (key.1, rowsOf rows key.1)) key label := by
  induction rows with
  | nil =>
    rw [rowsOf, Dict.get?_nil, Option.getD_none, entriesOf_nil]
    rfl
  | cons entry rows ih =>
    rw [Dict.keys, List.map_cons, List.nodup_cons] at hnodup
    rw [List.flatMap_cons, Grouping.select_append, ih hnodup.2, rowsOf, rowsOf, Dict.get?_cons]
    by_cases hentry : entry.1 = key.1
    · have hnone : Dict.get? rows key.1 = none := Dict.get?_eq_none_iff.2 (hentry ▸ hnodup.1)
      rw [if_pos hentry, hnone, Option.getD_none, entriesOf_nil, ← hentry]
      exact List.append_nil _
    · rw [if_neg hentry, select_eq_nil fun e he => mem_entriesOf_protocol he ▸ hentry,
        List.nil_append]

theorem WrittenRows.entryReadable {table : Table} {rows : Dict String (List Row)}
    (h : WrittenRows table rows) : ∀ entry ∈ rows, EntryReadable args fields entry :=
  fun entry hentry _ row hrow text hqos _ => h.qos entry hentry row hrow text hqos

/-- `_collect` returns on rows that the writers produce, and groups the contributions. -/
theorem WrittenRows.collects {table : Table} {rows : Dict String (List Row)}
    (h : WrittenRows table rows) : ∃ data, collect source args rows fields = .ok data ∧
      Grouping.IsGrouping data (rows.flatMap (entriesOf source args fields)) := by
  rcases @collect_cases source args fields rows h.nodup with ⟨-, hok⟩ | ⟨hread, -⟩
  · exact hok
  · exact absurd h.entryReadable hread

end Contributions

/-! ## Rows of several runs -/

/-- The rows of two loads, protocol by protocol. -/
structure Concatenates (both left right : Dict String (List Row)) : Prop where
  nodup : both.keys.Nodup
  rows : ∀ p, rowsOf both p = rowsOf left p ++ rowsOf right p

theorem rowsOf_eq_of_mem {rows : Dict String (List Row)} (hnodup : rows.keys.Nodup)
    {entry : String × List Row} (h : entry ∈ rows) : rowsOf rows entry.1 = entry.2 := by
  rw [rowsOf, Dict.get?_of_mem hnodup h]
  rfl

theorem mem_of_mem_rowsOf {rows : Dict String (List Row)} {p : String} {row : Row}
    (h : row ∈ rowsOf rows p) : ∃ entry ∈ rows, entry.1 = p ∧ row ∈ entry.2 := by
  unfold rowsOf at h
  cases hget : rows.get? p with
  | none =>
    rw [hget] at h
    cases h
  | some found =>
    rw [hget] at h
    exact ⟨(p, found), Dict.mem_of_get? hget, rfl, h⟩

theorem Concatenates.written {table : Table} {both left right : Dict String (List Row)}
    (h : Concatenates both left right) (hleft : WrittenRows table left)
    (hright : WrittenRows table right) : WrittenRows table both := by
  have hrow (entry : String × List Row) (hentry : entry ∈ both) (row : Row)
      (hrow : row ∈ entry.2) : sideOf row ∈ table.sides entry.1 ∧
        ∀ text, qosOf entry.1 row = some text → readInt text.toList ≠ none := by
    rw [← rowsOf_eq_of_mem h.nodup hentry, h.rows, List.mem_append] at hrow
    rcases hrow with hrow | hrow
    · obtain ⟨entry', hentry', heq, hmem⟩ := mem_of_mem_rowsOf hrow
      rw [← heq]
      exact ⟨hleft.sides entry' hentry' row hmem, hleft.qos entry' hentry' row hmem⟩
    · obtain ⟨entry', hentry', heq, hmem⟩ := mem_of_mem_rowsOf hrow
      rw [← heq]
      exact ⟨hright.sides entry' hentry' row hmem, hright.qos entry' hentry' row hmem⟩
  exact ⟨h.nodup, fun entry hentry row hmem => (hrow entry hentry row hmem).1,
    fun entry hentry row hmem => (hrow entry hentry row hmem).2⟩

/-- **`_collect` loses, duplicates and mixes nothing.** On rows with the cells that the
    writers produce and without `--file-sizes` it returns, and its lists hold the values of
    the rows that pass, one each, by protocol, QoS and label and in row order; the rows of a
    protocol that pass have one side. With an explicit side the rows of two runs give the
    concatenated lists. -/
theorem collect_lossless (source : Source) (qos : List ℤ) (side : SideChoice)
    (fields : Dict String String) (table : Table) :
    (∀ rows, WrittenRows table rows → ∃ data,
      collect source ⟨qos, side, []⟩ rows fields = .ok data ∧
      Grouping.IsGrouping data (contributions source ⟨qos, side, []⟩ fields rows) ∧
      ∀ entry ∈ rows, SidesApart ⟨qos, side, []⟩ entry) ∧
    (side ≠ .auto → ∀ both left right, WrittenRows table left → WrittenRows table right →
      Concatenates both left right → ∃ dataLeft dataRight data,
        collect source ⟨qos, side, []⟩ left fields = .ok dataLeft ∧
        collect source ⟨qos, side, []⟩ right fields = .ok dataRight ∧
        collect source ⟨qos, side, []⟩ both fields = .ok data ∧
        Grouping.WellFormed data ∧ ∀ key label, Grouping.valuesAt data key label =
          Grouping.valuesAt dataLeft key label ++ Grouping.valuesAt dataRight key label) := by
  constructor
  · intro rows hrows
    obtain ⟨data, hdata, hgroups⟩ :=
      @WrittenRows.collects source ⟨qos, side, []⟩ fields table rows hrows
    refine ⟨data, hdata, ?_, fun entry hentry => sides_apart _ (hrows.sides entry hentry)⟩
    rw [contributions_eq rfl]
    exact hgroups
  · intro hside both left right hleft hright hboth
    obtain ⟨dataLeft, hdataLeft, hgroupsLeft⟩ :=
      @WrittenRows.collects source ⟨qos, side, []⟩ fields table left hleft
    obtain ⟨dataRight, hdataRight, hgroupsRight⟩ :=
      @WrittenRows.collects source ⟨qos, side, []⟩ fields table right hright
    obtain ⟨data, hdata, hgroups⟩ :=
      @WrittenRows.collects source ⟨qos, side, []⟩ fields table both (hboth.written hleft hright)
    refine ⟨dataLeft, dataRight, data, hdataLeft, hdataRight, hdata, hgroups.wellFormed,
      fun key label => ?_⟩
    rw [hgroups.lists, hgroupsLeft.lists, hgroupsRight.lists, select_entries hboth.nodup,
      select_entries hleft.nodup, select_entries hright.nodup, hboth.rows,
      entriesOf_append hside, Grouping.select_append]

def sampleRow (side : String) : Row :=
  [("qos", some "1"), ("side", some side), ("file_size", some "1.0"),
    ("goodput_mbps", some "8.000")]

/-- The rows of one MQTT transfer. -/
def sampleRows : Dict String (List Row) := [("mqtt", [sampleRow "sender", sampleRow "receiver"])]

theorem writtenRows_sample : WrittenRows .client sampleRows ∧
    WrittenRows .client [("mqtt", [sampleRow "sender"])] ∧
    WrittenRows .client [("mqtt", [sampleRow "receiver"])] := by
  have hside : ∀ side ∈ ["sender", "receiver"],
      sideOf (sampleRow side) ∈ Table.sides .client "mqtt" := by decide +kernel
  have hqos (side text : String) (h : qosOf "mqtt" (sampleRow side) = some text) :
      readInt text.toList ≠ none := by
    have hone : qosOf "mqtt" (sampleRow side) = some "1" := by
      have hcell : cell (sampleRow side) "qos" = some "1" := rfl
      rw [qosOf, if_pos rfl, hcell]
      decide +kernel
    obtain rfl := Option.some.inj (hone.symm.trans h)
    decide +kernel
  refine ⟨⟨by decide, ?_, ?_⟩, ⟨by decide, ?_, ?_⟩, ⟨by decide, ?_, ?_⟩⟩
  all_goals
    simp only [sampleRows, List.forall_mem_cons, List.not_mem_nil, false_imp_iff, implies_true,
      and_true]
  · exact ⟨hside _ (by simp), hside _ (by simp)⟩
  · exact ⟨hqos _, hqos _⟩
  · exact hside _ (by simp)
  · exact hqos _
  · exact hside _ (by simp)
  · exact hqos _

theorem collect_lossless_sample :
    (∃ data, collect clientSource ⟨[1], .auto, []⟩ sampleRows [("mqtt", "goodput_mbps")] =
        .ok data ∧
      Grouping.IsGrouping data
        (contributions clientSource ⟨[1], .auto, []⟩ [("mqtt", "goodput_mbps")] sampleRows) ∧
      ∀ entry ∈ sampleRows, SidesApart ⟨[1], .auto, []⟩ entry) ∧
    ∃ dataLeft dataRight data,
      collect clientSource ⟨[1], .both, []⟩ [("mqtt", [sampleRow "sender"])]
        [("mqtt", "goodput_mbps")] = .ok dataLeft ∧
      collect clientSource ⟨[1], .both, []⟩ [("mqtt", [sampleRow "receiver"])]
        [("mqtt", "goodput_mbps")] = .ok dataRight ∧
      collect clientSource ⟨[1], .both, []⟩ sampleRows [("mqtt", "goodput_mbps")] = .ok data ∧
      Grouping.WellFormed data ∧ ∀ key label, Grouping.valuesAt data key label =
        Grouping.valuesAt dataLeft key label ++ Grouping.valuesAt dataRight key label := by
  obtain ⟨hboth, hleft, hright⟩ := writtenRows_sample
  have hconcat : Concatenates sampleRows [("mqtt", [sampleRow "sender"])]
      [("mqtt", [sampleRow "receiver"])] := by
    refine ⟨by decide, fun p => ?_⟩
    simp only [rowsOf, sampleRows, Dict.get?_cons, Dict.get?_nil]
    split_ifs <;> rfl
  exact ⟨(collect_lossless clientSource [1] .auto _ .client).1 _ hboth,
    (collect_lossless clientSource [1] .both _ .client).2 (by decide) _ _ _ hleft hright hconcat⟩

end TransferTestbed.Charts
