import TransferTestbed.Charts.Labels
import TransferTestbed.Library.Grouping

/-!
# Collecting the values of a chart

`_collect` of `common/charts.py` turns the rows of all protocols into
`{(protocol, qos): {label: [value, ...]}}`, after the filters for the QoS, the side and
the file size.

Results:
* `rowEntry_cases`: a row raises exactly if its QoS is compared and is not an integer.
* `collect_cases`: when `_collect` returns, and what.
-/

namespace TransferTestbed.Charts

open Numeral Binary64

/-! ## Model -/

/-- The choices of `--side` (charts.py:510-512). -/
inductive SideChoice
  | auto | sender | receiver | both
  deriving DecidableEq, Repr

/-- The arguments that `_collect` reads; a list that was not given is empty. -/
structure Args where
  qos : List ℤ
  side : SideChoice
  fileSizes : List ℚ

/-- A `ValueError` of `int(text)`. -/
inductive CollectError
  | invalidInt (text : String)
  deriving DecidableEq, Repr

/-- The key of a series: the protocol and the MQTT QoS. -/
abbrev Key := String × Option String

/-- The values of a chart, by series and by label. -/
abbrev Data := Dict Key (Dict String (List ℚ))

/-- `(row.get("side") or "").strip()`. -/
def sideOf (row : Row) : String := Runs.strip ((cell row "side").getD "")

/-- `args.side` after `auto` has been resolved over the rows of a protocol
    (charts.py:281-290); `none` filters nothing. -/
def effectiveSide (side : SideChoice) (rows : List Row) : Option String :=
  match side with
  | .auto =>
    let values := ((rows.map sideOf).filter fun s => s ≠ "").dedup
    if "sender" ∈ values then some "sender" else if values.length = 1 then values.head? else none
  | .sender => some "sender"
  | .receiver => some "receiver"
  | .both => none

/-- The QoS of a row: `(row.get("qos") or "").strip() or None`, for MQTT only. -/
def qosOf (protocol : String) (row : Row) : Option String :=
  if protocol = "mqtt" then
    let qos := Runs.strip ((cell row "qos").getD "")
    if qos = "" then none else some qos
  else none

/-- Whether the `--qos` filter keeps a QoS (charts.py:296). -/
def keepsQos (wanted : List ℤ) (qos : Option String) : Except CollectError Bool :=
  match qos with
  | none => .ok true
  | some text =>
    if wanted = [] then .ok true
    else match readInt text.toList with
      | none => .error (.invalidInt text)
      | some z => .ok (decide (z ∈ wanted))

/-- Whether the side filter keeps a row (charts.py:299). -/
def keepsSide (effective : Option String) (row : Row) : Bool :=
  match effective with
  | none => true
  | some side => sideOf row = "" || sideOf row = side

/-- `abs(size - s) < 1e-6`. -/
def closeTo (size s : ℚ) : Bool := |fl (size - s)| < fl (1 / 10 ^ 6)

/-- Whether the `--file-sizes` filter keeps a size (charts.py:301-302). -/
def keepsSize (fileSizes : List ℚ) (size : Option ℚ) : Bool :=
  match size with
  | none => true
  | some size => fileSizes = [] || fileSizes.any (closeTo size)

/-- `series[key][label].append(value)`. -/
def addValue (data : Data) (key : Key) (label : String) (value : ℚ) : Data :=
  let inner := (data.get? key).getD []
  data.insert key (inner.insert label ((inner.get? label).getD [] ++ [value]))

/-- The label and the size function of a chart. -/
structure Source where
  label : Row → String
  size : Row → Option ℚ

/-- `_client_label, args, _size_mb_client` (charts.py:598). -/
def clientSource : Source := ⟨clientLabel, sizeMbClient⟩

/-- `_pcap_label, args, _size_mb_pcap` (charts.py:628). -/
def pcapSource : Source := ⟨pcapLabel, sizeMbPcap⟩

/-- What a row adds: its key, its label and its value, if it passes the filters. -/
def rowEntry (source : Source) (args : Args) (protocol field : String) (effective : Option String)
    (row : Row) : Except CollectError (Option (Key × String × ℚ)) := do
  let qos := qosOf protocol row
  if !(← keepsQos args.qos qos) then return none
  if !keepsSide effective row then return none
  if !keepsSize args.fileSizes (source.size row) then return none
  return (toNumber (cell row field)).map fun value => ((protocol, qos), source.label row, value)

/-- One turn of the loop over the rows. -/
def collectRow (source : Source) (args : Args) (protocol field : String)
    (effective : Option String) (series : Data) (row : Row) : Except CollectError Data := do
  match ← rowEntry source args protocol field effective row with
  | none => return series
  | some (key, label, value) => return addValue series key label value

/-- The series of one protocol (charts.py:279-308). -/
def collectRows (source : Source) (args : Args) (protocol field : String) (rows : List Row) :
    Except CollectError Data :=
  rows.foldlM (collectRow source args protocol field (effectiveSide args.side rows)) []

/-- One turn of the loop over the protocols. -/
def collectProtocol (source : Source) (args : Args) (fields : Dict String String) (data : Data)
    (entry : String × List Row) : Except CollectError Data := do
  match truthy (fields.get? entry.1) with
  | none => return data
  | some field => return Dict.update data (← collectRows source args entry.1 field entry.2)

/-- `_collect(rows_by_protocol, field_by_protocol, label_fn, args, size_mb_fn)`
    (charts.py:255-310). -/
def collect (source : Source) (args : Args) (rowsByProtocol : Dict String (List Row))
    (fields : Dict String String) : Except CollectError Data :=
  rowsByProtocol.foldlM (collectProtocol source args fields) []

/-! ## Loops that may raise -/

theorem foldlM_cons_ok {ε σ α : Type*} {f : σ → α → Except ε σ} {s t : σ} {x : α}
    (h : f s x = .ok t) (xs : List α) : (x :: xs).foldlM f s = xs.foldlM f t := by
  rw [List.foldlM_cons, h]
  rfl

theorem foldlM_cons_error {ε σ α : Type*} {f : σ → α → Except ε σ} {s : σ} {x : α} {e : ε}
    (h : f s x = .error e) (xs : List α) : (x :: xs).foldlM f s = .error e := by
  rw [List.foldlM_cons, h]
  rfl

/-! ## One row -/

/-- `int(qos)` does not raise, if it is evaluated. -/
def Readable (args : Args) (protocol : String) (row : Row) : Prop :=
  ∀ text, qosOf protocol row = some text → args.qos ≠ [] → readInt text.toList ≠ none

/-- The filters keep the row. -/
def keepsRow (source : Source) (args : Args) (protocol : String) (effective : Option String)
    (row : Row) : Bool :=
  decide (keepsQos args.qos (qosOf protocol row) = .ok true) && keepsSide effective row &&
    keepsSize args.fileSizes (source.size row)

/-- What a row adds; nothing if it is filtered out or has no number. -/
def entryOf (source : Source) (args : Args) (protocol field : String) (effective : Option String)
    (row : Row) : Option (Key × String × ℚ) :=
  if keepsRow source args protocol effective row then
    (toNumber (cell row field)).map fun value => ((protocol, qosOf protocol row),
      source.label row, value)
  else none

theorem keepsQos_cases (wanted : List ℤ) (qos : Option String) :
    (∃ kept, keepsQos wanted qos = .ok kept) ∧
        (∀ text, qos = some text → wanted ≠ [] → readInt text.toList ≠ none) ∨
      ∃ text, qos = some text ∧ wanted ≠ [] ∧ readInt text.toList = none ∧
        keepsQos wanted qos = .error (.invalidInt text) := by
  cases qos with
  | none => exact .inl ⟨⟨true, rfl⟩, by simp⟩
  | some text =>
    by_cases hwanted : wanted = []
    · exact .inl ⟨⟨true, if_pos hwanted⟩, fun _ _ h => absurd hwanted h⟩
    · cases hread : readInt text.toList with
      | none =>
        refine .inr ⟨text, rfl, hwanted, hread, ?_⟩
        simp only [keepsQos, if_neg hwanted, hread]
      | some z =>
        refine .inl ⟨⟨decide (z ∈ wanted), ?_⟩, ?_⟩
        · simp only [keepsQos, if_neg hwanted, hread]
        · rintro _ ⟨⟩ -
          simp [hread]

section Row

variable (source : Source) (args : Args) (protocol field : String) (effective : Option String)
  (row : Row)

theorem rowEntry_cases :
    (Readable args protocol row ∧ rowEntry source args protocol field effective row =
        .ok (entryOf source args protocol field effective row)) ∨
      ¬ Readable args protocol row ∧ ∃ e, rowEntry source args protocol field effective row =
        .error e := by
  rcases keepsQos_cases args.qos (qosOf protocol row) with
    ⟨⟨kept, hkept⟩, hread⟩ | ⟨text, hqos, hne, hread, herror⟩
  · refine .inl ⟨hread, ?_⟩
    simp only [rowEntry, entryOf, keepsRow, hkept, Except.ok.injEq]
    cases kept with
    | false => rfl
    | true =>
      cases keepsSide effective row with
      | false => rfl
      | true =>
        cases keepsSize args.fileSizes (source.size row) with
        | false => rfl
        | true => rfl
  · refine .inr ⟨fun h => h text hqos hne hread, .invalidInt text, ?_⟩
    simp only [rowEntry, herror]
    rfl

theorem entryOf_protocol {e : Key × String × ℚ}
    (h : entryOf source args protocol field effective row = some e) : e.1.1 = protocol := by
  unfold entryOf at h
  split_ifs at h
  obtain ⟨value, -, rfl⟩ := Option.map_eq_some_iff.1 h
  rfl

end Row

/-! ## The rows of a protocol -/

section Rows

variable (source : Source) (args : Args) (protocol field : String) (effective : Option String)

/-- The loop over the rows returns when no row raises, and then groups what they add. -/
theorem foldlM_collectRow (rows : List Row) (s : Data) :
    (rows.foldlM (collectRow source args protocol field effective) s =
        .ok (Grouping.addAll s (rows.filterMap (entryOf source args protocol field effective))) ∧
      ∀ row ∈ rows, Readable args protocol row) ∨
    (∃ e, rows.foldlM (collectRow source args protocol field effective) s = .error e) ∧
      ¬ ∀ row ∈ rows, Readable args protocol row := by
  induction rows generalizing s with
  | nil => exact .inl ⟨rfl, by simp⟩
  | cons row rows ih =>
    rw [List.forall_mem_cons]
    rcases rowEntry_cases source args protocol field effective row with
      ⟨hread, hok⟩ | ⟨hread, e, herror⟩
    · cases hentry : entryOf source args protocol field effective row with
      | none =>
        have hrow : collectRow source args protocol field effective s row = .ok s := by
          simp only [collectRow, hok, hentry]
          rfl
        rw [foldlM_cons_ok hrow, List.filterMap_cons_none hentry]
        simpa only [hread, true_and] using ih s
      | some entry =>
        have hrow : collectRow source args protocol field effective s row =
            .ok (Grouping.add s entry) := by
          simp only [collectRow, hok, hentry]
          rfl
        rw [foldlM_cons_ok hrow, List.filterMap_cons_some hentry, Grouping.addAll_cons]
        simpa only [hread, true_and] using ih (Grouping.add s entry)
    · have hrow : collectRow source args protocol field effective s row = .error e := by
        simp only [collectRow, herror]
        rfl
      exact .inr ⟨⟨e, foldlM_cons_error hrow _⟩, fun h => hread h.1⟩

end Rows

/-! ## All protocols -/

/-- What the rows of a protocol add. -/
def entriesOf (source : Source) (args : Args) (fields : Dict String String)
    (entry : String × List Row) : List (Key × String × ℚ) :=
  match truthy (fields.get? entry.1) with
  | none => []
  | some field =>
    entry.2.filterMap (entryOf source args entry.1 field (effectiveSide args.side entry.2))

/-- No row of a protocol with a metric column raises. -/
def EntryReadable (args : Args) (fields : Dict String String) (entry : String × List Row) : Prop :=
  truthy (fields.get? entry.1) ≠ none → ∀ row ∈ entry.2, Readable args entry.1 row

section Collect

variable {source : Source} {args : Args} {fields : Dict String String}

theorem mem_entriesOf_protocol {entry : String × List Row} {e : Key × String × ℚ}
    (h : e ∈ entriesOf source args fields entry) : e.1.1 = entry.1 := by
  unfold entriesOf at h
  split at h
  · cases h
  · obtain ⟨row, -, hrow⟩ := List.mem_filterMap.1 h
    exact entryOf_protocol _ _ _ _ _ _ hrow

/-- One turn of the loop over the protocols. -/
theorem collectProtocol_cases (data : Data) (entry : String × List Row) :
    (EntryReadable args fields entry ∧ ∃ series,
        Grouping.IsGrouping series (entriesOf source args fields entry) ∧
        collectProtocol source args fields data entry = .ok (Dict.update data series)) ∨
      ¬ EntryReadable args fields entry ∧
        ∃ e, collectProtocol source args fields data entry = .error e := by
  unfold EntryReadable collectProtocol entriesOf
  cases hfield : truthy (fields.get? entry.1) with
  | none => exact .inl ⟨by simp, [], Grouping.isGrouping_nil, rfl⟩
  | some field =>
    simp only [ne_eq, reduceCtorEq, not_false_eq_true, forall_const]
    rcases foldlM_collectRow source args entry.1 field (effectiveSide args.side entry.2) entry.2 []
      with ⟨hok, hread⟩ | ⟨⟨e, herror⟩, hread⟩
    · refine .inl ⟨hread, _, Grouping.isGrouping_addAll _, ?_⟩
      rw [collectRows, hok]
      rfl
    · refine .inr ⟨hread, e, ?_⟩
      rw [collectRows, herror]
      rfl

theorem foldlM_collectProtocol (rows : List (String × List Row)) {data : Data}
    {es : List (Key × String × ℚ)} (hdata : Grouping.IsGrouping data es)
    (hnodup : (rows.map Prod.fst).Nodup)
    (hfresh : ∀ entry ∈ rows, ∀ key ∈ data.keys, key.1 ≠ entry.1) :
    ((∀ entry ∈ rows, EntryReadable args fields entry) ∧ ∃ data',
        rows.foldlM (collectProtocol source args fields) data = .ok data' ∧
        Grouping.IsGrouping data' (es ++ rows.flatMap (entriesOf source args fields))) ∨
      (¬ ∀ entry ∈ rows, EntryReadable args fields entry) ∧
        ∃ e, rows.foldlM (collectProtocol source args fields) data = .error e := by
  induction rows generalizing data es with
  | nil => exact .inl ⟨by simp, data, rfl, by simpa using hdata⟩
  | cons entry rows ih =>
    rw [List.map_cons, List.nodup_cons] at hnodup
    rw [List.forall_mem_cons]
    rcases @collectProtocol_cases source args fields data entry with
      ⟨hread, series, hseries, hok⟩ | ⟨hread, e, herror⟩
    · have hkeys (key : Key) (hkey : key ∈ series.keys) : key.1 = entry.1 := by
        obtain ⟨e, he, rfl⟩ := hseries.mem_keys_iff.1 hkey
        exact mem_entriesOf_protocol he
      have hmerged := hdata.update hseries fun key hkey hold =>
        hfresh entry List.mem_cons_self key hold (hkeys key hkey)
      have hfresh' (next : String × List Row) (hnext : next ∈ rows) (key : Key)
          (hkey : key ∈ (Dict.update data series).keys) : key.1 ≠ next.1 := by
        obtain ⟨e, he, rfl⟩ := hmerged.mem_keys_iff.1 hkey
        rcases List.mem_append.1 he with he | he
        · exact hfresh next (List.mem_cons_of_mem _ hnext) _ (hdata.mem_keys_iff.2 ⟨e, he, rfl⟩)
        · rw [mem_entriesOf_protocol he]
          intro heq
          exact hnodup.1 (heq ▸ List.mem_map_of_mem hnext)
      rw [foldlM_cons_ok hok]
      simpa only [hread, true_and, List.flatMap_cons, List.append_assoc] using
        ih hmerged hnodup.2 hfresh'
    · exact .inr ⟨fun h => hread h.1, e, foldlM_cons_error herror _⟩

/-- **`_collect` returns** exactly when no row raises, and then groups what the rows add. -/
theorem collect_cases {rowsByProtocol : Dict String (List Row)}
    (hnodup : rowsByProtocol.keys.Nodup) :
    ((∀ entry ∈ rowsByProtocol, EntryReadable args fields entry) ∧ ∃ data,
        collect source args rowsByProtocol fields = .ok data ∧
        Grouping.IsGrouping data (rowsByProtocol.flatMap (entriesOf source args fields))) ∨
      (¬ ∀ entry ∈ rowsByProtocol, EntryReadable args fields entry) ∧
        ∃ e, collect source args rowsByProtocol fields = .error e :=
  foldlM_collectProtocol rowsByProtocol Grouping.isGrouping_nil hnodup (by simp [Dict.keys])

end Collect

end TransferTestbed.Charts
