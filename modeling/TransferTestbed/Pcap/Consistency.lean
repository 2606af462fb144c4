import TransferTestbed.Pcap.Analyzer
import TransferTestbed.Pcap.Output

/-!
# The numbers of one analysis fit together

The two loops of `analyze_pcap` and the metrics derived from them, for every pair of texts
that its queries for all frames and for the protocol's frames may have printed. `int` and
`float` are parameters, and so is the rounding of the arithmetic: with `round := id` the
numbers are exact rationals.

Main results:

* `metrics_consistent`: the analysis returns, without a division by zero, its numbers are
  those of the well-formed lines, and lines that are passed over do not change them.
* `not_unchanged_blankType`: a blank at the end of the last line is dropped from the type
  of its frame, unless another line follows.
* `analyzePcap_metrics`: these are the numbers in the record of `analyzePcap`.
-/

namespace TransferTestbed.Pcap

open Runs PcapRows

/-! ## Numbers -/

/-- A float other than `nan`: a number, `-inf` or `inf`. -/
abbrev Extended := WithBot (WithTop ℚ)

/-- A number. -/
abbrev finite (q : ℚ) : Extended := ((q : WithTop ℚ) : Extended)

/-- What `float` returns. -/
inductive FloatValue where
  | nan
  | number (x : Extended)
deriving DecidableEq

/-- `int` and `float` on a cell, with `none` for a `ValueError`, and the rounding of the
    float operations. Both pass over the blanks at the end of a cell, and a time that is
    positive stays so in microseconds. -/
structure NumberReader where
  int : String → Option ℤ
  float : String → Option FloatValue
  round : ℚ → ℚ
  int_blank : ∀ (cell : String) (ws : List Char), (∀ c ∈ ws, isSpace c = true) →
    int (String.ofList (cell.toList ++ ws)) = int cell
  float_blank : ∀ (cell : String) (ws : List Char), (∀ c ∈ ws, isSpace c = true) →
    float (String.ofList (cell.toList ++ ws)) = float cell
  round_pos : ∀ (cell : String) (q : ℚ), float cell = some (.number (finite q)) → 0 < q →
    0 < round (q * 1000000)

/-! ## The loops (lines 233–302) -/

/-- The cells of a line that is not blank and has enough of them. -/
def partsOf (least : ℕ) (line : String) : Option (List String) :=
  if isBlank line then none
  else if (csvFields line).length < least then none
  else some (csvFields line)

/-- `frame_len` and `timestamp` of a line; `none` for a line passed over (lines 238–251). -/
def frameOf (r : NumberReader) (line : String) : Option (ℤ × FloatValue) :=
  (partsOf 3 line).bind fun parts =>
    (r.int (parts.getD 1 "")).bind fun frameLen =>
      (r.float (parts.getD 2 "")).map fun timestamp => (frameLen, timestamp)

/-- `frame_len` and `frame_type` of a line; `none` for a line passed over (lines 281–294). -/
def protocolFrameOf (r : NumberReader) (typeFields : List String) (line : String) :
    Option (ℤ × String) :=
  (partsOf 2 line).bind fun parts =>
    (r.int (parts.getD 1 "")).map fun frameLen => (frameLen, parseFrameType parts typeFields)

/-- `total_packets`, `total_wire_bytes` and `last_timestamp`. -/
structure Captured where
  packets : ℤ
  wireBytes : ℤ
  lastTimestamp : Extended

/-- `max(last_timestamp, timestamp)`: a comparison with `nan` is false. -/
def later (last : Extended) : FloatValue → Extended
  | .nan => last
  | .number timestamp => max last timestamp

/-- Lines 253–255. -/
def Captured.add (acc : Captured) (frame : ℤ × FloatValue) : Captured :=
  ⟨acc.packets + 1, acc.wireBytes + frame.1, later acc.lastTimestamp frame.2⟩

def captured (r : NumberReader) (output : String) : Captured :=
  (dataLines output).foldl
    (fun acc line =>
      match frameOf r line with
      | some frame => acc.add frame
      | none => acc)
    ⟨0, 0, finite 0⟩

/-- Lines 296–302. -/
def ProtocolTotals.count (acc : ProtocolTotals) (frame : ℤ × String) : ProtocolTotals :=
  ⟨acc.packets + 1, acc.wireBytes + frame.1, Tally.bump acc.packetTypes frame.2,
    Tally.nodup_keys_bump acc.nodup frame.2⟩

def counted (r : NumberReader) (typeFields : List String) (output : String) : ProtocolTotals :=
  (dataLines output).foldl
    (fun acc line =>
      match protocolFrameOf r typeFields line with
      | some frame => acc.count frame
      | none => acc)
    .init

/-! ## Derived metrics (lines 361–409) -/

inductive MetricsError where
  | noPackets
  | zeroDivision
deriving DecidableEq, Repr

/-- `a / b`. -/
def divide (a b : ℚ) : Except MetricsError ℚ :=
  if b = 0 then .error .zeroDivision else .ok (a / b)

/-- `overhead_percentage` (lines 374–379). -/
def percentage (r : NumberReader) (overheadBytes : ℤ) (fileSizeBytes : ℕ) :
    Except MetricsError ℚ :=
  if 0 < fileSizeBytes then
    (divide overheadBytes fileSizeBytes).map fun ratio => r.round (r.round ratio * 100)
  else .ok 0

/-- `(bytes * 8) / (duration * 1_000_000)` if `duration > 0` (lines 381–390). What is
    divided by `inf` is `0`. -/
def rate (r : NumberReader) (bytes : ℤ) : Extended → Except MetricsError ℚ
  | ⊥ => .ok 0
  | (⊤ : WithTop ℚ) => .ok 0
  | ((duration : ℚ) : WithTop ℚ) =>
    if 0 < duration then
      (divide (r.round (bytes * 8)) (r.round (duration * 1000000))).map r.round
    else .ok 0

/-- The numbers in the dictionary that `analyze_pcap` returns. -/
structure Metrics where
  totalPackets : ℤ
  totalWireBytes : ℤ
  protocolPackets : ℤ
  protocolWireBytes : ℤ
  durationSeconds : Extended
  totalOverheadBytes : ℤ
  overheadPercentage : ℚ
  wireThroughputMbps : ℚ
  goodputMbps : ℚ
  packetTypes : Dict String ℕ

/-- `analyze_pcap`, from the two outputs on (lines 225–302 and 361–409). -/
def metrics (r : NumberReader) (fileSizeBytes : ℕ) (typeFields : List String)
    (output protoOutput : String) : Except MetricsError Metrics := do
  if (outputLines output).length ≤ 1 then throw .noPackets
  let all := captured r output
  let proto := counted r typeFields protoOutput
  let overheadPercentage ← percentage r (all.wireBytes - fileSizeBytes) fileSizeBytes
  let wireThroughputMbps ← rate r all.wireBytes all.lastTimestamp
  let goodputMbps ← rate r fileSizeBytes all.lastTimestamp
  return {
    totalPackets := all.packets
    totalWireBytes := all.wireBytes
    protocolPackets := proto.packets
    protocolWireBytes := proto.wireBytes
    durationSeconds := all.lastTimestamp
    totalOverheadBytes := all.wireBytes - fileSizeBytes
    overheadPercentage := overheadPercentage
    wireThroughputMbps := wireThroughputMbps
    goodputMbps := goodputMbps
    packetTypes := proto.packetTypes }

/-! ## The property -/

/-- A line that a loop passes over: blank, with too few cells, or with a cell that is not
    the number it should be. -/
inductive Junk (least : ℕ) (numeric : List String → Prop) (line : String) : Prop
  | blank (h : isBlank line = true)
  | short (h : (csvFields line).length < least)
  | notNumeric (h : ¬ numeric (csvFields line))

/-- A length and a time. -/
def FrameCells (r : NumberReader) (parts : List String) : Prop :=
  (∃ n, r.int (parts.getD 1 "") = some n) ∧ ∃ t, r.float (parts.getD 2 "") = some t

/-- A length. -/
def ProtocolCells (r : NumberReader) (parts : List String) : Prop :=
  ∃ n, r.int (parts.getD 1 "") = some n

/-- The first type field that is not empty, or UNKNOWN if there is none. -/
inductive IsFirstType (typeFields parts : List String) : String → Prop
  | field (i : ℕ) (t : String) (hi : i < typeFields.length) (ht : t ≠ "")
      (hcell : parts[2 + i]? = some t) (hfirst : ∀ j < i, parts.getD (2 + j) "" = "") :
      IsFirstType typeFields parts t
  | unknown (h : ∀ i < typeFields.length, parts.getD (2 + i) "" = "") :
      IsFirstType typeFields parts "UNKNOWN"

/-- The numbers for these lines. -/
structure Consistent (r : NumberReader) (fileSizeBytes : ℕ) (typeFields : List String)
    (lines protoLines : List String) (m : Metrics) : Prop where
  totalPackets : m.totalPackets = (lines.filterMap (frameOf r)).length
  totalWireBytes : m.totalWireBytes = ((lines.filterMap (frameOf r)).map Prod.fst).sum
  duration : IsGreatest {x | x = finite 0 ∨
    FloatValue.number x ∈ (lines.filterMap (frameOf r)).map Prod.snd} m.durationSeconds
  protocolPackets : m.protocolPackets = (protoLines.filterMap (protocolFrameOf r typeFields)).length
  protocolWireBytes : m.protocolWireBytes =
    ((protoLines.filterMap (protocolFrameOf r typeFields)).map Prod.fst).sum
  typesSum : (Tally.total m.packetTypes : ℤ) = m.protocolPackets
  typeCount : ∀ t, (m.packetTypes.get? t).getD 0 =
    ((protoLines.filterMap (protocolFrameOf r typeFields)).map Prod.snd).count t
  firstType : ∀ line ∈ protoLines, ∀ frame, protocolFrameOf r typeFields line = some frame →
    IsFirstType typeFields (csvFields line) frame.2
  overhead : m.totalOverheadBytes = m.totalWireBytes - fileSizeBytes
  throughput : r.round = id → ∀ d : ℚ, m.durationSeconds = finite d → 0 < d →
    (m.wireThroughputMbps - m.goodputMbps) * d * 10 ^ 6 = 8 * m.totalOverheadBytes

/-- The second list is the first one with more lines in it, all of one kind. -/
inductive Inserted {α : Type} (junk : α → Prop) : List α → List α → Prop
  | nil : Inserted junk [] []
  | keep (a : α) {as bs : List α} (h : Inserted junk as bs) : Inserted junk (a :: as) (a :: bs)
  | insert {a : α} (ha : junk a) {as bs : List α} (h : Inserted junk as bs) :
      Inserted junk as (a :: bs)

namespace Inserted

variable {α β : Type} {junk : α → Prop} {as bs : List α}

/-- What a loop collects that passes over the lines inserted. -/
theorem filterMap_eq (h : Inserted junk as bs) {f : α → Option β}
    (hf : ∀ a, junk a → f a = none) : bs.filterMap f = as.filterMap f := by
  induction h with
  | nil => rfl
  | keep a h ih =>
    cases ha : f a with
    | none => rw [List.filterMap_cons_none ha, List.filterMap_cons_none ha, ih]
    | some b => rw [List.filterMap_cons_some ha, List.filterMap_cons_some ha, ih]
  | insert ha h ih => rw [List.filterMap_cons_none (hf _ ha), ih]

theorem subset (h : Inserted junk as bs) : as ⊆ bs := by
  induction h with
  | nil => exact List.Subset.refl _
  | keep a h ih => exact List.cons_subset_cons a ih
  | insert ha h ih => exact List.subset_cons_of_subset _ ih

theorem mem_of_not (h : Inserted junk as bs) {b : α} (hb : b ∈ bs) (hnot : ¬ junk b) :
    b ∈ as := by
  induction h with
  | nil => exact hb
  | keep a h ih =>
    rcases List.mem_cons.1 hb with rfl | hb
    · exact List.mem_cons_self
    · exact List.mem_cons_of_mem _ (ih hb)
  | insert ha h ih =>
    rcases List.mem_cons.1 hb with rfl | hb
    · exact absurd ha hnot
    · exact ih hb

end Inserted

/-! ## Lines -/

section Lines

variable {r : NumberReader} {typeFields : List String}

theorem partsOf_eq_some {least : ℕ} {line : String} {parts : List String} :
    partsOf least line = some parts ↔
      isBlank line = false ∧ least ≤ (csvFields line).length ∧ csvFields line = parts := by
  unfold partsOf
  split_ifs with hblank hshort
  · simp [hblank]
  · simp only [false_iff, not_and]
    intro _ hle
    omega
  · rw [Option.some_inj]
    constructor
    · intro h
      exact ⟨Bool.eq_false_iff.2 hblank, by omega, h⟩
    · rintro ⟨-, -, h⟩
      exact h

theorem partsOf_eq_none {least : ℕ} {line : String} :
    partsOf least line = none ↔ isBlank line = true ∨ (csvFields line).length < least := by
  unfold partsOf
  split_ifs with hblank hshort
  · simp [hblank]
  · simp [hshort]
  · simp [hblank, hshort]

/-- What a loop makes of the cells of a line is nothing for the lines it passes over. -/
theorem bind_partsOf_eq_none_iff {β : Type} {f : List String → Option β} {least : ℕ}
    {numeric : List String → Prop} {line : String}
    (hf : f (csvFields line) = none ↔ ¬ numeric (csvFields line)) :
    (partsOf least line).bind f = none ↔ Junk least numeric line := by
  cases hparts : partsOf least line with
  | none =>
    refine iff_of_true rfl ?_
    rcases partsOf_eq_none.1 hparts with hblank | hshort
    · exact .blank hblank
    · exact .short hshort
  | some parts =>
    obtain ⟨hblank, hlength, rfl⟩ := partsOf_eq_some.1 hparts
    rw [Option.bind_some, hf]
    constructor
    · exact .notNumeric
    · intro h
      cases h with
      | blank h =>
        rw [hblank] at h
        cases h
      | short h => omega
      | notNumeric h => exact h

/-- The lines that the first loop passes over. -/
theorem frameOf_eq_none_iff (line : String) :
    frameOf r line = none ↔ Junk 3 (FrameCells r) line := by
  refine bind_partsOf_eq_none_iff ?_
  rw [FrameCells]
  cases r.int ((csvFields line).getD 1 "") with
  | none => simp
  | some n => cases r.float ((csvFields line).getD 2 "") <;> simp

/-- The lines that the second loop passes over. -/
theorem protocolFrameOf_eq_none_iff (line : String) :
    protocolFrameOf r typeFields line = none ↔ Junk 2 (ProtocolCells r) line := by
  refine bind_partsOf_eq_none_iff ?_
  rw [ProtocolCells]
  cases r.int ((csvFields line).getD 1 "") <;> simp

/-- A number is read from a cell like without the blanks at the end of the line. -/
theorem getD_rstrip {β : Type} {read : String → Option β}
    (hread : ∀ (cell : String) (ws : List Char), (∀ c ∈ ws, isSpace c = true) →
      read (String.ofList (cell.toList ++ ws)) = read cell)
    {cells : List String} {last : String} {ws : List Char} (hws : ∀ c ∈ ws, isSpace c = true)
    (i : ℕ) : read ((cells ++ [String.ofList (last.toList ++ ws)]).getD i "") =
      read ((cells ++ [last]).getD i "") := by
  rcases lt_trichotomy i cells.length with h | rfl | h
  · rw [List.getD_append _ _ _ _ h, List.getD_append _ _ _ _ h]
  · rw [List.getD_append_right _ _ _ _ le_rfl, List.getD_append_right _ _ _ _ le_rfl,
      Nat.sub_self]
    exact hread last ws hws
  · rw [List.getD_eq_default _ _ (by simp; omega), List.getD_eq_default _ _ (by simp; omega)]

theorem length_csvFields_rstrip {line : String} (hline : Lines.IsLine line.toList)
    (hblank : isBlank line = false) :
    (csvFields (rstrip line)).length = (csvFields line).length := by
  obtain ⟨cells, last, ws, -, hcut, hcells⟩ := csvFields_rstrip hline hblank
  rw [hcut, hcells, List.length_append, List.length_append, List.length_singleton,
    List.length_singleton]

theorem frameOf_rstrip {line : String} (hline : Lines.IsLine line.toList)
    (hblank : isBlank line = false) : frameOf r (rstrip line) = frameOf r line := by
  obtain ⟨cells, last, ws, hws, hcut, hcells⟩ := csvFields_rstrip hline hblank
  have hlength := length_csvFields_rstrip hline hblank
  rw [frameOf, frameOf, partsOf, partsOf, hblank, isBlank_rstrip hblank, hlength]
  simp only [Bool.false_eq_true, if_false]
  split_ifs with hshort
  · rfl
  · rw [Option.bind_some, Option.bind_some, hcut, hcells, getD_rstrip r.int_blank hws,
      getD_rstrip r.float_blank hws]

/-- A line that is no frame of the protocol is none without the blanks at its end. -/
theorem protocolFrameOf_rstrip {line : String} (hline : Lines.IsLine line.toList)
    (hblank : isBlank line = false) (h : protocolFrameOf r typeFields line = none) :
    protocolFrameOf r typeFields (rstrip line) = none := by
  obtain ⟨cells, last, ws, hws, hcut, hcells⟩ := csvFields_rstrip hline hblank
  have hlength := length_csvFields_rstrip hline hblank
  rw [protocolFrameOf_eq_none_iff] at h ⊢
  cases h with
  | blank h =>
    rw [hblank] at h
    cases h
  | short h =>
    refine .short ?_
    rw [hlength]
    exact h
  | notNumeric h =>
    refine .notNumeric ?_
    rintro ⟨n, hn⟩
    refine h ⟨n, ?_⟩
    rwa [hcut, ← getD_rstrip r.int_blank hws, ← hcells] at hn

/-- The type fields are the cells after the first two. -/
theorem getElem?_typeCells {parts : List String} {k i : ℕ} (hi : i < k) :
    ((parts.drop 2).take k)[i]? = parts[2 + i]? := by
  rw [List.getElem?_take_of_lt hi, List.getElem?_drop]

theorem isFirstType_parseFrameType (parts : List String) :
    IsFirstType typeFields parts (parseFrameType parts typeFields) := by
  unfold parseFrameType
  generalize hcells : (parts.drop 2).take typeFields.length = cells
  cases hfind : cells.find? (· ≠ "") with
  | none =>
    refine .unknown ?_
    intro i hi
    rw [List.getD_eq_getElem?_getD, ← getElem?_typeCells hi, hcells]
    cases hcell : cells[i]? with
    | none => rfl
    | some t =>
      have := List.find?_eq_none.1 hfind t (List.mem_of_getElem? hcell)
      simpa using this
  | some t =>
    obtain ⟨ht, i, hi, hcell, hfirst⟩ := List.find?_eq_some_iff_getElem.1 hfind
    have hlt : i < typeFields.length := by
      have : cells.length ≤ typeFields.length := by
        rw [← hcells]
        exact List.length_take_le _ _
      omega
    refine .field i t hlt (by simpa using ht) ?_ ?_
    · rw [← getElem?_typeCells hlt, hcells, List.getElem?_eq_getElem hi, hcell]
    · intro j hj
      have hempty := hfirst j hj
      rw [List.getD_eq_getElem?_getD, ← getElem?_typeCells (by omega : j < typeFields.length),
        hcells, List.getElem?_eq_getElem (by omega : j < cells.length)]
      simpa using hempty

end Lines

/-! ## Totals -/

section Totals

variable {r : NumberReader}

theorem captured_eq (r : NumberReader) (output : String) :
    captured r output =
      ((dataLines output).filterMap (frameOf r)).foldl .add ⟨0, 0, finite 0⟩ := by
  rw [captured, List.foldl_filterMap]
  congr 1
  funext acc line
  cases frameOf r line <;> rfl

theorem counted_eq (r : NumberReader) (typeFields : List String) (output : String) :
    counted r typeFields output =
      ((dataLines output).filterMap (protocolFrameOf r typeFields)).foldl .count .init := by
  rw [counted, List.foldl_filterMap]
  congr 1
  funext acc line
  cases protocolFrameOf r typeFields line <;> rfl

/-- Both loops count their frames and add up their lengths. -/
theorem foldl_counts {α β : Type} (add : α → ℤ × β → α) (packets wireBytes : α → ℤ)
    (hpackets : ∀ acc frame, packets (add acc frame) = packets acc + 1)
    (hbytes : ∀ acc frame, wireBytes (add acc frame) = wireBytes acc + frame.1)
    (frames : List (ℤ × β)) (init : α) :
    packets (frames.foldl add init) = packets init + frames.length ∧
      wireBytes (frames.foldl add init) = wireBytes init + (frames.map Prod.fst).sum := by
  induction frames generalizing init with
  | nil => simp
  | cons frame frames ih =>
    obtain ⟨ihpackets, ihbytes⟩ := ih (add init frame)
    rw [List.foldl_cons, ihpackets, ihbytes, hpackets, hbytes, List.length_cons, List.map_cons,
      List.sum_cons]
    push_cast
    constructor <;> ring

/-- The first loop keeps the greatest time, from 0 on. -/
theorem isGreatest_foldl_add (frames : List (ℤ × FloatValue)) :
    IsGreatest {x | x = finite 0 ∨ FloatValue.number x ∈ frames.map Prod.snd}
      (frames.foldl Captured.add ⟨0, 0, finite 0⟩).lastTimestamp := by
  induction frames using List.reverseRecOn with
  | nil =>
    refine ⟨Or.inl rfl, ?_⟩
    rintro x (rfl | hx)
    · exact le_rfl
    · cases hx
  | append_singleton frames frame ih =>
    obtain ⟨hmem, hbound⟩ := ih
    rw [List.foldl_append, List.foldl_cons, List.foldl_nil]
    generalize frames.foldl Captured.add ⟨0, 0, finite 0⟩ = acc at *
    show IsGreatest _ (later acc.lastTimestamp frame.2)
    have hold : ∀ x, (x = finite 0 ∨ FloatValue.number x ∈ frames.map Prod.snd) →
        x = finite 0 ∨ FloatValue.number x ∈ (frames ++ [frame]).map Prod.snd := by
      rintro x (h | h)
      · exact Or.inl h
      · refine Or.inr ?_
        rw [List.map_append]
        exact List.mem_append_left _ h
    cases hframe : frame.2 with
    | nan =>
      refine ⟨hold _ hmem, ?_⟩
      rintro x (hx | hx)
      · exact hbound (Or.inl hx)
      · rw [List.map_append, List.mem_append, List.map_singleton, List.mem_singleton, hframe]
          at hx
        rcases hx with hx | hx
        · exact hbound (Or.inr hx)
        · cases hx
    | number timestamp =>
      constructor
      · rcases max_choice acc.lastTimestamp timestamp with hmax | hmax
        · rw [later, hmax]
          exact hold _ hmem
        · rw [later, hmax]
          refine Or.inr ?_
          rw [List.map_append, List.map_singleton, hframe]
          exact List.mem_append_right _ (List.mem_singleton_self _)
      · rintro x (hx | hx)
        · exact le_max_of_le_left (hbound (Or.inl hx))
        · rw [List.map_append, List.mem_append, List.map_singleton, List.mem_singleton, hframe]
            at hx
          rcases hx with hx | hx
          · exact le_max_of_le_left (hbound (Or.inr hx))
          · rw [FloatValue.number.inj hx]
            exact le_max_right _ _

/-- The invariant of the first loop. -/
theorem foldl_add (frames : List (ℤ × FloatValue)) :
    let all := frames.foldl Captured.add ⟨0, 0, finite 0⟩
    all.packets = frames.length ∧ all.wireBytes = (frames.map Prod.fst).sum ∧
      IsGreatest {x | x = finite 0 ∨ FloatValue.number x ∈ frames.map Prod.snd}
        all.lastTimestamp := by
  obtain ⟨hpackets, hbytes⟩ := foldl_counts Captured.add Captured.packets Captured.wireBytes
    (fun _ _ => rfl) (fun _ _ => rfl) frames ⟨0, 0, finite 0⟩
  exact ⟨hpackets.trans (zero_add _), hbytes.trans (zero_add _), isGreatest_foldl_add frames⟩

/-- The invariant of the second loop. -/
theorem foldl_count (frames : List (ℤ × String)) :
    let proto := frames.foldl ProtocolTotals.count .init
    proto.packets = frames.length ∧ proto.wireBytes = (frames.map Prod.fst).sum ∧
      proto.packetTypes = Tally.tally (frames.map Prod.snd) := by
  obtain ⟨hpackets, hbytes⟩ := foldl_counts ProtocolTotals.count ProtocolTotals.packets
    ProtocolTotals.wireBytes (fun _ _ => rfl) (fun _ _ => rfl) frames .init
  refine ⟨hpackets.trans (zero_add _), hbytes.trans (zero_add _), ?_⟩
  rw [Tally.tally, List.foldl_map]
  exact (List.foldl_hom ProtocolTotals.packetTypes fun _ _ => rfl).symm

end Totals

/-! ## Derived metrics -/

section Rates

variable {r : NumberReader}

theorem exists_percentage (r : NumberReader) (overheadBytes : ℤ) (fileSizeBytes : ℕ) :
    ∃ p, percentage r overheadBytes fileSizeBytes = .ok p := by
  unfold percentage
  split_ifs with h
  · have hne : (fileSizeBytes : ℚ) ≠ 0 := Nat.cast_ne_zero.2 (by omega)
    rw [divide, if_neg hne]
    exact ⟨_, rfl⟩
  · exact ⟨0, rfl⟩

theorem rate_finite (r : NumberReader) (bytes : ℤ) {d : ℚ} (hd : 0 < d)
    (hround : 0 < r.round (d * 1000000)) : rate r bytes (finite d) =
      .ok (r.round (r.round (bytes * 8) / r.round (d * 1000000))) := by
  show (if 0 < d then _ else _) = _
  rw [if_pos hd, divide, if_neg hround.ne']
  rfl

theorem exists_rate (r : NumberReader) (bytes : ℤ) {duration : Extended}
    (h : ∀ d : ℚ, duration = finite d → 0 < d → 0 < r.round (d * 1000000)) :
    ∃ x, rate r bytes duration = .ok x := by
  induction duration using WithBot.recBotCoe with
  | bot => exact ⟨0, rfl⟩
  | coe duration =>
    induction duration using WithTop.recTopCoe with
    | top => exact ⟨0, rfl⟩
    | coe d =>
      by_cases hd : 0 < d
      · exact ⟨_, rate_finite r bytes hd (h d rfl hd)⟩
      · refine ⟨0, ?_⟩
        show (if 0 < d then _ else _) = _
        rw [if_neg hd]

/-- Over exact rationals the two rates differ by the rate of the overhead. -/
theorem rate_sub {bytes fileSizeBytes : ℤ} {d wire goodput : ℚ} (hround : r.round = id)
    (hd : 0 < d) (hwire : rate r bytes (finite d) = .ok wire)
    (hgoodput : rate r fileSizeBytes (finite d) = .ok goodput) :
    (wire - goodput) * d * 10 ^ 6 = 8 * ((bytes - fileSizeBytes : ℤ) : ℚ) := by
  have hpos : 0 < r.round (d * 1000000) := by
    rw [hround, id]
    positivity
  rw [rate_finite r _ hd hpos] at hwire hgoodput
  rw [← Except.ok.inj hwire, ← Except.ok.inj hgoodput]
  simp only [hround, id]
  push_cast
  field_simp
  ring

end Rates

/-! ## The analysis -/

section Analysis

variable {r : NumberReader} {typeFields : List String} {output protoOutput : String}

/-- A well-formed line is a line after the header. -/
theorem one_lt_outputLines (h : (dataLines output).filterMap (frameOf r) ≠ []) :
    ¬ (outputLines output).length ≤ 1 := by
  intro hle
  apply h
  rw [dataLines, List.drop_of_length_le hle, List.filterMap_nil]

theorem filterMap_frameOf_ne_nil {lines : List String}
    (h : ∃ line ∈ lines, ¬ Junk 3 (FrameCells r) line) : lines.filterMap (frameOf r) ≠ [] := by
  obtain ⟨line, hline, hjunk⟩ := h
  rw [Ne, List.filterMap_eq_nil_iff]
  intro hnone
  exact hjunk ((frameOf_eq_none_iff line).1 (hnone line hline))

/-- The time of the last frame is a positive number of microseconds, if it is positive. -/
theorem round_lastTimestamp_pos {frames : List (ℤ × FloatValue)} {lines : List String}
    (hframes : lines.filterMap (frameOf r) = frames) {duration : Extended}
    (hmem : duration = finite 0 ∨ FloatValue.number duration ∈ frames.map Prod.snd) {d : ℚ}
    (hduration : duration = finite d) (hd : 0 < d) : 0 < r.round (d * 1000000) := by
  subst hduration
  rcases hmem with hzero | hmem
  · have : d = 0 := by simpa [finite] using hzero
    rw [this] at hd
    exact absurd hd (lt_irrefl 0)
  · obtain ⟨frame, hframe, htime⟩ := List.mem_map.1 hmem
    rw [← hframes, List.mem_filterMap] at hframe
    obtain ⟨line, -, hline⟩ := hframe
    rw [frameOf, Option.bind_eq_some_iff] at hline
    obtain ⟨parts, -, hparts⟩ := hline
    rw [Option.bind_eq_some_iff] at hparts
    obtain ⟨n, -, hn⟩ := hparts
    obtain ⟨t, ht, rfl⟩ := Option.map_eq_some_iff.1 hn
    exact r.round_pos _ d (ht.trans (congrArg some htime)) hd

/-- What is returned, from the totals and the quotients. -/
theorem metrics_eq_ok {fileSizeBytes : ℕ} {all : Captured} {proto : ProtocolTotals}
    {p wire goodput : ℚ} (hlines : ¬ (outputLines output).length ≤ 1)
    (hall : captured r output = all) (hproto : counted r typeFields protoOutput = proto)
    (hp : percentage r (all.wireBytes - fileSizeBytes) fileSizeBytes = .ok p)
    (hwire : rate r all.wireBytes all.lastTimestamp = .ok wire)
    (hgoodput : rate r fileSizeBytes all.lastTimestamp = .ok goodput) :
    metrics r fileSizeBytes typeFields output protoOutput = .ok
      ⟨all.packets, all.wireBytes, proto.packets, proto.wireBytes, all.lastTimestamp,
        all.wireBytes - fileSizeBytes, p, wire, goodput, proto.packetTypes⟩ := by
  rw [metrics, if_neg hlines, hall, hproto]
  simp only [hp, hwire, hgoodput]
  rfl

/-- The analysis returns, with consistent numbers. -/
theorem exists_metrics (r : NumberReader) (fileSizeBytes : ℕ) (typeFields : List String)
    (protoOutput : String) (h : (dataLines output).filterMap (frameOf r) ≠ []) :
    ∃ m, metrics r fileSizeBytes typeFields output protoOutput = .ok m ∧
      Consistent r fileSizeBytes typeFields (dataLines output) (dataLines protoOutput) m := by
  obtain ⟨hpackets, hbytes, hlast⟩ := foldl_add ((dataLines output).filterMap (frameOf r))
  obtain ⟨hprotoPackets, hprotoBytes, htypes⟩ :=
    foldl_count ((dataLines protoOutput).filterMap (protocolFrameOf r typeFields))
  rw [← captured_eq] at hpackets hbytes hlast
  rw [← counted_eq] at hprotoPackets hprotoBytes htypes
  generalize hall : captured r output = all at hpackets hbytes hlast
  generalize hproto : counted r typeFields protoOutput = proto at hprotoPackets hprotoBytes htypes
  have hpos : ∀ d : ℚ, all.lastTimestamp = finite d → 0 < d → 0 < r.round (d * 1000000) :=
    fun d => round_lastTimestamp_pos rfl hlast.1
  obtain ⟨p, hp⟩ := exists_percentage r (all.wireBytes - fileSizeBytes) fileSizeBytes
  obtain ⟨wire, hwire⟩ := exists_rate r all.wireBytes hpos
  obtain ⟨goodput, hgoodput⟩ := exists_rate r fileSizeBytes hpos
  refine ⟨_, metrics_eq_ok (one_lt_outputLines h) hall hproto hp hwire hgoodput, ?_⟩
  exact
    { totalPackets := hpackets
      totalWireBytes := hbytes
      duration := hlast
      protocolPackets := hprotoPackets
      protocolWireBytes := hprotoBytes
      typesSum := by
        show (Tally.total proto.packetTypes : ℤ) = proto.packets
        rw [htypes, Tally.sum_tally, List.length_map, hprotoPackets]
      typeCount := by
        intro t
        show (proto.packetTypes.get? t).getD 0 = _
        rw [htypes, Tally.get?_tally]
      firstType := by
        intro line _ frame hframe
        rw [protocolFrameOf, Option.bind_eq_some_iff] at hframe
        obtain ⟨parts, hparts, hframe⟩ := hframe
        obtain ⟨-, -, rfl⟩ := partsOf_eq_some.1 hparts
        obtain ⟨n, -, rfl⟩ := Option.map_eq_some_iff.1 hframe
        exact isFirstType_parseFrameType _
      overhead := rfl
      throughput := by
        intro hround d hduration hd
        have hduration' : all.lastTimestamp = finite d := hduration
        rw [hduration'] at hwire hgoodput
        exact rate_sub hround hd hwire hgoodput }

/-- The numbers depend on the well-formed lines only. -/
theorem metrics_congr {output' protoOutput' : String} {fileSizeBytes : ℕ}
    (hne : (dataLines output).filterMap (frameOf r) ≠ [])
    (hframes : (dataLines output').filterMap (frameOf r) =
      (dataLines output).filterMap (frameOf r))
    (hproto : (dataLines protoOutput').filterMap (protocolFrameOf r typeFields) =
      (dataLines protoOutput).filterMap (protocolFrameOf r typeFields)) :
    metrics r fileSizeBytes typeFields output' protoOutput' =
      metrics r fileSizeBytes typeFields output protoOutput := by
  have hne' : (dataLines output').filterMap (frameOf r) ≠ [] := by rwa [hframes]
  rw [metrics, metrics, if_neg (one_lt_outputLines hne), if_neg (one_lt_outputLines hne'),
    captured_eq, captured_eq, counted_eq, counted_eq, hframes, hproto]

theorem frames_outputOf {header : String} {lines : List String} (h : IsOutput header lines) :
    (dataLines (outputOf header lines)).filterMap (frameOf r) = lines.filterMap (frameOf r) := by
  refine filterMap_dataLines h (fun line hblank => (frameOf_eq_none_iff line).2 (.blank hblank)) ?_
  intro line hmem hblank
  exact frameOf_rstrip (h.isLine line (List.mem_cons_of_mem _ hmem)) hblank

theorem protocolFrames_outputOf {header : String} {lines : List String}
    (h : IsOutput header lines)
    (hlast : ∀ line ∈ lines, ¬ Junk 2 (ProtocolCells r) line → rstrip line = line) :
    (dataLines (outputOf header lines)).filterMap (protocolFrameOf r typeFields) =
      lines.filterMap (protocolFrameOf r typeFields) := by
  refine filterMap_dataLines h
    (fun line hblank => (protocolFrameOf_eq_none_iff line).2 (.blank hblank)) ?_
  intro line hmem hblank
  by_cases hjunk : Junk 2 (ProtocolCells r) line
  · have hnone := (@protocolFrameOf_eq_none_iff r typeFields line).2 hjunk
    rw [hnone]
    exact protocolFrameOf_rstrip (h.isLine line (List.mem_cons_of_mem _ hmem)) hblank hnone
  · rw [hlast line hmem hjunk]

theorem IsOutput.of_subset {header : String} {lines lines' : List String}
    (h : IsOutput header lines') (hsub : lines ⊆ lines') : IsOutput header lines :=
  ⟨h.notBlank, fun line hline => h.isLine line (List.cons_subset_cons header hsub hline)⟩

/-- **The numbers of one analysis.** If a line of the first output is a well-formed frame,
    then the analysis returns, its numbers are consistent, and lines that are blank, short or
    not numeric change nothing: neither among the lines as the analysis cuts them, nor in
    outputs whose protocol frames do not end in a blank. -/
theorem metrics_consistent (r : NumberReader) (fileSizeBytes : ℕ) (typeFields : List String)
    {output protoOutput : String}
    (hframe : ∃ line ∈ dataLines output, ¬ Junk 3 (FrameCells r) line) :
    ∃ m, metrics r fileSizeBytes typeFields output protoOutput = .ok m ∧
      Consistent r fileSizeBytes typeFields (dataLines output) (dataLines protoOutput) m ∧
      (∀ output' protoOutput' : String,
        Inserted (Junk 3 (FrameCells r)) (dataLines output) (dataLines output') →
        Inserted (Junk 2 (ProtocolCells r)) (dataLines protoOutput) (dataLines protoOutput') →
        metrics r fileSizeBytes typeFields output' protoOutput' = .ok m) ∧
      ∀ (header protoHeader : String) (lines lines' protoLines protoLines' : List String),
        output = outputOf header lines → protoOutput = outputOf protoHeader protoLines →
        IsOutput header lines' → IsOutput protoHeader protoLines' →
        Inserted (Junk 3 (FrameCells r)) lines lines' →
        Inserted (Junk 2 (ProtocolCells r)) protoLines protoLines' →
        (∀ line ∈ protoLines, ¬ Junk 2 (ProtocolCells r) line → rstrip line = line) →
        metrics r fileSizeBytes typeFields (outputOf header lines')
          (outputOf protoHeader protoLines') = .ok m := by
  have hne := filterMap_frameOf_ne_nil hframe
  obtain ⟨m, hm, hconsistent⟩ := exists_metrics r fileSizeBytes typeFields protoOutput hne
  have hjunk : ∀ line, Junk 3 (FrameCells r) line → frameOf r line = none :=
    fun line => (frameOf_eq_none_iff line).2
  have hprotoJunk : ∀ line, Junk 2 (ProtocolCells r) line →
      protocolFrameOf r typeFields line = none :=
    fun line => (protocolFrameOf_eq_none_iff line).2
  refine ⟨m, hm, hconsistent, ?_, ?_⟩
  · intro output' protoOutput' hlines hprotoLines
    rw [← hm]
    exact metrics_congr hne (hlines.filterMap_eq hjunk) (hprotoLines.filterMap_eq hprotoJunk)
  · rintro header protoHeader lines lines' protoLines protoLines' rfl rfl h h' hlines hprotoLines
      hlast
    rw [← hm]
    refine metrics_congr hne ?_ ?_
    · rw [frames_outputOf h, frames_outputOf (h.of_subset hlines.subset),
        hlines.filterMap_eq hjunk]
    · have hlast' : ∀ line ∈ protoLines', ¬ Junk 2 (ProtocolCells r) line → rstrip line = line :=
        fun line hline hframe => hlast line (hprotoLines.mem_of_not hline hframe) hframe
      rw [protocolFrames_outputOf h' hlast',
        protocolFrames_outputOf (h'.of_subset hprotoLines.subset) hlast,
        hprotoLines.filterMap_eq hprotoJunk]

end Analysis

/-! ## The numbers of `analyzePcap` -/

/-- Cells as `analyzePcap` reads them. -/
def decimalReader (round : ℚ → ℚ) (hround : ∀ q, 0 < q → 0 < round q) : NumberReader where
  int := intCell
  float cell := (floatCell cell).map fun q => .number (finite q)
  round := round
  int_blank cell ws hws := by
    rw [intCell, intCell, strip_append_blank cell hws]
  float_blank cell ws hws := by
    rw [floatCell, floatCell, strip_append_blank cell hws]
  round_pos cell q _ hq := hround _ (by positivity)

/-- With the rounding of doubles. -/
def doubleReader : NumberReader := decimalReader Binary64.fl fun _ => Binary64.fl_pos

/-- Over exact rationals. -/
def exactReader : NumberReader := decimalReader id fun _ => id

theorem int_doubleReader : doubleReader.int = intCell := by
  rw [doubleReader, decimalReader]

theorem float_doubleReader (cell : String) :
    doubleReader.float cell = (floatCell cell).map fun q => .number (finite q) := by
  rw [doubleReader, decimalReader]

theorem round_doubleReader : doubleReader.round = Binary64.fl := by
  rw [doubleReader, decimalReader]

/-- The number that a Python number is. -/
def numberValue : Number → ℚ
  | .int z => z
  | .float q => q

theorem frameOf_doubleReader (line : String) :
    frameOf doubleReader line =
      (frameOfLine line).map fun frame => (frame.1, .number (finite frame.2)) := by
  unfold frameOf frameOfLine partsOf
  cases isBlank line with
  | true => rfl
  | false =>
    simp only [Bool.false_eq_true, if_false]
    match csvFields line with
    | [] => rfl
    | [_] => rfl
    | [_, _] => rfl
    | number :: len :: time :: rest =>
      have hlength : ¬ (number :: len :: time :: rest).length < 3 := by simp
      rw [if_neg hlength, Option.bind_some, int_doubleReader, float_doubleReader]
      simp only [List.getD_cons_succ, List.getD_cons_zero]
      cases intCell len with
      | none => rfl
      | some n => cases floatCell time <;> rfl

theorem protocolFrameOf_doubleReader (typeFields : List String) (line : String) :
    protocolFrameOf doubleReader typeFields line = protocolFrameOfLine typeFields line := by
  unfold protocolFrameOf protocolFrameOfLine partsOf
  cases isBlank line with
  | true => rfl
  | false =>
    simp only [Bool.false_eq_true, if_false]
    match csvFields line with
    | [] => rfl
    | [_] => rfl
    | number :: len :: rest =>
      have hlength : ¬ (number :: len :: rest).length < 2 := by simp
      rw [if_neg hlength, Option.bind_some, int_doubleReader, List.getD_cons_succ,
        List.getD_cons_zero]

theorem captured_doubleReader (output : String) :
    captured doubleReader output = ⟨(frameTotals output).packets, (frameTotals output).wireBytes,
      finite (frameTotals output).lastTimestamp⟩ := by
  let embed : FrameTotals → Captured := fun acc =>
    ⟨acc.packets, acc.wireBytes, finite acc.lastTimestamp⟩
  have hinit : (⟨0, 0, finite 0⟩ : Captured) = embed ⟨0, 0, 0⟩ := rfl
  show captured doubleReader output = embed (frameTotals output)
  rw [captured, frameTotals, hinit]
  apply List.foldl_hom embed
  intro acc line
  rw [frameOf_doubleReader, FrameTotals.add]
  cases hframe : frameOfLine line with
  | none => rfl
  | some frame =>
    show Captured.mk _ _ (max (finite acc.lastTimestamp) (finite frame.2)) = embed ⟨_, _, _⟩
    rw [← WithBot.coe_max, ← WithTop.coe_max]

theorem counted_doubleReader (typeFields : List String) (output : String) :
    counted doubleReader typeFields output = protocolTotals typeFields output := by
  rw [counted, protocolTotals]
  congr 1
  funext acc line
  rw [protocolFrameOf_doubleReader, ProtocolTotals.add]
  cases protocolFrameOfLine typeFields line <;> rfl

theorem rate_doubleReader (bytes : ℤ) (d : ℚ) :
    rate doubleReader bytes (finite d) = .ok (numberValue (mbps bytes d)) := by
  unfold mbps
  split_ifs with hd
  · rw [rate_finite doubleReader bytes hd (Binary64.fl_pos (by positivity)), round_doubleReader,
      numberValue]
  · show (if 0 < d then _ else _) = _
    rw [if_neg hd]
    rfl

theorem percentage_doubleReader (overheadBytes : ℤ) (fileSizeBytes : ℕ) :
    percentage doubleReader overheadBytes fileSizeBytes =
      .ok (numberValue (overheadPercentage overheadBytes fileSizeBytes)) := by
  unfold percentage overheadPercentage
  split_ifs with h
  · have hne : (fileSizeBytes : ℚ) ≠ 0 := Nat.cast_ne_zero.2 (by omega)
    rw [divide, if_neg hne, round_doubleReader, numberValue]
    rfl
  · rfl

/-- **The numbers that `analyzePcap` returns** are those of its two outputs. -/
theorem analyzePcap_metrics {tshark : Tshark} {fileSizeBytes : ℕ} {protocol : String}
    {filename : Option String} {qosLevel : Option ℤ} {label : Option String}
    {cfg : ProtocolConfig} (hcfg : protocolConfig.get? protocol = some cfg)
    {output protoOutput : String}
    (hframes : runTshark tshark none frameFields cfg.decodeAs = some output)
    (hproto : runTshark tshark (some cfg.filter)
      (["frame.number", "frame.len"] ++ cfg.typeFields) cfg.decodeAs = some protoOutput)
    {result : PcapResult}
    (h : analyzePcap true tshark fileSizeBytes protocol filename qosLevel label = .ok result) :
    ∃ packetTypes, result.packetTypes.counts = packetTypes.map (fun p => (p.1, (p.2 : ℤ))) ∧
      metrics doubleReader fileSizeBytes cfg.typeFields output protoOutput = .ok
        ⟨result.totalPackets, result.totalWireBytes, result.protocolPackets,
          result.protocolWireBytes, finite (numberValue result.durationSeconds),
          result.totalOverheadBytes, numberValue result.overheadPercentage,
          numberValue result.wireThroughputMbps, numberValue result.goodputMbps, packetTypes⟩ := by
  unfold analyzePcap at h
  rw [hcfg] at h
  simp only [Bool.true_eq_false, if_false, hframes, hproto] at h
  split_ifs at h with hlines
  cases hcount : retransmissions tshark cfg with
  | none =>
    rw [hcount] at h
    cases h
  | some count =>
    rw [hcount] at h
    rw [← Except.ok.inj h]
    have hall := captured_doubleReader output
    have hcounted := counted_doubleReader cfg.typeFields protoOutput
    generalize frameTotals output = all at *
    generalize protocolTotals cfg.typeFields protoOutput = proto at *
    refine ⟨proto.packetTypes, rfl, ?_⟩
    exact metrics_eq_ok hlines hall hcounted
      (percentage_doubleReader (all.wireBytes - fileSizeBytes) fileSizeBytes)
      (rate_doubleReader all.wireBytes all.lastTimestamp)
      (rate_doubleReader fileSizeBytes all.lastTimestamp)

/-! ## Junk lines, and a blank at the end of a type -/

def framesHeader : String := ",".intercalate frameFields

def typesHeader : String := "frame.number,frame.len,mqtt.msgtype"

def twoFrames : List String := ["1,60,0.5,17", "2,1500,2.0,17"]

/-- The same frames between a blank, a short and a non-numeric line. -/
def withJunk : List String := ["", "1,60,0.5,17", "1,2", "2,1500,2.0,17", "3,x,4.0,17"]

theorem metrics_consistent_withJunk :
    ∃ m, metrics exactReader 1000 ["mqtt.msgtype"] (outputOf framesHeader twoFrames)
        (outputOf typesHeader ["1,60,3"]) = .ok m ∧
      m.totalPackets = 2 ∧ m.totalWireBytes = 1560 ∧
      metrics exactReader 1000 ["mqtt.msgtype"] (outputOf framesHeader withJunk)
        (outputOf typesHeader ["1,60,3"]) = .ok m := by
  have hdata : (dataLines (outputOf framesHeader twoFrames)).filterMap (frameOf exactReader) =
      [(60, .number (finite (1 / 2))), (1500, .number (finite 2))] := by decide +kernel
  have hframe : ∃ line ∈ dataLines (outputOf framesHeader twoFrames),
      ¬ Junk 3 (FrameCells exactReader) line := by
    refine ⟨"1,60,0.5,17", by decide +kernel, ?_⟩
    rw [← frameOf_eq_none_iff]
    decide +kernel
  have hjunk : ∀ line, frameOf exactReader line = none → Junk 3 (FrameCells exactReader) line :=
    fun line => (frameOf_eq_none_iff line).1
  obtain ⟨m, hm, hconsistent, -, hrobust⟩ := @metrics_consistent exactReader 1000 ["mqtt.msgtype"]
    (outputOf framesHeader twoFrames) (outputOf typesHeader ["1,60,3"]) hframe
  refine ⟨m, hm, ?_, ?_, ?_⟩
  · rw [hconsistent.totalPackets, hdata]
    rfl
  · rw [hconsistent.totalWireBytes, hdata]
    rfl
  · refine hrobust framesHeader typesHeader twoFrames withJunk ["1,60,3"] ["1,60,3"] rfl rfl
      (isOutput_of_all (by decide +kernel)) (isOutput_of_all (by decide +kernel)) ?_
      (.keep _ .nil) ?_
    · have hblank := hjunk "" (by decide +kernel)
      have hshort := hjunk "1,2" (by decide +kernel)
      have hnumber := hjunk "3,x,4.0,17" (by decide +kernel)
      exact .insert hblank (.keep _ (.insert hshort (.keep _ (.insert hnumber .nil))))
    · intro line hline _
      rw [List.mem_singleton.1 hline]
      decide +kernel

/-- A line after the last frame changes the type of that frame, if this ends in a blank. -/
theorem not_unchanged_blankType :
    (∃ line ∈ dataLines (outputOf framesHeader twoFrames),
      ¬ Junk 3 (FrameCells exactReader) line) ∧
    Inserted (Junk 2 (ProtocolCells exactReader)) ["1,60,3 "] ["1,60,3 ", "junk"] ∧
    metrics exactReader 1000 ["mqtt.msgtype"] (outputOf framesHeader twoFrames)
        (outputOf typesHeader ["1,60,3 ", "junk"]) ≠
      metrics exactReader 1000 ["mqtt.msgtype"] (outputOf framesHeader twoFrames)
        (outputOf typesHeader ["1,60,3 "]) := by
  have hne :
      (dataLines (outputOf framesHeader twoFrames)).filterMap (frameOf exactReader) ≠ [] := by
    decide +kernel
  refine ⟨?_, ?_, ?_⟩
  · refine ⟨"1,60,0.5,17", by decide +kernel, ?_⟩
    rw [← frameOf_eq_none_iff]
    decide +kernel
  · refine .keep _ (.insert ((@protocolFrameOf_eq_none_iff exactReader [] "junk").1 ?_) .nil)
    decide +kernel
  · intro heq
    obtain ⟨m, hm, hconsistent⟩ := exists_metrics exactReader 1000 ["mqtt.msgtype"]
      (outputOf typesHeader ["1,60,3 "]) hne
    obtain ⟨m', hm', hconsistent'⟩ := exists_metrics exactReader 1000 ["mqtt.msgtype"]
      (outputOf typesHeader ["1,60,3 ", "junk"]) hne
    rw [hm, hm'] at heq
    have htypes := hconsistent.typeCount "3"
    have htypes' := hconsistent'.typeCount "3"
    rw [Except.ok.inj heq, htypes] at htypes'
    revert htypes'
    decide +kernel

end TransferTestbed.Pcap
