import TransferTestbed.Library.Binary64Order
import TransferTestbed.Library.Grouping
import TransferTestbed.Library.Literal
import TransferTestbed.Pcap.Retransmissions

/-!
# What `analyze_pcap` measures of a capture

A capture as tshark dissects it: the length and the time of each packet, whether the display
filter of the protocol matches it and the type fields there, whether it is marked as a TCP
retransmission, and the CoAP message in it. tshark prints what the analyzer asks for, and the
analyzer reads its numbers back from the three texts.

Results:

* `frameTotals_capture`, `protocolTotals_capture`, `retransmissions_capture`: the three passes.
* `analyzePcap_dissection`: the numbers that are reported, for every protocol and every capture.
-/

namespace TransferTestbed.Pcap

open Runs PcapRows Decimal Numeral Binary64

/-! ## Captures -/

structure Packet where
  number : ℕ
  length : ℕ
  /-- nanoseconds since the first packet -/
  time : ℕ
  ipProto : String
  /-- the type fields, if the display filter of the protocol matches -/
  types : Option (List String)
  /-- The retransmission filter matches. -/
  marked : Bool
  coap : Option Frame

namespace Packet

def seconds (p : Packet) : ℚ := (p.time : ℚ) / 10 ^ 9

/-- The cells of `frameFields`. -/
def cells (p : Packet) : List String :=
  [cellNumber p.number, cellNumber p.length, fixed 9 p.seconds, p.ipProto]

end Packet

/-- A packet that the display filter of the protocol matches, with its type fields. -/
structure Matched where
  number : ℕ
  length : ℕ
  types : List String

def Matched.cells (m : Matched) : List String :=
  cellNumber m.number :: cellNumber m.length :: m.types

/-- What the packet is counted under. -/
def Matched.frameType (m : Matched) : String := (m.types.find? (· ≠ "")).getD "UNKNOWN"

def matched (capture : List Packet) : List Matched :=
  capture.filterMap fun p => p.types.map fun types => ⟨p.number, p.length, types⟩

def protocolFields (cfg : ProtocolConfig) : List String :=
  ["frame.number", "frame.len"] ++ cfg.typeFields

/-- The cells of text are plain, and there is one for each type field. -/
structure WellFormed (cfg : ProtocolConfig) (capture : List Packet) : Prop where
  ipProto : ∀ p ∈ capture, Plain p.ipProto
  types : ∀ m ∈ matched capture,
    m.types.length = cfg.typeFields.length ∧ ∀ cell ∈ m.types, Plain cell

/-- tshark on the capture: a line for each packet that the filter of a query matches. -/
structure Dissects (tshark : Tshark) (cfg : ProtocolConfig) (capture : List Packet) : Prop where
  frames : runTshark tshark none frameFields cfg.decodeAs =
    some (fieldsOutput frameFields (capture.map Packet.cells))
  protocol : runTshark tshark (some cfg.filter) (protocolFields cfg) cfg.decodeAs =
    some (fieldsOutput (protocolFields cfg) ((matched capture).map Matched.cells))
  marked : cfg.isTcp = true →
    runTshark tshark (some retransmissionFilter) ["frame.number"] cfg.decodeAs =
      some (fieldsOutput ["frame.number"]
        ((capture.filter Packet.marked).map fun p => [cellNumber p.number]))
  coap : cfg.isTcp = false → runTshark tshark (some "coap") coapFields [] =
    some (fieldsOutput coapFields ((capture.filterMap Packet.coap).map Frame.cells))

/-! ## Cells -/

theorem readInt_natText (n : ℕ) : readInt (natText n) = some (n : ℤ) := by
  obtain ⟨c, cs, hcs, hc⟩ := isDigit_head_natText n
  have hrun := @takeDigits_append (natText n) [] (fun c hc => isDigit_of_mem_natText hc)
    (by simp) false
  rw [List.append_nil] at hrun
  have hsign : takeSign (natText n) = (false, natText n) := by
    rw [hcs]
    exact Literal.takeSign_of_isDigit hc
  simp [readInt, hsign, hrun, natText_ne_nil, digitsValue_natText]

theorem toList_cellNumber (n : ℕ) : (cellNumber n).toList = natText n := String.toList_ofList

theorem isCellChar_cellNumber (n : ℕ) : ∀ c ∈ (cellNumber n).toList, isCellChar c = true := by
  rw [toList_cellNumber]
  exact isCellChar_natText n

theorem printed_cellNumber (n : ℕ) : Printed [cellNumber n] := by
  refine printed_of_ne (fun h => ?_) []
  have htext := toList_cellNumber n
  rw [h] at htext
  exact natText_ne_nil n htext.symm

theorem intCell_cellNumber (n : ℕ) : intCell (cellNumber n) = some (n : ℤ) := by
  rw [intCell, strip_eq_self fun c hc => isSpace_cellChar (isCellChar_cellNumber n c hc),
    toList_cellNumber, readInt_natText]

theorem isCellChar_fixed {q : ℚ} (hq : 0 ≤ q) : ∀ c ∈ (fixed 9 q).toList, isCellChar c = true := by
  intro c hc
  simp only [fixed, not_lt.2 hq, if_false, String.toList_ofList] at hc
  rcases List.mem_append.1 hc with hc | hc
  · exact isCellChar_natText _ c hc
  · rcases List.mem_cons.1 hc with rfl | hc
    · decide
    · have hdigit := isDigit_of_mem_padLeft (fun c hc => isDigit_of_mem_natText hc) hc
      rw [isCellChar, hdigit]
      rfl

/-- The nanoseconds are printed exactly. -/
theorem floatCell_seconds (p : Packet) : floatCell (fixed 9 p.seconds) = some (fl p.seconds) := by
  have hnonneg : 0 ≤ p.seconds := by
    unfold Packet.seconds
    positivity
  obtain ⟨l, htext, hvalue⟩ := exists_fixed (d := 9) (by norm_num) hnonneg
  have hscaled : p.seconds * 10 ^ 9 = ((p.time : ℤ) : ℚ) := by
    rw [Packet.seconds, div_mul_cancel₀ _ (by norm_num), Int.cast_natCast]
  rw [hscaled, roundEven_intCast, Int.cast_natCast] at hvalue
  rw [floatCell, strip_eq_self fun c hc => isSpace_cellChar (isCellChar_fixed hnonneg c hc),
    ← htext, Literal.readFloat_text, hvalue]
  rfl

/-! ## The three passes -/

/-- The lines of an output with a line of cells for each packet. -/
theorem dataLines_cells {α : Type} {fields : List String}
    (hheader : Solid (",".intercalate fields).toList) (cells : α → List String) {xs : List α}
    (h : ∀ x ∈ xs, Printed (cells x) ∧ ∀ cell ∈ cells x, Plain cell) :
    dataLines (fieldsOutput fields (xs.map cells)) =
      xs.map fun x => String.ofList (quotedLine (cells x)) := by
  have hrows : ∀ row ∈ xs.map cells, Printed row ∧ ∀ cell ∈ row, Plain cell := by
    intro row hrow
    obtain ⟨x, hx, rfl⟩ := List.mem_map.1 hrow
    exact h x hx
  rw [dataLines, outputLines_fieldsOutput hheader hrows, List.drop_one, List.tail_cons,
    List.map_map]
  rfl

theorem printed_packet (p : Packet) : Printed p.cells := printed_cons_cons _ _ _

theorem plain_packet {p : Packet} (hproto : Plain p.ipProto) : ∀ cell ∈ p.cells, Plain cell := by
  have hseconds : 0 ≤ p.seconds := by
    unfold Packet.seconds
    positivity
  intro cell hcell
  simp only [Packet.cells, List.mem_cons, List.not_mem_nil, or_false] at hcell
  rcases hcell with rfl | rfl | rfl | rfl
  · exact plain_of_cellChars (isCellChar_cellNumber _)
  · exact plain_of_cellChars (isCellChar_cellNumber _)
  · exact plain_of_cellChars (isCellChar_fixed hseconds)
  · exact hproto

theorem frameOfLine_packet {p : Packet} (hproto : Plain p.ipProto) :
    frameOfLine (String.ofList (quotedLine p.cells)) = some ((p.length : ℤ), fl p.seconds) := by
  rw [frameOfLine, isBlank_quotedLine (printed_packet p),
    csvFields_quotedLine (printed_packet p) (plain_packet hproto)]
  simp only [Packet.cells, Bool.false_eq_true, if_false, intCell_cellNumber, floatCell_seconds,
    Option.bind_some, Option.map_some]

/-- The time of the last packet. -/
def lastSeconds (capture : List Packet) : ℚ := (capture.map Packet.seconds).foldl max 0

def wireBytes (capture : List Packet) : ℕ := (capture.map Packet.length).sum

/-- The largest rounded time is the largest time, rounded. -/
theorem foldl_max_fl (times : List ℚ) (last : ℚ) :
    (times.map fl).foldl max (fl last) = fl (times.foldl max last) := by
  induction times generalizing last with
  | nil => rfl
  | cons q times ih =>
    have hmax : max (fl last) (fl q) = fl (max last q) := (Monotone.map_max fun _ _ => fl_mono).symm
    rw [List.map_cons, List.foldl_cons, List.foldl_cons, hmax]
    exact ih (max last q)

theorem foldl_frames (capture : List Packet) (h : ∀ p ∈ capture, Plain p.ipProto)
    (acc : FrameTotals) :
    (capture.map fun p => String.ofList (quotedLine p.cells)).foldl .add acc =
      ⟨acc.packets + capture.length, acc.wireBytes + wireBytes capture,
        ((capture.map Packet.seconds).map fl).foldl max acc.lastTimestamp⟩ := by
  induction capture generalizing acc with
  | nil => simp [wireBytes]
  | cons p capture ih =>
    rw [List.map_cons, List.foldl_cons, ih (fun q hq => h q (List.mem_cons_of_mem p hq)),
      FrameTotals.add, frameOfLine_packet (h p List.mem_cons_self)]
    simp only [wireBytes, List.map_cons, List.sum_cons, List.length_cons, List.foldl_cons]
    push_cast
    rw [add_assoc, add_assoc, add_comm (1 : ℤ)]

/-- **All frames**: their number, their bytes and the time of the last one. -/
theorem frameTotals_capture {capture : List Packet} (h : ∀ p ∈ capture, Plain p.ipProto) :
    frameTotals (fieldsOutput frameFields (capture.map Packet.cells)) =
      ⟨capture.length, wireBytes capture, fl (lastSeconds capture)⟩ := by
  have hcells : ∀ p ∈ capture, Printed p.cells ∧ ∀ cell ∈ p.cells, Plain cell :=
    fun p hp => ⟨printed_packet _, plain_packet (h p hp)⟩
  have hzero : (0 : ℚ) = fl 0 := fl_zero.symm
  rw [frameTotals, dataLines_cells solid_frameFields _ hcells, foldl_frames capture h]
  simp only [zero_add]
  rw [hzero, foldl_max_fl, lastSeconds]

theorem printed_matched (m : Matched) : Printed m.cells := printed_cons_cons _ _ _

theorem plain_matched {m : Matched} (htypes : ∀ cell ∈ m.types, Plain cell) :
    ∀ cell ∈ m.cells, Plain cell := by
  intro cell hcell
  simp only [Matched.cells, List.mem_cons] at hcell
  rcases hcell with rfl | rfl | hcell
  · exact plain_of_cellChars (isCellChar_cellNumber _)
  · exact plain_of_cellChars (isCellChar_cellNumber _)
  · exact htypes cell hcell

theorem protocolFrameOfLine_matched {cfg : ProtocolConfig} {m : Matched}
    (hlength : m.types.length = cfg.typeFields.length) (hplain : ∀ cell ∈ m.types, Plain cell) :
    protocolFrameOfLine cfg.typeFields (String.ofList (quotedLine m.cells)) =
      some ((m.length : ℤ), m.frameType) := by
  have htype : parseFrameType m.cells cfg.typeFields = m.frameType := by
    rw [parseFrameType, ← hlength]
    simp [Matched.cells, Matched.frameType]
  rw [protocolFrameOfLine, isBlank_quotedLine (printed_matched m),
    csvFields_quotedLine (printed_matched m) (plain_matched hplain)]
  simp only [Bool.false_eq_true, if_false, htype]
  simp only [Matched.cells, intCell_cellNumber, Option.map_some]

theorem foldl_protocol {cfg : ProtocolConfig} (ms : List Matched)
    (h : ∀ m ∈ ms, m.types.length = cfg.typeFields.length ∧ ∀ cell ∈ m.types, Plain cell)
    (acc : ProtocolTotals) :
    let totals := (ms.map fun m => String.ofList (quotedLine m.cells)).foldl
      (.add cfg.typeFields) acc
    totals.packets = acc.packets + ms.length ∧
      totals.wireBytes = acc.wireBytes + ((ms.map Matched.length).sum : ℕ) ∧
      totals.packetTypes = (ms.map Matched.frameType).foldl Tally.bump acc.packetTypes := by
  induction ms generalizing acc with
  | nil => simp
  | cons m ms ih =>
    obtain ⟨hlength, hplain⟩ := h m List.mem_cons_self
    obtain ⟨hpackets, hbytes, htypes⟩ := ih (fun q hq => h q (List.mem_cons_of_mem m hq))
      (acc.add cfg.typeFields (String.ofList (quotedLine m.cells)))
    dsimp only at hpackets hbytes htypes ⊢
    rw [List.map_cons, List.foldl_cons, hpackets, hbytes, htypes, ProtocolTotals.add,
      protocolFrameOfLine_matched hlength hplain]
    refine ⟨?_, ?_, rfl⟩
    · dsimp only
      rw [List.length_cons]
      push_cast
      ring
    · dsimp only
      rw [List.map_cons, List.sum_cons]
      push_cast
      ring

theorem solid_of_all {line : List Char} (hne : line ≠ [])
    (h : line.all (fun c => !isSpace c && !Lines.isLineBreak c) = true) : Solid line := by
  have hchar : ∀ c ∈ line, isSpace c = false ∧ Lines.isLineBreak c = false := by
    intro c hc
    have := List.all_eq_true.1 h c hc
    simpa using this
  refine ⟨fun c hc => (hchar c hc).2, ⟨line.head hne, List.head?_eq_some_head hne, ?_⟩,
    ⟨line.getLast hne, List.getLast?_eq_some_getLast hne, ?_⟩⟩
  · exact (hchar _ (List.head_mem hne)).1
  · exact (hchar _ (List.getLast_mem hne)).1

theorem solid_protocolFields {protocol : String} {cfg : ProtocolConfig}
    (h : protocolConfig.get? protocol = some cfg) :
    Solid (",".intercalate (protocolFields cfg)).toList := by
  have hall : ∀ cfg ∈ protocolConfig.map Prod.snd,
      (",".intercalate (protocolFields cfg)).toList ≠ [] ∧
        (",".intercalate (protocolFields cfg)).toList.all
          (fun c => !isSpace c && !Lines.isLineBreak c) = true := by
    decide +kernel
  obtain ⟨hne, hchars⟩ := hall cfg (List.mem_map_of_mem (Dict.mem_of_get? h))
  exact solid_of_all hne hchars

/-- **The packets of the protocol**: their number, their bytes and their types. -/
theorem protocolTotals_capture {protocol : String} {cfg : ProtocolConfig}
    (hcfg : protocolConfig.get? protocol = some cfg) {capture : List Packet}
    (hwell : WellFormed cfg capture) :
    let totals := protocolTotals cfg.typeFields
      (fieldsOutput (protocolFields cfg) ((matched capture).map Matched.cells))
    totals.packets = (matched capture).length ∧
      totals.wireBytes = (((matched capture).map Matched.length).sum : ℕ) ∧
      totals.packetTypes = Tally.tally ((matched capture).map Matched.frameType) := by
  have hcells : ∀ m ∈ matched capture, Printed m.cells ∧ ∀ cell ∈ m.cells, Plain cell :=
    fun m hm => ⟨printed_matched _, plain_matched (hwell.types m hm).2⟩
  obtain ⟨hpackets, hbytes, htypes⟩ := foldl_protocol (matched capture) hwell.types .init
  rw [protocolTotals, dataLines_cells (solid_protocolFields hcfg) _ hcells]
  refine ⟨?_, ?_, htypes⟩
  · exact hpackets.trans (zero_add _)
  · exact hbytes.trans (zero_add _)

/-- The Message IDs and sources of the Confirmable messages. -/
def conKeys (capture : List Packet) : List (String × String) :=
  ((capture.filterMap Packet.coap).filter isCon).map Frame.key

/-- The marked packets for TCP, and for CoAP the repeats of a Message ID by its source. -/
def retransmitted (cfg : ProtocolConfig) (capture : List Packet) : ℕ :=
  if cfg.isTcp then capture.countP Packet.marked
  else (conKeys capture).length - (conKeys capture).toFinset.card

/-- **Retransmissions**. -/
theorem retransmissions_capture {tshark : Tshark} {cfg : ProtocolConfig} {capture : List Packet}
    (h : Dissects tshark cfg capture) :
    retransmissions tshark cfg = some (retransmitted cfg capture) := by
  unfold retransmissions retransmitted
  cases htcp : cfg.isTcp with
  | true =>
    have hheader : Solid (",".intercalate ["frame.number"]).toList :=
      solid_of_all (by decide +kernel) (by decide +kernel)
    have hplain : ∀ p ∈ capture.filter Packet.marked, Printed [cellNumber p.number] ∧
        ∀ cell ∈ [cellNumber p.number], Plain cell := by
      intro p _
      refine ⟨printed_cellNumber _, fun cell hcell => ?_⟩
      rw [List.mem_singleton.1 hcell]
      exact plain_of_cellChars (isCellChar_cellNumber _)
    rw [if_pos rfl, if_pos rfl, h.marked htcp, Option.map_some, tcpRetransmissions,
      dataLines_cells hheader _ hplain]
    have hkeep : ∀ line ∈ (capture.filter Packet.marked).map
        (fun p => String.ofList (quotedLine [cellNumber p.number])), (!isBlank line) = true := by
      intro line hline
      obtain ⟨p, -, rfl⟩ := List.mem_map.1 hline
      rw [isBlank_quotedLine (printed_cellNumber _)]
      rfl
    rw [List.filter_eq_self.2 hkeep, List.length_map, List.countP_eq_length_filter]
  | false =>
    have hcount := coapRetransmissions_add_card
      (fieldsOutput coapFields ((capture.filterMap Packet.coap).map Frame.cells))
    rw [conKeys_coapOutput] at hcount
    rw [if_neg (by decide), if_neg (by decide), h.coap htcp, Option.map_some]
    exact congrArg some (Nat.eq_sub_of_add_eq hcount)

/-! ## The report -/

/-- The numbers that are reported are those of the capture. -/
structure Measures (cfg : ProtocolConfig) (capture : List Packet) (fileSizeBytes : ℕ)
    (r : PcapResult) : Prop where
  totalPackets : r.totalPackets = capture.length
  totalWireBytes : r.totalWireBytes = wireBytes capture
  duration : r.durationSeconds = .float (fl (lastSeconds capture))
  protocolPackets : r.protocolPackets = (matched capture).length
  protocolWireBytes : r.protocolWireBytes = (((matched capture).map Matched.length).sum : ℕ)
  packetTypes : ∀ t, (r.packetTypes.counts.get? t).getD 0 =
    ((matched capture).map Matched.frameType).count t
  listed : ∀ t, t ∈ r.packetTypes.counts.keys ↔ t ∈ (matched capture).map Matched.frameType
  retransmissions : r.retransmissions = retransmitted cfg capture
  overhead : r.totalOverheadBytes = wireBytes capture - fileSizeBytes
  throughput : r.wireThroughputMbps = mbps (wireBytes capture) (fl (lastSeconds capture))
  goodput : r.goodputMbps = mbps fileSizeBytes (fl (lastSeconds capture))

theorem measures_pcapResult {cfg : ProtocolConfig} {capture : List Packet} {all : FrameTotals}
    {proto : ProtocolTotals}
    (hall : all = ⟨capture.length, wireBytes capture, fl (lastSeconds capture)⟩)
    (hpackets : proto.packets = (matched capture).length)
    (hbytes : proto.wireBytes = (((matched capture).map Matched.length).sum : ℕ))
    (htypes : proto.packetTypes = Tally.tally ((matched capture).map Matched.frameType))
    (fileSizeBytes : ℕ) (protocol : String) (filename : Option String) (qosLevel : Option ℤ)
    (label : Option String) :
    Measures cfg capture fileSizeBytes (pcapResult fileSizeBytes protocol filename qosLevel label
      all proto (retransmitted cfg capture)) := by
  subst hall
  have hcounts : proto.histogram.counts = Dict.mapValues Nat.cast proto.packetTypes := rfl
  refine ⟨rfl, rfl, rfl, hpackets, hbytes, ?_, ?_, rfl, rfl, rfl, rfl⟩
  · intro t
    simp only [pcapResult]
    rw [hcounts, Dict.get?_mapValues, htypes, ← Tally.get?_tally]
    cases (Tally.tally ((matched capture).map Matched.frameType)).get? t <;> rfl
  · intro t
    simp only [pcapResult]
    rw [hcounts, Dict.keys_mapValues, htypes]
    exact Tally.mem_keys_tally

/-- **The analysis of a capture**, for each protocol of the configuration: it returns unless the
    capture is empty, and reports the numbers of the capture. -/
theorem analyzePcap_dissection {tshark : Tshark} {protocol : String} {cfg : ProtocolConfig}
    (hcfg : protocolConfig.get? protocol = some cfg) {capture : List Packet}
    (hwell : WellFormed cfg capture) (htshark : Dissects tshark cfg capture) (fileSizeBytes : ℕ)
    (filename : Option String) (qosLevel : Option ℤ) (label : Option String) :
    (capture = [] → analyzePcap true tshark fileSizeBytes protocol filename qosLevel label =
      .error .noPackets) ∧
    (capture ≠ [] → ∃ r, analyzePcap true tshark fileSizeBytes protocol filename qosLevel label =
      .ok r ∧ Measures cfg capture fileSizeBytes r) := by
  have hrows : ∀ row ∈ capture.map Packet.cells, Printed row ∧ ∀ cell ∈ row, Plain cell := by
    intro row hrow
    obtain ⟨p, hp, rfl⟩ := List.mem_map.1 hrow
    exact ⟨printed_packet _, plain_packet (hwell.ipProto p hp)⟩
  have hlines : (outputLines (fieldsOutput frameFields (capture.map Packet.cells))).length =
      capture.length + 1 := by
    rw [outputLines_fieldsOutput solid_frameFields hrows]
    simp
  have hproto := htshark.protocol
  unfold protocolFields at hproto
  have hanalysis : analyzePcap true tshark fileSizeBytes protocol filename qosLevel label =
      if capture.length + 1 ≤ 1 then .error .noPackets
      else .ok (pcapResult fileSizeBytes protocol filename qosLevel label
        (frameTotals (fieldsOutput frameFields (capture.map Packet.cells)))
        (protocolTotals cfg.typeFields
          (fieldsOutput (protocolFields cfg) ((matched capture).map Matched.cells)))
        (retransmitted cfg capture)) := by
    unfold analyzePcap
    simp only [hcfg, Bool.true_eq_false, if_false, htshark.frames, hproto, hlines,
      retransmissions_capture htshark]
    rfl
  constructor
  · rintro rfl
    rw [hanalysis, if_pos (by simp)]
  · intro hne
    have hpos := List.length_pos_iff.2 hne
    obtain ⟨hpackets, hbytes, htypes⟩ := protocolTotals_capture hcfg hwell
    rw [hanalysis, if_neg (by omega)]
    exact ⟨_, rfl, measures_pcapResult (frameTotals_capture hwell.ipProto) hpackets hbytes htypes
      fileSizeBytes protocol filename qosLevel label⟩

/-- tshark on one capture. -/
def dissector (cfg : ProtocolConfig) (capture : List Packet) : Tshark := fun args =>
  if args = tsharkArgs none frameFields cfg.decodeAs then
    some (fieldsOutput frameFields (capture.map Packet.cells))
  else if args = tsharkArgs (some cfg.filter) (protocolFields cfg) cfg.decodeAs then
    some (fieldsOutput (protocolFields cfg) ((matched capture).map Matched.cells))
  else if args = tsharkArgs (some retransmissionFilter) ["frame.number"] cfg.decodeAs then
    some (fieldsOutput ["frame.number"]
      ((capture.filter Packet.marked).map fun p => [cellNumber p.number]))
  else if args = tsharkArgs (some "coap") coapFields [] then
    some (fieldsOutput coapFields ((capture.filterMap Packet.coap).map Frame.cells))
  else none

def mqttConfig : ProtocolConfig := ⟨"mqtt", ["mqtt.msgtype"], true, []⟩

/-- A PUBLISH that is sent again, and its acknowledgement. -/
def publishCapture : List Packet :=
  [⟨1, 1200, 0, "6", some ["3"], false, none⟩, ⟨2, 1200, 200000000, "6", some ["3"], true, none⟩,
    ⟨3, 70, 215000000, "6", none, false, none⟩]

theorem dissects_publishCapture :
    Dissects (dissector mqttConfig publishCapture) mqttConfig publishCapture where
  frames := rfl
  protocol := by
    have h : tsharkArgs (some mqttConfig.filter) (protocolFields mqttConfig) mqttConfig.decodeAs ≠
        tsharkArgs none frameFields mqttConfig.decodeAs := by decide
    rw [runTshark, dissector, if_neg h, if_pos rfl]
  marked _ := by
    have h : tsharkArgs (some retransmissionFilter) ["frame.number"] mqttConfig.decodeAs ≠
        tsharkArgs none frameFields mqttConfig.decodeAs := by decide
    have h' : tsharkArgs (some retransmissionFilter) ["frame.number"] mqttConfig.decodeAs ≠
        tsharkArgs (some mqttConfig.filter) (protocolFields mqttConfig) mqttConfig.decodeAs := by
      decide
    rw [runTshark, dissector, if_neg h, if_neg h', if_pos rfl]
  coap htcp := by cases htcp

theorem wellFormed_publishCapture : WellFormed mqttConfig publishCapture := by
  have hplain : Plain "6" ∧ Plain "3" := by
    constructor
    · exact plain_of_cellChars (by simp [isCellChar, Decimal.isDigit])
    · exact plain_of_cellChars (by simp [isCellChar, Decimal.isDigit])
  constructor
  · simp [publishCapture, hplain]
  · simp [matched, publishCapture, mqttConfig, hplain]

theorem analyzePcap_publishCapture : ∃ r, analyzePcap true (dissector mqttConfig publishCapture)
    1000 "mqtt" (some "a.bin") (some 1) none = .ok r ∧
      Measures mqttConfig publishCapture 1000 r :=
  (analyzePcap_dissection (by decide) wellFormed_publishCapture dissects_publishCapture 1000
    (some "a.bin") (some 1) none).2 (by simp [publishCapture])

end TransferTestbed.Pcap
