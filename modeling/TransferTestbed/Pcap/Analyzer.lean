import TransferTestbed.Library.Numeral
import TransferTestbed.Library.Tally
import TransferTestbed.Output.PcapRows
import TransferTestbed.Pcap.Tshark

/-!
# The analysis of one pcap (`common/pcap_analyzer.py`)

`analyze_pcap`: the totals of all frames and of the frames of the protocol, the
retransmissions, and the derived metrics. Lines that are blank, short or not
numeric are passed over. The console output is left out.

Results:
* `coapRetransmissions_add_card`: the count for CoAP is the number of CON lines
  less the number of distinct (MID, source) pairs among them.
* `analyzePcap_eq_ok`: when the analysis of a CoAP capture goes through.
-/

namespace TransferTestbed.Pcap

open Runs PcapRows

/-- How `analyze_pcap` ends when it does not return. -/
inductive AnalysisError where
  | unknownProtocol (protocol : String)
  | noPcap
  | tsharkFailed
  | noPackets
deriving DecidableEq, Repr

/-! ## All captured frames (lines 219–259) -/

def frameFields : List String := ["frame.number", "frame.len", "frame.time_relative", "ip.proto"]

/-- `int(cell)`. -/
def intCell (cell : String) : Option ℤ := Numeral.readInt (strip cell).toList

/-- `float(cell)`. -/
def floatCell (cell : String) : Option ℚ := Numeral.readFloat (strip cell).toList

/-- The length and the relative time of a frame; `none` for a line passed over. -/
def frameOfLine (line : String) : Option (ℤ × ℚ) :=
  if isBlank line then none
  else
    match csvFields line with
    | _ :: len :: time :: _ =>
      (intCell len).bind fun frameLen => (floatCell time).map fun timestamp => (frameLen, timestamp)
    | _ => none

structure FrameTotals where
  packets : ℤ
  wireBytes : ℤ
  lastTimestamp : ℚ
deriving DecidableEq, Repr

/-- One turn of the loop over `packet_rows`. -/
def FrameTotals.add (acc : FrameTotals) (line : String) : FrameTotals :=
  match frameOfLine line with
  | none => acc
  | some (frameLen, timestamp) =>
    ⟨acc.packets + 1, acc.wireBytes + frameLen, max acc.lastTimestamp timestamp⟩

def frameTotals (output : String) : FrameTotals := (dataLines output).foldl .add ⟨0, 0, 0⟩

/-! ## Protocol packets (lines 265–302) -/

/-- The length and the type of a protocol frame; `none` for a line passed over. -/
def protocolFrameOfLine (typeFields : List String) (line : String) : Option (ℤ × String) :=
  if isBlank line then none
  else
    let parts := csvFields line
    match parts with
    | _ :: len :: _ =>
      (intCell len).map fun frameLen => (frameLen, parseFrameType parts typeFields)
    | _ => none

structure ProtocolTotals where
  packets : ℤ
  wireBytes : ℤ
  packetTypes : Dict String ℕ
  nodup : packetTypes.keys.Nodup

def ProtocolTotals.init : ProtocolTotals := ⟨0, 0, [], List.nodup_nil⟩

/-- One turn of the loop over `proto_lines[1:]`. -/
def ProtocolTotals.add (typeFields : List String) (acc : ProtocolTotals) (line : String) :
    ProtocolTotals :=
  match protocolFrameOfLine typeFields line with
  | none => acc
  | some (frameLen, frameType) =>
    ⟨acc.packets + 1, acc.wireBytes + frameLen, Tally.bump acc.packetTypes frameType,
      Tally.nodup_keys_bump acc.nodup frameType⟩

def protocolTotals (typeFields : List String) (output : String) : ProtocolTotals :=
  (dataLines output).foldl (.add typeFields) .init

theorem keys_map_cast (d : Dict String ℕ) :
    Dict.keys (d.map fun p => (p.1, (p.2 : ℤ))) = d.keys := by
  rw [Dict.keys, List.map_map]
  rfl

def ProtocolTotals.histogram (p : ProtocolTotals) : Histogram where
  counts := p.packetTypes.map fun q => (q.1, (q.2 : ℤ))
  nodup := by
    rw [keys_map_cast]
    exact p.nodup

/-! ## Retransmissions (lines 308–355) -/

/-- The frames that tshark marks as TCP retransmissions. -/
def tcpRetransmissions (output : String) : ℕ :=
  ((dataLines output).filter fun line => !isBlank line).length

def coapFields : List String := ["coap.type", "coap.mid", "ip.src"]

/-- The `(mid, src)` of a line of a CON message; `none` for a line passed over. -/
def conKey (line : String) : Option (String × String) :=
  if isBlank line then none
  else
    match csvFields line with
    | msgType :: mid :: src :: _ =>
      if strip msgType = "0" ∧ strip mid ≠ "" ∧ strip src ≠ "" then some (strip mid, strip src)
      else none
    | _ => none

/-- One turn of the loop over the lines of `con_output`. -/
def countCon (conCounts : Dict (String × String) ℕ) (line : String) : Dict (String × String) ℕ :=
  match conKey line with
  | none => conCounts
  | some key => Tally.bump conCounts key

/-- The repeats of Message IDs among the CON messages of each source. -/
def coapRetransmissions (output : String) : ℕ :=
  Tally.repeats ((dataLines output).foldl countCon [])

def retransmissions (tshark : Tshark) (cfg : ProtocolConfig) : Option ℕ :=
  if cfg.isTcp then
    (runTshark tshark (some retransmissionFilter) ["frame.number"] cfg.decodeAs).map
      tcpRetransmissions
  else (runTshark tshark (some "coap") coapFields []).map coapRetransmissions

/-! ## Derived metrics (lines 361–409) -/

/-- `bytes * 8 / (duration * 1_000_000)`. -/
def mbps (bytes : ℤ) (duration : ℚ) : Number :=
  if 0 < duration then .float (Binary64.fl (Binary64.fl (bytes * 8) /
    Binary64.fl (duration * 1000000)))
  else .int 0

/-- `total_overhead_bytes / file_size_bytes * 100`. -/
def overheadPercentage (totalOverheadBytes : ℤ) (fileSizeBytes : ℕ) : Number :=
  if 0 < fileSizeBytes then
    .float (Binary64.fl (Binary64.fl ((totalOverheadBytes : ℚ) / fileSizeBytes) * 100))
  else .int 0

/-- The dictionary that `analyze_pcap` returns (lines 392–409). -/
def pcapResult (fileSizeBytes : ℕ) (protocol : String) (filename : Option String)
    (qosLevel : Option ℤ) (label : Option String) (all : FrameTotals) (proto : ProtocolTotals)
    (tcpRetransmissions : ℕ) : PcapResult where
  filename := filename
  label := label
  protocol := some protocol
  qos := qosLevel
  fileSizeBytes := fileSizeBytes
  totalPackets := all.packets
  totalWireBytes := all.wireBytes
  protocolPackets := proto.packets
  protocolWireBytes := proto.wireBytes
  retransmissions := tcpRetransmissions
  durationSeconds := .float all.lastTimestamp
  totalOverheadBytes := all.wireBytes - fileSizeBytes
  overheadPercentage := overheadPercentage (all.wireBytes - fileSizeBytes) fileSizeBytes
  wireThroughputMbps := mbps all.wireBytes all.lastTimestamp
  goodputMbps := mbps fileSizeBytes all.lastTimestamp
  packetTypes := proto.histogram

/-- `analyze_pcap(pcap_file, file_size_bytes, protocol, filename, qos_level, label)`
    (lines 193–409). -/
def analyzePcap (pcapExists : Bool) (tshark : Tshark) (fileSizeBytes : ℕ) (protocol : String)
    (filename : Option String) (qosLevel : Option ℤ) (label : Option String) :
    Except AnalysisError PcapResult :=
  match protocolConfig.get? protocol with
  | none => .error (.unknownProtocol protocol)
  | some cfg =>
    if pcapExists = false then .error .noPcap
    else
      match runTshark tshark none frameFields cfg.decodeAs with
      | none => .error .tsharkFailed
      | some output =>
        if (outputLines output).length ≤ 1 then .error .noPackets
        else
          match runTshark tshark (some cfg.filter)
            (["frame.number", "frame.len"] ++ cfg.typeFields) cfg.decodeAs with
          | none => .error .tsharkFailed
          | some protoOutput =>
            match retransmissions tshark cfg with
            | none => .error .tsharkFailed
            | some count =>
              .ok (pcapResult fileSizeBytes protocol filename qosLevel label (frameTotals output)
                (protocolTotals cfg.typeFields protoOutput) count)

/-! ## The count for CoAP -/

theorem foldl_countCon (lines : List String) (d : Dict (String × String) ℕ) :
    lines.foldl countCon d = (lines.filterMap conKey).foldl Tally.bump d := by
  induction lines generalizing d with
  | nil => rfl
  | cons line lines ih =>
    rw [List.foldl_cons, ih]
    unfold countCon
    cases hkey : conKey line with
    | none => rw [List.filterMap_cons_none hkey]
    | some key => rw [List.filterMap_cons_some hkey, List.foldl_cons]

/-- The count is the number of CON lines less the number of distinct pairs of a
    Message ID and a source among them. -/
theorem coapRetransmissions_add_card (output : String) :
    coapRetransmissions output + ((dataLines output).filterMap conKey).toFinset.card =
      ((dataLines output).filterMap conKey).length := by
  rw [coapRetransmissions, foldl_countCon]
  exact Tally.repeats_add_card ((dataLines output).filterMap conKey)

/-- When tshark answers the three queries of a CoAP capture, the analysis goes
    through exactly if the first answer has a line after its header. -/
theorem analyzePcap_eq_ok {tshark : Tshark} {protocol : String} {cfg : ProtocolConfig}
    (hcfg : protocolConfig.get? protocol = some cfg) (hudp : cfg.isTcp = false)
    {output protoOutput conOutput : String}
    (hframes : runTshark tshark none frameFields cfg.decodeAs = some output)
    (hproto : runTshark tshark (some cfg.filter)
      (["frame.number", "frame.len"] ++ cfg.typeFields) cfg.decodeAs = some protoOutput)
    (hcon : runTshark tshark (some "coap") coapFields [] = some conOutput)
    (fileSizeBytes : ℕ) (filename : Option String) (qosLevel : Option ℤ) (label : Option String)
    (P : ℤ → Prop) :
    (∃ r, analyzePcap true tshark fileSizeBytes protocol filename qosLevel label = .ok r ∧
        P r.retransmissions) ↔
      1 < (outputLines output).length ∧ P (coapRetransmissions conOutput) := by
  have hcount : retransmissions tshark cfg = some (coapRetransmissions conOutput) := by
    rw [retransmissions, hudp, hcon]
    rfl
  unfold analyzePcap
  rw [hcfg]
  simp only [Bool.true_eq_false, if_false, hframes, hproto, hcount]
  split_ifs with hlines
  · constructor
    · rintro ⟨r, h, -⟩
      cases h
    · rintro ⟨h, -⟩
      omega
  · constructor
    · rintro ⟨r, h, hP⟩
      rw [← Except.ok.inj h] at hP
      exact ⟨by omega, hP⟩
    · rintro ⟨-, hP⟩
      exact ⟨_, rfl, hP⟩

end TransferTestbed.Pcap
