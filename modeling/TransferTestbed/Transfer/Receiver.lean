import TransferTestbed.Common.ResourceMonitor
import TransferTestbed.Output.WriteCsv
import TransferTestbed.Transfer.Chunking
import TransferTestbed.Transfer.Disk

/-!
# The reassembling receivers

`on_message` of the MQTT receiver (`protocols/MQTT/clients/client_b.py`) and
`on_control`, `on_data` of the AMQP receiver
(`protocols/AMQP/receiver/amqp_receiver.py`), which mirrors it. The globals of
the two programs are one record; `currentQos` is used by MQTT only, `monitoring`
by AMQP only. A handler returns the globals it leaves, also when it raises.
Appending the measurement row succeeds.

Results:
* `handle_control`: what a control message does.
* `handle_data_spec`: what a chunk of an open transfer does.
* `transferCompleted_raises`, `transferCompleted_returns`: the end of a transfer.
-/

namespace TransferTestbed.Transfer

open Integrity WriteCsv Chunking Json ResourceMonitor

inductive Dialect where
  | mqtt
  | amqp
deriving DecidableEq, Repr

/-- What a receiver reads of the world. -/
structure World where
  /-- The successive readings of `time.perf_counter`. -/
  clock : ℕ → ℚ
  /-- How many bytes each call of `write` leaves in the buffer, if there are as many. -/
  buffered : ℕ → ℕ
  bufferSize : ℕ
  /-- The successive results of the resource monitor. -/
  stats : ℕ → Stats

/-- A clock that advances by a second at every reading, and a buffer of 8192 bytes of
    which up to `keep` are kept. -/
def tickingWorld (keep : ℕ) : World := ⟨fun n => n, fun _ => keep, 8192, fun _ => .zero⟩

inductive HandlerError where
  | jsonDecodeError
  | keyError (key : String)
  | typeError
  | valueError
  | zeroDivisionError
deriving DecidableEq, Repr

/-- The globals, the output directory, the rows appended so far, and how many
    readings, writes and monitors there have been. -/
structure Receiver where
  disk : Disk
  expectedChunks : Scalar
  receivedChunks : ℕ
  currentFilename : Scalar
  receivedBytes : ℕ
  firstChunkReceived : Bool
  startLatency : ℚ
  metadataArrivalTime : ℚ
  transferStartTime : ℚ
  expectedChecksum : Scalar
  currentQos : Scalar
  monitoring : Bool
  rows : List Row
  readings : ℕ
  writes : ℕ
  monitors : ℕ

/-- A receiver that has just been started. -/
def Receiver.init (files : Dict String Bytes) : Receiver where
  disk := ⟨files, none⟩
  expectedChunks := .int 0
  receivedChunks := 0
  currentFilename := .str ""
  receivedBytes := 0
  firstChunkReceived := false
  startLatency := 0
  metadataArrivalTime := 0
  transferStartTime := 0
  expectedChecksum := .null
  currentQos := .str "unknown"
  monitoring := false
  rows := []
  readings := 0
  writes := 0
  monitors := 0

/-! ## Control messages -/

/-- `handle = open(get_file_path_output(current_filename), "wb")` after the stale
    handle is closed; joining a path with something else than a string raises. -/
def openOutput (s : Receiver) : Receiver × Option HandlerError :=
  let s := { s with disk := s.disk.close }
  match s.currentFilename with
  | .str path => ({ s with disk := s.disk.openWrite path }, none)
  | _ => (s, some .typeError)

/-- The control branch of `on_message` (lines 97–134) and `on_control` up to the
    monitor (lines 102–126). -/
def startTransfer (w : World) (s : Receiver) (text : List Char) : Receiver × Option HandlerError :=
  let s := { s with
    metadataArrivalTime := w.clock s.readings
    readings := s.readings + 1
    firstChunkReceived := false }
  match loads text with
  | none => (s, some .jsonDecodeError)
  | some metadata =>
    match metadata.get? "filename" with
    | none => (s, some (.keyError "filename"))
    | some filename =>
      let s := { s with currentFilename := filename }
      match metadata.get? "total_chunks" with
      | none => (s, some (.keyError "total_chunks"))
      | some totalChunks =>
        openOutput { s with
          expectedChunks := totalChunks
          receivedChunks := 0
          receivedBytes := 0
          startLatency := 0
          transferStartTime := 0
          expectedChecksum := (metadata.get? "checksum").getD .null
          currentQos := (metadata.get? "qos").getD (.str "unknown") }

/-! ## Chunks -/

def scalarCell : Scalar → Cell
  | .null => .none
  | .bool b => .bool b
  | .int z => .int z
  | .str s => .str s

/-- `n == x` in Python, for a non-negative integer `n`. -/
def pyEq (n : ℕ) : Scalar → Bool
  | .int z => (n : ℤ) = z
  | .bool b => n = b.toNat
  | _ => false

/-- The row of a completed transfer, after the clock reading of its end. -/
def receiverRow (k : Dialect) (s : Receiver) (duration : ℚ) (stats : Stats) (integrityOk : Bool) :
    Row :=
  let common : Row :=
    [("side", .str "receiver"),
      ("file_size", .float (Binary64.trueDiv s.receivedBytes (1024 * 1024))),
      ("sender_duration", .str "X"), ("receiver_duration", .str (Decimal.fixed 2 duration)),
      ("latency", .str (Decimal.fixed 4 s.startLatency)),
      ("goodput_mbps", .str (Decimal.fixed 3 (goodputMbps s.receivedBytes duration))),
      ("integrity_ok", .bool integrityOk)]
  match k with
  | .mqtt => [("protocol", .str "mqtt"), ("qos", scalarCell s.currentQos)] ++ common
  | .amqp =>
    [("protocol", .str "amqp")] ++ common ++ stats.texts.map fun p => (p.1, .str p.2)

/-- The checksum of the current file, read through its path while the handle is
    still open. -/
def actualChecksum (s : Receiver) : String :=
  match s.currentFilename with
  | .str path => computeSha256File ((s.disk.content path).getD [])
  | _ => ""

/-- `monitor.stop() if monitor else {}`, with the zeros a missing result stands for. -/
def stopMonitor (k : Dialect) (w : World) (s : Receiver) : Receiver × Stats :=
  if k = .amqp ∧ s.monitoring = true then
    ({ s with monitoring := false, monitors := s.monitors + 1 }, w.stats s.monitors)
  else (s, .zero)

/-- How long the transfer took, by the clock reading at its end. -/
def durationOf (w : World) (s : Receiver) : ℚ :=
  Binary64.fl (w.clock s.readings - s.transferStartTime)

/-- `_transfer_completed_handler` (client_b.py lines 47–80, amqp_receiver.py lines
    57–94). -/
def transferCompleted (k : Dialect) (w : World) (s : Receiver) : Receiver × Option HandlerError :=
  let duration := durationOf w s
  let stopped := stopMonitor k w { s with readings := s.readings + 1 }
  let integrityOk := decide (s.expectedChecksum = .str (actualChecksum s))
  if microseconds duration = 0 then (stopped.1, some .zeroDivisionError)
  else
    ({ stopped.1 with
      rows := stopped.1.rows ++ [receiverRow k stopped.1 duration stopped.2 integrityOk] }, none)

/-- The clock readings of a transfer's first chunk. -/
def firstChunk (w : World) (s : Receiver) : Receiver :=
  if s.firstChunkReceived then s
  else
    { s with
      startLatency := Binary64.fl (w.clock s.readings - s.metadataArrivalTime)
      transferStartTime := w.clock (s.readings + 1)
      readings := s.readings + 2
      firstChunkReceived := true }

/-- Writing a chunk and counting it. -/
def storeChunk (w : World) (s : Receiver) (payload : Bytes) : Receiver :=
  { s with
    disk := s.disk.write payload (min (w.buffered s.writes) w.bufferSize)
    writes := s.writes + 1
    receivedChunks := s.receivedChunks + 1
    receivedBytes := s.receivedBytes + payload.length }

/-- After `_transfer_completed_handler` returns: the handle is closed and dropped;
    MQTT also resets `received_bytes`. -/
def finishTransfer (k : Dialect) (s : Receiver) : Receiver :=
  { s with
    disk := s.disk.close.dropHandle
    receivedBytes := if k = .mqtt then 0 else s.receivedBytes }

/-- The data branch of `on_message` (lines 137–153) and `on_data` after its check
    (lines 143–160), with a handle. -/
def acceptChunk (k : Dialect) (w : World) (s : Receiver) (closed : Bool) (payload : Bytes) :
    Receiver × Option HandlerError :=
  let s := firstChunk w s
  if closed then (s, some .valueError)
  else
    let s := storeChunk w s payload
    if pyEq s.receivedChunks s.expectedChunks then
      let completed := transferCompleted k w s
      match completed.2 with
      | some e => (completed.1, some e)
      | none => (finishTransfer k completed.1, none)
    else (s, none)

/-! ## The handlers -/

/-- `on_message` of the MQTT receiver (client_b.py, lines 90–153). -/
def onMessage (w : World) (s : Receiver) : Message → Receiver × Option HandlerError
  | .control text => startTransfer w s text
  | .data payload =>
    match s.disk.handle with
    | none => (s, none)
    | some h => acceptChunk .mqtt w s h.closed payload

/-- `on_control` of the AMQP receiver (amqp_receiver.py, lines 97–129); a message is
    acknowledged when the handler returns. -/
def onControl (w : World) (s : Receiver) (text : List Char) : Receiver × Option HandlerError :=
  let started := startTransfer w s text
  match started.2 with
  | some e => (started.1, some e)
  | none => ({ started.1 with monitoring := true }, none)

/-- `on_data` of the AMQP receiver (lines 132–160). -/
def onData (w : World) (s : Receiver) (payload : Bytes) : Receiver × Option HandlerError :=
  match s.disk.handle with
  | none => (s, none)
  | some h => if h.closed then (s, none) else acceptChunk .amqp w s h.closed payload

/-- The handler of a message, for either receiver. -/
def handle (k : Dialect) (w : World) (s : Receiver) (m : Message) :
    Receiver × Option HandlerError :=
  match k, m with
  | .mqtt, m => onMessage w s m
  | .amqp, .control text => onControl w s text
  | .amqp, .data payload => onData w s payload

/-! ## Control messages of the senders -/

theorem loads_text (m : Metadata) : loads m.text = some m.object := by
  apply loads_dumps
  cases h : m.qos <;> simp [Metadata.object, h, Dict.keys]

theorem get?_object (m : Metadata) :
    m.object.get? "filename" = some (.str m.filename) ∧
      m.object.get? "total_chunks" = some (.int m.totalChunks) ∧
      m.object.get? "checksum" = some (.str m.checksum) ∧
      m.object.get? "qos" = m.qos.map .int := by
  cases h : m.qos <;> simp [Metadata.object, h, Dict.get?_cons]

/-- The receiver after a control message: the stale handle closed, the new file
    open and empty, and the counters reset. -/
def opened (k : Dialect) (w : World) (s : Receiver) (m : Metadata) : Receiver :=
  { s with
    disk := s.disk.close.openWrite m.filename
    expectedChunks := .int m.totalChunks
    receivedChunks := 0
    currentFilename := .str m.filename
    receivedBytes := 0
    firstChunkReceived := false
    startLatency := 0
    metadataArrivalTime := w.clock s.readings
    transferStartTime := 0
    expectedChecksum := .str m.checksum
    currentQos := (m.qos.map Scalar.int).getD (.str "unknown")
    monitoring := if k = .amqp then true else s.monitoring
    readings := s.readings + 1 }

theorem startTransfer_metadata (w : World) (s : Receiver) (m : Metadata) :
    startTransfer w s m.text = (opened .mqtt w s m, none) := by
  obtain ⟨hname, htotal, hsum, hqos⟩ := get?_object m
  simp only [startTransfer, loads_text, hname, htotal, hsum, hqos, openOutput, opened,
    Option.getD_some, reduceCtorEq, if_false]

/-- Both receivers handle a control message of their sender alike. -/
theorem handle_control (k : Dialect) (w : World) (s : Receiver) (m : Metadata) :
    handle k w s (.control m.text) = (opened k w s m, none) := by
  cases k with
  | mqtt => exact startTransfer_metadata w s m
  | amqp =>
    simp only [handle, onControl, startTransfer_metadata, opened, reduceCtorEq, if_false, if_true]

/-! ## Chunks of an open transfer -/

/-- The receiver after storing one more chunk, before it looks whether it was the last. -/
def stored (w : World) (s : Receiver) (payload : Bytes) : Receiver :=
  storeChunk w (firstChunk w s) payload

section stored

variable (w : World) (s : Receiver) (payload : Bytes)

@[simp] theorem stored_disk : (stored w s payload).disk =
    s.disk.write payload (min (w.buffered s.writes) w.bufferSize) := by
  unfold stored firstChunk
  split_ifs <;> rfl

@[simp] theorem stored_receivedChunks :
    (stored w s payload).receivedChunks = s.receivedChunks + 1 := by
  unfold stored firstChunk
  split_ifs <;> rfl

@[simp] theorem stored_receivedBytes :
    (stored w s payload).receivedBytes = s.receivedBytes + payload.length := by
  unfold stored firstChunk
  split_ifs <;> rfl

@[simp] theorem stored_writes : (stored w s payload).writes = s.writes + 1 := by
  unfold stored firstChunk
  split_ifs <;> rfl

@[simp] theorem stored_expectedChunks :
    (stored w s payload).expectedChunks = s.expectedChunks := by
  unfold stored firstChunk
  split_ifs <;> rfl

@[simp] theorem stored_currentFilename :
    (stored w s payload).currentFilename = s.currentFilename := by
  unfold stored firstChunk
  split_ifs <;> rfl

@[simp] theorem stored_expectedChecksum :
    (stored w s payload).expectedChecksum = s.expectedChecksum := by
  unfold stored firstChunk
  split_ifs <;> rfl

@[simp] theorem stored_rows : (stored w s payload).rows = s.rows := by
  unfold stored firstChunk
  split_ifs <;> rfl

end stored

theorem handle_data_idle (k : Dialect) (w : World) {s : Receiver} (h : s.disk.handle = none)
    (payload : Bytes) : handle k w s (.data payload) = (s, none) := by
  cases k <;> simp only [handle, onMessage, onData, h]

theorem handle_data_open (k : Dialect) (w : World) {s : Receiver} {path : String}
    (h : s.disk.OpenOn path) (payload : Bytes) :
    handle k w s (.data payload) = acceptChunk k w s false payload := by
  obtain ⟨pending, hd, -⟩ := h
  cases k <;> simp [handle, onMessage, onData, hd]

/-- A chunk that is not the last one. -/
theorem handle_data_more (k : Dialect) (w : World) {s : Receiver} {path : String}
    (h : s.disk.OpenOn path) {payload : Bytes}
    (hmore : pyEq (stored w s payload).receivedChunks (stored w s payload).expectedChunks = false) :
    handle k w s (.data payload) = (stored w s payload, none) := by
  rw [handle_data_open k w h, acceptChunk]
  simp only [Bool.false_eq_true, if_false]
  exact if_neg (by rw [← stored, hmore]; simp)

/-- The last chunk: the transfer is completed, and finished if that does not raise. -/
theorem handle_data_last (k : Dialect) (w : World) {s : Receiver} {path : String}
    (h : s.disk.OpenOn path) {payload : Bytes}
    (hlast : pyEq (stored w s payload).receivedChunks (stored w s payload).expectedChunks = true) :
    handle k w s (.data payload) =
      match (transferCompleted k w (stored w s payload)).2 with
      | some e => ((transferCompleted k w (stored w s payload)).1, some e)
      | none => (finishTransfer k (transferCompleted k w (stored w s payload)).1, none) := by
  rw [handle_data_open k w h, acceptChunk]
  simp only [Bool.false_eq_true, if_false]
  exact if_pos (by rw [← stored, hlast])

theorem stopMonitor_eq (k : Dialect) (w : World) (s : Receiver) :
    ∃ m n stats, stopMonitor k w s = ({ s with monitoring := m, monitors := n }, stats) := by
  unfold stopMonitor
  split_ifs
  · exact ⟨_, _, _, rfl⟩
  · exact ⟨_, _, _, rfl⟩

/-- What completing a transfer leaves alone. -/
theorem transferCompleted_frame (k : Dialect) (w : World) (s : Receiver) :
    (transferCompleted k w s).1.disk = s.disk ∧
      (transferCompleted k w s).1.receivedChunks = s.receivedChunks ∧
      (transferCompleted k w s).1.receivedBytes = s.receivedBytes ∧
      (transferCompleted k w s).1.expectedChunks = s.expectedChunks := by
  obtain ⟨m, n, stats, hstop⟩ := stopMonitor_eq k w { s with readings := s.readings + 1 }
  simp only [transferCompleted, hstop]
  split_ifs <;> exact ⟨rfl, rfl, rfl, rfl⟩

/-- Completing a transfer raises exactly when no time has passed. -/
theorem transferCompleted_raises (k : Dialect) (w : World) {s : Receiver}
    (h : durationOf w s = 0) :
    (transferCompleted k w s).2 = some .zeroDivisionError ∧
      (transferCompleted k w s).1.rows = s.rows := by
  obtain ⟨m, n, stats, hstop⟩ := stopMonitor_eq k w { s with readings := s.readings + 1 }
  simp only [transferCompleted, hstop, microseconds_eq_zero.2 h, if_true, and_self]

/-- Otherwise it appends one row. -/
theorem transferCompleted_returns (k : Dialect) (w : World) {s : Receiver}
    (h : durationOf w s ≠ 0) :
    (transferCompleted k w s).2 = none ∧ ∃ s' stats, s'.receivedBytes = s.receivedBytes ∧
      (transferCompleted k w s).1.rows = s.rows ++ [receiverRow k s' (durationOf w s) stats
        (decide (s.expectedChecksum = .str (actualChecksum s)))] := by
  obtain ⟨m, n, stats, hstop⟩ := stopMonitor_eq k w { s with readings := s.readings + 1 }
  have hmul : microseconds (durationOf w s) ≠ 0 := mt microseconds_eq_zero.1 h
  simp only [transferCompleted, hstop, hmul, if_false, true_and]
  exact ⟨_, _, rfl, rfl⟩

/-- A chunk of an open transfer goes to its file and to no other. It is either the
    last announced one and the transfer is over, or one more chunk is counted. -/
theorem handle_data_spec (k : Dialect) (w : World) {s : Receiver} {path : String}
    (h : s.disk.OpenOn path) (payload : Bytes) :
    (∀ g, (handle k w s (.data payload)).1.disk.view g =
      if g = path then some ((s.disk.view path).getD [] ++ payload) else s.disk.view g) ∧
    ((handle k w s (.data payload)).1.disk.handle = none ∧
        pyEq (s.receivedChunks + 1) s.expectedChunks = true ∨
      (handle k w s (.data payload)).1.disk.OpenOn path ∧
      (handle k w s (.data payload)).1.receivedChunks = s.receivedChunks + 1 ∧
      (handle k w s (.data payload)).1.receivedBytes = s.receivedBytes + payload.length ∧
      (handle k w s (.data payload)).1.expectedChunks = s.expectedChunks) := by
  have hwrite (g : String) :=
    Disk.view_write h payload (min (w.buffered s.writes) w.bufferSize) g
  rw [← stored_disk w s payload] at hwrite
  cases hlast : pyEq (stored w s payload).receivedChunks (stored w s payload).expectedChunks with
  | false =>
    rw [handle_data_more k w h hlast]
    exact ⟨fun g => (hwrite g).2, Or.inr ⟨(hwrite path).1, by simp, by simp, by simp⟩⟩
  | true =>
    obtain ⟨hdisk, hchunks, hbytes, hexpected⟩ := transferCompleted_frame k w (stored w s payload)
    rw [handle_data_last k w h hlast]
    split
    · refine ⟨fun g => ?_, Or.inr ⟨?_, ?_, ?_, ?_⟩⟩
      · rw [hdisk]; exact (hwrite g).2
      · rw [hdisk]; exact (hwrite path).1
      · rw [hchunks, stored_receivedChunks]
      · rw [hbytes, stored_receivedBytes]
      · rw [hexpected, stored_expectedChunks]
    · refine ⟨fun g => ?_, Or.inl ⟨rfl, by simpa using hlast⟩⟩
      rw [finishTransfer, Disk.view_close_dropHandle, hdisk]
      exact (hwrite g).2

theorem get?_receiverRow (k : Dialect) (s : Receiver) (duration : ℚ) (stats : Stats) (b : Bool) :
    (receiverRow k s duration stats b).get? "integrity_ok" = some (.bool b) ∧
      (receiverRow k s duration stats b).get? "file_size" =
        some (.float (Binary64.trueDiv s.receivedBytes (1024 * 1024))) := by
  cases k <;> exact ⟨rfl, rfl⟩

end TransferTestbed.Transfer
