import TransferTestbed.Library.Framing
import TransferTestbed.Transfer.Receiver

/-!
# Reassembling a transfer

The receivers over the messages of well-formed senders: a control message, then
chunks. While the transfer is under way the file holds the chunks received so far,
less what is in the handle's buffer.

Results:
* `midway_deliver`: the receiver after some chunks of a transfer.
* `Receiving.handle_last_raises`, `Receiving.handle_last_returns`: its last chunk.
* `view_deliver_transferWire`: what a transfer leaves in the output directory.
-/

namespace TransferTestbed.Transfer

open Integrity WriteCsv Chunking Json

/-! ## Sequences of messages -/

/-- A message of a well-formed sender. -/
abbrev Wire := Framing.Msg Metadata Bytes

def Wire.message : Wire → Message
  | .header m => .control m.text
  | .item payload => .data payload

/-- The receiver after messages, whether or not a handler raised. -/
def deliver (k : Dialect) (w : World) (s : Receiver) (ms : List Wire) : Receiver :=
  ms.foldl (fun s m => (handle k w s m.message).1) s

theorem deliver_append (k : Dialect) (w : World) (s : Receiver) (ms ns : List Wire) :
    deliver k w s (ms ++ ns) = deliver k w (deliver k w s ms) ns := List.foldl_append

theorem deliver_control (k : Dialect) (w : World) (s : Receiver) (m : Metadata) (ms : List Wire) :
    deliver k w s (.header m :: ms) = deliver k w (opened k w s m) ms := by
  rw [deliver, List.foldl_cons, Wire.message, handle_control]
  rfl

theorem deliver_data (k : Dialect) (w : World) (s : Receiver) (payload : Bytes) (ms : List Wire) :
    deliver k w s (.item payload :: ms) =
      deliver k w (handle k w s (.data payload)).1 ms := rfl

/-- The messages of a transfer. -/
def transferWire (m : Metadata) (payloads : List Bytes) : List Wire :=
  .header m :: payloads.map .item

theorem transferWire_concat (m : Metadata) (payloads : List Bytes) (payload : Bytes) :
    transferWire m (payloads ++ [payload]) = transferWire m payloads ++ [.item payload] := by
  rw [transferWire, List.map_append]
  rfl

/-- The messages of a whole file are those that `send_file` publishes. -/
theorem map_message_transferWire (filename : String) (content : Bytes) (qos : Option ℤ) :
    (transferWire (metadataOf filename content qos) (chunks content)).map Wire.message =
      sendFile filename content qos := by
  simp [transferWire, sendFile, Wire.message, Function.comp_def]

/-! ## A transfer under way -/

/-- The receiver in the middle of a transfer: the chunks received so far, and how
    many of their last bytes are in the buffer. -/
structure Receiving (path : String) (total : ℕ) (checksum : String) (rows : List Row)
    (received : List Bytes) (held : ℕ) (s : Receiver) : Prop where
  written : s.disk.Written path received.flatten held
  expectedChunks : s.expectedChunks = .int total
  receivedChunks : s.receivedChunks = received.length
  receivedBytes : s.receivedBytes = received.flatten.length
  currentFilename : s.currentFilename = .str path
  expectedChecksum : s.expectedChecksum = .str checksum
  rows : s.rows = rows

variable {w : World} {s₀ s : Receiver} {m : Metadata} {path checksum : String} {total held : ℕ}
  {rows : List Row} {received : List Bytes}

theorem receiving_opened (k : Dialect) (w : World) (s : Receiver) (m : Metadata) :
    Receiving m.filename m.totalChunks m.checksum s.rows [] 0 (opened k w s m) where
  written := Disk.written_openWrite _ _
  expectedChunks := rfl
  receivedChunks := rfl
  receivedBytes := rfl
  currentFilename := rfl
  expectedChecksum := rfl
  rows := rfl

/-- How much of the data is in the buffer after one more write. -/
def heldAfter (w : World) (s : Receiver) (held : ℕ) (payload : Bytes) : ℕ :=
  min (held + payload.length) (min (w.buffered s.writes) w.bufferSize)

theorem Receiving.stored (h : Receiving path total checksum rows received held s) (w : World)
    (payload : Bytes) :
    Receiving path total checksum rows (received ++ [payload]) (heldAfter w s held payload)
      (stored w s payload) where
  written := by
    rw [stored_disk]
    simpa [heldAfter] using h.written.write payload (min (w.buffered s.writes) w.bufferSize)
  expectedChunks := by rw [stored_expectedChunks, h.expectedChunks]
  receivedChunks := by rw [stored_receivedChunks, h.receivedChunks, List.length_append]; rfl
  receivedBytes := by rw [stored_receivedBytes, h.receivedBytes]; simp
  currentFilename := by rw [stored_currentFilename, h.currentFilename]
  expectedChecksum := by rw [stored_expectedChecksum, h.expectedChecksum]
  rows := by rw [stored_rows, h.rows]

theorem Receiving.pyEq_stored (h : Receiving path total checksum rows received held s) (w : World)
    (payload : Bytes) :
    pyEq (Transfer.stored w s payload).receivedChunks (Transfer.stored w s payload).expectedChunks =
      decide (received.length + 1 = total) := by
  rw [stored_receivedChunks, stored_expectedChunks, h.receivedChunks, h.expectedChunks, pyEq]
  rw [decide_eq_decide]
  exact_mod_cast Iff.rfl

/-- A chunk before the last one. -/
theorem Receiving.handle_more (h : Receiving path total checksum rows received held s)
    (k : Dialect) (w : World) {payload : Bytes} (hmore : received.length + 1 < total) :
    handle k w s (.data payload) = (Transfer.stored w s payload, none) := by
  apply handle_data_more k w h.written.openOn
  rw [h.pyEq_stored w payload, decide_eq_false_iff_not]
  omega

/-- The last chunk, when no time has passed since the first one: the handler raises
    and no row is appended. -/
theorem Receiving.handle_last_raises (h : Receiving path total checksum rows received held s)
    (k : Dialect) (w : World) {payload : Bytes} (hlast : received.length + 1 = total)
    (hzero : durationOf w (Transfer.stored w s payload) = 0) :
    (handle k w s (.data payload)).2 = some .zeroDivisionError ∧
      (handle k w s (.data payload)).1.rows = rows := by
  obtain ⟨hraise, hrows⟩ := transferCompleted_raises k w hzero
  rw [handle_data_last k w h.written.openOn
    (by rw [h.pyEq_stored w payload, decide_eq_true hlast]), hraise]
  exact ⟨rfl, by rw [hrows, stored_rows, h.rows]⟩

/-- The last chunk otherwise: one row is appended and the file is complete. The
    checksum in the row's verdict is that of the flushed part of the file. -/
theorem Receiving.handle_last_returns (h : Receiving path total checksum rows received held s)
    (k : Dialect) (w : World) {payload : Bytes} (hlast : received.length + 1 = total)
    (hne : durationOf w (Transfer.stored w s payload) ≠ 0) :
    (handle k w s (.data payload)).2 = none ∧
      (handle k w s (.data payload)).1.disk.handle = none ∧
      ∃ row : Row, (handle k w s (.data payload)).1.rows = rows ++ [row] ∧
        row.get? "file_size" = some (.float (Binary64.trueDiv
          (received ++ [payload]).flatten.length (1024 * 1024))) ∧
        row.get? "integrity_ok" = some (.bool (decide (checksum = sha256
          ((received ++ [payload]).flatten.take
            ((received ++ [payload]).flatten.length - heldAfter w s held payload))))) := by
  have hstored := h.stored w payload
  obtain ⟨hret, s', stats, hbytes, hrows⟩ := transferCompleted_returns k w hne
  rw [handle_data_last k w h.written.openOn
    (by rw [h.pyEq_stored w payload, decide_eq_true hlast]), hret]
  rw [hstored.rows] at hrows
  refine ⟨rfl, rfl, _, hrows, ?_⟩
  obtain ⟨hverdict, hsize⟩ := get?_receiverRow k s' (durationOf w (Transfer.stored w s payload))
    stats (decide ((Transfer.stored w s payload).expectedChecksum =
      .str (actualChecksum (Transfer.stored w s payload))))
  refine ⟨by rw [hsize, hbytes, hstored.receivedBytes], ?_⟩
  rw [hverdict, hstored.expectedChecksum, actualChecksum, hstored.currentFilename]
  simp only [hstored.written.content, Option.getD_some, computeSha256File_eq, Scalar.str.injEq]

/-- How many bytes are in the buffer after the chunks of a transfer; `first` calls
    of `write` came before it. -/
def heldBytes (w : World) (first : ℕ) (payloads : List Bytes) : ℕ :=
  (payloads.zipIdx first).foldl
    (fun held p => min (held + p.1.length) (min (w.buffered p.2) w.bufferSize)) 0

theorem heldBytes_concat (w : World) (first : ℕ) (payloads : List Bytes) (payload : Bytes) :
    heldBytes w first (payloads ++ [payload]) =
      min (heldBytes w first payloads + payload.length)
        (min (w.buffered (first + payloads.length)) w.bufferSize) := by
  rw [heldBytes, List.zipIdx_append, List.foldl_append]
  rfl

/-! ## Clock readings -/

/-- The clock readings of a transfer whose control message was the reading `start`. -/
def Timed (w : World) (start : ℕ) (received : List Bytes) (s : Receiver) : Prop :=
  if received = [] then s.firstChunkReceived = false ∧ s.readings = start + 1
  else s.firstChunkReceived = true ∧ s.readings = start + 3 ∧
    s.transferStartTime = w.clock (start + 2)

theorem Timed.stored {start : ℕ}
    (h : Timed w start received s) (payload : Bytes) :
    Timed w start (received ++ [payload]) (stored w s payload) := by
  unfold Timed at h ⊢
  rw [if_neg (by simp)]
  split_ifs at h with hfirst
  · obtain ⟨hflag, hread⟩ := h
    simp [Transfer.stored, storeChunk, firstChunk, hflag, hread]
  · obtain ⟨hflag, hread, htime⟩ := h
    simp [Transfer.stored, storeChunk, firstChunk, hflag, hread, htime]

/-- The transfer takes no time iff its end and its start are read alike. -/
theorem Timed.durationOf_eq_zero_iff {start : ℕ}
    (h : Timed w start received s) (hne : received ≠ []) :
    durationOf w s = 0 ↔ w.clock (start + 3) = w.clock (start + 2) := by
  rw [Timed, if_neg hne] at h
  rw [durationOf, h.2.1, h.2.2, Binary64.fl_eq_zero, sub_eq_zero]

/-! ## A transfer, chunk by chunk -/

/-- The receiver after some chunks of a transfer that began in the state `s₀`. -/
structure Midway (w : World) (s₀ : Receiver) (m : Metadata) (received : List Bytes)
    (s : Receiver) : Prop where
  receiving : Receiving m.filename m.totalChunks m.checksum s₀.rows received
    (heldBytes w s₀.writes received) s
  writes : s.writes = s₀.writes + received.length
  timed : Timed w s₀.readings received s

theorem Midway.stored (h : Midway w s₀ m received s) (payload : Bytes) :
    Midway w s₀ m (received ++ [payload]) (stored w s payload) where
  receiving := by
    have := h.receiving.stored w payload
    rwa [heldAfter, h.writes, ← heldBytes_concat] at this
  writes := by rw [stored_writes, h.writes, List.length_append]; rfl
  timed := h.timed.stored payload

/-- Before its last chunk, the receiver is in the middle of the transfer. -/
theorem midway_deliver (k : Dialect) (w : World) (s₀ : Receiver) (m : Metadata)
    (received : List Bytes) (hlen : received.length < m.totalChunks) :
    Midway w s₀ m received (deliver k w s₀ (transferWire m received)) := by
  induction received using List.reverseRecOn with
  | nil =>
    rw [transferWire, List.map_nil, deliver_control]
    exact ⟨receiving_opened k w s₀ m, rfl, rfl, rfl⟩
  | append_singleton received payload ih =>
    rw [List.length_append, List.length_singleton] at hlen
    have hmid := ih (by omega)
    rw [transferWire_concat, deliver_append, deliver_data, hmid.receiving.handle_more k w hlen]
    exact hmid.stored payload

/-- The last chunk of a transfer, without a clock tick since the first one: the
    handler raises. -/
theorem Midway.handle_last_raises (h : Midway w s₀ m received s) (k : Dialect) (payload : Bytes)
    (hlast : m.totalChunks = received.length + 1)
    (htick : w.clock (s₀.readings + 3) = w.clock (s₀.readings + 2)) :
    (handle k w s (.data payload)).2 = some .zeroDivisionError ∧
      (handle k w s (.data payload)).1.rows = s₀.rows := by
  have hduration := (h.stored payload).timed.durationOf_eq_zero_iff (by simp)
  exact h.receiving.handle_last_raises k w hlast.symm (hduration.2 htick)

/-- The last chunk of a transfer otherwise. -/
theorem Midway.handle_last_returns (h : Midway w s₀ m received s) (k : Dialect) (payload : Bytes)
    (hlast : m.totalChunks = received.length + 1)
    (htick : w.clock (s₀.readings + 3) ≠ w.clock (s₀.readings + 2)) :
    (handle k w s (.data payload)).2 = none ∧
      (handle k w s (.data payload)).1.disk.handle = none ∧
      ∃ row : Row, (handle k w s (.data payload)).1.rows = s₀.rows ++ [row] ∧
        row.get? "file_size" = some (.float (Binary64.trueDiv
          (received ++ [payload]).flatten.length (1024 * 1024))) ∧
        row.get? "integrity_ok" = some (.bool (decide (m.checksum = computeSha256File
          ((received ++ [payload]).flatten.take ((received ++ [payload]).flatten.length -
            heldBytes w s₀.writes (received ++ [payload])))))) := by
  have hduration := (h.stored payload).timed.durationOf_eq_zero_iff (by simp)
  rw [computeSha256File_eq, heldBytes_concat, ← h.writes]
  exact h.receiving.handle_last_returns k w hlast.symm
    (mt hduration.1 htick)

/-! ## Files -/

/-- The chunks of an open transfer, up to the announced number of them. -/
theorem view_deliver_data (k : Dialect) (w : World) (xs : List Bytes) {n : ℕ}
    (hopen : s.disk.OpenOn path) (hexpected : s.expectedChunks = .int n)
    (hlen : s.receivedChunks + xs.length ≤ n) (g : String) :
    (deliver k w s (xs.map .item)).disk.view g =
      if g = path then some ((s.disk.view path).getD [] ++ xs.flatten) else s.disk.view g := by
  induction xs generalizing s with
  | nil =>
    obtain ⟨pending, hhandle, -⟩ := hopen
    have hpath := Disk.view_openOn hhandle path
    rw [if_pos rfl] at hpath
    rw [List.flatten_nil, List.append_nil, hpath, List.map_nil, deliver, List.foldl_nil,
      Disk.view_openOn hhandle]
    split_ifs with hg
    · rfl
    · rfl
  | cons x xs ih =>
    obtain ⟨hview, hcases⟩ := handle_data_spec k w hopen x
    rw [List.length_cons] at hlen
    rw [List.map_cons, deliver_data, List.flatten_cons]
    rcases hcases with ⟨hnone, hlast⟩ | ⟨hopen', hc, -, he⟩
    · -- the last announced chunk: there is none after it
      have hn : s.receivedChunks + 1 = n := by
        simp only [pyEq, hexpected, decide_eq_true_eq] at hlast
        exact_mod_cast hlast
      obtain rfl : xs = [] := List.eq_nil_of_length_eq_zero (by omega)
      rw [List.flatten_nil, List.append_nil]
      exact hview g
    · have hpath := hview path
      rw [if_pos rfl] at hpath
      rw [ih hopen' (he.trans hexpected) (by rw [hc]; omega), hpath, hview g, Option.getD_some,
        List.append_assoc]
      split_ifs <;> rfl

/-- Chunks go to the open file or are dropped. -/
theorem view_deliver_data_of_ne (k : Dialect) (w : World) (xs : List Bytes)
    (h : s.disk.handle = none ∨ s.disk.OpenOn path) {g : String} (hg : g ≠ path) :
    (deliver k w s (xs.map .item)).disk.view g = s.disk.view g := by
  induction xs generalizing s with
  | nil => rfl
  | cons x xs ih =>
    rw [List.map_cons, deliver_data]
    rcases h with hidle | hopen
    · rw [handle_data_idle k w hidle]
      exact ih (Or.inl hidle)
    · obtain ⟨hview, hcases⟩ := handle_data_spec k w hopen x
      have hnext := hview g
      rw [if_neg hg] at hnext
      exact (ih (hcases.imp And.left And.left)).trans hnext

/-- What a transfer leaves in the output directory, once the handle is closed. -/
theorem view_deliver_transferWire (k : Dialect) (w : World) (s : Receiver) (m : Metadata)
    (payloads : List Bytes) (hlen : payloads.length ≤ m.totalChunks) (g : String) :
    (deliver k w s (transferWire m payloads)).disk.view g =
      if g = m.filename then some payloads.flatten else s.disk.view g := by
  have hopen : (opened k w s m).disk.OpenOn m.filename := Disk.openOn_openWrite _ _
  have hview (g : String) := Disk.view_openWrite s.disk m.filename g
  rw [transferWire, deliver_control,
    view_deliver_data k w payloads hopen rfl ((Nat.zero_add _).trans_le hlen)]
  simp only [opened, hview, if_true, Option.getD_some, List.nil_append]
  split_ifs <;> rfl

end TransferTestbed.Transfer
