import TransferTestbed.Transfer.AtLeastOnce
import TransferTestbed.Transfer.Senders

/-!
# Completion of transfers

Files sent completely, one after another, to a receiver that has just been started.
The receiver looks whether a transfer is complete only when a chunk arrives, and a
file without bytes has none. A handler that raises ends `loop_forever` and
`start_consuming`, so that nothing after its message is handled.

Results:
* `receive_empty`, `receive_of_no_tick`, `receive_of_tick`: one file.
* `completed_iff`: when every transfer completes.
-/

namespace TransferTestbed.Transfer

open Integrity WriteCsv Chunking Binary64

/-! ## Model -/

/-- One call of `send_file`. -/
structure SentFile where
  filename : String
  content : Bytes
  qosLevel : ℤ

/-- The control message of a file. -/
def SentFile.metadata (k : Dialect) (t : SentFile) : Metadata :=
  metadataOf t.filename t.content (qosOf k t.qosLevel)

def SentFile.messages (k : Dialect) (t : SentFile) : List Message :=
  sendFile t.filename t.content (qosOf k t.qosLevel)

/-- A row of the receiver for a file: it has the size of what was sent. -/
def RowOf (t : SentFile) (row : Row) : Prop :=
  row.get? "file_size" =
    some (.float (Binary64.trueDiv (chunks t.content).flatten.length (1024 * 1024)))

/-- Every transfer completes: as many chunks are sent as are announced, the receiver is
    idle at the end, and it has appended one row for each file. -/
structure Completed (k : Dialect) (ts : List SentFile) (s : Receiver) : Prop where
  announced : ∀ t ∈ ts, ∃ (m : Metadata) (payloads : List Bytes),
    t.messages k = .control m.text :: payloads.map .data ∧ payloads.length = m.totalChunks
  idle : s.disk.handle = none
  rows : List.Forall₂ RowOf ts s.rows

/-! ## One file -/

variable {k : Dialect} {w : World} {s : Receiver} {m : Metadata} {received : List Bytes}

theorem receive_of_returns {m : Message} {s' : Receiver} (h : handle k w s m = (s', none))
    (ms : List Message) : receive k w s (m :: ms) = receive k w s' ms := by
  rw [receive, h]

theorem receive_of_raises {m : Message} {e : HandlerError} (h : (handle k w s m).2 = some e)
    (ms : List Message) : receive k w s (m :: ms) = (handle k w s m).1 := by
  rw [receive, h]

/-- Before the last chunk of a transfer no handler raises. -/
theorem receive_transferWire (hlen : received.length < m.totalChunks) (ms : List Message) :
    receive k w s ((transferWire m received).map Wire.message ++ ms) =
      receive k w (deliver k w s (transferWire m received)) ms := by
  induction received using List.reverseRecOn generalizing ms with
  | nil =>
    rw [transferWire, List.map_nil, deliver_control]
    exact receive_of_returns (handle_control k w s m) ms
  | append_singleton received payload ih =>
    rw [List.length_append, List.length_singleton] at hlen
    have hmid := midway_deliver k w s m received (by omega)
    rw [transferWire_concat, List.map_append, List.append_assoc, ih (by omega), deliver_append,
      deliver_data]
    exact receive_of_returns (hmid.receiving.handle_more k w hlen) ms |>.trans
      (by rw [hmid.receiving.handle_more k w hlen]; rfl)

/-- A file without bytes has no chunk. -/
theorem chunks_nil : chunks [] = [] := by
  have hzero : calculateTotalChunks 0 = 0 := by
    rw [calculateTotalChunks, trueDiv_chunkSize, fl_natCast_mul_zpow (Nat.zero_le _)]
    simp
  rw [chunks, List.length_nil, hzero]
  rfl

/-- **A file without bytes**: its transfer is announced and stays open. -/
theorem receive_empty {t : SentFile} (h : t.content = []) (ms : List Message) :
    receive k w s (t.messages k ++ ms) = receive k w (opened k w s (t.metadata k)) ms := by
  rw [SentFile.messages, sendFile, h, chunks_nil, List.map_nil, SentFile.metadata, h]
  exact receive_of_returns (handle_control k w s _) ms

/-- The last chunk of a file, after the others. -/
theorem receive_file {t : SentFile} (h : t.content ≠ []) :
    ∃ received payload s', chunks t.content = received ++ [payload] ∧
      (t.metadata k).totalChunks = received.length + 1 ∧
      Midway w s (t.metadata k) received s' ∧
      ∀ ms, receive k w s (t.messages k ++ ms) = receive k w s' (.data payload :: ms) := by
  have hlen := length_chunks t.content
  have hpos := calculateTotalChunks_pos (List.length_pos_iff.2 h)
  obtain ⟨received, payload, hchunks⟩ := List.eq_nil_or_concat' (chunks t.content)
    |>.resolve_left (List.length_pos_iff.1 (hlen ▸ hpos))
  have htotal : (t.metadata k).totalChunks = received.length + 1 := by
    show calculateTotalChunks t.content.length = _
    rw [← hlen, hchunks, List.length_append]
    rfl
  refine ⟨received, payload, _, hchunks, htotal,
    midway_deliver k w s (t.metadata k) received (by omega), fun ms => ?_⟩
  rw [SentFile.messages, ← map_message_transferWire, hchunks, transferWire_concat,
    List.map_append, List.append_assoc]
  exact receive_transferWire (by rw [← SentFile.metadata, htotal]; omega) _

theorem openOn_of_raises {path checksum : String} {total held : ℕ} {rows : List Row}
    (h : Receiving path total checksum rows received held s) {payload : Bytes}
    (hlast : received.length + 1 = total) (hzero : durationOf w (stored w s payload) = 0) :
    (handle k w s (.data payload)).1.disk.OpenOn path := by
  obtain ⟨hraise, -⟩ := transferCompleted_raises k w hzero
  rw [handle_data_last k w h.written.openOn
    (by rw [h.pyEq_stored w payload, decide_eq_true hlast]), hraise]
  show (transferCompleted k w (stored w s payload)).1.disk.OpenOn path
  rw [(transferCompleted_frame k w _).1]
  exact (h.stored w payload).written.openOn

/-- **A file whose transfer takes no time**: the last handler raises, no row is appended
    and the handle stays open. -/
theorem receive_of_no_tick {t : SentFile} (h : t.content ≠ [])
    (htick : w.clock (s.readings + 3) = w.clock (s.readings + 2)) :
    ∃ s', (∀ ms, receive k w s (t.messages k ++ ms) = s') ∧ s'.disk.handle ≠ none ∧
      s'.rows = s.rows := by
  obtain ⟨received, payload, s', -, htotal, hmid, heq⟩ := receive_file (k := k) (w := w) (s := s) h
  obtain ⟨hraise, hrows⟩ := hmid.handle_last_raises k payload htotal htick
  have hduration := (hmid.stored payload).timed.durationOf_eq_zero_iff (by simp)
  obtain ⟨pending, hopen, -⟩ := openOn_of_raises (k := k) hmid.receiving htotal.symm
    (hduration.2 htick)
  refine ⟨_, fun ms => (heq ms).trans (receive_of_raises hraise ms), ?_, hrows⟩
  rw [hopen]
  simp

theorem readings_transferCompleted :
    (transferCompleted k w s).1.readings = s.readings + 1 := by
  obtain ⟨_, _, _, hstop⟩ := stopMonitor_eq k w { s with readings := s.readings + 1 }
  simp only [transferCompleted, hstop]
  split_ifs
  · rfl
  · rfl

/-- The clock is read four times for a transfer that completes. -/
theorem Midway.readings_last {s₀ : Receiver} (h : Midway w s₀ m received s) {payload : Bytes}
    (hlast : m.totalChunks = received.length + 1)
    (hret : (handle k w s (.data payload)).2 = none) :
    (handle k w s (.data payload)).1.readings = s₀.readings + 4 := by
  have htimed := (h.stored payload).timed
  rw [Timed, if_neg (by simp)] at htimed
  have hcount := h.receiving.pyEq_stored w payload
  rw [decide_eq_true hlast.symm] at hcount
  rw [handle_data_last k w h.receiving.written.openOn hcount] at hret ⊢
  split at hret
  · cases hret
  · show (transferCompleted k w (Transfer.stored w s payload)).1.readings = _
    rw [readings_transferCompleted, htimed.2.1]

/-- **A file whose transfer takes some time**: one row is appended and the receiver is
    idle again. -/
theorem receive_of_tick {t : SentFile} (h : t.content ≠ [])
    (htick : w.clock (s.readings + 3) ≠ w.clock (s.readings + 2)) :
    ∃ s', (∀ ms, receive k w s (t.messages k ++ ms) = receive k w s' ms) ∧
      s'.disk.handle = none ∧ s'.readings = s.readings + 4 ∧
      ∃ row, s'.rows = s.rows ++ [row] ∧ RowOf t row := by
  obtain ⟨received, payload, s', hchunks, htotal, hmid, heq⟩ :=
    receive_file (k := k) (w := w) (s := s) h
  obtain ⟨hret, hidle, row, hrows, hsize, -⟩ := hmid.handle_last_returns k payload htotal htick
  refine ⟨_, fun ms => (heq ms).trans (receive_of_returns (Prod.ext rfl hret) ms), hidle,
    hmid.readings_last htotal hret, row, hrows, ?_⟩
  rw [RowOf, hchunks]
  exact hsize

/-! ## A sequence of files -/

/-- Files with bytes whose transfers take some time: four clock readings for each. -/
theorem receive_files {ts : List SentFile} (hne : ∀ t ∈ ts, t.content ≠ [])
    (htick : ∀ i < ts.length,
      w.clock (s.readings + 4 * i + 3) ≠ w.clock (s.readings + 4 * i + 2))
    (hidle : s.disk.handle = none) :
    ∃ s' rows, receive k w s (ts.flatMap (SentFile.messages k)) = s' ∧
      s'.disk.handle = none ∧ s'.rows = s.rows ++ rows ∧ List.Forall₂ RowOf ts rows := by
  induction ts generalizing s with
  | nil => exact ⟨s, [], rfl, hidle, by rw [List.append_nil], .nil⟩
  | cons t ts ih =>
    rw [List.forall_mem_cons] at hne
    obtain ⟨s₁, hfirst, hidle₁, hreadings, row, hrow, hof⟩ :=
      receive_of_tick (k := k) hne.1 (htick 0 (by simp))
    have htick₁ : ∀ i < ts.length,
        w.clock (s₁.readings + 4 * i + 3) ≠ w.clock (s₁.readings + 4 * i + 2) := by
      intro i hi
      have := htick (i + 1) (by rw [List.length_cons]; omega)
      rwa [hreadings, show s.readings + 4 + 4 * i = s.readings + 4 * (i + 1) by ring]
    obtain ⟨s₂, rows, hrest, hidle₂, hrows, hall⟩ := ih hne.2 htick₁ hidle₁
    refine ⟨s₂, row :: rows, ?_, hidle₂, ?_, .cons hof hall⟩
    · rw [List.flatMap_cons, hfirst, hrest]
    · rw [hrows, hrow, List.append_assoc]
      rfl

/-- At most one row for each file. -/
theorem length_rows_receive_le (k : Dialect) (w : World) (s : Receiver) (ts : List SentFile) :
    (receive k w s (ts.flatMap (SentFile.messages k))).rows.length ≤
      s.rows.length + ts.length := by
  induction ts generalizing s with
  | nil => exact le_rfl
  | cons t ts ih =>
    rw [List.flatMap_cons, List.length_cons]
    by_cases hempty : t.content = []
    · rw [receive_empty hempty]
      exact (ih _).trans (Nat.add_le_add_left (Nat.le_succ _) _)
    by_cases htick : w.clock (s.readings + 3) = w.clock (s.readings + 2)
    · obtain ⟨s₁, hfirst, -, hrows⟩ := receive_of_no_tick (k := k) hempty htick
      rw [hfirst, hrows]
      exact Nat.le_add_right _ _
    · obtain ⟨s₁, hfirst, -, -, row, hrow, -⟩ := receive_of_tick (k := k) hempty htick
      rw [hfirst]
      refine (ih s₁).trans ?_
      rw [hrow, List.length_append, List.length_singleton]
      omega

/-- A receiver that is idle with a row for each file has met no empty file and has seen
    the clock advance in every transfer. -/
theorem ticks_of_rows {ts : List SentFile}
    (hidle : (receive k w s (ts.flatMap (SentFile.messages k))).disk.handle = none)
    (hrows : (receive k w s (ts.flatMap (SentFile.messages k))).rows.length =
      s.rows.length + ts.length) :
    (∀ t ∈ ts, t.content ≠ []) ∧ ∀ i < ts.length,
      w.clock (s.readings + 4 * i + 3) ≠ w.clock (s.readings + 4 * i + 2) := by
  induction ts generalizing s with
  | nil => exact ⟨by simp, by simp⟩
  | cons t ts ih =>
    rw [List.flatMap_cons] at hidle hrows
    by_cases hempty : t.content = []
    · -- a row is missing
      have hle := length_rows_receive_le k w (opened k w s (t.metadata k)) ts
      rw [receive_empty hempty] at hrows
      rw [hrows, List.length_cons] at hle
      have : (opened k w s (t.metadata k)).rows = s.rows := rfl
      rw [this] at hle
      omega
    by_cases htick : w.clock (s.readings + 3) = w.clock (s.readings + 2)
    · -- the handler raised, and the handle is still open
      obtain ⟨s₁, hfirst, hopen, -⟩ := receive_of_no_tick (k := k) hempty htick
      rw [hfirst] at hidle
      exact absurd hidle hopen
    · obtain ⟨s₁, hfirst, -, hreadings, row, hrow, -⟩ := receive_of_tick (k := k) hempty htick
      rw [hfirst] at hidle hrows
      rw [List.length_cons] at hrows
      have hlen : s₁.rows.length = s.rows.length + 1 := by
        rw [hrow, List.length_append, List.length_singleton]
      obtain ⟨hne, hticks⟩ := ih hidle (by omega)
      refine ⟨List.forall_mem_cons.2 ⟨hempty, hne⟩, fun i hi => ?_⟩
      cases i with
      | zero => exact htick
      | succ i =>
        rw [List.length_cons] at hi
        have := hticks i (by omega)
        rwa [hreadings, show s.readings + 4 + 4 * i = s.readings + 4 * (i + 1) by ring] at this

/-- As many chunks are sent as are announced. -/
theorem announced_messages (k : Dialect) (t : SentFile) :
    ∃ (m : Metadata) (payloads : List Bytes),
      t.messages k = .control m.text :: payloads.map .data ∧ payloads.length = m.totalChunks :=
  ⟨t.metadata k, chunks t.content, rfl, length_chunks t.content⟩

/-- **Every transfer completes** iff no file is empty and the clock advances between the
    first chunk and the end of every transfer. -/
theorem completed_iff (k : Dialect) (w : World) (files : Dict String Bytes)
    (ts : List SentFile) :
    Completed k ts (receive k w (.init files) (ts.flatMap (SentFile.messages k))) ↔
      (∀ t ∈ ts, t.content ≠ []) ∧
        ∀ i < ts.length, w.clock (4 * i + 3) ≠ w.clock (4 * i + 2) := by
  have hstart (i : ℕ) : (Receiver.init files).readings + 4 * i = 4 * i := Nat.zero_add _
  constructor
  · intro h
    have hlen : 0 + ts.length = ts.length := Nat.zero_add _
    have hconds := ticks_of_rows h.idle (h.rows.length_eq.symm.trans hlen.symm)
    simpa only [hstart] using hconds
  · rintro ⟨hne, htick⟩
    obtain ⟨s', rows, hreceive, hidle, hrows, hall⟩ :=
      receive_files (k := k) (s := .init files) hne (by simpa only [hstart] using htick) rfl
    rw [hreceive]
    refine ⟨fun t _ => announced_messages k t, hidle, ?_⟩
    rw [hrows]
    exact hall

def emptyFile : SentFile := ⟨"a.bin", [], 1⟩

/-- What a receiver has done once it has the messages of an empty file. -/
def afterEmpty (k : Dialect) : Receiver :=
  receive k (tickingWorld 0) (.init []) (emptyFile.messages k)

/-- Nothing arrives after the control message of an empty file: the handle stays open and
    no row is appended. -/
theorem not_completed_empty :
    ¬ Completed .mqtt [emptyFile] (afterEmpty .mqtt) ∧
      ¬ Completed .amqp [emptyFile] (afterEmpty .amqp) := by
  constructor
  · intro h
    have hidle := h.idle
    rw [afterEmpty, ← List.append_nil (emptyFile.messages _), receive_empty rfl] at hidle
    cases hidle
  · intro h
    have hidle := h.idle
    rw [afterEmpty, ← List.append_nil (emptyFile.messages _), receive_empty rfl] at hidle
    cases hidle

end TransferTestbed.Transfer
