import TransferTestbed.Library.Queues
import TransferTestbed.Transfer.Completion

/-!
# The AMQP pair over its two queues

The client publishes control messages on `file/control` and chunks on `file/data`;
the broker orders messages within a queue only, and the receiver has one consumer
per queue. A message is delivered when its handler is called, whether that returns or
raises. An exception ends `start_consuming`, so that the runs of the program are those in
which it comes with the last message, if at all; what is proved here holds of the calls
after it as well.

Results:
* `length_rows_deliver_le`: the receiver appends at most one row for every transfer whose
  chunks all arrive before the next control message.
* `deliver_published`: what the receiver leaves when it sees the publish order.
* `reassembled_iff`: every transfer is stored and counted iff the deliveries keep the
  order of the publishes, the chunks cover the files and the clock advances in every transfer.
-/

namespace TransferTestbed.Transfer

open Integrity WriteCsv Chunking Framing Framing.Queues Transition

/-- One call of `send_file` of the AMQP client. -/
structure AmqpTransfer where
  filename : String
  content : Bytes
deriving DecidableEq

namespace AmqpTransfer

def metadata (t : AmqpTransfer) : Metadata := metadataOf t.filename t.content none

/-- A control message and its chunks. -/
def frame (t : AmqpTransfer) : Metadata × List Bytes := (t.metadata, chunks t.content)

end AmqpTransfer

/-- What the client publishes for transfers one after another. -/
def published (ts : List AmqpTransfer) : List Wire := stream (ts.map AmqpTransfer.frame)

theorem map_message_published (ts : List AmqpTransfer) :
    (published ts).map Wire.message = ts.flatMap fun t => sendFile t.filename t.content none := by
  induction ts with
  | nil => rfl
  | cons t ts ih =>
    rw [List.flatMap_cons, ← ih, ← map_message_transferWire, ← List.map_append]
    rfl

/-- The receiver after the handler of a message (amqp_receiver.py, lines 97–160), also when
    that has raised. -/
def consume (w : World) (s : Receiver) (m : Wire) : Option Receiver :=
  some (handle .amqp w s m.message).1

/-- The cell of a row's byte count. -/
def sizeCell (n : ℕ) : Cell := .float (Binary64.trueDiv n (1024 * 1024))

/-- Every output file has the bytes of its transfer, and there is one row per transfer,
    with its byte count. -/
structure Reassembled (ts : List AmqpTransfer) (s : Receiver) : Prop where
  files : ∀ t ∈ ts, s.disk.content t.filename = some t.content
  rows : (s.rows.map fun row => row.get? "file_size").Perm
    (ts.map fun t => some (sizeCell t.content.length))

/-! ## Counting rows -/

theorem run_consume (w : World) (s : Receiver) (ms : List Wire) :
    run (consume w) s ms = some (deliver .amqp w s ms) := by
  induction ms generalizing s with
  | nil => rfl
  | cons m ms ih => exact ih (handle .amqp w s m.message).1

/-- A transfer is open that needs some more chunks to be complete; with none, there may also be
    no open transfer. -/
def Needs (need : ℕ) (s : Receiver) : Prop :=
  (need = 0 ∧ s.disk.handle = none) ∨
    ∃ path total checksum received held,
      Receiving path total checksum s.rows received held s ∧ need = total - received.length

theorem needs_header (w : World) (s : Receiver) (m : Metadata) :
    Needs m.totalChunks (opened .amqp w s m) :=
  Or.inr ⟨_, _, _, [], _, receiving_opened .amqp w s m, rfl⟩

/-- A transfer whose completion has raised stays as it is. -/
theorem Receiving.raised {path checksum : String} {total held : ℕ} {rows : List Row}
    {received : List Bytes} {s : Receiver} (h : Receiving path total checksum rows received held s)
    (k : Dialect) {w : World} (hzero : durationOf w s = 0) :
    Receiving path total checksum rows received held (transferCompleted k w s).1 := by
  obtain ⟨m, n, stats, hstop⟩ := stopMonitor_eq k w { s with readings := s.readings + 1 }
  simp only [transferCompleted, hstop, microseconds_eq_zero.2 hzero, if_true]
  exact ⟨h.written, h.expectedChunks, h.receivedChunks, h.receivedBytes, h.currentFilename,
    h.expectedChecksum, h.rows⟩

/-- One chunk: a row is appended with the last one that is needed, unless its handler raises. -/
theorem needs_item {w : World} {s : Receiver} {need : ℕ} (h : Needs need s) (payload : Bytes) :
    Needs (need - 1) (handle .amqp w s (.data payload)).1 ∧
      (handle .amqp w s (.data payload)).1.rows.length ≤
        s.rows.length + if need = 1 then 1 else 0 := by
  rcases h with ⟨rfl, hidle⟩ | ⟨path, total, checksum, received, held, hrec, rfl⟩
  · rw [handle_data_idle .amqp w hidle]
    exact ⟨Or.inl ⟨rfl, hidle⟩, Nat.le_add_right _ _⟩
  · have hstored := hrec.stored w payload
    have hlen : (received ++ [payload]).length = received.length + 1 := by simp
    have hopen {t : Receiver} (hrows : t.rows = s.rows) (ht : Receiving path total checksum s.rows
        (received ++ [payload]) (heldAfter w s held payload) t) :
        Needs (total - received.length - 1) t ∧
          t.rows.length ≤ s.rows.length + if total - received.length = 1 then 1 else 0 := by
      refine ⟨Or.inr ⟨path, total, checksum, _, _, hrows ▸ ht, by omega⟩, ?_⟩
      rw [hrows]
      exact Nat.le_add_right _ _
    by_cases hlast : received.length + 1 = total
    · by_cases hzero : durationOf w (stored w s payload) = 0
      · -- the handler raises, and the transfer stays open
        have hraise := (transferCompleted_raises .amqp w hzero).1
        rw [handle_data_last .amqp w hrec.written.openOn
          (by rw [hrec.pyEq_stored w payload, decide_eq_true hlast]), hraise]
        have hraised := hstored.raised .amqp hzero
        exact hopen hraised.rows hraised
      · obtain ⟨-, hnone, row, hrows, -⟩ := hrec.handle_last_returns .amqp w hlast hzero
        refine ⟨Or.inl ⟨by omega, hnone⟩, ?_⟩
        rw [hrows, List.length_append, if_pos (by omega)]
        rfl
    · have hmore : pyEq (stored w s payload).receivedChunks
          (stored w s payload).expectedChunks = false := by
        rw [hrec.pyEq_stored w payload, decide_eq_false hlast]
      rw [handle_data_more .amqp w hrec.written.openOn hmore]
      exact hopen hstored.rows hstored

/-- **The rows after any messages**: at most one for every transfer that completes. -/
theorem length_rows_deliver_le (w : World) (ms : List Wire) {need : ℕ} {s : Receiver}
    (hneeds : Needs need s) :
    (deliver .amqp w s ms).rows.length ≤
      s.rows.length + completions Metadata.totalChunks need ms := by
  induction ms generalizing need s with
  | nil => exact le_rfl
  | cons m ms ih =>
    cases m with
    | header m =>
      rw [deliver_control, completions]
      exact ih (needs_header w s m)
    | item payload =>
      obtain ⟨hneeds', hrows⟩ := needs_item (w := w) hneeds payload
      have hrest := ih hneeds'
      rw [deliver_data, completions]
      split_ifs at hrows ⊢ with hone
      · rw [hone, Nat.sub_self] at hrest
        omega
      · omega

/-! ## Publish order -/

/-- One transfer whose messages arrive in order: its file, and a row if the clock advances
    between its first chunk and its end. -/
theorem deliver_frame (w : World) {t : AmqpTransfer} (hne : t.content ≠ []) (s : Receiver) :
    let z := deliver .amqp w s (transferWire t.metadata (chunks t.content))
    (∀ g, z.disk.view g =
        if g = t.filename then some (chunks t.content).flatten else s.disk.view g) ∧
      z.readings = s.readings + 4 ∧
      if w.clock (s.readings + 3) = w.clock (s.readings + 2) then z.rows = s.rows
      else z.disk.handle = none ∧ ∃ row : Row, z.rows = s.rows ++ [row] ∧
        row.get? "file_size" = some (sizeCell (chunks t.content).flatten.length) := by
  have hview (g : String) := view_deliver_transferWire .amqp w s t.metadata (chunks t.content)
    (length_chunks t.content).le g
  have hlen := length_chunks t.content
  have hpos := calculateTotalChunks_pos (List.length_pos_iff.2 hne)
  obtain ⟨received, payload, hchunks⟩ := List.eq_nil_or_concat' (chunks t.content)
    |>.resolve_left (List.length_pos_iff.1 (hlen ▸ hpos))
  have htotal : t.metadata.totalChunks = received.length + 1 := by
    rw [AmqpTransfer.metadata, metadataOf, ← hlen, hchunks, List.length_append]
    rfl
  have hmid := midway_deliver .amqp w s t.metadata received (by omega)
  have hcount := hmid.receiving.pyEq_stored w payload
  rw [decide_eq_true htotal.symm] at hcount
  have hreadings : (handle .amqp w (deliver .amqp w s (transferWire t.metadata received))
      (.data payload)).1.readings = s.readings + 4 := by
    have htimed := (hmid.stored payload).timed
    rw [Timed, if_neg (by simp)] at htimed
    rw [handle_data_last .amqp w hmid.receiving.written.openOn hcount]
    split <;> exact readings_transferCompleted.trans (by rw [htimed.2.1])
  refine ⟨hview, ?_⟩
  rw [hchunks, transferWire_concat, deliver_append, deliver_data]
  refine ⟨hreadings, ?_⟩
  split_ifs with htick
  · exact (hmid.handle_last_raises .amqp payload htotal htick).2
  · obtain ⟨-, hnone, row, hrows, hsize, -⟩ := hmid.handle_last_returns .amqp payload htotal htick
    exact ⟨hnone, row, hrows, hsize⟩

theorem published_cons (t : AmqpTransfer) (ts : List AmqpTransfer) :
    published (t :: ts) = transferWire t.metadata (chunks t.content) ++ published ts := rfl

/-- The clock advances between the first chunk of every transfer and its end, when the first of
    them begins at the reading `start`; each transfer takes four readings. -/
def Ticks (w : World) (start count : ℕ) : Prop :=
  ∀ i < count, w.clock (start + 4 * i + 3) ≠ w.clock (start + 4 * i + 2)

theorem ticks_succ {w : World} {start count : ℕ} : Ticks w start (count + 1) ↔
    w.clock (start + 3) ≠ w.clock (start + 2) ∧ Ticks w (start + 4) count := by
  constructor
  · intro h
    refine ⟨h 0 (Nat.succ_pos _), fun i hi => ?_⟩
    rw [show start + 4 + 4 * i = start + 4 * (i + 1) by ring]
    exact h (i + 1) (Nat.succ_lt_succ hi)
  · rintro ⟨hfirst, hrest⟩ i hi
    cases i with
    | zero => exact hfirst
    | succ i =>
      rw [show start + 4 * (i + 1) = start + 4 + 4 * i by ring]
      exact hrest i (Nat.lt_of_succ_lt_succ hi)

/-- **What the receiver leaves when it sees the publish order**: the files, and a row for every
    transfer if the clock advances in every transfer. -/
theorem deliver_published {w : World} {ts : List AmqpTransfer} (hne : ∀ t ∈ ts, t.content ≠ [])
    (hnames : (ts.map AmqpTransfer.filename).Nodup) (s : Receiver) :
    let z := deliver .amqp w s (published ts)
    (∀ t ∈ ts, z.disk.view t.filename = some (chunks t.content).flatten) ∧
      (∀ g, g ∉ ts.map AmqpTransfer.filename → z.disk.view g = s.disk.view g) ∧
      z.rows.length ≤ s.rows.length + ts.length ∧
      (z.rows.length = s.rows.length + ts.length → Ticks w s.readings ts.length) ∧
      (Ticks w s.readings ts.length → (s.disk.handle = none → z.disk.handle = none) ∧
        z.rows.map (fun row => row.get? "file_size") =
          s.rows.map (fun row => row.get? "file_size") ++
            ts.map fun t => some (sizeCell (chunks t.content).flatten.length)) := by
  induction ts generalizing s with
  | nil => exact ⟨by simp, fun g _ => rfl, le_rfl, fun _ i hi => absurd hi (Nat.not_lt_zero i),
      fun _ => ⟨id, by simp [published, stream, deliver]⟩⟩
  | cons t ts ih =>
    rw [List.forall_mem_cons] at hne
    rw [List.map_cons, List.nodup_cons] at hnames
    obtain ⟨hview, hreadings, hrow⟩ := deliver_frame w hne.1 s
    obtain ⟨hfiles, hframe, hle, hticks, hcells⟩ :=
      ih hne.2 hnames.2 (deliver .amqp w s (transferWire t.metadata (chunks t.content)))
    rw [published_cons, deliver_append, List.length_cons, ticks_succ]
    rw [hreadings] at hticks hcells
    refine ⟨?_, ?_, ?_, ?_, ?_⟩
    · rw [List.forall_mem_cons]
      exact ⟨by rw [hframe _ hnames.1, hview, if_pos rfl], hfiles⟩
    · intro g hg
      rw [List.map_cons, List.mem_cons, not_or] at hg
      rw [hframe g hg.2, hview, if_neg hg.1]
    · split_ifs at hrow with htick
      · rw [hrow] at hle
        omega
      · obtain ⟨-, row, hrows, -⟩ := hrow
        rw [hrows, List.length_append, List.length_singleton] at hle
        omega
    · intro hall
      split_ifs at hrow with htick
      · -- a row is missing
        rw [hrow] at hle
        omega
      · obtain ⟨-, row, hrows, -⟩ := hrow
        rw [hrows, List.length_append, List.length_singleton] at hticks
        exact ⟨htick, hticks (by omega)⟩
    · rintro ⟨htick, hrest⟩
      rw [if_neg htick] at hrow
      obtain ⟨hnone, row, hrows, hsize⟩ := hrow
      obtain ⟨hidle, hrest⟩ := hcells hrest
      refine ⟨fun _ => hidle hnone, ?_⟩
      rw [hrest, hrows, List.map_append, List.append_assoc, List.map_singleton, hsize]
      rfl

/-! ## The property -/

theorem wellSized_frames {ts : List AmqpTransfer} (hne : ∀ t ∈ ts, t.content ≠ []) :
    WellSized Metadata.totalChunks (ts.map AmqpTransfer.frame) := by
  intro f hf
  obtain ⟨t, ht, rfl⟩ := List.mem_map.1 hf
  have hlen := length_chunks t.content
  refine ⟨hlen.symm, ?_⟩
  rw [← List.length_pos_iff]
  exact hlen ▸ calculateTotalChunks_pos (List.length_pos_iff.2 (hne t ht))

/-- If there are as many rows as transfers, the receiver saw the publish order. -/
theorem eq_published_of_rows {w : World} {files : Dict String Bytes} {ts : List AmqpTransfer}
    (hne : ∀ t ∈ ts, t.content ≠ []) {ms : List Wire}
    (hheaders : headers ms = headers (published ts)) (hitems : items ms = items (published ts))
    (hrows : (deliver .amqp w (.init files) ms).rows.length = ts.length) : ms = published ts := by
  have hsized := wellSized_frames hne
  rw [published, headers_stream] at hheaders
  rw [published, items_stream] at hitems
  have hneeds : Needs 0 (Receiver.init files) := Or.inl ⟨rfl, rfl⟩
  have hmany := length_rows_deliver_le w ms hneeds
  have hfew := completions_le Metadata.totalChunks ms 0
  have hnone : (Receiver.init files).rows.length = 0 := rfl
  rw [hheaders, List.length_map, List.length_map, pending_zero] at hfew
  exact eq_stream_of_completions ms [] _ hsized hheaders hitems
    (by rw [List.length_nil, List.length_map, pending_zero]; omega)

/-- The receiver after all messages in publish order. -/
theorem reassembled_published {w : World} {files : Dict String Bytes} {ts : List AmqpTransfer}
    (hne : ∀ t ∈ ts, t.content ≠ []) (hnames : (ts.map AmqpTransfer.filename).Nodup) :
    Reassembled ts (deliver .amqp w (.init files) (published ts)) ↔
      (∀ t ∈ ts, Covered t.content.length) ∧ Ticks w 0 ts.length := by
  obtain ⟨hfiles, -, -, hticks, hcells⟩ := deliver_published (w := w) hne hnames (.init files)
  constructor
  · intro hreassembled
    have hlen := hreassembled.rows.length_eq
    rw [List.length_map, List.length_map] at hlen
    have htick := hticks (hlen.trans (Nat.zero_add _).symm)
    refine ⟨fun t ht => ?_, htick⟩
    have hcontent := Disk.view_of_no_handle ((hcells htick).1 rfl) t.filename
    have := (hreassembled.files t ht).symm.trans (hcontent.symm.trans (hfiles t ht))
    exact (flatten_chunks_eq_iff _).1 (Option.some.inj this).symm
  · rintro ⟨hcovered, htick⟩
    obtain ⟨hidle, hsizes⟩ := hcells htick
    have hflat : ∀ t ∈ ts, (chunks t.content).flatten = t.content := fun t ht =>
      (flatten_chunks_eq_iff _).2 (hcovered t ht)
    refine ⟨fun t ht => ?_, ?_⟩
    · rw [← Disk.view_of_no_handle (hidle rfl), hfiles t ht, hflat t ht]
    · rw [hsizes]
      exact .of_eq (List.map_congr_left fun t ht => by rw [hflat t ht])

/-- **Reassembly over two queues**: a complete run stores and counts every transfer iff its
    deliveries alternate between the queues as the publishes do, the chunks cover the files and
    the clock advances between the first chunk of every transfer and its end. -/
theorem reassembled_iff (w : World) (files : Dict String Bytes) (ts : List AmqpTransfer)
    (hne : ∀ t ∈ ts, t.content ≠ []) (hnames : (ts.map AmqpTransfer.filename).Nodup)
    (es : List Queues.Event) (z : Queues Metadata Bytes Receiver)
    (hrun : run (Queues.step (consume w)) (start (published ts) (.init files)) es = some z)
    (hdone : z.Done) :
    Reassembled ts z.consumer ↔
      deliveries es = (published ts).map Msg.channel ∧ (∀ t ∈ ts, Covered t.content.length) ∧
        ∀ i < ts.length, w.clock (4 * i + 3) ≠ w.clock (4 * i + 2) := by
  obtain ⟨ms, hchannels, hms, hheaders, hitems⟩ := run_consumes_program hrun hdone
  rw [run_consume, Option.some.injEq] at hms
  have hticks : Ticks w 0 ts.length ↔
      ∀ i < ts.length, w.clock (4 * i + 3) ≠ w.clock (4 * i + 2) := by
    simp only [Ticks, Nat.zero_add]
  rw [← hms, ← hticks]
  constructor
  · intro hreassembled
    have hlen := hreassembled.rows.length_eq
    rw [List.length_map, List.length_map] at hlen
    obtain rfl := eq_published_of_rows hne hheaders hitems hlen
    exact ⟨hchannels.symm, (reassembled_published hne hnames).1 hreassembled⟩
  · rintro ⟨hdeliveries, hconditions⟩
    obtain rfl := eq_of_channels (hchannels.trans hdeliveries) hheaders hitems
    exact (reassembled_published hne hnames).2 hconditions

/-- A file of two chunks and one of a single byte. -/
def mixedTransfers : List AmqpTransfer := [⟨"a.bin", twoChunks⟩, ⟨"b.bin", [2]⟩]

theorem tickingWorld_tick (keep n : ℕ) :
    (tickingWorld keep).clock (n + 1) ≠ (tickingWorld keep).clock n := by
  simp [tickingWorld]

/-- Two files, each message delivered as soon as it has been published; a kibibyte of each write
    stays in the buffer. -/
theorem reassembled_iff_mixedTransfers : ∃ z,
    run (Queues.step (consume (tickingWorld 1024))) (start (published mixedTransfers) (.init []))
      (promptly (published mixedTransfers)) = some z ∧
    z.Done ∧ Reassembled mixedTransfers z.consumer := by
  have hrun := run_promptly (run_consume (tickingWorld 1024) (.init []) (published mixedTransfers))
  refine ⟨_, hrun, ⟨rfl, rfl, rfl⟩, ?_⟩
  refine (reassembled_iff (tickingWorld 1024) [] mixedTransfers
    (by simp [mixedTransfers, twoChunks]) (by simp [mixedTransfers]) _ _ hrun ⟨rfl, rfl, rfl⟩).2
    ⟨deliveries_promptly _, fun t ht => ?_, fun i _ => tickingWorld_tick 1024 _⟩
  simp only [mixedTransfers, List.mem_cons, List.not_mem_nil, or_false] at ht
  rcases ht with rfl | rfl
  · exact covered_of_le (by rw [length_twoChunks]; norm_num [chunkSize])
  · exact covered_of_le (by norm_num)

/-- Two files of one byte. -/
def twoTransfers : List AmqpTransfer := [⟨"a.bin", [1]⟩, ⟨"b.bin", [2]⟩]

/-- Both control messages before the chunks. -/
def controlsFirst : List Wire :=
  [.header (metadataOf "a.bin" [1] none), .header (metadataOf "b.bin" [2] none), .item [1],
    .item [2]]

/-- The receiver is slow: both control messages are delivered before the chunks. -/
theorem not_reassembled_controlsFirst : ∃ z,
    run (Queues.step (consume (tickingWorld 0))) (start (published twoTransfers) (.init []))
      (schedule (published twoTransfers) controlsFirst) = some z ∧
    z.Done ∧ ¬ Reassembled twoTransfers z.consumer := by
  have hne : ∀ t ∈ twoTransfers, t.content ≠ [] := by decide
  have hpublished : published twoTransfers = [.header (metadataOf "a.bin" [1] none), .item [1],
      .header (metadataOf "b.bin" [2] none), .item [2]] := by
    have ha : chunks [1] = [[1]] := chunks_of_le (by simp) (by decide)
    have hb : chunks [2] = [[2]] := chunks_of_le (by simp) (by decide)
    simp [published, twoTransfers, stream, AmqpTransfer.frame, AmqpTransfer.metadata, ha, hb]
  have hheaders : headers controlsFirst = headers (published twoTransfers) := by
    rw [hpublished]
    rfl
  have hitems : items controlsFirst = items (published twoTransfers) := by
    rw [hpublished]
    rfl
  have hms := run_consume (tickingWorld 0) (.init []) controlsFirst
  refine ⟨_, run_schedule hheaders hitems hms, ⟨rfl, rfl, rfl⟩, fun hreassembled => ?_⟩
  have hlen := hreassembled.rows.length_eq
  rw [List.length_map, List.length_map] at hlen
  have hlen : (deliver .amqp (tickingWorld 0) (.init []) controlsFirst).rows.length =
      twoTransfers.length := hlen
  have horder := eq_published_of_rows hne hheaders hitems hlen
  rw [hpublished, controlsFirst] at horder
  simp at horder

end TransferTestbed.Transfer
