import TransferTestbed.Grpc.Sender
import TransferTestbed.Library.Transition
import TransferTestbed.Transfer.Senders

/-!
# Goodputs

Every measured transfer divides its size by the difference of two clock readings. A clock
that never goes back may give the same reading twice; then the division raises after the
data has been delivered, and no row is appended.

Results:
* `sender_total_iff`, `grpcSender_total_iff`, `receiver_total_iff`: each kind of party.
* `total_iff`: when every completed transfer has its row.
-/

namespace TransferTestbed.Transfer

open Integrity WriteCsv Chunking Transition

/-! ## Statements -/

/-- A row with a goodput that is not negative. -/
def HasGoodput (row : Row) : Prop :=
  ∃ g : ℚ, 0 ≤ g ∧ row.get? "goodput_mbps" = some (.str (Decimal.fixed 3 g))

/-- A message whose handler returns; an exception ends the receiver. -/
def handled (k : Dialect) (w : World) (s : Receiver) (m : Message) : Option Receiver :=
  match (handle k w s m).2 with
  | none => some (handle k w s m).1
  | some _ => none

/-- The next chunk is the last one of an open transfer. -/
def Completes (s : Receiver) : Prop :=
  (∃ h, s.disk.handle = some h ∧ h.closed = false) ∧
    pyEq (s.receivedChunks + 1) s.expectedChunks = true

/-- The last chunk of a transfer makes the receiver append a row. -/
def Appends (k : Dialect) (w : World) (s : Receiver) (m : Message) : Prop :=
  ∀ payload, m = .data payload → Completes s →
    (handle k w s m).2 = none ∧
      ∃ row, (handle k w s m).1.rows = s.rows ++ [row] ∧ HasGoodput row

/-- Who measures a transfer: a call of `send_file`, or a receiver over the messages that
    reach it. -/
inductive Party where
  | sender (k : Dialect) (b : Broker) (filename : String) (content : Option Bytes) (qosLevel : ℤ)
  | grpcSender (c : Grpc.Call)
  | receiver (k : Dialect) (w : World) (files : Dict String Bytes) (ms : List Message)

/-- The clock never goes back. -/
def Party.Steady : Party → Prop
  | .sender _ b _ _ _ => b.startTime ≤ b.endTime
  | .grpcSender c => c.startTime ≤ c.endTime
  | .receiver _ w _ _ => Monotone w.clock

/-- Nothing divides by zero: a sender that gets to its end time appends a row, and so does
    a receiver that gets the last chunk of a transfer. -/
def Party.Total : Party → Prop
  | .sender k b filename content qosLevel =>
    ∀ t, .endTime t ∈ sendFileEvents k b filename content qosLevel →
      ∃ row, .row row ∈ sendFileEvents k b filename content qosLevel ∧ HasGoodput row
  | .grpcSender c =>
    Grpc.sendFile c ≠ .error .zeroDivision ∧
      (c.Uploads → c.Ends → ∃ row, Grpc.sendFile c = .ok (some row) ∧ HasGoodput row)
  | .receiver k w files ms => Along (handled k w) (Appends k w) (.init files) ms

/-- The broker leaves no message of the file without an answer that AMQP waits for. -/
def Finishes (k : Dialect) (b : Broker) (content : Option Bytes) : Prop :=
  ∃ bytes, content = some bytes ∧ b.connects = true ∧
    ∀ i ≤ calculateTotalChunks bytes.length, k = .mqtt ∨ b.reactions i ≠ .silence

/-- When the open transfer has begun, or begins with the next chunk. -/
def startOf (w : World) (s : Receiver) : ℚ :=
  if s.firstChunkReceived then s.transferStartTime else w.clock (s.readings + 1)

/-- The clock reading at the end of the transfer, if the next chunk is the last one. -/
def endOf (w : World) (s : Receiver) : ℚ :=
  if s.firstChunkReceived then w.clock s.readings else w.clock (s.readings + 2)

/-- The last chunk of a transfer comes some time after the first one. -/
def Lasts (w : World) (s : Receiver) (m : Message) : Prop :=
  ∀ payload, m = .data payload → Completes s → startOf w s < endOf w s

/-- Whatever is measured takes some time; and the gRPC client's throughput floor, which
    `send_file` also divides by, is not zero. -/
def Party.TakesTime : Party → Prop
  | .sender k b _ content _ => Finishes k b content → b.startTime < b.endTime
  | .grpcSender c => c.Uploads → c.minThroughput ≠ 0 ∧ (c.Ends → c.startTime < c.endTime)
  | .receiver k w files ms => Along (handled k w) (Lasts w) (.init files) ms

/-! ## The MQTT and AMQP senders -/

section Senders

variable {k : Dialect} {b : Broker} {filename : String} {content : Option Bytes} {qosLevel : ℤ}

/-- A message stops the sending only when AMQP waits for an answer in vain. -/
theorem exchange_goes_iff (k : Dialect) (b : Broker) (qosLevel : ℤ) (i : ℕ) (m : Message) :
    (exchange k b qosLevel i m).2 = true ↔ k = .mqtt ∨ b.reactions i ≠ .silence := by
  cases k with
  | mqtt => cases i <;> simp [exchange, sendMetadata, sendChunk, mqttExchange, apply_ite Prod.snd]
  | amqp =>
    cases i with
    | zero =>
      simp only [exchange, sendMetadata, amqpExchange]
      cases b.reactions 0 <;> simp [publishConfirmed]
    | succ i =>
      simp only [exchange, sendChunk, amqpExchange]
      cases b.reactions (i + 1) <;> simp [publishConfirmed]

theorem sendChunks_goes_iff (k : Dialect) (b : Broker) (qosLevel : ℤ) (i : ℕ)
    (xs : List Bytes) : (sendChunks k b qosLevel i xs).2 = true ↔
      ∀ j < xs.length, k = .mqtt ∨ b.reactions (i + 1 + j) ≠ .silence := by
  induction xs generalizing i with
  | nil => simp [sendChunks]
  | cons x xs ih =>
    have hchunk := exchange_goes_iff k b qosLevel (i + 1) (.data x)
    rw [exchange] at hchunk
    rw [sendChunks]
    split_ifs with hsent
    · simp only [ih]
      constructor
      · intro h j hj
        cases j with
        | zero => exact hchunk.1 hsent
        | succ j =>
          rw [List.length_cons] at hj
          have := h j (by omega)
          rwa [show i + 1 + 1 + j = i + 1 + (j + 1) by omega] at this
      · intro h j hj
        have := h (j + 1) (by rw [List.length_cons]; omega)
        rwa [show i + 1 + (j + 1) = i + 1 + 1 + j by omega] at this
    · refine iff_of_false hsent fun h => hsent (hchunk.2 ?_)
      exact h 0 (by simp)

/-- A sender that gets to its end. -/
theorem sendFileEvents_of_finishes (h : Finishes k b content) :
    ∃ (bytes : Bytes) (before : List Event),
      (∀ e ∈ before, (∀ cells, e ≠ .row cells) ∧ ∀ t, e ≠ .endTime t) ∧
      sendFileEvents k b filename content qosLevel =
        before ++ finishSending k b qosLevel bytes.length := by
  obtain ⟨bytes, rfl, hconnects, hgoes⟩ := h
  have hcontrol := exchange_goes_iff k b qosLevel 0
    (.control (metadataOf filename bytes (qosOf k qosLevel)).text)
  rw [exchange] at hcontrol
  have hsent := hcontrol.2 (hgoes 0 (Nat.zero_le _))
  have hchunks : (sendChunks k b qosLevel 0 (chunks bytes)).2 = true := by
    rw [sendChunks_goes_iff, length_chunks]
    intro j hj
    exact hgoes (0 + 1 + j) (by omega)
  refine ⟨bytes, (exchange k b qosLevel 0 (.control
    (metadataOf filename bytes (qosOf k qosLevel)).text)).1 ++
      (sendChunks k b qosLevel 0 (chunks bytes)).1, fun e he => ?_, ?_⟩
  · rcases List.mem_append.1 he with he | he
    · exact @mem_exchange k b qosLevel 0 _ e he
    · exact mem_sendChunks he
  · simp only [sendFileEvents, hconnects, hsent, hchunks, Bool.true_eq_false, if_false]
    rfl

/-- Otherwise it has no end time. -/
theorem endTime_notMem_of_not_finishes (h : ¬ Finishes k b content) (t : ℚ) :
    .endTime t ∉ sendFileEvents k b filename content qosLevel := by
  cases content with
  | none => simp [sendFileEvents]
  | some bytes =>
    intro ht
    simp only [sendFileEvents] at ht
    split_ifs at ht with hconnects hsent hchunks
    · cases ht
    · exact (@mem_exchange k b qosLevel 0 _ _ ht).2 t rfl
    · rcases List.mem_append.1 ht with ht | ht
      · exact (@mem_exchange k b qosLevel 0 _ _ ht).2 t rfl
      · exact (mem_sendChunks ht).2 t rfl
    · rw [Bool.not_eq_false] at hconnects hsent hchunks
      refine h ⟨bytes, rfl, hconnects, fun i hi => ?_⟩
      cases i with
      | zero => exact (exchange_goes_iff k b qosLevel 0 _).1 hsent
      | succ i =>
        rw [sendChunks_goes_iff, length_chunks] at hchunks
        have := hchunks i (by omega)
        rwa [show 0 + 1 + i = i + 1 by omega] at this

theorem hasGoodput_senderRow (k : Dialect) {b : Broker} (qosLevel : ℤ) (n : ℕ)
    (h : b.startTime ≤ b.endTime) : HasGoodput (senderRow k b qosLevel n) := by
  refine ⟨_, goodputMbps_nonneg n (Binary64.fl_nonneg (sub_nonneg.2 h)), ?_⟩
  cases k <;> rfl

/-- **A sender** appends its row iff its end time is after its start time. -/
theorem sender_total_iff (h : (Party.sender k b filename content qosLevel).Steady) :
    (Party.sender k b filename content qosLevel).Total ↔
      (Party.sender k b filename content qosLevel).TakesTime := by
  have hle : b.startTime ≤ b.endTime := h
  by_cases hfinishes : Finishes k b content
  · obtain ⟨bytes, before, hbefore, hevents⟩ :=
      @sendFileEvents_of_finishes k b filename content qosLevel hfinishes
    unfold Party.Total Party.TakesTime
    simp only [hevents]
    constructor
    · intro htotal _
      obtain ⟨row, hrow, -⟩ := htotal b.endTime
        (List.mem_append_right _ List.mem_cons_self)
      by_contra hlt
      have hzero : microseconds b.duration = 0 := by
        rw [microseconds_eq_zero, Broker.duration, le_antisymm hle (not_lt.1 hlt), sub_self,
          Binary64.fl_zero]
      rw [finishSending, if_pos hzero] at hrow
      rcases List.mem_append.1 hrow with hrow | hrow
      · exact (hbefore _ hrow).1 row rfl
      · simp at hrow
    · intro htime t _
      have hpos : 0 < b.duration := Binary64.fl_pos (sub_pos.2 (htime hfinishes))
      have hne : microseconds b.duration ≠ 0 := mt microseconds_eq_zero.1 hpos.ne'
      refine ⟨_, List.mem_append_right _ ?_, hasGoodput_senderRow k qosLevel bytes.length hle⟩
      rw [finishSending, if_neg hne]
      exact List.mem_cons_of_mem _ List.mem_cons_self
  · exact iff_of_true (fun t ht => absurd ht (endTime_notMem_of_not_finishes hfinishes t))
      fun hf => absurd hf hfinishes

end Senders

/-! ## The gRPC sender -/

theorem hasGoodput_grpcRow (c : Grpc.Call) (fileSize : ℕ) (latency : ℚ) (reply : Grpc.Reply)
    (h : c.startTime ≤ c.endTime) : HasGoodput (Grpc.senderRow c fileSize latency reply) :=
  ⟨_, goodputMbps_nonneg fileSize (Binary64.fl_nonneg (sub_nonneg.2 h)),
    Grpc.get?_goodput_senderRow c fileSize latency reply⟩

/-- What follows the upload divides by zero iff no time has passed. -/
theorem finishCall_total_iff {c : Grpc.Call} (h : c.startTime ≤ c.endTime) (fileSize : ℕ)
    (latency : ℚ) (reply : Grpc.Reply) :
    ((Grpc.finishCall c fileSize latency reply).map some ≠ .error .zeroDivision ∧
        (reply ≠ .exception → ∃ row,
          (Grpc.finishCall c fileSize latency reply).map some = .ok (some row) ∧
            HasGoodput row)) ↔
      (reply ≠ .exception → c.startTime < c.endTime) := by
  unfold Grpc.finishCall
  split_ifs with hreply hzero
  · refine iff_of_true ⟨by simp [Except.map], fun hne => ?_⟩ fun hne => ?_
    · exact absurd hreply hne
    · exact absurd hreply hne
  · refine iff_of_false (fun htotal => htotal.1 rfl) fun hlt => ?_
    have hpos : 0 < c.duration := Binary64.fl_pos (sub_pos.2 (hlt hreply))
    exact hpos.ne' (microseconds_eq_zero.1 hzero)
  · refine iff_of_true ⟨by simp [Except.map], fun _ => ?_⟩ fun _ => ?_
    · exact ⟨_, rfl, hasGoodput_grpcRow c fileSize latency reply h⟩
    · refine lt_of_le_of_ne h fun heq => hzero ?_
      rw [microseconds_eq_zero, Grpc.Call.duration, heq, sub_self, Binary64.fl_zero]

/-- **The gRPC sender** divides by zero iff the configured throughput is zero, or the
    upload takes no time. -/
theorem grpcSender_total_iff {c : Grpc.Call} (h : (Party.grpcSender c).Steady) :
    (Party.grpcSender c).Total ↔ (Party.grpcSender c).TakesTime := by
  have hle : c.startTime ≤ c.endTime := h
  simp only [Party.Total, Party.TakesTime]
  by_cases huploads : c.Uploads
  · obtain ⟨bytes, latency, hcontent, heq⟩ := Grpc.sendFile_of_uploads huploads
    have hends (d : ℚ) (hd : Grpc.deadline c bytes.length = some d) :
        c.Ends ↔ c.reply d ≠ .exception := by
      simp [Grpc.Call.Ends, hcontent, hd]
    rw [heq]
    by_cases hzero : c.minThroughput = 0
    · have hnone : Grpc.deadline c bytes.length = none := if_pos hzero
      rw [hnone]
      refine iff_of_false (fun htotal => htotal.1 rfl) fun htime => ?_
      exact (htime huploads).1 hzero
    · obtain ⟨d, hd⟩ : ∃ d, Grpc.deadline c bytes.length = some d := ⟨_, if_neg hzero⟩
      rw [hd, hends d hd]
      show _ ∧ (_ → _ → ∃ row, (Grpc.finishCall c bytes.length latency (c.reply d)).map some =
        .ok (some row) ∧ HasGoodput row) ↔ _
      have hfinish := finishCall_total_iff hle bytes.length latency (c.reply d)
      constructor
      · intro htotal _
        exact ⟨hzero, hfinish.1 ⟨htotal.1, htotal.2 huploads⟩⟩
      · intro htime
        obtain ⟨hne, hrow⟩ := hfinish.2 (htime huploads).2
        exact ⟨hne, fun _ => hrow⟩
  · refine iff_of_true ⟨?_, fun hu => absurd hu huploads⟩ fun hu => absurd hu huploads
    rcases Grpc.sendFile_of_not_uploads huploads with heq | heq | heq
    · rw [heq]
      simp
    · rw [heq]
      simp
    · rw [heq]
      simp

/-! ## The receivers -/

section Receivers

variable {k : Dialect} {w : World} {s : Receiver} {m : Message} {payload : Bytes}

/-- The first chunk of the current transfer has read the clock for its start time. -/
def Begun (w : World) (s : Receiver) : Prop :=
  s.firstChunkReceived = true → ∃ n < s.readings, s.transferStartTime = w.clock n

theorem begun_init (w : World) (files : Dict String Bytes) : Begun w (.init files) := by
  intro h
  cases h

theorem Begun.firstChunk (h : Begun w s) : Begun w (firstChunk w s) := by
  unfold Transfer.firstChunk
  split_ifs with hfirst
  · exact h
  · exact fun _ => ⟨s.readings + 1, Nat.lt_succ_self _, rfl⟩

theorem Begun.stored (h : Begun w s) (payload : Bytes) : Begun w (stored w s payload) :=
  h.firstChunk

theorem Begun.transferCompleted (h : Begun w s) : Begun w (transferCompleted k w s).1 := by
  obtain ⟨_, _, stats, hstop⟩ := stopMonitor_eq k w { s with readings := s.readings + 1 }
  have hlater : s.firstChunkReceived = true →
      ∃ n < s.readings + 1, s.transferStartTime = w.clock n := by
    intro hfirst
    obtain ⟨n, hn, heq⟩ := h hfirst
    exact ⟨n, by omega, heq⟩
  simp only [Transfer.transferCompleted, hstop]
  split_ifs
  · exact hlater
  · exact hlater

theorem firstChunkReceived_startTransfer (w : World) (s : Receiver) (text : List Char) :
    (startTransfer w s text).1.firstChunkReceived = false := by
  unfold startTransfer
  cases Json.loads text with
  | none => rfl
  | some metadata =>
    dsimp only
    cases metadata.get? "filename" with
    | none => rfl
    | some filename =>
      dsimp only
      cases metadata.get? "total_chunks" with
      | none => rfl
      | some totalChunks => cases filename <;> rfl

theorem Begun.acceptChunk (h : Begun w s) (closed : Bool) (payload : Bytes) :
    Begun w (acceptChunk k w s closed payload).1 := by
  have hstored := h.stored payload
  unfold Transfer.acceptChunk
  dsimp only
  split_ifs
  · exact h.firstChunk
  · split
    · exact hstored.transferCompleted
    · exact hstored.transferCompleted
  · exact hstored

/-- Whatever message is handled, the start time stays a clock reading. -/
theorem Begun.handle (h : Begun w s) (m : Message) : Begun w (handle k w s m).1 := by
  cases m with
  | control text =>
    have hfirst := firstChunkReceived_startTransfer w s text
    have hstarted : Begun w (startTransfer w s text).1 := by
      intro htrue
      rw [hfirst] at htrue
      cases htrue
    cases k with
    | mqtt => exact hstarted
    | amqp =>
      simp only [Transfer.handle, onControl]
      split
      · exact hstarted
      · exact hstarted
  | data payload =>
    cases k with
    | mqtt =>
      simp only [Transfer.handle, onMessage]
      split
      · exact h
      · exact h.acceptChunk _ payload
    | amqp =>
      simp only [Transfer.handle, onData]
      split
      · exact h
      · split_ifs
        · exact h
        · exact h.acceptChunk _ payload

theorem Begun.handled {t : Receiver} (h : Begun w s) (hstep : handled k w s m = some t) :
    Begun w t := by
  unfold Transfer.handled at hstep
  split at hstep
  · cases hstep
    exact h.handle m
  · cases hstep

/-- How long the transfer takes whose last chunk is next. -/
theorem durationOf_stored (w : World) (s : Receiver) (payload : Bytes) :
    durationOf w (stored w s payload) = Binary64.fl (endOf w s - startOf w s) := by
  unfold durationOf stored storeChunk firstChunk endOf startOf
  split_ifs
  · rfl
  · rfl

theorem startOf_le_endOf (hclock : Monotone w.clock) (h : Begun w s) : startOf w s ≤ endOf w s := by
  unfold startOf endOf
  split_ifs with hfirst
  · obtain ⟨n, hn, heq⟩ := h hfirst
    rw [heq]
    exact hclock hn.le
  · exact hclock (Nat.le_succ _)

/-- The last chunk of an open transfer. -/
theorem handle_of_completes (h : Completes s) (payload : Bytes) :
    handle k w s (.data payload) =
      match (transferCompleted k w (stored w s payload)).2 with
      | some e => ((transferCompleted k w (stored w s payload)).1, some e)
      | none => (finishTransfer k (transferCompleted k w (stored w s payload)).1, none) := by
  obtain ⟨⟨h, hopen, hclosed⟩, hlast⟩ := h
  have haccept : handle k w s (.data payload) = acceptChunk k w s false payload := by
    cases k with
    | mqtt => simp only [handle, onMessage, hopen, hclosed]
    | amqp => simp only [handle, onData, hopen, hclosed, Bool.false_eq_true, if_false]
  rw [haccept, acceptChunk]
  simp only [Bool.false_eq_true, if_false]
  refine if_pos ?_
  show pyEq (stored w s payload).receivedChunks (stored w s payload).expectedChunks = true
  rwa [stored_receivedChunks, stored_expectedChunks]

/-- The last chunk makes the receiver append a row iff it comes some time after the first. -/
theorem appends_iff_lasts (hclock : Monotone w.clock) (h : Begun w s) :
    Appends k w s m ↔ Lasts w s m := by
  have hle := startOf_le_endOf hclock h
  refine forall_congr' fun payload => forall_congr' fun hm => forall_congr' fun hlast => ?_
  have hduration := durationOf_stored w s payload
  rw [hm, handle_of_completes hlast]
  constructor
  · rintro ⟨hreturns, -⟩
    refine lt_of_le_of_ne hle fun heq => ?_
    rw [heq, sub_self, Binary64.fl_zero] at hduration
    rw [(transferCompleted_raises k w hduration).1] at hreturns
    cases hreturns
  · intro hlt
    have hne : durationOf w (stored w s payload) ≠ 0 := by
      rw [hduration]
      exact (Binary64.fl_pos (sub_pos.2 hlt)).ne'
    obtain ⟨hreturns, s', stats, -, hrows⟩ := transferCompleted_returns k w hne
    rw [hreturns]
    refine ⟨rfl, _, hrows.trans (by rw [stored_rows]), ?_⟩
    refine ⟨_, goodputMbps_nonneg s'.receivedBytes (Binary64.fl_nonneg (sub_nonneg.2 hle)), ?_⟩
    rw [hduration]
    cases k <;> rfl

/-- **A receiver** appends a row for every transfer that gets its last chunk iff each of
    them takes some time. -/
theorem receiver_total_iff {files : Dict String Bytes} {ms : List Message}
    (h : (Party.receiver k w files ms).Steady) :
    (Party.receiver k w files ms).Total ↔ (Party.receiver k w files ms).TakesTime :=
  along_congr (I := Begun w) (fun _ _ _ hs hstep => hs.handled hstep)
    (fun _ _ hs => appends_iff_lasts h hs) ms (begun_init w files)

end Receivers

/-! ## All parties -/

/-- **When goodputs are total.** By a clock that never goes back, whatever is measured is
    given a row with a goodput that is not negative iff it takes some time by the clock;
    the gRPC client also divides by the throughput it is configured with. -/
theorem total_iff (p : Party) (h : p.Steady) : p.Total ↔ p.TakesTime := by
  cases p with
  | sender k b filename content qosLevel => exact sender_total_iff h
  | grpcSender c => exact grpcSender_total_iff h
  | receiver k w files ms => exact receiver_total_iff h

/-- A sender whose broker acknowledges everything, from the time 5 to `endTime`. -/
def promptSender (endTime : ℚ) : Party :=
  .sender .mqtt ⟨true, fun _ => .ack, true, 5, endTime, 0, .zero⟩ "a.bin" (some [1, 2, 3]) 1

theorem total_promptSender : (promptSender 6).Steady ∧ (promptSender 6).Total := by
  have hsteady : (promptSender 6).Steady := by
    show (5 : ℚ) ≤ 6
    norm_num
  refine ⟨hsteady, (total_iff (promptSender 6) hsteady).2 fun _ => ?_⟩
  show (5 : ℚ) < 6
  norm_num

/-- A receiver and a clock that stands still, and a transfer of one chunk. -/
def stillReceiver : Party :=
  .receiver .mqtt ⟨fun _ => 5, fun _ => 0, 8192, fun _ => .zero⟩ []
    [.control (Metadata.text ⟨"a.bin", 1, "", some 1⟩), .data [1, 2, 3]]

/-- A gRPC client whose upload takes no time by the clock. -/
def stillCall : Party :=
  .grpcSender ⟨some [1, 2, 3], true, some 0, 120, 32000, fun _ => .result true 1, 5, 5, .zero⟩

/-- Two equal readings of the clock: the goodput of what has just been delivered is a
    division by zero, in every one of the programs. -/
theorem not_total_still :
    ((promptSender 5).Steady ∧ ¬ (promptSender 5).Total) ∧
      (stillCall.Steady ∧ ¬ stillCall.Total) ∧
      stillReceiver.Steady ∧ ¬ stillReceiver.Total := by
  refine ⟨⟨?_, ?_⟩, ⟨?_, ?_⟩, ?_, ?_⟩
  · exact le_refl (5 : ℚ)
  · intro htotal
    have hsteady : (promptSender 5).Steady := le_refl (5 : ℚ)
    have htime := (sender_total_iff hsteady).1 htotal
    exact lt_irrefl (5 : ℚ) (htime ⟨_, rfl, rfl, fun _ _ => .inl rfl⟩)
  · exact le_refl (5 : ℚ)
  · intro htotal
    have hsteady : stillCall.Steady := le_refl (5 : ℚ)
    obtain ⟨-, hlt⟩ := (grpcSender_total_iff hsteady).1 htotal ⟨by simp, rfl, by simp⟩
    exact lt_irrefl (5 : ℚ) (hlt fun _ _ _ _ h => by cases h)
  · exact monotone_const
  · intro htotal
    have hsteady : stillReceiver.Steady := monotone_const
    have htime := (receiver_total_iff hsteady).1 htotal
    have hopened := htime.2 _ (by rw [handled, handle_control])
    exact lt_irrefl (5 : ℚ) (hopened.1 [1, 2, 3] rfl ⟨⟨_, rfl, rfl⟩, rfl⟩)

end TransferTestbed.Transfer
