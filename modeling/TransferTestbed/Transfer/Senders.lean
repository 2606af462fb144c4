import TransferTestbed.Transfer.Receiver

/-!
# The senders and the broker's confirmations

`send_file` of the MQTT client (`protocols/MQTT/clients/client_a.py`) and of the
AMQP client (`protocols/AMQP/client/amqp_client.py`) as the list of what they do,
given how the broker reacts to each message. A refused or unconfirmed message is
at most warned about, and the sending goes on. The file-system and clock readings
are given, and the QoS level is one that `publish` takes.

Results:
* `exchange_settles`: what the client sees before it goes on to the next message.
* `confirmed_prefix_iff`: when every message is confirmed.
* `sendFile_row`: what a sender row says.
-/

namespace TransferTestbed.Transfer

open Integrity WriteCsv Chunking ResourceMonitor

/-! ## Reactions and events -/

/-- How the broker reacts to a message: it acknowledges it, refuses it, cannot route
    it, or is silent until the client's timeout. At QoS 0 nothing is acknowledged, and
    `ack` is that the message has been written to the socket. -/
inductive Reaction where
  | ack
  | nack
  | unroutable
  | silence
deriving DecidableEq, Repr

/-- What a sender does and sees. -/
inductive Event where
  | publish (m : Message)
  | confirmed
  /-- At QoS 0 a message counts as published once it is written to the socket. -/
  | sent
  /-- `NackError` or `UnroutableError`, caught. -/
  | refused (r : Reaction)
  /-- A wait that returns without a confirmation. -/
  | timedOut
  | warning (text : String)
  | endTime (t : ℚ)
  | row (cells : Row)
deriving DecidableEq

/-- What a sender reads of the world. -/
structure Broker where
  connects : Bool
  /-- The reactions to the control message and then to each chunk. -/
  reactions : ℕ → Reaction
  /-- MQTT: `on_publish` finds the id of the control message in `metadata_mid`, before or
      after the wait has ended; not if it runs before the id is stored. -/
  noticed : Bool
  startTime : ℚ
  endTime : ℚ
  /-- From the sending of the control message to its acknowledgement. -/
  ackLatency : ℚ
  stats : Stats

/-! ## Publishing with AMQP -/

def queueName : Message → String
  | .control _ => "file/control"
  | .data _ => "file/data"

/-- What `_publish_confirmed` prints of a message that is not confirmed. -/
def refusal (m : Message) (r : Reaction) : String :=
  "WARNING: message to " ++ queueName m ++
    if r = .unroutable then " was unroutable." else " was nacked by the broker."

/-- `_publish_confirmed` (amqp_client.py, lines 58–75); `none` is an exception that it
    does not catch, when the connection is lost while it waits. -/
def publishConfirmed (m : Message) : Reaction → List Event × Option Bool
  | .ack => ([.publish m, .confirmed], some true)
  | .unroutable =>
    ([.publish m, .refused .unroutable, .warning (refusal m .unroutable)], some false)
  | .nack => ([.publish m, .refused .nack, .warning (refusal m .nack)], some false)
  | .silence => ([.publish m], none)

/-- A publish of the AMQP client, and the warning of its caller; `false` is an
    exception. -/
def amqpExchange (m : Message) (failed : String) (r : Reaction) : List Event × Bool :=
  match (publishConfirmed m r).2 with
  | none => ((publishConfirmed m r).1, false)
  | some true => ((publishConfirmed m r).1, true)
  | some false => ((publishConfirmed m r).1 ++ [.warning failed], true)

/-- What the callers of `_publish_confirmed` print, by the number of messages before. -/
def failedText : ℕ → String
  | 0 => "WARNING: metadata publish failed."
  | chunkNum + 1 =>
    "WARNING: chunk " ++ String.ofList (Decimal.natText (chunkNum + 1)) ++ " failed confirmation."

/-! ## Publishing with MQTT -/

/-- What comes of a message that is not lost. -/
def acknowledgement (qosLevel : ℤ) : Event := if qosLevel = 0 then .sent else .confirmed

/-- A publish of the MQTT client and the wait for it; `seen` is whether the wait ends with an
    acknowledgement, or else goes on to its timeout. MQTT brokers do not refuse messages: any
    reaction but an acknowledgement is a timeout. -/
def mqttExchange (qosLevel : ℤ) (m : Message) (r : Reaction) (seen : Bool)
    (onTimeout : List Event) : List Event × Bool :=
  if r = .ack then
    (.publish m :: acknowledgement qosLevel :: (if seen then [] else .timedOut :: onTimeout), true)
  else (.publish m :: .timedOut :: onTimeout, true)

/-- What `send_file` of the MQTT client prints when `metadata_ack_event` is not set in time. -/
def ackTimeout : String := "WARNING: Timed out waiting for metadata ACK, proceeding anyway."

/-! ## Publishing a file -/

/-- `send_metadata`, and in the MQTT client the wait after it, for an event that `on_publish`
    sets (client_a.py lines 49–65 and 106–107, amqp_client.py lines 78–96). -/
def sendMetadata (k : Dialect) (b : Broker) (qosLevel : ℤ) (m : Message) : List Event × Bool :=
  match k with
  | .mqtt => mqttExchange qosLevel m (b.reactions 0) b.noticed [.warning ackTimeout]
  | .amqp => amqpExchange m (failedText 0) (b.reactions 0)

/-- One turn of the loop of `send_chunks`; `wait_for_publish` waits for its own message
    (client_a.py lines 68–81, amqp_client.py lines 99–110). -/
def sendChunk (k : Dialect) (b : Broker) (qosLevel : ℤ) (chunkNum : ℕ) (m : Message) :
    List Event × Bool :=
  match k with
  | .mqtt => mqttExchange qosLevel m (b.reactions (chunkNum + 1)) true []
  | .amqp => amqpExchange m (failedText (chunkNum + 1)) (b.reactions (chunkNum + 1))

/-- The loop of `send_chunks`, from a chunk on. -/
def sendChunks (k : Dialect) (b : Broker) (qosLevel : ℤ) : ℕ → List Bytes → List Event × Bool
  | _, [] => ([], true)
  | i, chunk :: rest =>
    let sent := sendChunk k b qosLevel i (.data chunk)
    if sent.2 then
      (sent.1 ++ (sendChunks k b qosLevel (i + 1) rest).1,
        (sendChunks k b qosLevel (i + 1) rest).2)
    else sent

/-! ## `send_file` -/

/-- `end_time - start_time`. -/
def Broker.duration (b : Broker) : ℚ := Binary64.fl (b.endTime - b.startTime)

/-- The row of a sender (client_a.py lines 120–131, amqp_client.py lines 147–160). -/
def senderRow (k : Dialect) (b : Broker) (qosLevel : ℤ) (fileSize : ℕ) : Row :=
  let size : Row :=
    [("side", .str "sender"), ("file_size", .float (Binary64.trueDiv fileSize (1024 * 1024))),
      ("sender_duration", .str (Decimal.fixed 2 b.duration)), ("receiver_duration", .str "X")]
  let goodput : Row := [("goodput_mbps", .str (Decimal.fixed 3 (goodputMbps fileSize b.duration)))]
  match k with
  | .mqtt =>
    let latency := if b.noticed then b.ackLatency else 0
    [("protocol", .str "mqtt"), ("qos", .int qosLevel)] ++ size ++
      [("latency", .str (Decimal.fixed 4 latency))] ++ goodput
  | .amqp =>
    [("protocol", .str "amqp")] ++ size ++ [("latency", .str (Decimal.fixed 4 b.ackLatency))] ++
      goodput ++ b.stats.texts.map fun p => (p.1, .str p.2)

/-- The `qos` entry of the control message. -/
def qosOf (k : Dialect) (qosLevel : ℤ) : Option ℤ :=
  match k with
  | .mqtt => some qosLevel
  | .amqp => none

/-- After the last chunk: the end time, and the row unless no time has passed. -/
def finishSending (k : Dialect) (b : Broker) (qosLevel : ℤ) (fileSize : ℕ) : List Event :=
  .endTime b.endTime ::
    if microseconds b.duration = 0 then [] else [.row (senderRow k b qosLevel fileSize)]

/-- `send_file(filename, qos_level)` (client_a.py lines 84–138, amqp_client.py lines
    113–164); without a content the file does not exist. -/
def sendFileEvents (k : Dialect) (b : Broker) (filename : String) (content : Option Bytes)
    (qosLevel : ℤ) : List Event :=
  match content with
  | none => []
  | some bytes =>
    if b.connects = false then []
    else
      let control := sendMetadata k b qosLevel
        (.control (metadataOf filename bytes (qosOf k qosLevel)).text)
      if control.2 = false then control.1
      else
        let data := sendChunks k b qosLevel 0 (chunks bytes)
        if data.2 = false then control.1 ++ data.1
        else control.1 ++ data.1 ++ finishSending k b qosLevel bytes.length

/-! ## One message -/

/-- What a sender does with the message of an index before it goes on to the next one. -/
inductive Settles (k : Dialect) (b : Broker) (qosLevel : ℤ) (i : ℕ) (m : Message) :
    List Event → Prop where
  | confirmed (hreaction : b.reactions i = .ack) (hqos : k = .mqtt → qosLevel ≠ 0)
      (hseen : k = .mqtt → i = 0 → b.noticed = true) :
      Settles k b qosLevel i m [.publish m, .confirmed]
  | sent (hk : k = .mqtt) (hreaction : b.reactions i = .ack) (hqos : qosLevel = 0)
      (hseen : i = 0 → b.noticed = true) : Settles k b qosLevel i m [.publish m, .sent]
  /-- The acknowledgement of the control message that `on_publish` does not recognise. -/
  | unnoticed (hk : k = .mqtt) (hi : i = 0) (hreaction : b.reactions i = .ack)
      (hseen : b.noticed = false) : Settles k b qosLevel i m
        [.publish m, acknowledgement qosLevel, .timedOut, .warning ackTimeout]
  | controlTimedOut (hk : k = .mqtt) (hi : i = 0) (hreaction : b.reactions i ≠ .ack) :
      Settles k b qosLevel i m [.publish m, .timedOut, .warning ackTimeout]
  | chunkTimedOut (hk : k = .mqtt) (hi : i ≠ 0) (hreaction : b.reactions i ≠ .ack) :
      Settles k b qosLevel i m [.publish m, .timedOut]
  | refused (r : Reaction) (hk : k = .amqp) (hreaction : b.reactions i = r)
      (hr : r = .nack ∨ r = .unroutable) : Settles k b qosLevel i m
        [.publish m, .refused r, .warning (refusal m r), .warning (failedText i)]

/-- The message of one turn, the control message first. -/
def exchange (k : Dialect) (b : Broker) (qosLevel : ℤ) (i : ℕ) (m : Message) :
    List Event × Bool :=
  match i with
  | 0 => sendMetadata k b qosLevel m
  | chunkNum + 1 => sendChunk k b qosLevel chunkNum m

section

variable {k : Dialect} {b : Broker} {qosLevel : ℤ} {i : ℕ} {m : Message}

theorem settles_of_seen (hreaction : b.reactions i = .ack) (hseen : i = 0 → b.noticed = true) :
    Settles .mqtt b qosLevel i m [.publish m, acknowledgement qosLevel] := by
  unfold acknowledgement
  split_ifs with hqos
  · exact .sent rfl hreaction hqos hseen
  · exact .confirmed hreaction (fun _ => hqos) fun _ => hseen

theorem sendMetadata_settles :
    Settles .mqtt b qosLevel 0 m (sendMetadata .mqtt b qosLevel m).1 := by
  unfold sendMetadata mqttExchange
  dsimp only
  split_ifs with hreaction hseen
  · exact settles_of_seen hreaction fun _ => hseen
  · exact .unnoticed rfl rfl hreaction (Bool.eq_false_iff.2 hseen)
  · exact .controlTimedOut rfl rfl hreaction

theorem sendChunk_settles :
    Settles .mqtt b qosLevel (i + 1) m (sendChunk .mqtt b qosLevel i m).1 := by
  unfold sendChunk mqttExchange
  simp only [if_true]
  split_ifs with hreaction
  · exact settles_of_seen hreaction fun hi => absurd hi i.succ_ne_zero
  · exact .chunkTimedOut rfl i.succ_ne_zero hreaction

theorem amqpExchange_settles
    (h : (amqpExchange m (failedText i) (b.reactions i)).2 = true) :
    Settles .amqp b qosLevel i m (amqpExchange m (failedText i) (b.reactions i)).1 := by
  cases hr : b.reactions i with
  | ack => exact .confirmed hr (fun hk => by cases hk) fun hk => by cases hk
  | nack => exact .refused .nack rfl hr (.inl rfl)
  | unroutable => exact .refused .unroutable rfl hr (.inr rfl)
  | silence =>
    rw [hr] at h
    cases h

/-- What the client sees before it goes on to the next message. -/
theorem exchange_settles (h : (exchange k b qosLevel i m).2 = true) :
    Settles k b qosLevel i m (exchange k b qosLevel i m).1 := by
  cases k with
  | mqtt =>
    cases i with
    | zero => exact sendMetadata_settles
    | succ i => exact sendChunk_settles
  | amqp =>
    cases i with
    | zero => exact amqpExchange_settles h
    | succ i => exact amqpExchange_settles h

end

/-- A message is published, or confirmed. -/
def Event.isExchange : Event → Bool
  | .publish _ => true
  | .confirmed => true
  | _ => false

/-- The broker acknowledges the message of an index, and there are acknowledgements. -/
def Acknowledges (k : Dialect) (b : Broker) (qosLevel : ℤ) (i : ℕ) : Prop :=
  (k = .mqtt → qosLevel ≠ 0) ∧ b.reactions i = .ack

instance (k : Dialect) (b : Broker) (qosLevel : ℤ) (i : ℕ) :
    Decidable (Acknowledges k b qosLevel i) := inferInstanceAs (Decidable (_ ∧ _))

/-- Of the confirmations there is the one of the message, if the broker acknowledges it. -/
theorem Settles.filter_eq {k : Dialect} {b : Broker} {qosLevel : ℤ} {i : ℕ} {m : Message}
    {segment : List Event} (h : Settles k b qosLevel i m segment) :
    segment.filter Event.isExchange =
      if Acknowledges k b qosLevel i then [.publish m, .confirmed] else [.publish m] := by
  cases h with
  | confirmed hreaction hqos _ => rw [if_pos ⟨hqos, hreaction⟩]; rfl
  | sent hk _ hqos _ => rw [if_neg fun h => h.1 hk hqos]; rfl
  | unnoticed hk _ hreaction _ =>
    by_cases hqos : qosLevel = 0
    · rw [if_neg fun h => h.1 hk hqos, acknowledgement, if_pos hqos]
      rfl
    · rw [if_pos ⟨fun _ => hqos, hreaction⟩, acknowledgement, if_neg hqos]
      rfl
  | controlTimedOut _ _ hreaction => rw [if_neg fun h => hreaction h.2]; rfl
  | chunkTimedOut _ _ hreaction => rw [if_neg fun h => hreaction h.2]; rfl
  | refused r _ hreaction hr =>
    have hne : ¬ Acknowledges k b qosLevel i := by
      rintro ⟨-, hack⟩
      rw [hreaction] at hack
      rcases hr with rfl | rfl
      · cases hack
      · cases hack
    rw [if_neg hne]
    rfl

/-! ## A whole file -/

section

variable {k : Dialect} {b : Broker} {qosLevel : ℤ} {i : ℕ}

/-- The messages from an index on, and what the sender has done with each. -/
def AllSettle (k : Dialect) (b : Broker) (qosLevel : ℤ) (i : ℕ) (ms : List Message)
    (segments : List (List Event)) : Prop :=
  List.Forall₂ (fun p segment => Settles k b qosLevel p.2 p.1 segment) (ms.zipIdx i) segments

theorem allSettle_cons_iff {m : Message} {ms : List Message} {segments : List (List Event)} :
    AllSettle k b qosLevel i (m :: ms) segments ↔ ∃ segment rest,
      segments = segment :: rest ∧ Settles k b qosLevel i m segment ∧
        AllSettle k b qosLevel (i + 1) ms rest := by
  rw [AllSettle, List.zipIdx_cons]
  constructor
  · intro h
    obtain ⟨segment, rest, hsegment, hrest, heq⟩ := List.forall₂_cons_left_iff.1 h
    exact ⟨segment, rest, heq, hsegment, hrest⟩
  · rintro ⟨segment, rest, rfl, hsegment, hrest⟩
    exact .cons hsegment hrest

/-- What is seen of messages, from the one with index `i` on. -/
def exchanges (k : Dialect) (b : Broker) (qosLevel : ℤ) : ℕ → List Message → List (List Event)
  | _, [] => []
  | i, m :: ms => (exchange k b qosLevel i m).1 :: exchanges k b qosLevel (i + 1) ms

theorem sendChunks_eq {xs : List Bytes} (h : (sendChunks k b qosLevel i xs).2 = true) :
    (sendChunks k b qosLevel i xs).1 =
        (exchanges k b qosLevel (i + 1) (xs.map .data)).flatten ∧
      AllSettle k b qosLevel (i + 1) (xs.map .data)
        (exchanges k b qosLevel (i + 1) (xs.map .data)) := by
  induction xs generalizing i with
  | nil => exact ⟨rfl, .nil⟩
  | cons x xs ih =>
    have hchunk : exchange k b qosLevel (i + 1) (.data x) =
        sendChunk k b qosLevel i (.data x) := rfl
    rw [sendChunks] at h ⊢
    by_cases hsent : (sendChunk k b qosLevel i (.data x)).2 = true
    · rw [if_pos hsent] at h ⊢
      obtain ⟨hevents, hsettles⟩ := ih h
      refine ⟨?_, allSettle_cons_iff.2 ⟨_, _, rfl, exchange_settles hsent, hsettles⟩⟩
      rw [List.map_cons, exchanges, List.flatten_cons, hchunk, ← hevents]
    · rw [if_neg hsent] at h
      exact absurd h hsent

/-- Every message published and confirmed, one after the other. -/
def Confirmed (ms : List Message) (events : List Event) : Prop :=
  ms.flatMap (fun m => [.publish m, .confirmed]) <+: events.filter Event.isExchange

/-- After a message the next one is published. -/
theorem not_confirmed_prefix {ms : List Message} {segments : List (List Event)}
    (h : AllSettle k b qosLevel i ms segments) {tail : List Event}
    (htail : tail.filter Event.isExchange = []) (rest : List Event) :
    ¬ (.confirmed :: rest) <+: (segments.flatten ++ tail).filter Event.isExchange := by
  cases ms with
  | nil =>
    cases h
    simp [htail]
  | cons m ms =>
    obtain ⟨segment, rest', rfl, hsegment, -⟩ := allSettle_cons_iff.1 h
    rw [List.flatten_cons, List.append_assoc, List.filter_append, hsegment.filter_eq]
    split_ifs
    · simp
    · simp

/-- When every message is confirmed. -/
theorem confirmed_prefix_iff {ms : List Message} {segments : List (List Event)}
    (h : AllSettle k b qosLevel i ms segments) {tail : List Event}
    (htail : tail.filter Event.isExchange = []) :
    Confirmed ms (segments.flatten ++ tail) ↔
      ∀ j < ms.length, Acknowledges k b qosLevel (i + j) := by
  induction ms generalizing i segments with
  | nil =>
    constructor
    · intro _ j hj
      exact absurd hj (Nat.not_lt_zero j)
    · intro _
      exact List.nil_prefix
  | cons m ms ih =>
    obtain ⟨segment, rest, rfl, hsegment, hrest⟩ := allSettle_cons_iff.1 h
    have hfirst : Confirmed (m :: ms) ((segment :: rest).flatten ++ tail) ↔
        Acknowledges k b qosLevel i ∧ Confirmed ms (rest.flatten ++ tail) := by
      rw [Confirmed, Confirmed, List.flatMap_cons, List.flatten_cons, List.append_assoc,
        List.filter_append, hsegment.filter_eq]
      split_ifs with hack
      · simp [hack]
      · -- an unconfirmed message is not followed by a confirmation
        simp only [hack, false_and, iff_false, List.cons_append, List.nil_append,
          List.cons_prefix_cons, true_and]
        exact not_confirmed_prefix hrest htail _
    rw [hfirst, ih hrest]
    constructor
    · rintro ⟨hack, hnext⟩ j hj
      rcases Nat.eq_zero_or_pos j with rfl | hpos
      · exact hack
      · rw [List.length_cons] at hj
        have := hnext (j - 1) (by omega)
        rwa [show i + 1 + (j - 1) = i + j by omega] at this
    · intro hall
      refine ⟨hall 0 (by simp), fun j hj => ?_⟩
      have := hall (j + 1) (by rw [List.length_cons]; omega)
      rwa [show i + (j + 1) = i + 1 + j by omega] at this

end

/-! ## The row -/

section

variable {k : Dialect} {b : Broker} {qosLevel : ℤ} {i : ℕ} {m : Message}

theorem Settles.forall_mem {segment : List Event} (h : Settles k b qosLevel i m segment) :
    ∀ e ∈ segment, (∀ cells, e ≠ .row cells) ∧ ∀ t, e ≠ .endTime t := by
  have hack : (∀ cells, acknowledgement qosLevel ≠ .row cells) ∧
      ∀ t, acknowledgement qosLevel ≠ .endTime t := by
    unfold acknowledgement
    split_ifs <;> simp
  cases h with
  | unnoticed => simpa using hack
  | confirmed | sent | controlTimedOut | chunkTimedOut | refused => simp

/-- A message that stops the sending has been published and nothing else. -/
theorem exchange_stops (h : (exchange k b qosLevel i m).2 = false) :
    (exchange k b qosLevel i m).1 = [.publish m] := by
  cases k with
  | mqtt =>
    exfalso
    cases i with
    | zero =>
      simp only [exchange, sendMetadata, mqttExchange] at h
      split_ifs at h
    | succ i =>
      simp only [exchange, sendChunk, mqttExchange] at h
      split_ifs at h
  | amqp =>
    cases i with
    | zero =>
      simp only [exchange, sendMetadata, amqpExchange] at h ⊢
      cases hr : b.reactions 0 <;> simp [hr, publishConfirmed] at h ⊢
    | succ i =>
      simp only [exchange, sendChunk, amqpExchange] at h ⊢
      cases hr : b.reactions (i + 1) <;> simp [hr, publishConfirmed] at h ⊢

/-- While messages are sent there is neither a row nor an end time. -/
theorem mem_exchange {e : Event} (he : e ∈ (exchange k b qosLevel i m).1) :
    (∀ cells, e ≠ .row cells) ∧ ∀ t, e ≠ .endTime t := by
  cases hgone : (exchange k b qosLevel i m).2 with
  | true => exact (exchange_settles hgone).forall_mem e he
  | false =>
    rw [exchange_stops hgone, List.mem_singleton] at he
    subst he
    simp

theorem mem_sendChunks {xs : List Bytes} {e : Event}
    (he : e ∈ (sendChunks k b qosLevel i xs).1) :
    (∀ cells, e ≠ .row cells) ∧ ∀ t, e ≠ .endTime t := by
  induction xs generalizing i with
  | nil => simp [sendChunks] at he
  | cons x xs ih =>
    have hchunk (h : e ∈ (sendChunk k b qosLevel i (.data x)).1) :=
      @mem_exchange k b qosLevel (i + 1) (.data x) e h
    rw [sendChunks] at he
    split_ifs at he with hsent
    · rcases List.mem_append.1 he with he | he
      · exact hchunk he
      · exact ih he
    · exact hchunk he

end

section

variable (k : Dialect) (b : Broker) (qosLevel : ℤ) (i : ℕ)

theorem row_notMem_exchange (m : Message) (cells : Row) :
    .row cells ∉ (exchange k b qosLevel i m).1 := fun h => (mem_exchange h).1 cells rfl

theorem row_notMem_sendChunks (xs : List Bytes) (cells : Row) :
    .row cells ∉ (sendChunks k b qosLevel i xs).1 := fun h => (mem_sendChunks h).1 cells rfl

end

/-- What a run that gets to its end has done. -/
theorem sendFileEvents_eq {k : Dialect} {b : Broker} {filename : String} {bytes : Bytes}
    {qosLevel : ℤ} {cells : Row}
    (h : .row cells ∈ sendFileEvents k b filename (some bytes) qosLevel) :
    ∃ segments, sendFileEvents k b filename (some bytes) qosLevel =
        segments.flatten ++ [.endTime b.endTime, .row cells] ∧
      AllSettle k b qosLevel 0 (sendFile filename bytes (qosOf k qosLevel)) segments := by
  have hcontrol : exchange k b qosLevel 0
      (.control (metadataOf filename bytes (qosOf k qosLevel)).text) =
        sendMetadata k b qosLevel
          (.control (metadataOf filename bytes (qosOf k qosLevel)).text) := rfl
  simp only [sendFileEvents, ← hcontrol] at h ⊢
  split_ifs at h ⊢ with hconnects hsent hchunks
  · simp at h
  · exact absurd h (row_notMem_exchange k b qosLevel 0 _ cells)
  · rcases List.mem_append.1 h with h | h
    · exact absurd h (row_notMem_exchange k b qosLevel 0 _ cells)
    · exact absurd h (row_notMem_sendChunks k b qosLevel 0 _ cells)
  · rw [Bool.not_eq_false] at hsent hchunks
    obtain ⟨hevents, hsettles⟩ := sendChunks_eq hchunks
    have hfinish : .row cells ∈ finishSending k b qosLevel bytes.length := by
      rcases List.mem_append.1 h with h | h
      · rcases List.mem_append.1 h with h | h
        · exact absurd h (row_notMem_exchange k b qosLevel 0 _ cells)
        · exact absurd h (row_notMem_sendChunks k b qosLevel 0 _ cells)
      · exact h
    refine ⟨_ :: exchanges k b qosLevel 1 ((chunks bytes).map .data), ?_,
      allSettle_cons_iff.2 ⟨_, _, rfl, exchange_settles hsent, hsettles⟩⟩
    rw [List.flatten_cons, ← hevents]
    unfold finishSending at hfinish ⊢
    split_ifs at hfinish ⊢ with hzero
    · simp at hfinish
    · obtain rfl : cells = senderRow k b qosLevel bytes.length := by simpa using hfinish
      rfl

theorem confirmed_iff {k : Dialect} {b : Broker} {qosLevel : ℤ} {ms : List Message}
    {segments : List (List Event)} (h : AllSettle k b qosLevel 0 ms segments) (t : ℚ)
    (cells : Row) : Confirmed ms (segments.flatten ++ [.endTime t, .row cells]) ↔
      ∀ j < ms.length, Acknowledges k b qosLevel j := by
  rw [confirmed_prefix_iff h rfl]
  simp only [Nat.zero_add]

/-- **What a sender row says.** A row is written at the end of a run that has
    published the control message and every chunk, in order, and has left each of
    them in one of the ways of `Settles`, with its warnings, before it reads the end time;
    all of them are confirmed exactly if the broker acknowledges each of them, which it
    does not do for MQTT at QoS 0. -/
theorem sendFile_row (k : Dialect) (b : Broker) (filename : String) (content : Option Bytes)
    (qosLevel : ℤ) (cells : Row)
    (h : .row cells ∈ sendFileEvents k b filename content qosLevel) :
    ∃ bytes segments, content = some bytes ∧
      sendFileEvents k b filename content qosLevel =
        segments.flatten ++ [.endTime b.endTime, .row cells] ∧
      AllSettle k b qosLevel 0 (sendFile filename bytes (qosOf k qosLevel)) segments ∧
      (Confirmed (sendFile filename bytes (qosOf k qosLevel))
          (sendFileEvents k b filename content qosLevel) ↔
        ∀ j < (sendFile filename bytes (qosOf k qosLevel)).length,
          Acknowledges k b qosLevel j) := by
  cases content with
  | none => simp [sendFileEvents] at h
  | some bytes =>
    obtain ⟨segments, hevents, hsettles⟩ := sendFileEvents_eq h
    refine ⟨bytes, segments, rfl, hevents, hsettles, ?_⟩
    rw [hevents]
    exact confirmed_iff hsettles _ _

/-- A broker that confirms the control message and reacts in one way to every chunk,
    over ten seconds. -/
def brokerOf (r : Reaction) : Broker where
  connects := true
  reactions := fun i => if i = 0 then .ack else r
  noticed := true
  startTime := 0
  endTime := 10
  ackLatency := 1
  stats := .zero

theorem chunks_one : chunks ([1] : Bytes) = [[1]] := chunks_of_le (by simp) (by decide)

theorem duration_brokerOf (r : Reaction) : microseconds (brokerOf r).duration ≠ 0 := by
  rw [Ne, microseconds_eq_zero, Broker.duration, Binary64.fl_eq_zero]
  simp [brokerOf]

theorem row_mem_brokerOf {r : Reaction} (h : r ≠ .silence) :
    .row (senderRow .amqp (brokerOf r) 0 1) ∈
      sendFileEvents .amqp (brokerOf r) "a.bin" (some [1]) 0 := by
  have htime := duration_brokerOf r
  have hfirst : (brokerOf r).reactions 0 = .ack := rfl
  have hnext : (brokerOf r).reactions (0 + 1) = r := rfl
  have hconnects : (brokerOf r).connects = true := rfl
  simp only [sendFileEvents, chunks_one, finishSending, List.length_singleton, if_neg htime]
  cases r with
  | silence => exact absurd rfl h
  | ack | nack | unroutable =>
    simp [sendMetadata, sendChunks, sendChunk, amqpExchange, publishConfirmed, hfirst, hnext,
      hconnects]

theorem sendFile_row_confirmed :
    .row (senderRow .amqp (brokerOf .ack) 0 1) ∈
        sendFileEvents .amqp (brokerOf .ack) "a.bin" (some [1]) 0 ∧
      ∃ bytes segments, (some [1] : Option Bytes) = some bytes ∧
        sendFileEvents .amqp (brokerOf .ack) "a.bin" (some [1]) 0 =
          segments.flatten ++ [.endTime 10, .row (senderRow .amqp (brokerOf .ack) 0 1)] ∧
        AllSettle .amqp (brokerOf .ack) 0 0 (sendFile "a.bin" bytes none) segments ∧
        (Confirmed (sendFile "a.bin" bytes none)
            (sendFileEvents .amqp (brokerOf .ack) "a.bin" (some [1]) 0) ↔
          ∀ j < (sendFile "a.bin" bytes none).length,
            Acknowledges .amqp (brokerOf .ack) 0 j) := by
  have h : .row (senderRow .amqp (brokerOf .ack) 0 1) ∈
      sendFileEvents .amqp (brokerOf .ack) "a.bin" (some [1]) 0 := row_mem_brokerOf (by simp)
  exact ⟨h, sendFile_row .amqp (brokerOf .ack) "a.bin" (some [1]) 0 _ h⟩

theorem length_sendFile_one (qos : Option ℤ) : (sendFile "a.bin" [1] qos).length = 2 := by
  rw [sendFile, chunks_one]
  rfl

/-- A chunk whose reaction is not an acknowledgement is not confirmed. -/
theorem not_confirmed_brokerOf (k : Dialect) {r : Reaction} (hr : r ≠ .ack) (qosLevel : ℤ)
    {cells : Row} (h : .row cells ∈ sendFileEvents k (brokerOf r) "a.bin" (some [1]) qosLevel) :
    ¬ Confirmed (sendFile "a.bin" [1] (qosOf k qosLevel))
      (sendFileEvents k (brokerOf r) "a.bin" (some [1]) qosLevel) := by
  obtain ⟨segments, hevents, hsettles⟩ := sendFileEvents_eq h
  rw [hevents, confirmed_iff hsettles, length_sendFile_one]
  intro hall
  exact hr (hall 1 (by norm_num)).2

/-- A chunk refused by the AMQP broker, and one that the MQTT broker is silent about:
    the row is written, and not every message was confirmed. -/
theorem row_of_unconfirmed :
    .row (senderRow .amqp (brokerOf .nack) 0 1) ∈
        sendFileEvents .amqp (brokerOf .nack) "a.bin" (some [1]) 0 ∧
      ¬ Confirmed (sendFile "a.bin" [1] (qosOf .amqp 0))
          (sendFileEvents .amqp (brokerOf .nack) "a.bin" (some [1]) 0) ∧
      .row (senderRow .mqtt (brokerOf .silence) 1 1) ∈
        sendFileEvents .mqtt (brokerOf .silence) "a.bin" (some [1]) 1 ∧
      ¬ Confirmed (sendFile "a.bin" [1] (qosOf .mqtt 1))
          (sendFileEvents .mqtt (brokerOf .silence) "a.bin" (some [1]) 1) := by
  have hamqp : .row (senderRow .amqp (brokerOf .nack) 0 1) ∈
      sendFileEvents .amqp (brokerOf .nack) "a.bin" (some [1]) 0 := row_mem_brokerOf (by simp)
  have hmqtt : .row (senderRow .mqtt (brokerOf .silence) 1 1) ∈
      sendFileEvents .mqtt (brokerOf .silence) "a.bin" (some [1]) 1 := by
    have htime := duration_brokerOf .silence
    have hconnects : (brokerOf .silence).connects = true := rfl
    simp only [sendFileEvents, chunks_one, finishSending, List.length_singleton, if_neg htime]
    simp [sendMetadata, sendChunks, sendChunk, mqttExchange, hconnects, apply_ite Prod.snd]
  refine ⟨hamqp, ?_, hmqtt, ?_⟩
  · exact not_confirmed_brokerOf .amqp (by simp) 0 hamqp
  · exact not_confirmed_brokerOf .mqtt (by simp) 1 hmqtt

end TransferTestbed.Transfer
