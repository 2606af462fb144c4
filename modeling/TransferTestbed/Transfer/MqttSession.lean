import TransferTestbed.Transfer.Goodput
import TransferTestbed.Transfer.Completion

/-!
# The MQTT pair and its broker

Calls of `send_file` (`protocols/MQTT/clients/client_a.py`), one after another, the broker and the
receiver (`protocols/MQTT/clients/client_b.py`) as one system. The broker queues what gets to it and
delivers it in publish order, at any later time and once; what it has not acknowledged may be lost,
and so may what is published at QoS 0. A call may end at any point. Sender and receiver append
their rows to the same file.

Results:
* `run_file`: the messages of one file, whatever came before.
* `run_spares`: messages that do not concern a file.
* `Inv.step`: what is known of every state.
* `confirmed_of_run`: what has been confirmed is stored, whatever else is lost.
-/

namespace TransferTestbed.Transfer.MqttSession

open Integrity WriteCsv Chunking Transition

/-! ## Senders, broker and receiver -/

/-- A call of `send_file` for a file that exists: what it sees of the broker, and which of its
    messages get into the receiver's queue. -/
structure Call where
  file : SentFile
  broker : Broker
  arrives : ℕ → Bool
  /-- At QoS 1 and 2 the broker has what it acknowledges. -/
  acknowledged : file.qosLevel ≠ 0 → ∀ i, broker.reactions i = .ack → arrives i = true

/-- What the call does and sees. -/
def Call.events (c : Call) : List Event :=
  sendFileEvents .mqtt c.broker c.file.filename (some c.file.content) c.file.qosLevel

/-- A call and how far it has got. -/
structure Attempt where
  call : Call
  position : ℕ

def Attempt.events (a : Attempt) : List Event := a.call.events.take a.position

def published (es : List Event) : List Message :=
  es.filterMap fun e => match e with
    | .publish m => some m
    | _ => none

def rowsOf (es : List Event) : List Row :=
  es.filterMap fun e => match e with
    | .row cells => some cells
    | _ => none

/-- The messages that get into the queue. -/
def arrivals (arrives : ℕ → Bool) (ms : List Message) : List Message :=
  (ms.zipIdx.filter fun p => arrives p.2).map Prod.fst

def Attempt.arrivals (a : Attempt) : List Message :=
  MqttSession.arrivals a.call.arrives (published a.events)

/-- What has got into the queue, by attempts of which the latest is first. -/
def arrived : List Attempt → List Message
  | [] => []
  | a :: earlier => arrived earlier ++ a.arrivals

structure Session where
  receiver : Receiver
  /-- No handler has raised, so that `loop_forever` goes on. -/
  running : Bool
  /-- What the broker has still to deliver. -/
  queue : List Message
  /-- The calls so far, the latest first. -/
  attempts : List Attempt
  /-- The rows of the measurement file. -/
  csv : List Row

def Session.init (files : Dict String Bytes) : Session := ⟨.init files, true, [], [], []⟩

/-- What happens: a sender is started, the latest one takes a step, and the receiver gets a
    message. -/
inductive Action where
  | call (c : Call)
  | send
  | deliver

/-- The message of the next event, if it gets into the queue. -/
def Attempt.arriving (a : Attempt) : Event → List Message
  | .publish m => if a.call.arrives (published a.events).length then [m] else []
  | _ => []

/-- The sender's next event. -/
def Session.emit (s : Session) (a : Attempt) (earlier : List Attempt) (e : Event) : Session :=
  { s with
    queue := s.queue ++ a.arriving e
    attempts := { a with position := a.position + 1 } :: earlier
    csv := s.csv ++ rowsOf [e] }

/-- `on_message`, and the rows that it has appended. -/
def Session.receive (w : World) (s : Session) (m : Message) (queue : List Message) : Session :=
  let handled := handle .mqtt w s.receiver m
  { s with
    receiver := handled.1
    running := handled.2.isNone
    queue := queue
    csv := s.csv ++ handled.1.rows.drop s.receiver.rows.length }

def step (w : World) (s : Session) : Action → Option Session
  | .call c => some { s with attempts := ⟨c, 0⟩ :: s.attempts }
  | .send =>
    match s.attempts with
    | [] => none
    | a :: earlier => (a.call.events[a.position]?).map (s.emit a earlier)
  | .deliver =>
    match s.queue with
    | [] => none
    | m :: queue => if s.running then some (s.receive w m queue) else none

/-! ## One message -/

section Handled

variable {k : Dialect} {w : World} {s t : Receiver} {m : Message} {path g : String}

theorem handled_eq_some : handled k w s m = some t ↔ handle k w s m = (t, none) := by
  unfold handled
  cases h : handle k w s m with
  | mk r e =>
    cases e with
    | none => simp
    | some e => simp

theorem handled_control {md : Metadata} (h : handled k w s (.control md.text) = some t) :
    t = opened k w s md := by
  rw [handled_eq_some, handle_control] at h
  exact (Prod.mk.inj h).1.symm

/-- A chunk of an open transfer: the handle stays open, or there is one row more. -/
theorem handled_data (hopen : s.disk.OpenOn path) {payload : Bytes}
    (h : handled k w s (.data payload) = some t) :
    (∀ g, g ≠ path → t.disk.view g = s.disk.view g) ∧
      (t.disk.OpenOn path ∧ t.rows = s.rows ∨
        t.disk.handle = none ∧ ∃ row, t.rows = s.rows ++ [row]) := by
  rw [handled_eq_some] at h
  have hview := (handle_data_spec k w hopen payload).1
  rw [h] at hview
  refine ⟨fun g hg => (hview g).trans (if_neg hg), ?_⟩
  cases hlast : pyEq (stored w s payload).receivedChunks (stored w s payload).expectedChunks with
  | false =>
    rw [handle_data_more k w hopen hlast] at h
    obtain rfl : stored w s payload = t := (Prod.mk.inj h).1
    have hwrite := Disk.view_write hopen payload (min (w.buffered s.writes) w.bufferSize) path
    exact .inl ⟨by rw [stored_disk]; exact hwrite.1, stored_rows w s payload⟩
  | true =>
    rw [handle_data_last k w hopen hlast] at h
    by_cases hzero : durationOf w (stored w s payload) = 0
    · rw [(transferCompleted_raises k w hzero).1] at h
      cases (Prod.mk.inj h).2
    · obtain ⟨hreturns, s', stats, -, hrows⟩ := transferCompleted_returns k w hzero
      rw [hreturns] at h
      obtain rfl := (Prod.mk.inj h).1
      rw [stored_rows] at hrows
      exact .inr ⟨rfl, _, hrows⟩

/-- The file of the handle is open. -/
def Sound (s : Receiver) : Prop := s.disk.handle = none ∨ ∃ path, s.disk.OpenOn path

/-- How many transfers are open. -/
def openCount (s : Receiver) : ℕ := if s.disk.handle = none then 0 else 1

theorem openCount_le (s : Receiver) : openCount s ≤ 1 := by
  unfold openCount
  split_ifs <;> omega

theorem openCount_of_openOn (h : s.disk.OpenOn path) : openCount s = 1 := by
  obtain ⟨pending, hhandle, -⟩ := h
  rw [openCount, if_neg (by simp [hhandle])]

def isControl : Message → Bool
  | .control _ => true
  | .data _ => false

/-- What one message changes: each row is that of a transfer that is no longer open. -/
theorem handled_spec (hs : Sound s) (wire : Wire) (h : handled k w s wire.message = some t) :
    Sound t ∧ s.rows <+: t.rows ∧ t.rows.length + openCount t ≤
      s.rows.length + openCount s + if isControl wire.message then 1 else 0 := by
  cases wire with
  | header md =>
    obtain rfl := handled_control h
    have hopen := Disk.openOn_openWrite s.disk.close md.filename
    have hle := openCount_le (opened k w s md)
    refine ⟨.inr ⟨_, hopen⟩, List.prefix_refl _, ?_⟩
    simp only [Wire.message, isControl, if_true]
    show s.rows.length + _ ≤ _
    omega
  | item payload =>
    simp only [Wire.message, isControl, Bool.false_eq_true, if_false, Nat.add_zero] at h ⊢
    rcases hs with hidle | ⟨path, hopen⟩
    · rw [handled_eq_some, handle_data_idle k w hidle] at h
      obtain rfl := (Prod.mk.inj h).1
      exact ⟨.inl hidle, List.prefix_refl _, le_rfl⟩
    · rw [openCount_of_openOn hopen]
      rcases (handled_data hopen h).2 with ⟨hopen', hrows⟩ | ⟨hidle, row, hrows⟩
      · rw [hrows, openCount_of_openOn hopen']
        exact ⟨.inr ⟨path, hopen'⟩, List.prefix_refl _, le_rfl⟩
      · rw [hrows, openCount, if_pos hidle, List.length_append]
        exact ⟨.inl hidle, List.prefix_append _ _, le_rfl⟩

/-- The receiver has no handle, or one on another file. -/
def Apart (g : String) (s : Receiver) : Prop :=
  s.disk.handle = none ∨ ∃ path, g ≠ path ∧ s.disk.OpenOn path

/-- A chunk, or a control message for another file. -/
def Spares (g : String) : Wire → Prop
  | .header md => g ≠ md.filename
  | .item _ => True

/-- A message that does not concern a file. -/
theorem Apart.handled (hs : Apart g s) {wire : Wire} (hm : Spares g wire)
    (h : Transfer.handled k w s wire.message = some t) :
    Apart g t ∧ t.disk.view g = s.disk.view g := by
  cases wire with
  | header md =>
    obtain rfl := handled_control h
    refine ⟨.inr ⟨md.filename, hm, Disk.openOn_openWrite s.disk.close md.filename⟩, ?_⟩
    exact (Disk.view_openWrite s.disk md.filename g).trans (if_neg hm)
  | item payload =>
    rcases hs with hidle | ⟨path, hne, hopen⟩
    · rw [Wire.message, handled_eq_some, handle_data_idle k w hidle] at h
      obtain rfl := (Prod.mk.inj h).1
      exact ⟨.inl hidle, rfl⟩
    · obtain ⟨hview, hcases⟩ := handled_data hopen h
      refine ⟨?_, hview g hne⟩
      exact hcases.symm.imp And.left fun h => ⟨path, hne, h.1⟩

end Handled

/-! ## Any messages -/

section Runs

variable {k : Dialect} {w : World} {s t : Receiver} {g : String} {wires : List Wire}

theorem run_spec (hs : Sound s) (h : run (handled k w) s (wires.map Wire.message) = some t) :
    Sound t ∧ s.rows <+: t.rows ∧ t.rows.length + openCount t ≤
      s.rows.length + openCount s + (wires.map Wire.message).countP isControl := by
  induction wires generalizing s with
  | nil =>
    cases h
    exact ⟨hs, List.prefix_refl _, le_rfl⟩
  | cons wire wires ih =>
    rw [List.map_cons] at h ⊢
    obtain ⟨u, hu, hrest⟩ := run_cons_eq_some.1 h
    obtain ⟨hsound, hfirst, hcount⟩ := handled_spec hs wire hu
    obtain ⟨hsound', hrows, hcount'⟩ := ih hsound hrest
    refine ⟨hsound', hfirst.trans hrows, ?_⟩
    rw [List.countP_cons]
    omega

/-- **Messages that do not concern a file** leave it as it is. -/
theorem run_spares (hs : Apart g s) (hall : ∀ wire ∈ wires, Spares g wire)
    (h : run (handled k w) s (wires.map Wire.message) = some t) :
    t.disk.view g = s.disk.view g := by
  induction wires generalizing s with
  | nil =>
    cases h
    rfl
  | cons wire wires ih =>
    obtain ⟨u, hu, hrest⟩ := run_cons_eq_some.1 h
    obtain ⟨hapart, hview⟩ := hs.handled (hall wire List.mem_cons_self) hu
    exact (ih hapart (fun x hx => hall x (List.mem_cons_of_mem _ hx)) hrest).trans hview

theorem eq_deliver_of_run (h : run (handled k w) s (wires.map Wire.message) = some t) :
    t = deliver k w s wires := by
  induction wires generalizing s with
  | nil => exact (Option.some.inj h).symm
  | cons wire wires ih =>
    obtain ⟨u, hu, hrest⟩ := run_cons_eq_some.1 h
    rw [handled_eq_some] at hu
    rw [ih hrest, deliver, deliver, List.foldl_cons, hu]

/-- **The messages of one file**, whatever came before. -/
theorem run_file {file : SentFile} (hne : file.content ≠ [])
    (h : run (handled k w) s (file.messages k) = some t) :
    t.disk.handle = none ∧ t.disk.view file.filename = some (chunks file.content).flatten ∧
      ∃ row, t.rows = s.rows ++ [row] ∧ RowOf file row := by
  have hmessages : file.messages k =
      (transferWire (file.metadata k) (chunks file.content)).map Wire.message :=
    (map_message_transferWire file.filename file.content (qosOf k file.qosLevel)).symm
  have hlen := length_chunks file.content
  have hpos := calculateTotalChunks_pos (List.length_pos_iff.2 hne)
  have hview := view_deliver_transferWire k w s (file.metadata k) (chunks file.content) hlen.le
    file.filename
  rw [hmessages] at h
  rw [← eq_deliver_of_run h] at hview
  obtain ⟨received, payload, hchunks⟩ := List.eq_nil_or_concat' (chunks file.content)
    |>.resolve_left (List.length_pos_iff.1 (hlen ▸ hpos))
  have htotal : (file.metadata k).totalChunks = received.length + 1 := by
    show calculateTotalChunks file.content.length = _
    rw [← hlen, hchunks, List.length_append]
    rfl
  have hmid := midway_deliver k w s (file.metadata k) received (by omega)
  rw [hchunks, transferWire_concat, List.map_append] at h
  obtain ⟨u, hu, hlast⟩ := run_concat_eq_some.1 h
  rw [eq_deliver_of_run hu, Wire.message, handled_eq_some] at hlast
  have htick : w.clock (s.readings + 3) ≠ w.clock (s.readings + 2) := by
    -- the last handler has returned
    intro hsame
    have hraise := (hmid.handle_last_raises k payload htotal hsame).1
    rw [hlast] at hraise
    cases hraise
  obtain ⟨-, hidle, row, hrows, hsize, -⟩ := hmid.handle_last_returns k payload htotal htick
  rw [hlast] at hidle hrows
  exact ⟨hidle, hview.trans (if_pos rfl), row, hrows, by rw [RowOf, hchunks]; exact hsize⟩

end Runs

/-! ## What a sender has published -/

section Sender

variable {c : Call} {a : Attempt} {m : Message}

theorem published_append (es fs : List Event) :
    published (es ++ fs) = published es ++ published fs := List.filterMap_append

theorem rowsOf_append (es fs : List Event) : rowsOf (es ++ fs) = rowsOf es ++ rowsOf fs :=
  List.filterMap_append

theorem published_of_settles {k : Dialect} {b : Broker} {qosLevel : ℤ} {i : ℕ}
    {segment : List Event} (h : Settles k b qosLevel i m segment) : published segment = [m] := by
  cases h with
  | unnoticed =>
    unfold acknowledgement
    split_ifs <;> rfl
  | confirmed | sent | controlTimedOut | chunkTimedOut | refused => rfl

theorem published_flatten {k : Dialect} {b : Broker} {qosLevel : ℤ} {ms : List Message} {i : ℕ}
    {segments : List (List Event)} (h : AllSettle k b qosLevel i ms segments) :
    published segments.flatten = ms := by
  induction ms generalizing i segments with
  | nil =>
    cases h
    rfl
  | cons m ms ih =>
    obtain ⟨segment, rest, rfl, hsegment, hrest⟩ := allSettle_cons_iff.1 h
    rw [List.flatten_cons, published_append, published_of_settles hsegment, ih hrest]
    rfl

theorem filter_finishSending (k : Dialect) (b : Broker) (qosLevel : ℤ) (fileSize : ℕ) :
    (finishSending k b qosLevel fileSize).filter Event.isExchange = [] := by
  unfold finishSending
  split_ifs <;> rfl

/-- A sender that gets no connection does nothing; otherwise it goes through all messages. -/
theorem events_eq (c : Call) : c.events = [] ∨ ∃ segments,
    c.events = segments.flatten ++
      finishSending .mqtt c.broker c.file.qosLevel c.file.content.length ∧
    AllSettle .mqtt c.broker c.file.qosLevel 0 (c.file.messages .mqtt) segments := by
  have hsent (i : ℕ) (m : Message) : (exchange .mqtt c.broker c.file.qosLevel i m).2 = true :=
    (exchange_goes_iff .mqtt c.broker c.file.qosLevel i m).2 (.inl rfl)
  have hchunks : (sendChunks .mqtt c.broker c.file.qosLevel 0 (chunks c.file.content)).2 =
      true := by
    rw [sendChunks_goes_iff]
    exact fun _ _ => .inl rfl
  cases hconnects : c.broker.connects with
  | false => exact .inl (by simp [Call.events, sendFileEvents, hconnects])
  | true =>
    obtain ⟨hevents, hsettles⟩ := sendChunks_eq hchunks
    have hcontrol := hsent 0 (.control (c.file.metadata .mqtt).text)
    refine .inr ⟨(exchange .mqtt c.broker c.file.qosLevel 0
      (.control (c.file.metadata .mqtt).text)).1 ::
        exchanges .mqtt c.broker c.file.qosLevel 1 ((chunks c.file.content).map .data), ?_,
      allSettle_cons_iff.2 ⟨_, _, rfl, exchange_settles hcontrol, hsettles⟩⟩
    rw [List.flatten_cons, ← hevents]
    rw [exchange] at hcontrol
    simp only [SentFile.metadata] at hcontrol
    simp only [Call.events, sendFileEvents, hconnects, hcontrol, hchunks, Bool.true_eq_false,
      if_false]
    rfl

theorem published_events (c : Call) : published c.events <+: c.file.messages .mqtt := by
  rcases events_eq c with hnone | ⟨segments, hevents, hsettles⟩
  · rw [hnone]
    exact List.nil_prefix
  · have hfinish : published (finishSending .mqtt c.broker c.file.qosLevel
        c.file.content.length) = [] := by
      unfold finishSending
      split_ifs <;> rfl
    rw [hevents, published_append, published_flatten hsettles, hfinish, List.append_nil]

theorem published_attempt (a : Attempt) : published a.events <+: a.call.file.messages .mqtt :=
  ((List.take_prefix a.position a.call.events).filterMap _).trans (published_events a.call)

theorem messages_eq (file : SentFile) :
    ∃ wires : List Wire, wires.map Wire.message = file.messages .mqtt ∧
      ∀ g, g ≠ file.filename → ∀ wire ∈ wires, Spares g wire := by
  refine ⟨transferWire (file.metadata .mqtt) (chunks file.content),
    map_message_transferWire _ _ _, fun g hg wire hwire => ?_⟩
  rcases List.mem_cons.1 hwire with rfl | hwire
  · exact hg
  · obtain ⟨payload, -, rfl⟩ := List.mem_map.1 hwire
    trivial

theorem countP_messages (file : SentFile) : (file.messages .mqtt).countP isControl = 1 := by
  rw [SentFile.messages, sendFile, List.countP_cons]
  simp [isControl, List.countP_map, Function.comp_def]

theorem arrivals_sublist (arrives : ℕ → Bool) (ms : List Message) :
    (arrivals arrives ms).Sublist ms := by
  have hsub := (List.filter_sublist (p := fun p : Message × ℕ => arrives p.2)
    (l := ms.zipIdx)).map Prod.fst
  rwa [List.zipIdx_map_fst] at hsub

theorem arrivals_concat (arrives : ℕ → Bool) (ms : List Message) (m : Message) :
    arrivals arrives (ms ++ [m]) =
      arrivals arrives ms ++ if arrives ms.length then [m] else [] := by
  rw [arrivals, List.zipIdx_append, List.filter_append, List.map_append]
  simp only [List.zipIdx_singleton, Nat.zero_add, List.filter_singleton]
  cases arrives ms.length <;> rfl

theorem arrivals_eq_self {arrives : ℕ → Bool} {ms : List Message}
    (h : ∀ i < ms.length, arrives i = true) : arrivals arrives ms = ms := by
  rw [arrivals, List.filter_eq_self.2, List.zipIdx_map_fst]
  intro p hp
  exact h p.2 (List.snd_lt_of_mem_zipIdx hp)

theorem Attempt.arrivals_sublist (a : Attempt) :
    a.arrivals.Sublist (a.call.file.messages .mqtt) :=
  (MqttSession.arrivals_sublist _ _).trans (published_attempt a).sublist

theorem published_flatMap_confirmed (ms : List Message) :
    published (ms.flatMap fun m => [.publish m, .confirmed]) = ms := by
  induction ms with
  | nil => rfl
  | cons m ms ih =>
    rw [List.flatMap_cons, published_append, ih]
    rfl

theorem published_filter (es : List Event) :
    published (es.filter Event.isExchange) = published es := by
  rw [published, published, List.filterMap_filter]
  congr 1
  funext e
  cases e <;> rfl

/-- **What has been confirmed** has got into the queue. -/
theorem arrivals_of_confirmed (h : Confirmed (a.call.file.messages .mqtt) a.events) :
    a.arrivals = a.call.file.messages .mqtt := by
  have hall : Confirmed (a.call.file.messages .mqtt) a.call.events :=
    List.IsPrefix.trans h ((List.take_prefix _ _).filter _)
  have hpublished : a.call.file.messages .mqtt <+: published a.events := by
    have := List.IsPrefix.filterMap (fun e => match e with
      | Event.publish m => some m
      | _ => none) h
    rwa [← published, ← published, published_flatMap_confirmed, published_filter] at this
  have heq : published a.events = a.call.file.messages .mqtt :=
    (published_attempt a).eq_of_length_le hpublished.length_le
  have hack : ∀ i < (a.call.file.messages .mqtt).length,
      Acknowledges .mqtt a.call.broker a.call.file.qosLevel i := by
    rcases events_eq a.call with hnone | ⟨segments, hevents, hsettles⟩
    · rw [hnone] at hall
      have := List.prefix_nil.1 hall
      simp [SentFile.messages, sendFile] at this
    · rw [hevents, confirmed_prefix_iff hsettles (filter_finishSending _ _ _ _)] at hall
      simpa only [Nat.zero_add] using hall
  rw [Attempt.arrivals, heq]
  exact arrivals_eq_self fun i hi => a.call.acknowledged ((hack i hi).1 rfl) i (hack i hi).2

theorem arrived_append (later earlier : List Attempt) :
    arrived (later ++ earlier) = arrived earlier ++ arrived later := by
  induction later with
  | nil => rw [arrived, List.append_nil, List.nil_append]
  | cons a later ih => rw [List.cons_append, arrived, arrived, ih, List.append_assoc]

/-- What has arrived are messages of the files. -/
theorem exists_wires {ms : List Message} {attempts : List Attempt}
    (h : ms.Sublist (arrived attempts)) : ∃ wires : List Wire, wires.map Wire.message = ms ∧
      ∀ g, (∀ a ∈ attempts, g ≠ a.call.file.filename) → ∀ wire ∈ wires, Spares g wire := by
  induction attempts generalizing ms with
  | nil =>
    obtain rfl := List.sublist_nil.1 h
    exact ⟨[], rfl, by simp⟩
  | cons a earlier ih =>
    obtain ⟨ms, ns, rfl, hms, hns⟩ := List.sublist_append_iff.1 h
    obtain ⟨wires, hwires, hspares⟩ := ih hms
    obtain ⟨whole, hwhole, hspares'⟩ := messages_eq a.call.file
    have hsub := hns.trans a.arrivals_sublist
    rw [← hwhole] at hsub
    obtain ⟨own, hown, rfl⟩ := List.sublist_map_iff.1 hsub
    refine ⟨wires ++ own, by rw [List.map_append, hwires], fun g hg wire hwire => ?_⟩
    rw [List.forall_mem_cons] at hg
    rcases List.mem_append.1 hwire with hwire | hwire
    · exact hspares g hg.2 wire hwire
    · exact hspares' g hg.1 wire (hown.subset hwire)

/-- At most one control message for each call. -/
theorem countP_arrived_le (attempts : List Attempt) :
    (arrived attempts).countP isControl ≤ attempts.length := by
  induction attempts with
  | nil => exact le_rfl
  | cons a earlier ih =>
    have hle := a.arrivals_sublist.countP_le (p := isControl)
    rw [countP_messages] at hle
    rw [arrived, List.countP_append, List.length_cons]
    omega

end Sender

/-! ## One step -/

/-- What the receiver has handled is what has arrived, less the queue; and whose rows are in the
    measurement file. -/
structure Inv (w : World) (files : Dict String Bytes) (s : Session) : Prop where
  delivered : ∃ ms, ms ++ s.queue = arrived s.attempts ∧
    run (handled .mqtt w) (.init files) ms = some s.receiver
  csv : s.csv.Perm (s.receiver.rows ++ s.attempts.flatMap fun a => rowsOf a.events)

section Steps

variable {w : World} {files : Dict String Bytes} {s t : Session} {x : Action}

theorem Inv.call (h : Inv w files s) (c : Call) :
    Inv w files { s with attempts := ⟨c, 0⟩ :: s.attempts } := by
  obtain ⟨ms, harrived, hrun⟩ := h.delivered
  refine ⟨⟨ms, ?_, hrun⟩, h.csv⟩
  rw [harrived]
  exact (List.append_nil _).symm

theorem Attempt.events_succ {a : Attempt} {e : Event} (h : a.call.events[a.position]? = some e) :
    ({ a with position := a.position + 1 } : Attempt).events = a.events ++ [e] := by
  rw [Attempt.events, Attempt.events, List.take_add_one, h]
  rfl

theorem Attempt.arrivals_succ {a : Attempt} {e : Event}
    (h : a.call.events[a.position]? = some e) :
    ({ a with position := a.position + 1 } : Attempt).arrivals = a.arrivals ++ a.arriving e := by
  rw [Attempt.arrivals, Attempt.arrivals, Attempt.events_succ h, published_append]
  cases e with
  | publish m => exact arrivals_concat _ _ m
  | _ => simp [published, Attempt.arriving]

theorem Inv.emit (h : Inv w files s) {a : Attempt} {earlier : List Attempt} {e : Event}
    (hattempts : s.attempts = a :: earlier) (he : a.call.events[a.position]? = some e) :
    Inv w files (s.emit a earlier e) := by
  obtain ⟨ms, harrived, hrun⟩ := h.delivered
  have hcsv := h.csv
  rw [hattempts] at harrived hcsv
  refine ⟨⟨ms, ?_, hrun⟩, ?_⟩
  · show ms ++ (s.queue ++ a.arriving e) = arrived earlier ++ _
    rw [Attempt.arrivals_succ he, ← List.append_assoc, harrived, arrived, List.append_assoc]
  · show (s.csv ++ rowsOf [e]).Perm
      (s.receiver.rows ++ (rowsOf _ ++ earlier.flatMap fun a => rowsOf a.events))
    rw [Attempt.events_succ he, rowsOf_append]
    refine (hcsv.append_right _).trans ?_
    simp only [List.flatMap_cons, List.append_assoc]
    exact List.Perm.append_left _ (List.Perm.append_left _ List.perm_append_comm)

theorem Inv.receive (h : Inv w files s) {m : Message} {queue : List Message}
    (hqueue : s.queue = m :: queue) (hreturns : (s.receive w m queue).running = true) :
    Inv w files (s.receive w m queue) := by
  obtain ⟨ms, harrived, hrun⟩ := h.delivered
  have hstep : handled .mqtt w s.receiver m = some (s.receive w m queue).receiver := by
    rw [handled_eq_some]
    exact Prod.ext rfl (Option.isNone_iff_eq_none.1 hreturns)
  have hsub : (ms ++ [m]).Sublist (arrived s.attempts) := by
    rw [← harrived, hqueue, List.append_cons ms m queue]
    exact List.sublist_append_left _ _
  obtain ⟨wires, hwires, -⟩ := exists_wires hsub
  have hrun' : run (handled .mqtt w) (.init files) (ms ++ [m]) =
      some (s.receive w m queue).receiver := run_concat_eq_some.2 ⟨_, hrun, hstep⟩
  refine ⟨⟨ms ++ [m], ?_, hrun'⟩, ?_⟩
  · rw [← show s.attempts = (s.receive w m queue).attempts from rfl, ← harrived, hqueue,
      List.append_assoc]
    rfl
  · obtain ⟨before, last, hsplit, hbefore, hlast⟩ := List.map_eq_append_iff.1 hwires
    rw [← hbefore] at hrun
    obtain ⟨wire, rfl, rfl⟩ := List.map_eq_singleton_iff.1 hlast
    obtain ⟨hsound, -⟩ := run_spec (.inl rfl) hrun
    obtain ⟨-, ⟨rows, hrows⟩, -⟩ := handled_spec hsound wire hstep
    show (s.csv ++ (s.receive w wire.message queue).receiver.rows.drop
      s.receiver.rows.length).Perm
        ((s.receive w wire.message queue).receiver.rows ++ s.attempts.flatMap _)
    rw [← hrows, List.drop_left, List.append_assoc]
    refine (h.csv.append_right rows).trans ?_
    rw [List.append_assoc]
    exact List.Perm.append_left _ List.perm_append_comm

/-- While no handler has raised, every step keeps what is known. -/
theorem Inv.step (h : s.running = true → Inv w files s) (hstep : MqttSession.step w s x = some t) :
    t.running = true → Inv w files t := by
  intro hrunning
  cases x with
  | call c =>
    cases hstep
    exact (h hrunning).call c
  | send =>
    unfold MqttSession.step at hstep
    cases hattempts : s.attempts with
    | nil =>
      rw [hattempts] at hstep
      cases hstep
    | cons a earlier =>
      rw [hattempts] at hstep
      obtain ⟨e, he, rfl⟩ := Option.map_eq_some_iff.1 hstep
      exact (h hrunning).emit hattempts he
  | deliver =>
    unfold MqttSession.step at hstep
    cases hqueue : s.queue with
    | nil =>
      rw [hqueue] at hstep
      cases hstep
    | cons m queue =>
      rw [hqueue] at hstep
      obtain ⟨hbefore, hstep⟩ := Option.ite_none_right_eq_some.1 hstep
      cases hstep
      exact (h hbefore).receive hqueue hrunning

end Steps

/-! ## Runs -/

theorem inv_of_run {w : World} {files : Dict String Bytes} {acts : List Action} {u : Session}
    (hrun : run (step w) (.init files) acts = some u) (hrunning : u.running = true) :
    Inv w files u := by
  have hinit : (Session.init files).running = true → Inv w files (.init files) :=
    fun _ => ⟨⟨[], rfl, rfl⟩, List.Perm.refl _⟩
  exact run_invariant_along (fun _ _ _ hinv _ hstep => Inv.step hinv hstep) acts hinit
    (along_of_forall (fun _ _ => trivial) _) hrun hrunning

theorem exists_rest {ms queue before after : List Message} (h : ms ++ queue = before ++ after)
    (hle : queue.length ≤ after.length) : ∃ rest, ms = before ++ rest ∧ rest <+: after := by
  have hlength := congrArg List.length h
  rw [List.length_append, List.length_append] at hlength
  obtain ⟨rest, rfl⟩ := List.prefix_of_prefix_length_le (h ▸ List.prefix_append before after)
    (List.prefix_append ms queue) (by omega)
  rw [List.append_assoc] at h
  exact ⟨rest, rfl, queue, List.append_cancel_left h⟩

/-- A call has had all its messages confirmed, the receiver has handled them, and no later call
    has been for a file of the same name. -/
structure Through (u : Session) (later : List Attempt) (a : Attempt) : Prop where
  confirmed : Confirmed (a.call.file.messages .mqtt) a.events
  handled : u.queue.length ≤ (arrived later).length
  latest : ∀ b ∈ later, a.call.file.filename ≠ b.call.file.filename

/-- What is so after any run of sessions in which no handler has raised. -/
structure Outcome (files : Dict String Bytes) (u : Session) : Prop where
  /-- A confirmed file is in the output directory, byte for byte, and has a row. -/
  stored : ∀ later a earlier, u.attempts = later ++ a :: earlier → Through u later a →
    a.call.file.content ≠ [] → Covered a.call.file.content.length →
    u.receiver.disk.view a.call.file.filename = some a.call.file.content ∧
      ∃ row ∈ u.receiver.rows, RowOf a.call.file row
  /-- The receiver has at most one row for each call. -/
  rows : u.receiver.rows.length ≤ u.attempts.length
  /-- The measurement file has the rows of both sides and no others. -/
  csv : u.csv.Perm (u.receiver.rows ++ u.attempts.flatMap fun a => rowsOf a.events)
  /-- Files that no call is for are as they were. -/
  others : ∀ g, (∀ a ∈ u.attempts, g ≠ a.call.file.filename) →
    u.receiver.disk.view g = files.get? g

/-- **What has been confirmed is stored**, whatever other calls have lost and wherever they have
    ended, as long as no handler raises. -/
theorem confirmed_of_run (w : World) (files : Dict String Bytes) (acts : List Action) (u : Session)
    (hrun : run (step w) (.init files) acts = some u) (hrunning : u.running = true) :
    Outcome files u := by
  have hinv := inv_of_run hrun hrunning
  obtain ⟨ms, harrived, hreceived⟩ := hinv.delivered
  have hsub : ms.Sublist (arrived u.attempts) := harrived ▸ List.sublist_append_left _ _
  obtain ⟨wires, hwires, hspares⟩ := exists_wires hsub
  refine ⟨fun later a earlier hattempts hthrough hne hcovered => ?_, ?_, hinv.csv, fun g hg => ?_⟩
  · have hown := arrivals_of_confirmed hthrough.confirmed
    rw [hattempts, arrived_append, arrived, hown] at harrived
    obtain ⟨rest, rfl, hrest⟩ := exists_rest harrived hthrough.handled
    obtain ⟨s, hs, hlater⟩ := run_append_eq_some.1 hreceived
    obtain ⟨s', -, hfile⟩ := run_append_eq_some.1 hs
    obtain ⟨hidle, hview, row, hrows, hrow⟩ := run_file hne hfile
    obtain ⟨later', rfl, hspares'⟩ := exists_wires hrest.sublist
    have hkept := run_spares (.inl hidle) (hspares' _ hthrough.latest) hlater
    obtain ⟨-, hprefix, -⟩ := run_spec (.inl hidle) hlater
    rw [(flatten_chunks_eq_iff _).2 hcovered] at hview
    refine ⟨hkept.trans hview, row, hprefix.subset ?_, hrow⟩
    rw [hrows]
    exact List.mem_append_right _ List.mem_cons_self
  · rw [← hwires] at hreceived hsub
    obtain ⟨-, -, hcount⟩ := run_spec (.inl rfl) hreceived
    have hle := hsub.countP_le (p := isControl)
    have hcalls := countP_arrived_le u.attempts
    have hnone : (Receiver.init files).rows.length + openCount (.init files) = 0 := rfl
    omega
  · rw [← hwires] at hreceived
    exact (run_spares (.inl rfl) (hspares g hg) hreceived).trans
      (Disk.view_of_no_handle rfl g)

/-- A file sent at QoS 0 whose only chunk is lost, and another one that is confirmed. -/
def lossyCall : Call where
  file := ⟨"a.bin", [1], 0⟩
  broker := brokerOf .ack
  arrives := fun i => i = 0
  acknowledged := fun h => absurd rfl h

def confirmedCall : Call where
  file := ⟨"b.bin", [2, 3], 1⟩
  broker := brokerOf .ack
  arrives := fun _ => true
  acknowledged := fun _ _ _ => rfl

def lossyRun : List Action :=
  .call lossyCall :: List.replicate 6 .send ++ .call confirmedCall :: List.replicate 6 .send ++
    List.replicate 3 .deliver

theorem confirmed_of_run_lossy : ∃ u, run (step (tickingWorld 0)) (.init []) lossyRun = some u ∧
    u.running = true ∧ Outcome [] u ∧ u.receiver.disk.view "a.bin" = some [] ∧
      u.receiver.disk.view "b.bin" = some [2, 3] := by
  have hruns : (run (step (tickingWorld 0)) (.init []) lossyRun).map (fun u =>
      (u.running, u.receiver.disk.view "a.bin", u.receiver.disk.view "b.bin")) =
        some (true, some [], some [2, 3]) := by decide +kernel
  obtain ⟨u, hrun, hu⟩ := Option.map_eq_some_iff.1 hruns
  simp only [Prod.mk.injEq] at hu
  obtain ⟨hrunning, hlost, hstored⟩ := hu
  exact ⟨u, hrun, hrunning, confirmed_of_run (tickingWorld 0) [] lossyRun u hrun hrunning, hlost,
    hstored⟩

end TransferTestbed.Transfer.MqttSession
