import TransferTestbed.Transfer.Reassembly

/-!
# The MQTT pair over any history of transfers

The messages of well-formed senders reach `on_message` in publish order. A sender
may stop after some of its chunks, names may be reused, and the receiver may
start from any state that earlier messages have left.

Results:
* `view_deliver_transfer`: what one transfer leaves in the output directory.
* `counted_deliver`: the counters of an open transfer.
* `correct_iff`: the last transfer of every name is stored byte for byte iff its
  chunks cover it.
-/

namespace TransferTestbed.Transfer

open Integrity Chunking

/-- One run of `send_file`; the sender may stop after some number of chunks. -/
structure Sending where
  filename : String
  content : Bytes
  qos : ℤ
  stop : Option ℕ

/-- The chunks that are sent. -/
def Sending.sent (t : Sending) : List Bytes :=
  match t.stop with
  | none => chunks t.content
  | some k => (chunks t.content).take k

def Sending.wire (t : Sending) : List Wire :=
  transferWire (metadataOf t.filename t.content (some t.qos)) t.sent

theorem map_message_wire {t : Sending} (h : t.stop = none) :
    t.wire.map Wire.message = sendFile t.filename t.content (some t.qos) := by
  rw [← map_message_transferWire, Sending.wire, Sending.sent, h]

/-- What the transfer should leave in its file: the content, or the prefix of it
    that was sent before the sender stopped. -/
def Sending.expected (t : Sending) : Bytes :=
  match t.stop with
  | none => t.content
  | some _ => t.sent.flatten

/-- The last transfer of a name. -/
def lastOf (ts : List Sending) (name : String) : Option Sending :=
  ts.reverse.find? fun t => t.filename = name

/-- The data messages since the latest control message. -/
def sinceControl (ms : List Wire) : List Bytes :=
  ms.foldl (fun seen m => match m with | .header _ => [] | .item payload => seen ++ [payload]) []

/-- The property of a history: the transfers `ts` follow the messages `before`. -/
structure Correct (w : World) (files : Dict String Bytes) (before : List Wire)
    (ts : List Sending) : Prop where
  /-- Once the handles are closed, each file is that of the last transfer of its name. -/
  stored : ∀ name t, lastOf ts name = some t →
    (deliver .mqtt w (.init files) (before ++ ts.flatMap Sending.wire)).disk.view name =
      some t.expected
  /-- No message of a transfer changes another file. -/
  frame : ∀ us t vs, ts = us ++ t :: vs → ∀ n g, g ≠ t.filename →
    (deliver .mqtt w (.init files)
        (before ++ us.flatMap Sending.wire ++ t.wire.take n)).disk.view g =
      (deliver .mqtt w (.init files) (before ++ us.flatMap Sending.wire)).disk.view g
  /-- The counters of an open transfer count the messages since its control message. -/
  counters : ∀ n, let ms := before ++ (ts.flatMap Sending.wire).take n
    (deliver .mqtt w (.init files) ms).disk.handle ≠ none →
      (deliver .mqtt w (.init files) ms).receivedChunks = (sinceControl ms).length ∧
      (deliver .mqtt w (.init files) ms).receivedBytes = (sinceControl ms).flatten.length

/-! ## Counters -/

/-- The handle is open on some file, and the counters are those of the data
    messages `seen` since the latest control message. -/
def Counted (seen : List Bytes) (s : Receiver) : Prop :=
  s.disk.handle = none ∨ (∃ path, s.disk.OpenOn path) ∧ s.receivedChunks = seen.length ∧
    s.receivedBytes = seen.flatten.length

theorem counted_control (w : World) (s : Receiver) (m : Metadata) :
    Counted [] (opened .mqtt w s m) :=
  Or.inr ⟨⟨_, Disk.openOn_openWrite _ _⟩, rfl, rfl⟩

theorem counted_data {w : World} {s : Receiver} {seen : List Bytes} (h : Counted seen s)
    (payload : Bytes) :
    Counted (seen ++ [payload]) (handle .mqtt w s (.data payload)).1 := by
  rcases h with hidle | ⟨⟨path, hopen⟩, hchunks, hbytes⟩
  · rw [handle_data_idle .mqtt w hidle]
    exact Or.inl hidle
  · rcases (handle_data_spec .mqtt w hopen payload).2 with ⟨hnone, -⟩ | ⟨hopen', hc, hb, -⟩
    · exact Or.inl hnone
    · refine Or.inr ⟨⟨path, hopen'⟩, ?_, ?_⟩
      · exact hc.trans (by rw [hchunks, List.length_append]; rfl)
      · exact hb.trans (by rw [hbytes]; simp)

/-- The counters after any messages to a receiver that has just been started. -/
theorem counted_deliver (w : World) (files : Dict String Bytes) (ms : List Wire) :
    Counted (sinceControl ms) (deliver .mqtt w (.init files) ms) := by
  induction ms using List.reverseRecOn with
  | nil => exact Or.inl rfl
  | append_singleton ms m ih =>
    rw [deliver_append, sinceControl, List.foldl_append]
    cases m with
    | header m =>
      rw [deliver_control]
      exact counted_control w _ m
    | item payload => exact counted_data ih payload

/-! ## Files -/

theorem length_sent_le (t : Sending) :
    t.sent.length ≤ calculateTotalChunks t.content.length := by
  unfold Sending.sent
  split
  · rw [length_chunks]
  · rw [List.length_take, length_chunks]
    omega

/-- What one transfer leaves in the output directory, once the handle is closed. -/
theorem view_deliver_transfer (w : World) (s : Receiver) (t : Sending) (g : String) :
    (deliver .mqtt w s t.wire).disk.view g =
      if g = t.filename then some t.sent.flatten else s.disk.view g :=
  view_deliver_transferWire .mqtt w s (metadataOf t.filename t.content (some t.qos)) t.sent
    (length_sent_le t) g

/-- A part of a transfer's messages does not change another file. -/
theorem view_deliver_take (w : World) (s : Receiver) (t : Sending) (n : ℕ) {g : String}
    (hg : g ≠ t.filename) :
    (deliver .mqtt w s (t.wire.take n)).disk.view g = s.disk.view g := by
  cases n with
  | zero => rfl
  | succ n =>
    rw [Sending.wire, transferWire, List.take_succ_cons, ← List.map_take, deliver_control,
      view_deliver_data_of_ne .mqtt w _ (Or.inr (Disk.openOn_openWrite _ _)) hg]
    exact (Disk.view_openWrite s.disk t.filename g).trans (if_neg hg)

theorem lastOf_concat (ts : List Sending) (t : Sending) (name : String) :
    lastOf (ts ++ [t]) name = if t.filename = name then some t else lastOf ts name := by
  rw [lastOf, List.reverse_append, List.reverse_singleton, List.singleton_append, List.find?_cons]
  by_cases h : t.filename = name <;> simp [h, lastOf]

/-- The output directory after a sequence of transfers. -/
theorem view_deliver_transfers (w : World) (s : Receiver) (ts : List Sending) (name : String) :
    (deliver .mqtt w s (ts.flatMap Sending.wire)).disk.view name =
      match lastOf ts name with
      | some t => some t.sent.flatten
      | none => s.disk.view name := by
  induction ts using List.reverseRecOn with
  | nil => rfl
  | append_singleton ts t ih =>
    rw [List.flatMap_append, List.flatMap_singleton, deliver_append, view_deliver_transfer, ih,
      lastOf_concat]
    by_cases h : t.filename = name
    · rw [if_pos h.symm, if_pos h]
    · rw [if_neg (Ne.symm h), if_neg h]

/-! ## The property -/

theorem flatten_sent_eq_expected_iff (t : Sending) :
    t.sent.flatten = t.expected ↔ (t.stop = none → Covered t.content.length) := by
  unfold Sending.expected Sending.sent
  cases t.stop with
  | none => simp [flatten_chunks_eq_iff]
  | some k => simp

/-- **Chunking and reassembly are inverse over any history**, exactly when the
    chunks of the last transfer of every name that was not stopped cover its file. -/
theorem correct_iff (w : World) (files : Dict String Bytes) (before : List Wire)
    (ts : List Sending) :
    Correct w files before ts ↔
      ∀ name t, lastOf ts name = some t → t.stop = none → Covered t.content.length := by
  have hview (name : String) (t : Sending) (h : lastOf ts name = some t) :
      (deliver .mqtt w (.init files) (before ++ ts.flatMap Sending.wire)).disk.view name =
        some t.sent.flatten := by
    rw [deliver_append, view_deliver_transfers, h]
  constructor
  · intro hcorrect name t hlast
    have := hcorrect.stored name t hlast
    rw [hview name t hlast, Option.some.injEq] at this
    exact (flatten_sent_eq_expected_iff t).1 this
  · intro hcovered
    refine ⟨fun name t hlast => ?_, fun us t vs _ n g hg => ?_, fun n => ?_⟩
    · rw [hview name t hlast, (flatten_sent_eq_expected_iff t).2 (hcovered name t hlast)]
    · rw [deliver_append]
      exact view_deliver_take w _ t n hg
    · intro ms hopen
      rcases counted_deliver w files ms with hidle | ⟨-, hc, hb⟩
      · exact absurd hidle hopen
      · exact ⟨hc, hb⟩

/-- A file of 2^53 + 1 bytes. -/
def largeSending : Sending := ⟨"a.bin", List.replicate (2 ^ 53 + 1) 0, 1, none⟩

/-- The last byte of a file of 2^53 + 1 bytes is never sent. -/
theorem not_correct_largeSending : ¬ Correct (tickingWorld 0) [] [] [largeSending] := by
  intro h
  have hlast : lastOf [largeSending] "a.bin" = some largeSending := by
    rw [← List.nil_append [largeSending], lastOf_concat]
    exact if_pos rfl
  have hstored := h.stored "a.bin" largeSending hlast
  rw [List.nil_append, view_deliver_transfers, hlast] at hstored
  have hcovered := (flatten_sent_eq_expected_iff largeSending).1 (Option.some.inj hstored) rfl
  rw [largeSending, List.length_replicate] at hcovered
  exact not_covered hcovered

end TransferTestbed.Transfer
