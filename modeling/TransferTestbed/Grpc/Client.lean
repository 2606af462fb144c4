import TransferTestbed.Grpc.Sequential
import TransferTestbed.Library.Binary64Order
import TransferTestbed.Transfer.Chunking

/-!
# The gRPC client's stream

`chunk_iterator` of `send_file` (`protocols/GRPC/client/grpc_client.py`), fed to
`Upload`. The client cuts a file as the MQTT sender does, after one message with
its metadata.

Results:
* `length_le_of_totalChunks`: a file whose chunks a `uint32` counts has at most 2^53 bytes.
* `Writing.upload_eq`: how an upload of the announced data ends.
* `transfersFile_iff`: when a transfer is the identity on the file.
-/

namespace TransferTestbed.Grpc

open Integrity Chunking Binary64

/-- `chunk_iterator()` (lines 68–84): the messages it yields, and whether it raises.
    `total_size` is a `uint64` and `total_chunks` a `uint32`; the constructor of
    the message raises for a greater number. -/
def chunkIterator (filename : String) (content : Bytes) : List Chunk × Bool :=
  if content.length < 2 ^ 64 ∧ calculateTotalChunks content.length < 2 ^ 32 then
    (.metadata ⟨filename, content.length, computeSha256File content⟩ ::
      (chunks content).map .data, false)
  else ([], true)

/-- `Upload` over the client's stream. -/
def transfer (w : World) (fs : Store) (filename : String) (content : Bytes) : Store × Upload :=
  upload w fs (chunkIterator filename content).1 (chunkIterator filename content).2

/-- The upload returns `integrity_ok=True` and a duration that is not negative, has
    published the content and has written one row, with the file's size. -/
structure TransfersFile (w : World) (fs : Store) (filename : String) (content : Bytes) : Prop where
  returned : (transfer w fs filename content).2.phase = .returned true
  duration : 0 ≤ (transfer w fs filename content).2.receiverDuration
  published : (transfer w fs filename content).1.read filename = some content
  row : ∃ row : WriteCsv.Row, (transfer w fs filename content).2.rows = [row] ∧
    row.get? "side" = some (.str "receiver") ∧
    row.get? "file_size" = some (.float (trueDiv content.length (1024 * 1024)))

/-! ## Counting chunks -/

/-- A file whose chunks a `uint32` counts has at most 2^53 bytes. -/
theorem length_le_of_totalChunks {n : ℕ} (h : calculateTotalChunks n < 2 ^ 32) : n ≤ 2 ^ 53 := by
  by_contra hn
  have hle : ((2 ^ 33 : ℕ) : ℚ) * 2 ^ (0 : ℤ) ≤ (n : ℚ) * 2 ^ (-20 : ℤ) := by
    have hn' : ((2 ^ 53 : ℕ) : ℚ) ≤ n := by exact_mod_cast (not_le.1 hn).le
    calc ((2 ^ 33 : ℕ) : ℚ) * 2 ^ (0 : ℤ) = ((2 ^ 53 : ℕ) : ℚ) * 2 ^ (-20 : ℤ) := by norm_num
      _ ≤ (n : ℚ) * 2 ^ (-20 : ℤ) := mul_le_mul_of_nonneg_right hn' (by positivity)
  have hmono := fl_mono hle
  rw [fl_natCast_mul_zpow (by norm_num), ← trueDiv_chunkSize] at hmono
  have hceil := hmono.trans (Nat.le_ceil _)
  rw [zpow_zero, mul_one, Nat.cast_le] at hceil
  rw [calculateTotalChunks] at h
  omega

/-- The client's stream when it does not raise. -/
theorem chunkIterator_eq (filename : String) {content : Bytes}
    (h : calculateTotalChunks content.length < 2 ^ 32) :
    chunkIterator filename content =
      (.metadata ⟨filename, content.length, computeSha256File content⟩ ::
        (chunks content).map .data, false) := by
  have hle := length_le_of_totalChunks h
  exact if_pos ⟨by omega, h⟩

/-! ## The clock of an upload -/

/-- The start time and the readings of an upload that has received some data, and
    that it has written no row. -/
structure Clocked (w : World) (begun : Bool) (u : Upload) : Prop where
  start : u.transferStartTime = if begun then some (w.clock 0) else none
  readings : u.readings = if begun then 1 else 0
  rows : u.rows = []

variable {w : World} {fs₀ fs : Store} {u : Upload} {m : Metadata} {content : Bytes}

theorem clocked_metadata (w : World) (fs : Store) (m : Metadata) (rest : List Chunk) (b : Bool) :
    Clocked w false (advance w fs (.start (.metadata m :: rest) b)).2 := ⟨rfl, rfl, rfl⟩

/-- A data message of an upload under way. -/
theorem Clocked.data {begun : Bool} (hc : Clocked w begun u) (h : Writing fs₀ m content fs u)
    {bytes : Bytes} {rest : List Chunk} (hstream : u.stream = .data bytes :: rest) :
    Clocked w true (advance w fs u).2 := by
  obtain ⟨f, hopen, -⟩ := h.handle
  have hadvance : advance w fs u = receiveData w fs { u with stream := rest } bytes := by
    rw [advance_receiving w fs h.phase, receive, hstream]
  have hmetadata : ({ u with stream := rest } : Upload).metadata ≠ none := by
    show u.metadata ≠ none
    rw [h.metadata]
    exact Option.some_ne_none m
  have hstart := hc.start
  have hreadings := hc.readings
  rw [hadvance, receiveData, if_neg hmetadata]
  cases begun with
  | false =>
    rw [if_neg Bool.false_ne_true] at hstart hreadings
    simp only [hstart, hopen, if_true]
    exact ⟨by rw [hreadings]; rfl, by rw [hreadings]; rfl, hc.rows⟩
  | true =>
    rw [if_pos rfl] at hstart hreadings
    simp only [hstart, hopen, reduceCtorEq, if_false]
    exact ⟨rfl, hreadings, hc.rows⟩

/-- After all the data messages. -/
theorem reaches_received (xs : List Bytes) {begun : Bool} (hc : Clocked w begun u)
    (h : Writing fs₀ m content fs u) (hstream : u.stream = xs.map .data)
    (hraises : u.streamRaises = false) :
    ∃ fs' u', Reaches w (fs, u) (fs', u') ∧ Writing fs₀ m (content ++ xs.flatten) fs' u' ∧
      Clocked w (begun || !xs.isEmpty) u' ∧ u'.stream = [] ∧ u'.streamRaises = false := by
  induction xs generalizing content fs u begun with
  | nil =>
    refine ⟨fs, u, ⟨0, rfl⟩, ?_, ?_, hstream, hraises⟩
    · rwa [List.flatten_nil, List.append_nil]
    · rwa [List.isEmpty_nil, Bool.not_true, Bool.or_false]
  | cons x xs ih =>
    have hcons : u.stream = .data x :: xs.map .data := hstream
    obtain ⟨hnext, hstream', hraises'⟩ := h.data w hcons (by simp)
    obtain ⟨fs', u', hreach, hwriting, hclocked, hnil, hfalse⟩ :=
      ih (hc.data h hcons) hnext hstream' (hraises'.trans hraises)
    refine ⟨fs', u', .step hreach, ?_, ?_, hnil, hfalse⟩
    · rw [List.flatten_cons, ← List.append_assoc]
      exact hwriting
    · rw [Bool.true_or] at hclocked
      rw [List.isEmpty_cons, Bool.not_false, Bool.or_true]
      exact hclocked

/-! ## The end of an upload -/

/-- The locals after the file has been published, before the row. -/
def published (w : World) (u : Upload) : Upload :=
  { closeFile w { u with phase := .closing } with phase := .recording true, tmpPath := none }

/-- An upload that has received the announced data publishes it and goes on to its row. -/
theorem Writing.upload_eq (h : Writing fs₀ m content fs u) (w : World) (hstream : u.stream = [])
    (hraises : u.streamRaises = false) (hsize : content.length = m.totalSize)
    (hsum : computeSha256File content = m.checksum) :
    ∃ fs', fs.replace (tmpPathOf m) m.filename = some fs' ∧
      Reaches w (fs, u) (fs', record true (published w u)) := by
  obtain ⟨f, hopen, hend⟩ := h.handle
  obtain ⟨fs', hreplace⟩ : ∃ fs', fs.replace (tmpPathOf m) m.filename = some fs' :=
    FileSystem.exists_replace (by simp [hend.names])
  have hends : advance w fs u = (fs, { u with phase := .closing }) := by
    rw [advance_receiving w fs h.phase, receive, hstream]
    simp [streamEnds, hstream, hraises, h.metadata, hopen]
  have hclose : advance w fs { u with phase := .closing } =
      (fs, closeFile w { u with phase := .closing }) := rfl
  have hverify : advance w fs (closeFile w { u with phase := .closing }) =
      (fs, { closeFile w { u with phase := .closing } with phase := .publishing }) := by
    show (fs, verify fs (closeFile w { u with phase := .closing })) = _
    simp [verify, closeFile, h.metadata, h.tmpPath, h.receivedBytes, hsize, hend.read, hsum]
  have hpublish : advance w fs
      { closeFile w { u with phase := .closing } with phase := .publishing } =
        (fs', published w u) := by
    show publish fs { closeFile w { u with phase := .closing } with phase := .publishing } = _
    simp [publish, closeFile, h.metadata, h.tmpPath, hreplace, published]
  have hrecord : advance w fs' (published w u) = (fs', record true (published w u)) := rfl
  refine ⟨fs', hreplace, .step (hends ▸ .step (hclose ▸ .step (hverify ▸ .step ?_)))⟩
  rw [hpublish]
  exact .step (hrecord ▸ ⟨0, rfl⟩)

/-- The duration of an upload whose data has been received or, without data, of none. -/
theorem receiverDuration_published {begun : Bool} (hc : Clocked w begun u) :
    (published w u).receiverDuration =
      if begun ∧ w.clock 0 ≠ 0 then fl (w.clock 1 - w.clock 0)
      else if begun then fl (w.clock 1 - w.clock 2) else fl (w.clock 0 - w.clock 1) := by
  show (durationOf w u).1 = _
  have hstart := hc.start
  have hreadings := hc.readings
  unfold durationOf
  cases begun with
  | false =>
    rw [if_neg Bool.false_ne_true] at hstart hreadings
    rw [hstart, hreadings]
    rfl
  | true =>
    rw [if_pos rfl] at hstart hreadings
    rw [hstart, hreadings]
    by_cases hzero : w.clock 0 = 0
    · simp [hzero]
    · simp [hzero]

/-- **The client's stream, run to its end**: the content is published, and the row is
    written if the measured duration is not zero. -/
theorem transfer_eq (w : World) (fs : Store) (filename : String) {content : Bytes}
    (h : calculateTotalChunks content.length < 2 ^ 32) :
    ∃ u, (transfer w fs filename content).2 = record true (published w u) ∧
      (transfer w fs filename content).1.read filename = some content ∧
      u.receivedBytes = content.length ∧ Clocked w (!content.isEmpty) u := by
  set m : Metadata := ⟨filename, content.length, computeSha256File content⟩ with hm
  have hcovered := covered_of_le (length_le_of_totalChunks h)
  have hflatten := (flatten_chunks_eq_iff content).2 hcovered
  obtain ⟨hwriting, hstream, hraises⟩ :=
    writing_metadata w fs m ((chunks content).map .data) false
  obtain ⟨fs₁, u, hreach, hw, hc, hnil, hfalse⟩ :=
    reaches_received (chunks content) (clocked_metadata w fs m _ false) hwriting hstream hraises
  rw [List.nil_append, hflatten] at hw
  obtain ⟨fs₂, hreplace, hend⟩ := hw.upload_eq w hnil hfalse rfl rfl
  have hempty : (chunks content).isEmpty = content.isEmpty := by
    rcases eq_or_ne content [] with rfl | hne
    · decide +kernel
    · have hpos := calculateTotalChunks_pos (List.length_pos_iff.2 hne)
      rw [← length_chunks, List.length_pos_iff] at hpos
      rw [List.isEmpty_eq_false_iff.2 hne, List.isEmpty_eq_false_iff.2 hpos]
  have hupload : transfer w fs filename content = (fs₂, record true (published w u)) := by
    rw [transfer, chunkIterator_eq filename h]
    apply upload_eq_of_reaches
    · obtain ⟨n, hn⟩ := hreach
      obtain ⟨k, hk⟩ := hend
      refine .step ⟨n + k, ?_⟩
      rw [exec_add, hn, hk]
    · unfold record
      split_ifs
      · rfl
      · rfl
  refine ⟨u, by rw [hupload], ?_, hw.receivedBytes, ?_⟩
  · obtain ⟨f, -, hatEnd⟩ := hw.handle
    have hread := FileSystem.read_replace hreplace filename
    rw [if_pos rfl] at hread
    rw [hupload, hread]
    exact hatEnd.read
  · rwa [hempty, Bool.false_or] at hc

/-! ## The property -/

theorem receiverDuration_record (ok : Bool) (u : Upload) :
    (record ok u).receiverDuration = u.receiverDuration := by
  unfold record
  split_ifs
  · rfl
  · rfl

theorem phase_record (ok : Bool) (u : Upload) :
    (record ok u).phase = .returned ok ↔ u.receiverDuration ≠ 0 := by
  unfold record
  split_ifs with h
  · simp [WriteCsv.microseconds_eq_zero.1 h]
  · simp [mt WriteCsv.microseconds_eq_zero.2 h]

/-- The measured duration is positive exactly when there is data, the start time is
    not taken for a missing one, and the clock advances. -/
theorem receiverDuration_pos_iff (hclock : ∀ n, w.clock n ≤ w.clock (n + 1)) {begun : Bool}
    (hc : Clocked w begun u) :
    0 < (published w u).receiverDuration ↔
      begun = true ∧ w.clock 0 ≠ 0 ∧ w.clock 0 < w.clock 1 := by
  have h01 := hclock 0
  have h12 := hclock 1
  rw [receiverDuration_published hc]
  split_ifs with hstart hbegun
  · rw [fl_pos_iff, sub_pos, and_iff_right hstart.1, and_iff_right hstart.2]
  · rw [fl_pos_iff, sub_pos]
    constructor
    · intro h
      exact absurd h (not_lt.2 h12)
    · rintro ⟨-, hne, -⟩
      exact absurd ⟨hbegun, hne⟩ hstart
  · rw [fl_pos_iff, sub_pos]
    constructor
    · intro h
      exact absurd h (not_lt.2 h01)
    · rintro ⟨h, -, -⟩
      exact absurd h hbegun

/-- **When a gRPC transfer is the identity on the file.** For every file, store and
    clock that never goes back: the file is not empty, a `uint32` counts its chunks,
    and the clock's first reading is not zero and smaller than the second. -/
theorem transfersFile_iff (w : World) (hclock : ∀ n, w.clock n ≤ w.clock (n + 1)) (fs : Store)
    (filename : String) (content : Bytes) :
    TransfersFile w fs filename content ↔
      content ≠ [] ∧ calculateTotalChunks content.length < 2 ^ 32 ∧ w.clock 0 ≠ 0 ∧
        w.clock 0 < w.clock 1 := by
  by_cases hchunks : calculateTotalChunks content.length < 2 ^ 32
  · obtain ⟨u, hu, hread, hbytes, hc⟩ := transfer_eq w fs filename hchunks
    have hpos := receiverDuration_pos_iff hclock hc
    rw [Bool.not_eq_true', List.isEmpty_eq_false_iff] at hpos
    rw [and_iff_right hchunks, ← hpos]
    constructor
    · rintro ⟨hreturned, hduration, -, -⟩
      rw [hu, phase_record] at hreturned
      rw [hu, receiverDuration_record] at hduration
      exact lt_of_le_of_ne hduration (Ne.symm hreturned)
    · intro h
      have hmul : WriteCsv.microseconds (published w u).receiverDuration ≠ 0 :=
        mt WriteCsv.microseconds_eq_zero.1 h.ne'
      refine ⟨?_, ?_, hread, receiverRow (published w u) true, ?_, rfl, ?_⟩
      · rw [hu, phase_record]
        exact h.ne'
      · rw [hu, receiverDuration_record]
        exact h.le
      · rw [hu, record, if_neg hmul]
        show u.rows ++ [receiverRow (published w u) true] = _
        rw [hc.rows, List.nil_append]
      · show some (WriteCsv.Cell.float (trueDiv u.receivedBytes (1024 * 1024))) = _
        rw [hbytes]
  · -- the iterator raises before it yields anything
    have hiter : chunkIterator filename content = ([], true) := if_neg fun h => hchunks h.2
    have hraised := (upload_unread w fs [] true (by simp)).2
    constructor
    · rintro ⟨hreturned, -, -, -⟩
      rw [transfer, hiter, hraised] at hreturned
      cases hreturned
    · rintro ⟨-, h, -⟩
      exact absurd h hchunks

theorem tickingWorld_mono (n : ℕ) : tickingWorld.clock n ≤ tickingWorld.clock (n + 1) := by
  show (n : ℚ) + 1 ≤ ((n + 1 : ℕ) : ℚ) + 1
  push_cast
  linarith

theorem transfersFile_iff_oneByte :
    (∀ n, tickingWorld.clock n ≤ tickingWorld.clock (n + 1)) ∧
      (TransfersFile tickingWorld (.single "b.bin" [8]) "a.bin" [1] ↔
        ([1] : Bytes) ≠ [] ∧ calculateTotalChunks ([1] : Bytes).length < 2 ^ 32 ∧
          tickingWorld.clock 0 ≠ 0 ∧ tickingWorld.clock 0 < tickingWorld.clock 1) :=
  ⟨tickingWorld_mono, transfersFile_iff tickingWorld tickingWorld_mono (.single "b.bin" [8]) "a.bin"
    [1]⟩

/-- An empty file is published, but its duration is negative: there is no data
    message to start the clock. -/
theorem not_transfersFile_empty :
    (∀ n, tickingWorld.clock n ≤ tickingWorld.clock (n + 1)) ∧
      ¬ TransfersFile tickingWorld (.single "b.bin" [8]) "a.bin" [] ∧
      (transfer tickingWorld (.single "b.bin" [8]) "a.bin" []).2.receiverDuration = -1 := by
  have hduration : (transfer tickingWorld (.single "b.bin" [8]) "a.bin" []).2.receiverDuration =
      -1 := by decide +kernel
  refine ⟨tickingWorld_mono, fun h => ?_, hduration⟩
  have hnonneg := h.duration
  rw [hduration] at hnonneg
  norm_num at hnonneg

end TransferTestbed.Grpc
