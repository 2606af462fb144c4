import TransferTestbed.Common.Integrity
import TransferTestbed.Common.ResourceMonitor
import TransferTestbed.Library.FileSystem
import TransferTestbed.Output.WriteCsv

/-!
# The gRPC upload handler

`FileTransferServicer.Upload` (`protocols/GRPC/server/grpc_server.py`, lines
46–154) as a machine whose steps do at most one file-system operation each. A path
is the directory entry that a filename leads to, so that different paths are different
files. A handler that overwrites `file_handle` drops
the old handle, and durations are exact rationals. Appending the measurement row
succeeds and touches no file of the store.

Results:
* `effect_advance`: what one step does to the store.
-/

namespace TransferTestbed.Grpc

open Integrity WriteCsv ResourceMonitor

/-- The `Metadata` message (file_transfer.proto lines 27–32); the number of chunks
    is only printed. -/
structure Metadata where
  filename : String
  totalSize : ℕ
  checksum : String
deriving DecidableEq, Repr

/-- The `payload` of a `Chunk`. -/
inductive Chunk where
  | metadata (m : Metadata)
  | data (bytes : Bytes)
  | unset
deriving DecidableEq, Repr

/-- `chunk.data`, empty when another field is set. -/
def Chunk.bytes : Chunk → Bytes
  | .data bytes => bytes
  | _ => []

def Chunk.metadata? : Chunk → Option Metadata
  | .metadata m => some m
  | _ => none

/-- The files under `OUTPUT_DIR`. -/
abbrev Store := FileSystem String UInt8

/-- What a handler reads of the world: the successive readings of
    `time.perf_counter`, and what its monitor reports. -/
structure World where
  clock : ℕ → ℚ
  stats : Stats

/-- A clock that advances by a second at every reading. -/
def tickingWorld : World := ⟨fun n => n + 1, .zero⟩

/-- Where a handler is. -/
inductive Phase where
  /-- in the receive loop -/
  | receiving
  /-- after the loop, before the handle is closed -/
  | closing
  /-- in the `except` block, before the handle is closed -/
  | failing
  /-- before `os.path.exists(tmp_path)` -/
  | cleanup (failed : Bool)
  /-- before `os.remove(tmp_path)` -/
  | unlinking (failed : Bool)
  /-- before the size check and the checksum -/
  | verifying
  /-- before `os.replace` -/
  | publishing
  /-- before the measurement row -/
  | recording (integrityOk : Bool)
  | returned (integrityOk : Bool)
  | raised
deriving DecidableEq, Repr

/-- One call of `Upload`: what its request iterator still yields, whether it then
    raises, and the local variables. -/
structure Upload where
  phase : Phase
  stream : List Chunk
  streamRaises : Bool
  metadata : Option Metadata
  receivedChunks : ℕ
  receivedBytes : ℕ
  transferStartTime : Option ℚ
  fileHandle : Option FileHandle
  monitor : Bool
  tmpPath : Option String
  receiverDuration : ℚ
  resourceStats : Stats
  readings : ℕ
  /-- How many monitors have been started and not been stopped. -/
  running : ℕ
  rows : List Row

def Upload.start (stream : List Chunk) (streamRaises : Bool) : Upload where
  phase := .receiving
  stream := stream
  streamRaises := streamRaises
  metadata := none
  receivedChunks := 0
  receivedBytes := 0
  transferStartTime := none
  fileHandle := none
  monitor := false
  tmpPath := none
  receiverDuration := 0
  resourceStats := .zero
  readings := 0
  running := 0
  rows := []

def tmpPathOf (m : Metadata) : String := m.filename ++ ".part"

/-- The `UploadResult` is out, or an exception. -/
def Upload.finished (u : Upload) : Bool :=
  match u.phase with
  | .returned _ => true
  | .raised => true
  | _ => false

/-! ## The receive loop -/

/-- A metadata message (lines 57–69). -/
def receiveMetadata (fs : Store) (u : Upload) (m : Metadata) : Store × Upload :=
  let opened := fs.openTruncate (tmpPathOf m)
  (opened.1,
    { u with
      metadata := some m
      tmpPath := some (tmpPathOf m)
      fileHandle := some opened.2
      monitor := true
      running := u.running + 1 })

/-- Any other message (lines 71–83); `context.abort` raises. -/
def receiveData (w : World) (fs : Store) (u : Upload) (bytes : Bytes) : Store × Upload :=
  if u.metadata = none then (fs, { u with phase := .failing })
  else
    let u :=
      if u.transferStartTime = none then
        { u with transferStartTime := some (w.clock u.readings), readings := u.readings + 1 }
      else u
    match u.fileHandle with
    | none => (fs, { u with phase := .failing })
    | some h =>
      let written := fs.writeAt h bytes
      (written.1,
        { u with
          fileHandle := some written.2
          receivedChunks := u.receivedChunks + 1
          receivedBytes := u.receivedBytes + bytes.length })

/-- The end of the stream (lines 85–86). -/
def streamEnds (u : Upload) : Upload :=
  if u.streamRaises = true ∨ u.metadata = none ∨ u.fileHandle = none then
    { u with phase := .failing }
  else { u with phase := .closing }

def receive (w : World) (fs : Store) (u : Upload) : Store × Upload :=
  match u.stream with
  | [] => (fs, streamEnds u)
  | .metadata m :: rest => receiveMetadata fs { u with stream := rest } m
  | .data bytes :: rest => receiveData w fs { u with stream := rest } bytes
  | .unset :: rest => receiveData w fs { u with stream := rest } []

/-! ## After the loop -/

/-- `time.perf_counter() - (transfer_start_time or time.perf_counter())`, and the
    readings it takes; a start time of zero is falsy. -/
def durationOf (w : World) (u : Upload) : ℚ × ℕ :=
  match u.transferStartTime with
  | none => (Binary64.fl (w.clock u.readings - w.clock (u.readings + 1)), 2)
  | some t =>
    if t = 0 then (Binary64.fl (w.clock u.readings - w.clock (u.readings + 1)), 2)
    else (Binary64.fl (w.clock u.readings - t), 1)

/-- Lines 88–94. -/
def closeFile (w : World) (u : Upload) : Upload :=
  { u with
    phase := .verifying
    receiverDuration := (durationOf w u).1
    readings := u.readings + (durationOf w u).2
    fileHandle := none
    resourceStats := if u.monitor then w.stats else .zero
    monitor := false
    running := if u.monitor then u.running - 1 else u.running }

/-- Lines 96–98. -/
def abandon (u : Upload) : Upload := { u with phase := .cleanup true, fileHandle := none }

/-- After the temp file has been cleaned up: a failed handler stops its monitor
    (lines 103–108) and raises; a mismatch goes on to its row. -/
def settle (failed : Bool) (u : Upload) : Upload :=
  if failed then
    { u with
      phase := .raised
      monitor := false
      running := if u.monitor then u.running - 1 else u.running }
  else { u with phase := .recording false, tmpPath := none }

/-- `if tmp_path and os.path.exists(tmp_path)` (lines 99 and 127). -/
def checkTmp (fs : Store) (failed : Bool) (u : Upload) : Upload :=
  match u.tmpPath with
  | none => settle failed u
  | some tmp =>
    if fs.names tmp = none then settle failed u else { u with phase := .unlinking failed }

/-- `os.remove(tmp_path)` (lines 100 and 128), which raises if the file is gone. -/
def unlinkTmp (fs : Store) (failed : Bool) (u : Upload) : Store × Upload :=
  match u.tmpPath.bind fs.remove with
  | none => (fs, settle true u)
  | some fs' => (fs', settle failed { u with tmpPath := none })

/-- The size check and the checksum (lines 110–118). -/
def verify (fs : Store) (u : Upload) : Upload :=
  match u.metadata, u.tmpPath with
  | some m, some tmp =>
    if u.receivedBytes = m.totalSize then
      match fs.read tmp with
      | none => { u with phase := .raised }
      | some content =>
        if computeSha256File content = m.checksum then { u with phase := .publishing }
        else { u with phase := .cleanup false }
    else { u with phase := .cleanup false }
  | _, _ => { u with phase := .raised }

/-- `os.replace(tmp_path, final_path)` (lines 120–124). -/
def publish (fs : Store) (u : Upload) : Store × Upload :=
  match u.metadata, u.tmpPath with
  | some m, some tmp =>
    match fs.replace tmp m.filename with
    | none => (fs, { u with phase := .raised })
    | some fs' => (fs', { u with phase := .recording true, tmpPath := none })
  | _, _ => (fs, { u with phase := .raised })

def receiverRow (u : Upload) (integrityOk : Bool) : Row :=
  [("protocol", .str "grpc"), ("side", .str "receiver"),
    ("file_size", .float (Binary64.trueDiv u.receivedBytes (1024 * 1024))),
    ("sender_duration", .str "X"),
    ("receiver_duration", .str (Decimal.fixed 2 u.receiverDuration)), ("latency", .str "X"),
    ("goodput_mbps", .str (Decimal.fixed 3 (goodputMbps u.receivedBytes u.receiverDuration))),
    ("integrity_ok", .bool integrityOk)] ++
    u.resourceStats.texts.map fun p => (p.1, .str p.2)

/-- The measurement row and the result (lines 133–154). -/
def record (integrityOk : Bool) (u : Upload) : Upload :=
  if microseconds u.receiverDuration = 0 then { u with phase := .raised }
  else
    { u with
      phase := .returned integrityOk
      rows := u.rows ++ [receiverRow u integrityOk] }

/-- One step of a handler. -/
def advance (w : World) (fs : Store) (u : Upload) : Store × Upload :=
  match u.phase with
  | .receiving => receive w fs u
  | .closing => (fs, closeFile w u)
  | .failing => (fs, abandon u)
  | .cleanup failed => (fs, checkTmp fs failed u)
  | .unlinking failed => unlinkTmp fs failed u
  | .verifying => (fs, verify fs u)
  | .publishing => publish fs u
  | .recording ok => (fs, record ok u)
  | .returned _ => (fs, u)
  | .raised => (fs, u)

/-! ## What a step does -/

/-- In the `try` block the handle may be open. -/
def Phase.open : Phase → Bool
  | .receiving => true
  | .closing => true
  | .failing => true
  | _ => false

/-- After the `try` block the handle is closed, and the temp path is that of the
    latest metadata. -/
structure Tidy (u : Upload) : Prop where
  closed : u.phase.open = false → u.fileHandle = none
  tmpPath : ∀ tmp, u.tmpPath = some tmp → ∃ m, u.metadata = some m ∧ tmp = tmpPathOf m

theorem tidy_start (stream : List Chunk) (streamRaises : Bool) :
    Tidy (.start stream streamRaises) where
  closed _ := rfl
  tmpPath tmp h := by cases h

/-- The file-system operation of a step, and the locals it leaves. -/
inductive Effect (fs : Store) (u : Upload) : Store → Upload → Prop where
  | opens (m : Metadata) (rest : List Chunk) (u' : Upload) (hphase : u.phase = .receiving)
      (hstream : u.stream = .metadata m :: rest) (hphase' : u'.phase = .receiving)
      (hhandle : u'.fileHandle = some (fs.openTruncate (tmpPathOf m)).2)
      (hmetadata : u'.metadata = some m) (htmp : u'.tmpPath = some (tmpPathOf m)) :
      Effect fs u (fs.openTruncate (tmpPathOf m)).1 u'
  | writes (h : FileHandle) (bytes : Bytes) (u' : Upload) (hphase : u.phase = .receiving)
      (hhandle : u.fileHandle = some h) (hphase' : u'.phase = .receiving)
      (hhandle' : u'.fileHandle = some (fs.writeAt h bytes).2)
      (hmetadata : u'.metadata = u.metadata) (htmp : u'.tmpPath = u.tmpPath) :
      Effect fs u (fs.writeAt h bytes).1 u'
  | verifies (m : Metadata) (tmp : String) (content : Bytes) (hphase : u.phase = .verifying)
      (hmetadata : u.metadata = some m) (htmp : u.tmpPath = some tmp)
      (hread : fs.read tmp = some content) (hsum : computeSha256File content = m.checksum) :
      Effect fs u fs { u with phase := .publishing }
  | publishes (m : Metadata) (tmp : String) (fs' : Store) (hphase : u.phase = .publishing)
      (hmetadata : u.metadata = some m) (htmp : u.tmpPath = some tmp)
      (hreplace : fs.replace tmp m.filename = some fs') :
      Effect fs u fs' { u with phase := .recording true, tmpPath := none }
  | removes (tmp : String) (fs' : Store) (u' : Upload) (hphase : u.phase ≠ .publishing)
      (htmp : u.tmpPath = some tmp)
      (hremove : fs.remove tmp = some fs') (hpublishing : u'.phase ≠ .publishing)
      (hhandle : u'.fileHandle = u.fileHandle) (hmetadata : u'.metadata = u.metadata)
      (htmp' : u'.tmpPath = none) :
      Effect fs u fs' u'
  | quiet (u' : Upload) (hraised : u.phase = .publishing → u'.phase = .raised)
      (hpublishing : u'.phase ≠ .publishing)
      (hhandle : u'.fileHandle = u.fileHandle ∨ u'.fileHandle = none)
      (hmetadata : u'.metadata = u.metadata) (htmp : u'.tmpPath = u.tmpPath ∨ u'.tmpPath = none) :
      Effect fs u fs u'

theorem effect_settle (fs : Store) (failed : Bool) {u : Upload} (h : u.phase ≠ .publishing) :
    Effect fs u fs (settle failed u) := by
  cases failed with
  | true => exact .quiet _ (absurd · h) (by simp [settle]) (Or.inl rfl) rfl (Or.inl rfl)
  | false => exact .quiet _ (absurd · h) (by simp [settle]) (Or.inl rfl) rfl (Or.inr rfl)

theorem effect_raise (fs : Store) (u : Upload) : Effect fs u fs { u with phase := .raised } :=
  .quiet _ (fun _ => rfl) (by simp) (Or.inl rfl) rfl (Or.inl rfl)

/-- Going on to another phase is quiet. -/
theorem effect_phase (fs : Store) {u : Upload} {phase : Phase} (hu : u.phase ≠ .publishing)
    (h : phase ≠ .publishing) : Effect fs u fs { u with phase := phase } :=
  .quiet _ (absurd · hu) h (Or.inl rfl) rfl (Or.inl rfl)

theorem effect_receiveData (w : World) (fs : Store) {u v : Upload} (bytes : Bytes)
    (hphase : u.phase = .receiving) (hsame : u.phase = v.phase)
    (hhandle : u.fileHandle = v.fileHandle) (hmetadata : u.metadata = v.metadata)
    (htmp : u.tmpPath = v.tmpPath) :
    Effect fs v (receiveData w fs u bytes).1 (receiveData w fs u bytes).2 := by
  have hv : v.phase ≠ .publishing := by
    rw [← hsame, hphase]
    simp
  unfold receiveData
  split_ifs with hmeta htime
  · exact .quiet _ (absurd · hv) (by simp) (Or.inl hhandle) hmetadata (Or.inl htmp)
  · dsimp only
    split
    · exact .quiet _ (absurd · hv) (by simp) (Or.inl hhandle) hmetadata (Or.inl htmp)
    · rename_i h hopen
      exact .writes h bytes _ (hsame ▸ hphase) (hhandle ▸ hopen) hphase rfl hmetadata htmp
  · dsimp only
    split
    · exact .quiet _ (absurd · hv) (by simp) (Or.inl hhandle) hmetadata (Or.inl htmp)
    · rename_i h hopen
      exact .writes h bytes _ (hsame ▸ hphase) (hhandle ▸ hopen) hphase rfl hmetadata htmp

theorem effect_receive (w : World) (fs : Store) {u : Upload} (hphase : u.phase = .receiving) :
    Effect fs u (receive w fs u).1 (receive w fs u).2 := by
  have hu : u.phase ≠ .publishing := by
    rw [hphase]
    simp
  unfold receive
  split
  · unfold streamEnds
    split_ifs
    · exact effect_phase fs hu (by simp)
    · exact effect_phase fs hu (by simp)
  · rename_i m rest hstream
    exact .opens m rest _ hphase hstream hphase rfl rfl rfl
  · exact effect_receiveData w fs _ hphase rfl rfl rfl rfl
  · exact effect_receiveData w fs _ hphase rfl rfl rfl rfl

theorem effect_verify (fs : Store) {u : Upload} (hphase : u.phase = .verifying) :
    Effect fs u fs (verify fs u) := by
  have hu : u.phase ≠ .publishing := by
    rw [hphase]
    simp
  unfold verify
  split
  · rename_i m tmp hmetadata htmp
    split_ifs with hsize
    · split
      · exact effect_raise fs u
      · rename_i content hread
        split_ifs with hsum
        · exact .verifies m tmp content hphase hmetadata htmp hread hsum
        · exact effect_phase fs hu (by simp)
    · exact effect_phase fs hu (by simp)
  · exact effect_raise fs u

theorem effect_publish (fs : Store) {u : Upload} (hphase : u.phase = .publishing) :
    Effect fs u (publish fs u).1 (publish fs u).2 := by
  unfold publish
  split
  · rename_i m tmp hmetadata htmp
    split
    · exact effect_raise fs u
    · rename_i fs' hreplace
      exact .publishes m tmp fs' hphase hmetadata htmp hreplace
  · exact effect_raise fs u

theorem effect_checkTmp (fs : Store) (failed : Bool) {u : Upload} (hu : u.phase ≠ .publishing) :
    Effect fs u fs (checkTmp fs failed u) := by
  unfold checkTmp
  split
  · exact effect_settle fs failed hu
  · split_ifs
    · exact effect_settle fs failed hu
    · exact effect_phase fs hu (by simp)

theorem effect_unlinkTmp (fs : Store) (failed : Bool) {u : Upload} (hu : u.phase ≠ .publishing) :
    Effect fs u (unlinkTmp fs failed u).1 (unlinkTmp fs failed u).2 := by
  unfold unlinkTmp
  split
  · exact effect_settle fs true hu
  · rename_i fs' hremove
    obtain ⟨tmp, htmp, hremove⟩ := Option.bind_eq_some_iff.1 hremove
    cases failed with
    | true => exact .removes tmp fs' _ hu htmp hremove (by simp [settle]) rfl rfl rfl
    | false => exact .removes tmp fs' _ hu htmp hremove (by simp [settle]) rfl rfl rfl

theorem effect_record (fs : Store) (integrityOk : Bool) {u : Upload} (hu : u.phase ≠ .publishing) :
    Effect fs u fs (record integrityOk u) := by
  unfold record
  split_ifs
  · exact effect_raise fs u
  · exact .quiet _ (absurd · hu) (by simp) (Or.inl rfl) rfl (Or.inl rfl)

/-- **One step of a handler** opens, writes, verifies, publishes or removes a file,
    or leaves the store alone. -/
theorem effect_advance (w : World) (fs : Store) (u : Upload) :
    Effect fs u (advance w fs u).1 (advance w fs u).2 := by
  unfold advance
  cases hphase : u.phase with
  | receiving => exact effect_receive w fs hphase
  | closing => exact .quiet _ (by simp [hphase]) (by simp [closeFile]) (Or.inr rfl) rfl (Or.inl rfl)
  | failing => exact .quiet _ (by simp [hphase]) (by simp [abandon]) (Or.inr rfl) rfl (Or.inl rfl)
  | cleanup failed => exact effect_checkTmp fs failed (by simp [hphase])
  | unlinking failed => exact effect_unlinkTmp fs failed (by simp [hphase])
  | verifying => exact effect_verify fs hphase
  | publishing => exact effect_publish fs hphase
  | recording ok => exact effect_record fs ok (by simp [hphase])
  | returned ok =>
    exact .quiet _ (by simp [hphase]) (by simp [hphase]) (Or.inl rfl) rfl (Or.inl rfl)
  | raised => exact .quiet _ (by simp [hphase]) (by simp [hphase]) (Or.inl rfl) rfl (Or.inl rfl)

theorem open_receiveData (w : World) (fs : Store) {u : Upload} (bytes : Bytes)
    (h : u.phase.open = true) : (receiveData w fs u bytes).2.phase.open = true := by
  unfold receiveData
  split_ifs
  · rfl
  · dsimp only
    split
    · rfl
    · exact h
  · dsimp only
    split
    · rfl
    · exact h

theorem open_receive (w : World) (fs : Store) {u : Upload} (h : u.phase.open = true) :
    (receive w fs u).2.phase.open = true := by
  unfold receive
  split
  · unfold streamEnds
    split_ifs <;> rfl
  · exact h
  · exact open_receiveData w fs _ h
  · exact open_receiveData w fs _ h

/-- After the `try` block the handle is left alone. -/
theorem fileHandle_advance (w : World) (fs : Store) {u : Upload} (h : u.phase.open = false) :
    (advance w fs u).2.fileHandle = u.fileHandle := by
  have hsettle (failed : Bool) (v : Upload) : (settle failed v).fileHandle = v.fileHandle := by
    cases failed <;> rfl
  unfold advance
  split
  · simp [*, Phase.open] at h
  · simp [*, Phase.open] at h
  · simp [*, Phase.open] at h
  · unfold checkTmp
    split
    · exact hsettle _ u
    · split_ifs
      · exact hsettle _ u
      · rfl
  · unfold unlinkTmp
    split
    · exact hsettle true u
    · exact hsettle _ _
  · unfold verify
    repeat' split
    all_goals rfl
  · unfold publish
    repeat' split
    all_goals rfl
  · unfold record
    split_ifs <;> rfl
  · rfl
  · rfl

theorem Tidy.advance {u : Upload} (h : Tidy u) (w : World) (fs : Store) :
    Tidy (advance w fs u).2 where
  closed := by
    intro hclosed
    cases hopen : u.phase.open with
    | false => rw [fileHandle_advance w fs hopen, h.closed hopen]
    | true =>
      cases hphase : u.phase <;> simp [hphase, Phase.open] at hopen
      · rw [Grpc.advance, hphase] at hclosed
        rw [open_receive w fs (by rw [hphase]; rfl)] at hclosed
        cases hclosed
      · rw [Grpc.advance, hphase]
        rfl
      · rw [Grpc.advance, hphase]
        rfl
  tmpPath := by
    intro tmp htmp
    have heffect := effect_advance w fs u
    revert heffect htmp
    generalize (Grpc.advance w fs u).1 = fs', (Grpc.advance w fs u).2 = u'
    intro htmp heffect
    cases heffect with
    | opens m rest u' hphase hstream hphase' hhandle hmetadata htmp' =>
      exact ⟨m, hmetadata, Option.some.inj (htmp.symm.trans htmp')⟩
    | writes f bytes u' hphase hhandle hphase' hhandle' hmetadata htmp' =>
      rw [hmetadata]
      exact h.tmpPath tmp (htmp'.symm.trans htmp)
    | verifies => exact h.tmpPath tmp htmp
    | publishes => cases htmp
    | removes tmp' fs' u' hphase htmp' hremove hpublishing hhandle hmetadata htmp'' =>
      rw [htmp''] at htmp
      cases htmp
    | quiet u' hraised hpublishing hhandle hmetadata htmp' =>
      rw [hmetadata]
      rcases htmp' with hsame | hnone
      · exact h.tmpPath tmp (hsame.symm.trans htmp)
      · rw [hnone] at htmp
        cases htmp

end TransferTestbed.Grpc
