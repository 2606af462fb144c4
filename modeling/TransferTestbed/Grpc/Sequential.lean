import TransferTestbed.Grpc.Upload

/-!
# One upload on its own

`Upload` for a single caller, run to its end, with file operations that do not fail.

Results:
* `finished_upload`: the handler ends for every request stream.
* `upload_allOrNothing`: what it leaves in the store.
-/

namespace TransferTestbed.Grpc

open Integrity

/-- The handler makes a number of steps. -/
def exec (w : World) : ℕ → Store × Upload → Store × Upload
  | 0, s => s
  | n + 1, s => exec w n (advance w s.1 s.2)

/-- A bound on the steps a handler still makes. -/
def remaining (u : Upload) : ℕ :=
  match u.phase with
  | .receiving => u.stream.length + 6
  | .closing => 5
  | .verifying => 4
  | .failing => 4
  | .cleanup _ => 3
  | .unlinking _ => 2
  | .publishing => 2
  | .recording _ => 1
  | .returned _ => 0
  | .raised => 0

/-- `Upload`, run to its end. -/
def upload (w : World) (fs : Store) (stream : List Chunk) (streamRaises : Bool) :
    Store × Upload :=
  exec w (stream.length + 6) (fs, .start stream streamRaises)

theorem advance_receiving (w : World) (fs : Store) {u : Upload} (h : u.phase = .receiving) :
    advance w fs u = receive w fs u := by
  rw [advance, h]

/-! ## Running to the end -/

theorem advance_of_finished (w : World) (fs : Store) {u : Upload} (h : u.finished = true) :
    advance w fs u = (fs, u) := by
  unfold Upload.finished at h
  unfold advance
  split at h
  · rename_i ok hphase
    rw [hphase]
  · rename_i hphase
    rw [hphase]
  · cases h

theorem exec_of_finished (w : World) (n : ℕ) {s : Store × Upload} (h : s.2.finished = true) :
    exec w n s = s := by
  induction n with
  | zero => rfl
  | succ n ih =>
    rw [exec, advance_of_finished w s.1 h]
    exact ih

theorem exec_add (w : World) (m n : ℕ) (s : Store × Upload) :
    exec w (m + n) s = exec w n (exec w m s) := by
  induction m generalizing s with
  | zero => rw [Nat.zero_add]; rfl
  | succ m ih => rw [Nat.succ_add, exec, ih, exec]

theorem remaining_settle (failed : Bool) (u : Upload) : remaining (settle failed u) ≤ 1 := by
  cases failed <;> simp [settle, remaining]

theorem remaining_receiveData (w : World) (fs : Store) {u : Upload} (bytes : Bytes)
    (hphase : u.phase = .receiving) :
    remaining (receiveData w fs u bytes).2 ≤ u.stream.length + 6 := by
  unfold receiveData
  split_ifs
  · simp [remaining]
  · dsimp only
    split <;> simp [remaining, hphase]
  · dsimp only
    split <;> simp [remaining, hphase]

theorem remaining_receive (w : World) (fs : Store) {u : Upload} (hphase : u.phase = .receiving) :
    remaining (receive w fs u).2 ≤ u.stream.length + 5 := by
  unfold receive
  split
  · unfold streamEnds
    split_ifs <;> simp [remaining]
  · rename_i m rest hstream
    simp [receiveMetadata, remaining, hphase, hstream]
  · rename_i bytes rest hstream
    have hdata := remaining_receiveData w fs (u := { u with stream := rest }) bytes hphase
    rw [hstream, List.length_cons]
    simp only at hdata
    omega
  · rename_i rest hstream
    have hdata := remaining_receiveData w fs (u := { u with stream := rest }) [] hphase
    rw [hstream, List.length_cons]
    simp only at hdata
    omega

theorem remaining_checkTmp (fs : Store) (failed : Bool) (u : Upload) :
    remaining (checkTmp fs failed u) ≤ 2 := by
  have hsettle := remaining_settle failed u
  unfold checkTmp
  split
  · omega
  · split_ifs
    · omega
    · simp [remaining]

theorem remaining_unlinkTmp (fs : Store) (failed : Bool) (u : Upload) :
    remaining (unlinkTmp fs failed u).2 ≤ 1 := by
  unfold unlinkTmp
  split
  · exact remaining_settle true u
  · exact remaining_settle failed _

theorem remaining_verify (fs : Store) (u : Upload) : remaining (verify fs u) ≤ 3 := by
  unfold verify
  repeat' split
  all_goals simp [remaining]

theorem remaining_publish (fs : Store) (u : Upload) : remaining (publish fs u).2 ≤ 1 := by
  unfold publish
  repeat' split
  all_goals simp [remaining]

theorem remaining_record (integrityOk : Bool) (u : Upload) :
    remaining (record integrityOk u) = 0 := by
  unfold record
  split_ifs <;> simp [remaining]

/-- Every step of a handler that has not finished is one of finitely many. -/
theorem remaining_advance (w : World) (fs : Store) {u : Upload} (h : u.finished = false) :
    remaining (advance w fs u).2 + 1 ≤ remaining u := by
  unfold advance
  cases hphase : u.phase with
  | receiving =>
    have hle := remaining_receive w fs hphase
    have hnow : remaining u = u.stream.length + 6 := by rw [remaining, hphase]
    simp only
    omega
  | closing => simp [hphase, closeFile, remaining]
  | failing => simp [hphase, abandon, remaining]
  | cleanup failed =>
    have hle := remaining_checkTmp fs failed u
    have hnow : remaining u = 3 := by rw [remaining, hphase]
    simp only
    omega
  | unlinking failed =>
    have hle := remaining_unlinkTmp fs failed u
    have hnow : remaining u = 2 := by rw [remaining, hphase]
    simp only
    omega
  | verifying =>
    have hle := remaining_verify fs u
    have hnow : remaining u = 4 := by rw [remaining, hphase]
    simp only
    omega
  | publishing =>
    have hle := remaining_publish fs u
    have hnow : remaining u = 2 := by rw [remaining, hphase]
    simp only
    omega
  | recording ok =>
    have hle := remaining_record ok u
    have hnow : remaining u = 1 := by rw [remaining, hphase]
    simp only
    omega
  | returned ok =>
    rw [Upload.finished, hphase] at h
    cases h
  | raised =>
    rw [Upload.finished, hphase] at h
    cases h

theorem finished_exec (w : World) (n : ℕ) {s : Store × Upload} (h : remaining s.2 ≤ n) :
    (exec w n s).2.finished = true := by
  induction n generalizing s with
  | zero =>
    by_contra hfin
    have := remaining_advance w s.1 (u := s.2) (by simpa [exec] using hfin)
    omega
  | succ n ih =>
    cases hfin : s.2.finished with
    | true => rw [exec_of_finished w _ hfin, hfin]
    | false =>
      have := remaining_advance w s.1 hfin
      exact ih (by omega)

/-- **The handler ends** for every request stream. -/
theorem finished_upload (w : World) (fs : Store) (stream : List Chunk) (streamRaises : Bool) :
    (upload w fs stream streamRaises).2.finished = true :=
  finished_exec w _ le_rfl

/-- The handler gets from one state to another. -/
def Reaches (w : World) (s z : Store × Upload) : Prop := ∃ n, exec w n s = z

theorem Reaches.step {w : World} {s z : Store × Upload} (h : Reaches w (advance w s.1 s.2) z) :
    Reaches w s z := by
  obtain ⟨n, hn⟩ := h
  exact ⟨n + 1, hn⟩

/-- A finished state that the handler reaches is the one it ends in. -/
theorem upload_eq_of_reaches {w : World} {fs : Store} {stream : List Chunk} {streamRaises : Bool}
    {z : Store × Upload} (h : Reaches w (fs, .start stream streamRaises) z)
    (hfin : z.2.finished = true) : upload w fs stream streamRaises = z := by
  obtain ⟨n, rfl⟩ := h
  have hupload := finished_upload w fs stream streamRaises
  unfold upload at hupload ⊢
  rw [← exec_of_finished w n hupload, ← exec_add, Nat.add_comm, exec_add,
    exec_of_finished w _ hfin]

/-! ## The ends of a handler -/

/-- The temp file is removed, and the handler raises or returns `integrity_ok=False`. -/
def Discards (w : World) (fs : Store) (u : Upload) (tmp : String) : Prop :=
  ∃ fs' u', Reaches w (fs, u) (fs', u') ∧ fs.remove tmp = some fs' ∧
    (u'.phase = .raised ∨ u'.phase = .returned false)

/-- The temp file is renamed, and the handler raises or returns `integrity_ok=True`. -/
def Publishes (w : World) (fs : Store) (u : Upload) (tmp final : String) : Prop :=
  ∃ fs' u', Reaches w (fs, u) (fs', u') ∧ fs.replace tmp final = some fs' ∧
    (u'.phase = .raised ∨ u'.phase = .returned true)

theorem reaches_record (w : World) (fs : Store) {u : Upload} {ok : Bool}
    (hphase : u.phase = .recording ok) :
    ∃ u', Reaches w (fs, u) (fs, u') ∧ (u'.phase = .raised ∨ u'.phase = .returned ok) := by
  refine ⟨record ok u, ⟨1, by simp [exec, advance, hphase]⟩, ?_⟩
  unfold record
  split_ifs
  · exact Or.inl rfl
  · exact Or.inr rfl

theorem discards_cleanup (w : World) {fs : Store} {u : Upload} (failed : Bool) {tmp : String}
    (hphase : u.phase = .cleanup failed) (htmp : u.tmpPath = some tmp)
    (hexists : fs.names tmp ≠ none) : Discards w fs u tmp := by
  obtain ⟨fs', hremove⟩ := FileSystem.exists_remove hexists
  have hcheck : advance w fs u = (fs, { u with phase := .unlinking failed }) := by
    simp [advance, hphase, checkTmp, htmp, hexists]
  have hunlink : advance w fs { u with phase := .unlinking failed } =
      (fs', settle failed { u with phase := .unlinking failed, tmpPath := none }) := by
    simp [advance, unlinkTmp, htmp, hremove]
  cases failed with
  | true => exact ⟨fs', _, ⟨2, by rw [exec, hcheck, exec, hunlink, exec]⟩, hremove, Or.inl rfl⟩
  | false =>
    obtain ⟨u', hreach, hphase'⟩ := reaches_record w fs'
      (u := settle false { u with phase := .unlinking false, tmpPath := none }) rfl
    refine ⟨fs', u', .step ?_, hremove, hphase'⟩
    rw [hcheck]
    refine .step ?_
    rw [hunlink]
    exact hreach

theorem Discards.step {w : World} {fs : Store} {u v : Upload} {tmp : String}
    (h : Discards w fs v tmp) (hstep : advance w fs u = (fs, v)) : Discards w fs u tmp := by
  obtain ⟨fs', u', hreach, hremove, hphase⟩ := h
  exact ⟨fs', u', .step (hstep ▸ hreach), hremove, hphase⟩

theorem Publishes.step {w : World} {fs : Store} {u v : Upload} {tmp final : String}
    (h : Publishes w fs v tmp final) (hstep : advance w fs u = (fs, v)) :
    Publishes w fs u tmp final := by
  obtain ⟨fs', u', hreach, hreplace, hphase⟩ := h
  exact ⟨fs', u', .step (hstep ▸ hreach), hreplace, hphase⟩

theorem publishes_publishing (w : World) {fs : Store} {u : Upload} {m : Metadata} {tmp : String}
    (hphase : u.phase = .publishing) (hmetadata : u.metadata = some m) (htmp : u.tmpPath = some tmp)
    (hexists : fs.names tmp ≠ none) : Publishes w fs u tmp m.filename := by
  obtain ⟨fs', hreplace⟩ : ∃ fs', fs.replace tmp m.filename = some fs' :=
    FileSystem.exists_replace hexists
  have hpublish : advance w fs u = (fs', { u with phase := .recording true, tmpPath := none }) := by
    simp [advance, hphase, publish, hmetadata, htmp, hreplace]
  obtain ⟨u', hreach, hphase'⟩ := reaches_record w fs'
    (u := { u with phase := .recording true, tmpPath := none }) rfl
  exact ⟨fs', u', .step (hpublish ▸ hreach), hreplace, hphase'⟩

/-! ## Receiving a file -/

/-- The handler has opened the temp file and written some data to it; no other path
    has changed. -/
structure Writing (fs₀ : Store) (m : Metadata) (content : Bytes) (fs : Store) (u : Upload) :
    Prop where
  phase : u.phase = .receiving
  metadata : u.metadata = some m
  tmpPath : u.tmpPath = some (tmpPathOf m)
  handle : ∃ h, u.fileHandle = some h ∧ fs.AtEnd h (tmpPathOf m) content
  receivedBytes : u.receivedBytes = content.length
  names : ∀ p ≠ tmpPathOf m, fs.names p = fs₀.names p
  read : ∀ p ≠ tmpPathOf m, fs.read p = fs₀.read p

theorem writing_metadata (w : World) (fs : Store) (m : Metadata) (rest : List Chunk)
    (streamRaises : Bool) :
    let s := advance w fs (.start (.metadata m :: rest) streamRaises)
    Writing fs m [] s.1 s.2 ∧ s.2.stream = rest ∧ s.2.streamRaises = streamRaises := by
  refine ⟨⟨rfl, rfl, rfl, ?_, rfl, ?_, ?_⟩, rfl, rfl⟩
  · exact ⟨_, rfl, FileSystem.atEnd_openTruncate fs (tmpPathOf m)⟩
  · exact fun p hp => Function.update_of_ne hp _ _
  · exact fun p hp => (FileSystem.read_openTruncate fs _ p).trans (if_neg hp)

variable {w : World} {fs₀ fs : Store} {u : Upload} {m : Metadata} {content : Bytes}

theorem Writing.data (h : Writing fs₀ m content fs u) (w : World) {c : Chunk} {rest : List Chunk}
    (hstream : u.stream = c :: rest) (hc : ∀ m', c ≠ .metadata m') :
    let s := advance w fs u
    Writing fs₀ m (content ++ c.bytes) s.1 s.2 ∧ s.2.stream = rest ∧
      s.2.streamRaises = u.streamRaises := by
  obtain ⟨f, hopen, hend⟩ := h.handle
  have hadvance : advance w fs u = receiveData w fs { u with stream := rest } c.bytes := by
    rw [advance_receiving w fs h.phase, receive, hstream]
    cases c with
    | metadata m' => exact absurd rfl (hc m')
    | data bytes => rfl
    | unset => rfl
  have hread : ∀ p ≠ tmpPathOf m, (fs.writeAt f c.bytes).1.read p = fs₀.read p := by
    intro p hp
    rw [FileSystem.read_writeAt, if_neg, h.read p hp]
    exact fun hn => hp (fs.injective hn hend.names)
  rw [hadvance, receiveData, if_neg (by simp [h.metadata])]
  dsimp only
  split_ifs with htime
  · simp only [hopen]
    exact ⟨⟨h.phase, h.metadata, h.tmpPath, ⟨_, rfl, hend.writeAt c.bytes⟩,
      by simp [h.receivedBytes], h.names, hread⟩, trivial, trivial⟩
  · simp only [hopen]
    exact ⟨⟨h.phase, h.metadata, h.tmpPath, ⟨_, rfl, hend.writeAt c.bytes⟩,
      by simp [h.receivedBytes], h.names, hread⟩, trivial, trivial⟩

/-- The end of the stream: the temp file is discarded, or it is published after its
    size and its checksum have been checked. -/
theorem Writing.finish (h : Writing fs₀ m content fs u) (w : World) (hstream : u.stream = []) :
    Discards w fs u (tmpPathOf m) ∨
      content.length = m.totalSize ∧ computeSha256File content = m.checksum ∧
        Publishes w fs u (tmpPathOf m) m.filename := by
  obtain ⟨f, hopen, hend⟩ := h.handle
  have hexists : fs.names (tmpPathOf m) ≠ none := by simp [hend.names]
  have hreceive : advance w fs u = (fs, streamEnds u) := by
    rw [advance_receiving w fs h.phase, receive, hstream]
  cases hraises : u.streamRaises with
  | true =>
    have hfails : advance w fs u = (fs, { u with phase := .failing }) := by
      simp [hreceive, streamEnds, hraises]
    have habandon : advance w fs { u with phase := .failing } =
        (fs, abandon { u with phase := .failing }) := rfl
    have hdiscards : Discards w fs (abandon { u with phase := .failing }) (tmpPathOf m) :=
      discards_cleanup w true rfl h.tmpPath hexists
    exact Or.inl ((hdiscards.step habandon).step hfails)
  | false =>
    have hclose : advance w fs { u with phase := .closing } =
        (fs, closeFile w { u with phase := .closing }) := rfl
    have hends : advance w fs u = (fs, { u with phase := .closing }) := by
      simp [hreceive, streamEnds, hraises, h.metadata, hopen]
    have hverify : advance w fs (closeFile w { u with phase := .closing }) =
        (fs, verify fs (closeFile w { u with phase := .closing })) := rfl
    by_cases hsize : content.length = m.totalSize
    · by_cases hsum : computeSha256File content = m.checksum
      · refine Or.inr ⟨hsize, hsum, ?_⟩
        refine ((Publishes.step ?_ hverify).step hclose).step hends
        refine publishes_publishing w ?_ ?_ ?_ hexists
        · simp [verify, closeFile, h.metadata, h.tmpPath, h.receivedBytes, hsize, hend.read, hsum]
        · simp [verify, closeFile, h.metadata, h.tmpPath, h.receivedBytes, hsize, hend.read, hsum]
        · simp [verify, closeFile, h.metadata, h.tmpPath, h.receivedBytes, hsize, hend.read, hsum]
      · refine Or.inl (((Discards.step ?_ hverify).step hclose).step hends)
        refine discards_cleanup w false ?_ ?_ hexists
        · simp [verify, closeFile, h.metadata, h.tmpPath, h.receivedBytes, hsize, hend.read, hsum]
        · simp [verify, closeFile, h.metadata, h.tmpPath, h.receivedBytes, hsize, hend.read, hsum]
    · refine Or.inl (((Discards.step ?_ hverify).step hclose).step hends)
      refine discards_cleanup w false ?_ ?_ hexists
      · simp [verify, closeFile, h.metadata, h.tmpPath, h.receivedBytes, hsize]
      · simp [verify, closeFile, h.metadata, h.tmpPath, h.receivedBytes, hsize]

/-- The data of a request stream. -/
def received (stream : List Chunk) : Bytes := (stream.map Chunk.bytes).flatten

/-- How an upload that reads its metadata ends: it discards the temp file or publishes it. -/
structure Ends (w : World) (fs₀ : Store) (m : Metadata) (content : Bytes) (s : Store × Upload)
    (fs : Store) (z : Store × Upload) : Prop where
  reaches : Reaches w s z
  names : ∀ p ≠ tmpPathOf m, fs.names p = fs₀.names p
  read : ∀ p ≠ tmpPathOf m, fs.read p = fs₀.read p
  temp : fs.read (tmpPathOf m) = some content
  outcome : fs.remove (tmpPathOf m) = some z.1 ∧
      (z.2.phase = .raised ∨ z.2.phase = .returned false) ∨
    content.length = m.totalSize ∧ computeSha256File content = m.checksum ∧
      fs.replace (tmpPathOf m) m.filename = some z.1 ∧
      (z.2.phase = .raised ∨ z.2.phase = .returned true)

/-- The rest of a stream without another metadata message. -/
theorem Writing.ends (h : Writing fs₀ m content fs u) (w : World)
    {rest : List Chunk} (hstream : u.stream = rest) (hrest : ∀ c ∈ rest, ∀ m', c ≠ .metadata m') :
    ∃ fs₁ z, Ends w fs₀ m (content ++ received rest) (fs, u) fs₁ z := by
  induction rest generalizing content fs u with
  | nil =>
    obtain ⟨f, -, hend⟩ := h.handle
    rw [received, List.map_nil, List.flatten_nil, List.append_nil]
    rcases h.finish w hstream with ⟨fs', u', hreach, hremove, hphase⟩ |
      ⟨hsize, hsum, fs', u', hreach, hreplace, hphase⟩
    · exact ⟨fs, (fs', u'), hreach, h.names, h.read, hend.read, Or.inl ⟨hremove, hphase⟩⟩
    · exact ⟨fs, (fs', u'), hreach, h.names, h.read, hend.read,
        Or.inr ⟨hsize, hsum, hreplace, hphase⟩⟩
  | cons c rest ih =>
    rw [List.forall_mem_cons] at hrest
    obtain ⟨hnext, hstream', -⟩ := h.data w hstream hrest.1
    obtain ⟨fs₁, z, hends⟩ := ih hnext hstream' hrest.2
    rw [received, List.map_cons, List.flatten_cons, ← List.append_assoc]
    exact ⟨fs₁, z, .step hends.reaches, hends.names, hends.read, hends.temp, hends.outcome⟩

/-! ## The property -/

/-- What an upload leaves, for the metadata `m` of its stream. -/
structure AllOrNothing (fs : Store) (stream : List Chunk) (m : Metadata) (z : Store × Upload) :
    Prop where
  /-- the final path is as before, or it holds the data, of the right size and checksum -/
  final : z.1.read m.filename = fs.read m.filename ∨
    z.1.read m.filename = some (received stream) ∧ (received stream).length = m.totalSize ∧
      computeSha256File (received stream) = m.checksum
  /-- once the metadata has been read there is no temp file -/
  temp : stream.head? = some (.metadata m) → z.1.read (tmpPathOf m) = none
  /-- a handler that never reads the metadata leaves the store alone -/
  unread : stream.head? ≠ some (.metadata m) → z.1 = fs
  frame : ∀ p, p ≠ m.filename → p ≠ tmpPathOf m → z.1.read p = fs.read p
  /-- `integrity_ok` says whether the final path has got another file -/
  result : ∀ ok, z.2.phase = .returned ok →
    (ok = true ↔ z.1.names m.filename ≠ fs.names m.filename)

theorem filename_ne_tmpPathOf (m : Metadata) : m.filename ≠ tmpPathOf m := by
  intro h
  have := congrArg String.length h
  rw [tmpPathOf, String.length_append] at this
  simp at this

/-- What a stream returns is what its branch returns. -/
theorem eq_of_returned {u : Upload} {b ok : Bool} (h : u.phase = .raised ∨ u.phase = .returned b)
    (hok : u.phase = .returned ok) : ok = b := by
  rcases h with hphase | hphase
  · rw [hphase] at hok
    cases hok
  · rw [hphase] at hok
    cases hok
    rfl

theorem Ends.allOrNothing {s z : Store × Upload} {fs₁ : Store} {stream rest : List Chunk}
    (h : Ends w fs m (received stream) s fs₁ z) (hstream : stream = .metadata m :: rest) :
    AllOrNothing fs stream m z := by
  have hne := filename_ne_tmpPathOf m
  have hhead : stream.head? = some (.metadata m) := by rw [hstream]; rfl
  rcases h.outcome with ⟨hremove, hphase⟩ | ⟨hsize, hsum, hreplace, hphase⟩
  · have hread (p : String) := FileSystem.read_remove hremove p
    refine ⟨Or.inl ?_, fun _ => ?_, absurd hhead, fun p _ hp => ?_, fun ok hok => ?_⟩
    · rw [hread, if_neg hne, h.read _ hne]
    · rw [hread, if_pos rfl]
    · rw [hread, if_neg hp, h.read _ hp]
    · have hok := eq_of_returned hphase hok
      have hnames : z.1.names m.filename = fs.names m.filename := by
        rw [(FileSystem.names_remove hremove).1, Function.update_of_ne hne, h.names _ hne]
      simp [hok, hnames]
  · have hread (p : String) := FileSystem.read_replace hreplace p
    refine ⟨Or.inr ⟨?_, hsize, hsum⟩, fun _ => ?_, absurd hhead, fun p hf hp => ?_,
      fun ok hok => ?_⟩
    · rw [hread, if_pos rfl, h.temp]
    · rw [hread, if_neg hne.symm, if_pos rfl]
    · rw [hread, if_neg hf, if_neg hp, h.read _ hp]
    · have hok := eq_of_returned hphase hok
      obtain ⟨hnames, -, hexists⟩ := FileSystem.names_replace hreplace
      obtain ⟨n, hn⟩ := Option.ne_none_iff_exists'.1 hexists
      rw [hnames, Function.update_self, hn, ← h.names _ hne]
      refine iff_of_true hok fun heq => hne ?_
      exact fs₁.injective heq.symm hn

/-- Without a metadata message at its head, the stream is refused. -/
theorem upload_unread (w : World) (fs : Store) (stream : List Chunk) (streamRaises : Bool)
    (h : ∀ m, stream.head? ≠ some (.metadata m)) :
    (upload w fs stream streamRaises).1 = fs ∧
      (upload w fs stream streamRaises).2.phase = .raised := by
  have hfail : ∃ u, advance w fs (.start stream streamRaises) = (fs, u) ∧ u.phase = .failing ∧
      u.tmpPath = none := by
    cases stream with
    | nil => exact ⟨_, rfl, by simp [streamEnds, Upload.start], by simp [streamEnds, Upload.start]⟩
    | cons c rest =>
      cases c with
      | metadata m => exact absurd rfl (h m)
      | data bytes => exact ⟨_, rfl, rfl, rfl⟩
      | unset => exact ⟨_, rfl, rfl, rfl⟩
  obtain ⟨u, hu, hphase, htmp⟩ := hfail
  have habandon : advance w fs u = (fs, abandon u) := by rw [advance, hphase]
  have hcleanup : advance w fs (abandon u) = (fs, settle true (abandon u)) := by
    simp [advance, abandon, checkTmp, htmp]
  have hreach : Reaches w (fs, .start stream streamRaises) (fs, settle true (abandon u)) := by
    refine .step (hu ▸ .step ?_)
    rw [habandon]
    exact .step (hcleanup ▸ ⟨0, rfl⟩)
  rw [upload_eq_of_reaches hreach rfl]
  exact ⟨rfl, rfl⟩

/-- A stream with at most one metadata message has no other one after its head. -/
theorem not_metadata_of_one {m : Metadata} {rest : List Chunk}
    (hone : ((Chunk.metadata m :: rest).filterMap Chunk.metadata?).length ≤ 1) :
    ∀ c ∈ rest, ∀ m', c ≠ .metadata m' := by
  rintro c hc m' rfl
  have hpos : 0 < (rest.filterMap Chunk.metadata?).length :=
    List.length_pos_of_mem (List.mem_filterMap.2 ⟨_, hc, rfl⟩)
  rw [List.filterMap_cons, Chunk.metadata?, List.length_cons] at hone
  omega

/-- The upload of a stream whose only metadata message is its head. -/
theorem allOrNothing_of_head (w : World) (fs : Store) (m : Metadata) {rest : List Chunk}
    (hrest : ∀ c ∈ rest, ∀ m', c ≠ .metadata m') (streamRaises : Bool) :
    AllOrNothing fs (.metadata m :: rest) m (upload w fs (.metadata m :: rest) streamRaises) := by
  obtain ⟨hwriting, hnext, -⟩ := writing_metadata w fs m rest streamRaises
  obtain ⟨fs₁, z, hends⟩ := hwriting.ends w hnext hrest
  have hreach : Reaches w (fs, .start (.metadata m :: rest) streamRaises) z := .step hends.reaches
  have hfin : z.2.finished = true := by
    rcases hends.outcome with ⟨-, hphase | hphase⟩ | ⟨-, -, -, hphase | hphase⟩ <;>
      rw [Upload.finished, hphase]
  have hreceived : received (.metadata m :: rest) = received rest := rfl
  rw [List.nil_append, ← hreceived] at hends
  rw [upload_eq_of_reaches hreach hfin]
  exact hends.allOrNothing rfl

/-- **An upload is all or nothing**: for every stream with at most one metadata message,
    whether or not it raises. -/
theorem upload_allOrNothing (w : World) (fs : Store) (stream : List Chunk) (streamRaises : Bool)
    (hone : (stream.filterMap Chunk.metadata?).length ≤ 1) :
    (upload w fs stream streamRaises).2.finished = true ∧
      (∀ m, .metadata m ∈ stream → AllOrNothing fs stream m (upload w fs stream streamRaises)) ∧
      ((∀ m, .metadata m ∉ stream) → (upload w fs stream streamRaises).1 = fs) := by
  refine ⟨finished_upload w fs stream streamRaises, fun m hm => ?_, fun hnone => ?_⟩
  · by_cases hhead : ∃ m', stream.head? = some (.metadata m')
    · obtain ⟨m', hhead⟩ := hhead
      obtain ⟨rest, rfl⟩ : ∃ rest, stream = .metadata m' :: rest := List.head?_eq_some_iff.1 hhead
      have hrest := not_metadata_of_one hone
      obtain rfl : m = m' := by
        rcases List.mem_cons.1 hm with hm | hm
        · simpa using hm
        · exact absurd rfl (hrest _ hm m)
      exact allOrNothing_of_head w fs m hrest streamRaises
    · obtain ⟨hsame, hphase⟩ := upload_unread w fs stream streamRaises
        fun m' h => hhead ⟨m', h⟩
      refine ⟨Or.inl (by rw [hsame]), fun h => absurd ⟨m, h⟩ hhead, fun _ => hsame,
        fun p _ _ => by rw [hsame], fun ok hok => ?_⟩
      rw [hphase] at hok
      cases hok
  · exact (upload_unread w fs stream streamRaises fun m h => hnone m (List.mem_of_head? h)).1

/-- A file of two bytes, replaced by one of one byte. -/
theorem upload_allOrNothing_replaced :
    AllOrNothing (.single "a.bin" [8, 9]) [.metadata ⟨"a.bin", 1, computeSha256File [1]⟩, .data [1]]
      ⟨"a.bin", 1, computeSha256File [1]⟩
      (upload tickingWorld (.single "a.bin" [8, 9])
        [.metadata ⟨"a.bin", 1, computeSha256File [1]⟩, .data [1]] false) :=
  (upload_allOrNothing tickingWorld (.single "a.bin" [8, 9])
    [.metadata ⟨"a.bin", 1, computeSha256File [1]⟩, .data [1]] false (by decide)).2.1 _ (by simp)

/-- A stale temp file outlives an upload whose data comes before its metadata. -/
theorem temp_survives_dataFirst :
    (upload tickingWorld (.single "a.bin.part" [9]) [.data [1], .metadata ⟨"a.bin", 1, ""⟩]
      false).2.finished = true ∧
    (upload tickingWorld (.single "a.bin.part" [9]) [.data [1], .metadata ⟨"a.bin", 1, ""⟩]
      false).1.read (tmpPathOf ⟨"a.bin", 1, ""⟩) = some [9] := by
  decide +kernel

end TransferTestbed.Grpc
