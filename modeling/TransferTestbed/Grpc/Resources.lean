import TransferTestbed.Grpc.Sequential

/-!
# What an upload leaves behind

The `.part` files and the resource monitors of one `Upload`. Every metadata message
opens a file and starts a monitor, and the handler keeps the latest of each only.

Results:
* `running_upload`: how many monitors are left running.
* `leavesNothing_iff`: when no monitor and no `.part` file is left.
-/

namespace TransferTestbed.Grpc

open Integrity

/-! ## Statements -/

/-- The handler opens a `.part` file in one of its steps. -/
def Opens (w : World) (fs : Store) (stream : List Chunk) (streamRaises : Bool) (tmp : String) :
    Prop :=
  ∃ n m rest, (exec w n (fs, .start stream streamRaises)).2.phase = .receiving ∧
    (exec w n (fs, .start stream streamRaises)).2.stream = .metadata m :: rest ∧
    tmp = tmpPathOf m

/-- When `Upload` has returned or raised, none of its `.part` files exists and all its
    monitors have been stopped. -/
structure LeavesNothing (w : World) (fs : Store) (stream : List Chunk) (streamRaises : Bool) :
    Prop where
  temp : ∀ tmp, Opens w fs stream streamRaises tmp →
    (upload w fs stream streamRaises).1.names tmp = none
  monitors : (upload w fs stream streamRaises).2.running = 0

/-! ## Monitors -/

/-- The monitors that are not stopped by the end of the handler. -/
def owed (u : Upload) : ℕ := if u.monitor then u.running - 1 else u.running

/-- Where a handler may still have a monitor to stop. -/
def Phase.holding : Phase → Bool
  | .receiving => true
  | .closing => true
  | .failing => true
  | .cleanup failed => failed
  | .unlinking failed => failed
  | _ => false

/-- After the receive loop, so many monitors will be left. -/
structure Releases (n : ℕ) (u : Upload) : Prop where
  left : u.phase ≠ .receiving
  owed : Grpc.owed u = n
  released : u.phase.holding = false → u.monitor = false

variable {w : World} {fs : Store} {u : Upload} {n : ℕ}

theorem releases_settle {failed : Bool} (howed : owed u = n)
    (hreleased : failed = false → u.monitor = false) : Releases n (settle failed u) := by
  cases failed with
  | true => exact ⟨by simp [settle], howed, fun _ => rfl⟩
  | false => exact ⟨by simp [settle], howed, fun _ => hreleased rfl⟩

theorem Releases.verify (h : Releases n u) (hphase : u.phase = .verifying) :
    Releases n (verify fs u) := by
  have hmonitor : u.monitor = false := h.released (by rw [hphase]; rfl)
  have hgoes (phase : Phase) (hleft : phase ≠ .receiving) :
      Releases n { u with phase := phase } := ⟨hleft, h.owed, fun _ => hmonitor⟩
  unfold Grpc.verify
  split
  · split_ifs
    · split
      · exact hgoes _ (by simp)
      · split_ifs
        · exact hgoes _ (by simp)
        · exact hgoes _ (by simp)
    · exact hgoes _ (by simp)
  · exact hgoes _ (by simp)

theorem Releases.publish (h : Releases n u) (hphase : u.phase = .publishing) :
    Releases n (publish fs u).2 := by
  have hmonitor : u.monitor = false := h.released (by rw [hphase]; rfl)
  unfold Grpc.publish
  split
  · split
    · exact ⟨by simp, h.owed, fun _ => hmonitor⟩
    · exact ⟨by simp, h.owed, fun _ => hmonitor⟩
  · exact ⟨by simp, h.owed, fun _ => hmonitor⟩

/-- **One step** after the receive loop. -/
theorem Releases.advance (h : Releases n u) : Releases n (advance w fs u).2 := by
  unfold Grpc.advance
  cases hphase : u.phase with
  | receiving => exact absurd hphase h.left
  | closing => exact ⟨by simp [closeFile], h.owed, fun _ => rfl⟩
  | failing => exact ⟨by simp [abandon], h.owed, by simp [abandon, Phase.holding]⟩
  | cleanup failed =>
    have hreleased : failed = false → u.monitor = false := by
      intro hfailed
      exact h.released (by rw [hphase, hfailed]; rfl)
    simp only [checkTmp]
    split
    · exact releases_settle h.owed hreleased
    · split_ifs
      · exact releases_settle h.owed hreleased
      · exact ⟨by simp, h.owed, hreleased⟩
  | unlinking failed =>
    have hreleased : failed = false → u.monitor = false := by
      intro hfailed
      exact h.released (by rw [hphase, hfailed]; rfl)
    simp only [unlinkTmp]
    split
    · show Releases n (settle true u)
      exact releases_settle h.owed (by simp)
    · exact releases_settle h.owed hreleased
  | verifying => exact h.verify hphase
  | publishing => exact h.publish hphase
  | recording ok =>
    have hmonitor : u.monitor = false := h.released (by rw [hphase]; rfl)
    simp only [record]
    split_ifs
    · exact ⟨by simp, h.owed, fun _ => hmonitor⟩
    · exact ⟨by simp, h.owed, fun _ => hmonitor⟩
  | returned ok => exact h
  | raised => exact h

theorem Releases.exec {s : Store × Upload} (h : Releases n s.2) (k : ℕ) :
    Releases n (exec w k s).2 := by
  induction k generalizing s with
  | zero => exact h
  | succ k ih => exact ih h.advance

theorem Releases.running (h : Releases n u) (hfin : u.finished = true) : u.running = n := by
  have hmonitor : u.monitor = false := by
    refine h.released ?_
    unfold Upload.finished at hfin
    split at hfin
    · rename_i hphase
      rw [hphase]
      rfl
    · rename_i hphase
      rw [hphase]
      rfl
    · cases hfin
  have howed := h.owed
  rwa [Grpc.owed, hmonitor, if_neg (by simp)] at howed

/-! ## The receive loop -/

/-- In the receive loop after so many metadata messages. -/
structure Held (n : ℕ) (u : Upload) : Prop where
  phase : u.phase = .receiving
  metadata : u.metadata ≠ none
  fileHandle : u.fileHandle ≠ none
  monitor : u.monitor = true
  running : u.running = n

/-- The number of metadata messages. -/
def metadataCount (stream : List Chunk) : ℕ := (stream.filterMap Chunk.metadata?).length

theorem Held.receiveData (h : Held n u) (w : World) (fs : Store) (bytes : Bytes) :
    Held n (receiveData w fs u bytes).2 ∧
      (receiveData w fs u bytes).2.stream = u.stream := by
  obtain ⟨f, hf⟩ := Option.ne_none_iff_exists'.1 h.fileHandle
  unfold Grpc.receiveData
  rw [if_neg h.metadata]
  dsimp only
  split_ifs
  · simp only [hf]
    exact ⟨⟨h.phase, h.metadata, by simp, h.monitor, h.running⟩, trivial⟩
  · simp only [hf]
    exact ⟨⟨h.phase, h.metadata, by simp, h.monitor, h.running⟩, trivial⟩

/-- The rest of the stream, to its end. -/
theorem Held.reaches (h : Held n u) (w : World) (fs : Store) :
    ∃ s, Reaches w (fs, u) s ∧ Releases (n + metadataCount u.stream - 1) s.2 := by
  generalize hstream : u.stream = stream
  induction stream generalizing n fs u with
  | nil =>
    have hends : Grpc.advance w fs u = (fs, streamEnds u) := by
      rw [advance_receiving w fs h.phase, receive, hstream]
    refine ⟨_, .step ⟨0, hends⟩, ?_⟩
    have howed : owed u = n - 1 := by rw [owed, if_pos h.monitor, h.running]
    simp only [streamEnds]
    split_ifs
    · exact ⟨by simp, howed, by simp [Phase.holding]⟩
    · exact ⟨by simp, howed, by simp [Phase.holding]⟩
  | cons c rest ih =>
    have hnext : ∃ s k, Grpc.advance w fs u = s ∧ Held (n + k) s.2 ∧ s.2.stream = rest ∧
        metadataCount (c :: rest) = k + metadataCount rest := by
      have hheld : Held n { u with stream := rest } :=
        ⟨h.phase, h.metadata, h.fileHandle, h.monitor, h.running⟩
      rw [advance_receiving w fs h.phase, receive, hstream]
      cases c with
      | metadata m =>
        refine ⟨_, 1, rfl, ⟨h.phase, by simp [receiveMetadata], by simp [receiveMetadata], rfl,
          congrArg (· + 1) h.running⟩, rfl, ?_⟩
        rw [metadataCount, List.filterMap_cons, Chunk.metadata?, List.length_cons, Nat.add_comm]
        rfl
      | data bytes =>
        exact ⟨_, 0, rfl, (hheld.receiveData w fs bytes).1, (hheld.receiveData w fs bytes).2,
          (Nat.zero_add _).symm⟩
      | unset =>
        exact ⟨_, 0, rfl, (hheld.receiveData w fs []).1, (hheld.receiveData w fs []).2,
          (Nat.zero_add _).symm⟩
    obtain ⟨s, k, hadvance, hheld, hrest, hcount⟩ := hnext
    obtain ⟨z, hreach, hreleases⟩ := ih hheld s.1 hrest
    refine ⟨z, .step (hadvance ▸ hreach), ?_⟩
    rw [hcount, ← Nat.add_assoc]
    exact hreleases

/-- A handler that gets past the receive loop ends with the monitors it owes. -/
theorem running_of_reaches {stream : List Chunk} {streamRaises : Bool} {s : Store × Upload}
    (h : Reaches w (fs, .start stream streamRaises) s) (hreleases : Releases n s.2) :
    (upload w fs stream streamRaises).2.running = n := by
  obtain ⟨k, rfl⟩ := h
  have hfin := finished_exec w _ (le_refl (remaining
    (exec w k (fs, .start stream streamRaises)).2))
  rw [upload_eq_of_reaches ⟨k + _, exec_add w k _ _⟩ hfin]
  exact (hreleases.exec _).running hfin

/-- **The monitors that are left**: all but the last one of those that the metadata
    messages have started. -/
theorem running_upload (w : World) (fs : Store) (m : Metadata) (rest : List Chunk)
    (streamRaises : Bool) :
    (upload w fs (.metadata m :: rest) streamRaises).2.running = metadataCount rest := by
  have hfirst : Held 1 (Grpc.advance w fs (.start (.metadata m :: rest) streamRaises)).2 :=
    ⟨rfl, by simp [Grpc.advance, receive, receiveMetadata, Upload.start],
      by simp [Grpc.advance, receive, receiveMetadata, Upload.start], rfl, rfl⟩
  obtain ⟨s, hreach, hreleases⟩ := hfirst.reaches w
    (Grpc.advance w fs (.start (.metadata m :: rest) streamRaises)).1
  rw [running_of_reaches (.step hreach) hreleases]
  exact Nat.add_sub_cancel_left _ _

/-! ## Temp files -/

/-- The stream is consumed from its head. -/
theorem stream_advance (w : World) (fs : Store) (u : Upload) :
    (advance w fs u).2.stream <:+ u.stream := by
  have hdata (v : Upload) (bytes : Bytes) : (receiveData w fs v bytes).2.stream = v.stream := by
    unfold receiveData
    split_ifs
    · rfl
    · dsimp only
      split <;> rfl
    · dsimp only
      split <;> rfl
  have hsettle (failed : Bool) (v : Upload) : (settle failed v).stream = v.stream := by
    cases failed <;> rfl
  unfold advance
  split
  · unfold receive
    split
    · rename_i hstream
      unfold streamEnds
      split_ifs <;> exact List.suffix_rfl
    · rename_i m rest hstream
      rw [hstream]
      exact List.suffix_cons _ _
    · rename_i bytes rest hstream
      rw [hdata, hstream]
      exact List.suffix_cons _ _
    · rename_i rest hstream
      rw [hdata, hstream]
      exact List.suffix_cons _ _
  · exact List.suffix_rfl
  · exact List.suffix_rfl
  · unfold checkTmp
    split
    · rw [hsettle]
    · split_ifs
      · rw [hsettle]
      · exact List.suffix_rfl
  · unfold unlinkTmp
    split
    · rw [hsettle]
    · rw [hsettle]
  · unfold verify
    repeat' split
    all_goals exact List.suffix_rfl
  · unfold publish
    repeat' split
    all_goals exact List.suffix_rfl
  · unfold record
    split_ifs <;> exact List.suffix_rfl
  · exact List.suffix_rfl
  · exact List.suffix_rfl

theorem stream_exec (w : World) (k : ℕ) (s : Store × Upload) :
    (exec w k s).2.stream <:+ s.2.stream := by
  induction k generalizing s with
  | zero => exact List.suffix_rfl
  | succ k ih => exact (ih _).trans (stream_advance w s.1 s.2)

/-- Every `.part` file is that of a metadata message. -/
theorem Opens.mem {stream : List Chunk} {streamRaises : Bool} {tmp : String}
    (h : Opens w fs stream streamRaises tmp) : ∃ m, .metadata m ∈ stream ∧ tmp = tmpPathOf m := by
  obtain ⟨k, m, rest, -, hstream, rfl⟩ := h
  have hsuffix := stream_exec w k (fs, .start stream streamRaises)
  rw [hstream] at hsuffix
  exact ⟨m, hsuffix.subset List.mem_cons_self, rfl⟩

/-! ## The property -/

/-- A stream that does not begin with metadata is refused at once. -/
theorem leavesNothing_of_unread {stream : List Chunk} {streamRaises : Bool}
    (h : ∀ m, stream.head? ≠ some (.metadata m)) : LeavesNothing w fs stream streamRaises := by
  have hfirst : Releases 0 (Grpc.advance w fs (.start stream streamRaises)).2 := by
    cases stream with
    | nil => exact ⟨by simp [Grpc.advance, receive, streamEnds, Upload.start], by
        simp [Grpc.advance, receive, streamEnds, Upload.start, owed], by
        simp [Grpc.advance, receive, streamEnds, Upload.start]⟩
    | cons c rest =>
      cases c with
      | metadata m => exact absurd rfl (h m)
      | data bytes => exact ⟨by simp [Grpc.advance, receive, receiveData, Upload.start], rfl,
          fun _ => rfl⟩
      | unset => exact ⟨by simp [Grpc.advance, receive, receiveData, Upload.start], rfl,
          fun _ => rfl⟩
  refine ⟨?_, running_of_reaches (.step ⟨0, rfl⟩) hfirst⟩
  rintro tmp ⟨k, m, rest, hphase, hstream, rfl⟩
  cases k with
  | zero => exact absurd (congrArg List.head? hstream) (h m)
  | succ k => exact absurd hphase (hfirst.exec k).left

/-- **What an upload leaves behind**: nothing iff its stream begins with something else
    than metadata or has no second metadata message, wherever the stream ends. -/
theorem leavesNothing_iff (w : World) (fs : Store) (stream : List Chunk) (streamRaises : Bool) :
    LeavesNothing w fs stream streamRaises ↔
      (∀ m, stream.head? ≠ some (.metadata m)) ∨
        (stream.filterMap Chunk.metadata?).length ≤ 1 := by
  by_cases hhead : ∀ m, stream.head? ≠ some (.metadata m)
  · exact iff_of_true (leavesNothing_of_unread hhead) (.inl hhead)
  rw [or_iff_right hhead]
  obtain ⟨m, hm⟩ := not_forall_not.1 hhead
  obtain ⟨rest, rfl⟩ : ∃ rest, stream = .metadata m :: rest := List.head?_eq_some_iff.1 hm
  have hcount : ((Chunk.metadata m :: rest).filterMap Chunk.metadata?).length =
      metadataCount rest + 1 := by
    rw [List.filterMap_cons, Chunk.metadata?, List.length_cons, metadataCount]
  constructor
  · intro h
    have hrunning := h.monitors
    rw [running_upload] at hrunning
    omega
  · intro hone
    have hrest := not_metadata_of_one hone
    refine ⟨fun tmp htmp => ?_, ?_⟩
    · obtain ⟨m', hm', rfl⟩ := htmp.mem
      obtain rfl : m' = m := by
        rcases List.mem_cons.1 hm' with hm' | hm'
        · simpa using hm'
        · exact absurd rfl (hrest _ hm' m')
      have hread := (allOrNothing_of_head (w := w) fs m' hrest streamRaises).temp rfl
      rwa [FileSystem.read, Option.map_eq_none_iff] at hread
    · rw [running_upload]
      omega

/-- Two metadata messages with different names: the first `.part` file and the first
    monitor are left. -/
theorem not_leavesNothing_renamed :
    ¬ LeavesNothing tickingWorld .empty
        [.metadata ⟨"a.bin", 0, ""⟩, .metadata ⟨"b.bin", 0, ""⟩] true ∧
      (upload tickingWorld .empty [.metadata ⟨"a.bin", 0, ""⟩, .metadata ⟨"b.bin", 0, ""⟩]
        true).1.read "a.bin.part" = some [] := by
  refine ⟨fun h => ?_, by decide +kernel⟩
  have hrunning := h.monitors
  rw [running_upload] at hrunning
  cases hrunning

end TransferTestbed.Grpc
