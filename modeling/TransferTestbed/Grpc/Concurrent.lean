import Mathlib.Data.Fintype.Basic
import TransferTestbed.Grpc.Upload
import TransferTestbed.Library.Transition

/-!
# Concurrent uploads

The handlers of the gRPC server over one store, one step at a time in any order.
Different filenames may lead to one file, as `a.bin` and `./a.bin` do: `resolve` gives the
directory entry that a filename leads to, below `OUTPUT_DIR` or elsewhere. It resolves the
directory part, so that the temp file of an entry is the entry with `.part` at its end. Paths are
entries from there on. A published path carries, as a ghost, the checksum that the handler that
published it last had been given.

Results:
* `Safe.step`: the invariant of a step that the other handlers do not disturb.
* `verified_of_undisturbed`: in a run of such steps no unverified file is published.
-/

namespace TransferTestbed.Grpc

open Integrity Transition

variable {ι : Type*} [DecidableEq ι]

/-- The store, the handlers, and the checksum of every published path. -/
structure Server (ι : Type*) where
  store : Store
  uploads : ι → Upload
  published : String → Option String

/-- A publishing handler that goes on has renamed its temp file. -/
def notePublished (u u' : Upload) (published : String → Option String) :
    String → Option String :=
  match u.phase, u'.phase, u.metadata with
  | .publishing, .recording _, some m => Function.update published m.filename (some m.checksum)
  | _, _, _ => published

/-- One step of the handler `i`, if it has not finished. -/
def step (w : ι → World) (s : Server ι) (i : ι) : Option (Server ι) :=
  if (s.uploads i).finished then none
  else some
    { store := (advance (w i) s.store (s.uploads i)).1
      uploads := Function.update s.uploads i (advance (w i) s.store (s.uploads i)).2
      published := notePublished (s.uploads i) (advance (w i) s.store (s.uploads i)).2
        s.published }

/-- A message with the entry that its filename leads to. -/
def Chunk.resolved (resolve : String → String) : Chunk → Chunk
  | .metadata m => .metadata { m with filename := resolve m.filename }
  | chunk => chunk

/-- The handlers before their first step, over any store. -/
def serve (resolve : String → String) (store : Store) (streams : ι → List Chunk × Bool) :
    Server ι where
  store := store
  uploads i := .start ((streams i).1.map (Chunk.resolved resolve)) (streams i).2
  published _ := none

/-- Every published path has the content that its checksum was checked against. -/
def Verified (s : Server ι) : Prop :=
  ∀ path checksum, s.published path = some checksum →
    ∃ content, s.store.read path = some content ∧ computeSha256File content = checksum

/-- The metadata message that a handler reads next. -/
def nextMetadata (u : Upload) : Option Metadata := u.stream.head?.bind Chunk.metadata?

/-- The handler `v` does not disturb the next step of `u`. -/
structure UndisturbedBy (s : Server ι) (u v : Upload) : Prop where
  /-- `u` does not open a temp file that `v` has verified -/
  opens : u.phase = .receiving → v.phase = .publishing →
    ∀ m ∈ nextMetadata u, v.tmpPath ≠ some (tmpPathOf m)
  /-- `v` does not have the file open that `u` hashes -/
  hashes : u.phase = .verifying → ∀ tmp ∈ u.tmpPath, ∀ h ∈ v.fileHandle,
    s.store.names tmp ≠ some h.inode
  /-- `u` does not rename onto the temp path of an unfinished `v` -/
  renames : u.phase = .publishing → v.finished = false →
    ∀ m ∈ u.metadata, v.tmpPath ≠ some m.filename

instance (s : Server ι) (u v : Upload) : Decidable (UndisturbedBy s u v) :=
  decidable_of_iff (_ ∧ _ ∧ _)
    ⟨fun h => ⟨h.1, h.2.1, h.2.2⟩, fun h => ⟨h.opens, h.hashes, h.renames⟩⟩

/-- The next step of `i` opens no published file, and no other handler disturbs it. -/
structure Undisturbed (s : Server ι) (i : ι) : Prop where
  unpublished : (s.uploads i).phase = .receiving → ∀ m ∈ nextMetadata (s.uploads i),
    s.published (tmpPathOf m) = none
  others : ∀ j ≠ i, UndisturbedBy s (s.uploads i) (s.uploads j)

instance [Fintype ι] (s : Server ι) (i : ι) : Decidable (Undisturbed s i) :=
  decidable_of_iff (_ ∧ _) ⟨fun h => ⟨h.1, h.2⟩, fun h => ⟨h.unpublished, h.others⟩⟩

/-! ## The invariant -/

/-- The file has the checksum, and no handle points at it. -/
structure Sealed (s : Server ι) (n : ℕ) (checksum : String) : Prop where
  checksum : computeSha256File (s.store.data n) = checksum
  untouched : ∀ j h, (s.uploads j).fileHandle = some h → h.inode ≠ n

/-- A handler among the others. -/
structure Sound (s : Server ι) (u : Upload) : Prop where
  tidy : Tidy u
  allocated : ∀ h, u.fileHandle = some h → h.inode < s.store.next
  /-- what it may still remove is not published -/
  unpublished : ∀ tmp, u.finished = false → u.tmpPath = some tmp → s.published tmp = none
  /-- what it is about to publish has been verified -/
  publishing : ∀ m tmp n, u.phase = .publishing → u.metadata = some m → u.tmpPath = some tmp →
    s.store.names tmp = some n → Sealed s n m.checksum

structure Safe (s : Server ι) : Prop where
  sound : ∀ i, Sound s (s.uploads i)
  published : ∀ path checksum, s.published path = some checksum →
    ∃ n, s.store.names path = some n ∧ Sealed s n checksum

omit [DecidableEq ι] in
theorem safe_serve (resolve : String → String) (store : Store)
    (streams : ι → List Chunk × Bool) : Safe (serve resolve store streams) where
  sound i :=
    { tidy := tidy_start _ _
      allocated := fun h hopen => by cases hopen
      unpublished := fun tmp _ _ => rfl
      publishing := fun m tmp n hphase => by cases hphase }
  published path checksum h := by cases h

omit [DecidableEq ι] in
theorem Safe.verified {s : Server ι} (h : Safe s) : Verified s := by
  intro path checksum hpub
  obtain ⟨n, hn, hsealed⟩ := h.published path checksum hpub
  exact ⟨s.store.data n, by rw [FileSystem.read, hn]; rfl, hsealed.checksum⟩

/-! ## One step -/

/-- The server after a step of `i` that leaves the store `fs'` and the locals `u'`. -/
def after (s : Server ι) (i : ι) (fs' : Store) (u' : Upload) : Server ι where
  store := fs'
  uploads := Function.update s.uploads i u'
  published := notePublished (s.uploads i) u' s.published

theorem notePublished_of_ne {u u' : Upload} (published : String → Option String)
    (h : u.phase = .publishing → u'.phase = .raised) :
    notePublished u u' published = published := by
  unfold notePublished
  split
  · rename_i hphase hphase' _
    rw [h hphase] at hphase'
    cases hphase'
  · rfl

section after

variable {s : Server ι} {i : ι} {fs' : Store} {u' : Upload}

theorem sound_after (hother : ∀ j ≠ i, Sound (after s i fs' u') (s.uploads j))
    (hself : Sound (after s i fs' u') u') (j : ι) :
    Sound (after s i fs' u') ((after s i fs' u').uploads j) := by
  by_cases hj : j = i
  · subst hj
    rw [show (after s j fs' u').uploads j = u' from Function.update_self ..]
    exact hself
  · rw [show (after s i fs' u').uploads j = s.uploads j from Function.update_of_ne hj ..]
    exact hother j hj

/-- A file stays sealed while its content stays and no handle is opened on it. -/
theorem Sealed.after {n : ℕ} {checksum : String} (h : Sealed s n checksum)
    (hdata : fs'.data n = s.store.data n) (hhandle : ∀ f, u'.fileHandle = some f → f.inode ≠ n) :
    Sealed (after s i fs' u') n checksum where
  checksum := by
    rw [← h.checksum, ← hdata]
    rfl
  untouched := by
    intro j f hf
    by_cases hj : j = i
    · subst hj
      rw [show (Grpc.after s j fs' u').uploads j = u' from Function.update_self ..] at hf
      exact hhandle f hf
    · rw [show (Grpc.after s i fs' u').uploads j = s.uploads j from
        Function.update_of_ne hj ..] at hf
      exact h.untouched j f hf

theorem Safe.opens (h : Safe s) (hG : Undisturbed s i) (htidy : Tidy u') {m : Metadata}
    {rest : List Chunk} (hphase : (s.uploads i).phase = .receiving)
    (hstream : (s.uploads i).stream = .metadata m :: rest) (hphase' : u'.phase = .receiving)
    (hhandle : u'.fileHandle = some (s.store.openTruncate (tmpPathOf m)).2)
    (htmp : u'.tmpPath = some (tmpPathOf m)) :
    Safe (after s i (s.store.openTruncate (tmpPathOf m)).1 u') := by
  have hnext : m ∈ nextMetadata (s.uploads i) := by
    rw [nextMetadata, hstream]
    rfl
  have hunpub := hG.unpublished hphase m hnext
  have hpub : (after s i (s.store.openTruncate (tmpPathOf m)).1 u').published = s.published :=
    notePublished_of_ne _ (by simp [hphase])
  have hnames {q : String} (hq : q ≠ tmpPathOf m) :
      (s.store.openTruncate (tmpPathOf m)).1.names q = s.store.names q :=
    Function.update_of_ne hq _ _
  -- the file of any other path stays sealed
  have hsealed {q : String} {n : ℕ} {checksum : String} (hq : q ≠ tmpPathOf m)
      (hn : s.store.names q = some n) (h : Sealed s n checksum) :
      Sealed (after s i (s.store.openTruncate (tmpPathOf m)).1 u') n checksum := by
    have hne : n ≠ s.store.inodeFor (tmpPathOf m) := by
      rintro rfl
      exact hq (FileSystem.eq_of_names_inodeFor hn)
    refine h.after (Function.update_of_ne hne _ _) fun f hf => ?_
    rw [hhandle, Option.some.injEq] at hf
    subst hf
    exact Ne.symm hne
  refine ⟨sound_after (fun j hj => ⟨(h.sound j).tidy, ?_, ?_, ?_⟩) ⟨htidy, ?_, ?_, ?_⟩, ?_⟩
  · exact fun f hf => lt_max_of_lt_left ((h.sound j).allocated f hf)
  · rw [hpub]
    exact (h.sound j).unpublished
  · intro m' tmp n hp hm ht hn
    have hne : tmp ≠ tmpPathOf m := fun heq =>
      (hG.others j hj).opens hphase hp m hnext (heq ▸ ht)
    rw [after, hnames hne] at hn
    exact hsealed hne hn ((h.sound j).publishing m' tmp n hp hm ht hn)
  · intro f hf
    rw [hhandle, Option.some.injEq] at hf
    subst hf
    exact lt_max_of_lt_right (Nat.lt_succ_self _)
  · intro tmp _ ht
    rw [htmp, Option.some.injEq] at ht
    rw [hpub, ← ht]
    exact hunpub
  · intro m' tmp n hp
    rw [hphase'] at hp
    cases hp
  · intro path checksum hpath
    rw [hpub] at hpath
    obtain ⟨n, hn, hs⟩ := h.published path checksum hpath
    have hne : path ≠ tmpPathOf m := by
      rintro rfl
      rw [hunpub] at hpath
      cases hpath
    exact ⟨n, (hnames hne).trans hn, hsealed hne hn hs⟩

/-- A step that keeps the names, and the content of every sealed file. -/
theorem Safe.keeps (h : Safe s) (htidy : Tidy u')
    (hraised : (s.uploads i).phase = .publishing → u'.phase = .raised)
    (hfin : (s.uploads i).finished = false) (hnames : fs'.names = s.store.names)
    (hnext : s.store.next ≤ fs'.next)
    (hsealed : ∀ n checksum, Sealed s n checksum → Sealed (after s i fs' u') n checksum)
    (hhandle : ∀ f, u'.fileHandle = some f → f.inode < fs'.next)
    (htmp : u'.tmpPath = (s.uploads i).tmpPath ∨ u'.tmpPath = none)
    (hpublishing : ∀ m tmp n, u'.phase = .publishing → u'.metadata = some m →
      u'.tmpPath = some tmp → s.store.names tmp = some n → Sealed (after s i fs' u') n m.checksum) :
    Safe (after s i fs' u') := by
  have hpub : (after s i fs' u').published = s.published :=
    notePublished_of_ne _ hraised
  refine ⟨sound_after (fun j hj => ⟨(h.sound j).tidy, ?_, ?_, ?_⟩) ⟨htidy, hhandle, ?_, ?_⟩, ?_⟩
  · exact fun f hf => ((h.sound j).allocated f hf).trans_le hnext
  · rw [hpub]
    exact (h.sound j).unpublished
  · intro m tmp n hp hm ht hn
    rw [after, hnames] at hn
    exact hsealed _ _ ((h.sound j).publishing m tmp n hp hm ht hn)
  · intro tmp _ ht
    rw [hpub]
    rcases htmp with hsame | hnone
    · exact (h.sound i).unpublished tmp hfin (hsame ▸ ht)
    · rw [hnone] at ht
      cases ht
  · intro m tmp n hp hm ht hn
    rw [after, hnames] at hn
    exact hpublishing m tmp n hp hm ht hn
  · intro path checksum hpath
    rw [hpub] at hpath
    obtain ⟨n, hn, hs⟩ := h.published path checksum hpath
    exact ⟨n, by rw [after, hnames, hn], hsealed _ _ hs⟩

theorem Safe.publishes (h : Safe s) (hG : Undisturbed s i) {m : Metadata} {tmp : String}
    (hphase : (s.uploads i).phase = .publishing) (hmetadata : (s.uploads i).metadata = some m)
    (htmp : (s.uploads i).tmpPath = some tmp) (hreplace : s.store.replace tmp m.filename = some fs')
    (hu' : u' = { s.uploads i with phase := .recording true, tmpPath := none }) :
    Safe (after s i fs' u') := by
  have htmps := fun j hj hfin => (hG.others j hj).renames hphase hfin m hmetadata
  obtain ⟨hnames, hdata, hexists⟩ := FileSystem.names_replace hreplace
  obtain ⟨n₀, hn₀⟩ := Option.ne_none_iff_exists'.1 hexists
  have hfin : (s.uploads i).finished = false := by
    rw [Upload.finished, hphase]
  have hunpub := (h.sound i).unpublished tmp hfin htmp
  have hclosed : (s.uploads i).fileHandle = none := (h.sound i).tidy.closed (by rw [hphase]; rfl)
  have hpub : (after s i fs' u').published =
      Function.update s.published m.filename (some m.checksum) := by
    rw [after, notePublished, hphase, hu', hmetadata]
  have hsealed {n : ℕ} {checksum : String} (h : Sealed s n checksum) :
      Sealed (after s i fs' u') n checksum := by
    refine h.after (by rw [hdata]) fun f hf => ?_
    rw [hu', hclosed] at hf
    cases hf
  have hother {q : String} {n : ℕ} (hq : q ≠ m.filename) (hn : fs'.names q = some n) :
      s.store.names q = some n := by
    rw [hnames, Function.update_of_ne hq, Function.update_apply] at hn
    split_ifs at hn
    exact hn
  refine ⟨sound_after (fun j hj => ⟨(h.sound j).tidy, ?_, ?_, ?_⟩) ⟨?_, ?_, ?_, ?_⟩, ?_⟩
  · intro f hf
    exact ((h.sound j).allocated f hf).trans_le (FileSystem.next_replace hreplace).ge
  · intro tmp' hfin' ht
    have hne : tmp' ≠ m.filename := fun heq => htmps j hj hfin' (heq ▸ ht)
    rw [hpub]
    exact (Function.update_of_ne hne _ _).trans ((h.sound j).unpublished tmp' hfin' ht)
  · intro m' tmp' n hp hm ht hn
    have hfin' : (s.uploads j).finished = false := by rw [Upload.finished, hp]
    have hne : tmp' ≠ m.filename := fun heq => htmps j hj hfin' (heq ▸ ht)
    exact hsealed ((h.sound j).publishing m' tmp' n hp hm ht (hother hne hn))
  · rw [hu']
    exact ⟨fun _ => hclosed, fun tmp' ht => by cases ht⟩
  · rw [hu']
    intro f hf
    rw [hclosed] at hf
    cases hf
  · rw [hu']
    intro tmp' _ ht
    cases ht
  · rw [hu']
    intro m' tmp' n hp
    cases hp
  · intro path checksum hpath
    rw [hpub] at hpath
    by_cases hq : path = m.filename
    · subst hq
      rw [Function.update_self, Option.some.injEq] at hpath
      refine ⟨n₀, by rw [after, hnames, Function.update_self, hn₀], ?_⟩
      rw [← hpath]
      exact hsealed ((h.sound i).publishing m tmp n₀ hphase hmetadata htmp hn₀)
    · rw [Function.update_of_ne hq] at hpath
      obtain ⟨n, hn, hs⟩ := h.published path checksum hpath
      have hne : path ≠ tmp := by
        rintro rfl
        rw [hunpub] at hpath
        cases hpath
      refine ⟨n, ?_, hsealed hs⟩
      rw [after, hnames, Function.update_of_ne hq, Function.update_of_ne hne, hn]

theorem Safe.removes (h : Safe s) (htidy : Tidy u') {tmp : String}
    (hfin : (s.uploads i).finished = false) (hphase : (s.uploads i).phase ≠ .publishing)
    (htmp : (s.uploads i).tmpPath = some tmp) (hremove : s.store.remove tmp = some fs')
    (hpublishing : u'.phase ≠ .publishing) (hhandle : u'.fileHandle = (s.uploads i).fileHandle)
    (htmp' : u'.tmpPath = none) :
    Safe (after s i fs' u') := by
  obtain ⟨hnames, hdata⟩ := FileSystem.names_remove hremove
  have hunpub := (h.sound i).unpublished tmp hfin htmp
  have hpub : (after s i fs' u').published = s.published :=
    notePublished_of_ne _ (absurd · hphase)
  have hsealed {n : ℕ} {checksum : String} (h : Sealed s n checksum) :
      Sealed (after s i fs' u') n checksum :=
    h.after (by rw [hdata]) fun f hf => h.untouched i f (hhandle ▸ hf)
  refine ⟨sound_after (fun j hj => ⟨(h.sound j).tidy, ?_, ?_, ?_⟩) ⟨htidy, ?_, ?_, ?_⟩, ?_⟩
  · intro f hf
    exact ((h.sound j).allocated f hf).trans_le (FileSystem.next_remove hremove).ge
  · rw [hpub]
    exact (h.sound j).unpublished
  · intro m' tmp' n hp hm ht hn
    rw [after, hnames, Function.update_apply] at hn
    split_ifs at hn
    exact hsealed ((h.sound j).publishing m' tmp' n hp hm ht hn)
  · intro f hf
    exact ((h.sound i).allocated f (hhandle ▸ hf)).trans_le (FileSystem.next_remove hremove).ge
  · intro tmp' _ ht
    rw [htmp'] at ht
    cases ht
  · exact fun m' tmp' n hp => absurd hp hpublishing
  · intro path checksum hpath
    rw [hpub] at hpath
    obtain ⟨n, hn, hs⟩ := h.published path checksum hpath
    have hne : path ≠ tmp := by
      rintro rfl
      rw [hunpub] at hpath
      cases hpath
    exact ⟨n, by rw [after, hnames, Function.update_of_ne hne, hn], hsealed hs⟩

theorem Safe.writes (h : Safe s) (htidy : Tidy u') {f : FileHandle} {bytes : Bytes}
    (hfin : (s.uploads i).finished = false) (hphase : (s.uploads i).phase = .receiving)
    (hhandle : (s.uploads i).fileHandle = some f) (hphase' : u'.phase = .receiving)
    (hhandle' : u'.fileHandle = some (s.store.writeAt f bytes).2)
    (htmp : u'.tmpPath = (s.uploads i).tmpPath) :
    Safe (after s i (s.store.writeAt f bytes).1 u') := by
  refine h.keeps htidy (by simp [hphase]) hfin rfl le_rfl ?_ ?_ (Or.inl htmp) ?_
  · intro n checksum hs
    have hne := hs.untouched i f hhandle
    refine hs.after (Function.update_of_ne (Ne.symm hne) _ _) fun g hg => ?_
    rw [hhandle', Option.some.injEq] at hg
    exact hg ▸ hne
  · intro g hg
    rw [hhandle', Option.some.injEq] at hg
    exact hg ▸ (h.sound i).allocated f hhandle
  · intro m tmp n hp
    rw [hphase'] at hp
    cases hp

/-- What a handler has hashed is sealed, as no other handler has the file open. -/
theorem Safe.verifies (h : Safe s) (hG : Undisturbed s i)
    (htidy : Tidy { s.uploads i with phase := .publishing }) {m : Metadata} {tmp : String}
    {content : Bytes} (hfin : (s.uploads i).finished = false)
    (hphase : (s.uploads i).phase = .verifying) (hmetadata : (s.uploads i).metadata = some m)
    (htmp : (s.uploads i).tmpPath = some tmp) (hread : s.store.read tmp = some content)
    (hsum : computeSha256File content = m.checksum) :
    Safe (after s i s.store { s.uploads i with phase := .publishing }) := by
  have hclosed : (s.uploads i).fileHandle = none := (h.sound i).tidy.closed (by rw [hphase]; rfl)
  have hkeep {n : ℕ} {checksum : String} (hs : Sealed s n checksum) :
      Sealed (after s i s.store { s.uploads i with phase := .publishing }) n checksum := by
    refine hs.after rfl fun g hg => ?_
    rw [hclosed] at hg
    cases hg
  refine h.keeps htidy (by simp [hphase]) hfin rfl le_rfl (fun _ _ => hkeep) ?_ (Or.inl rfl) ?_
  · intro g hg
    rw [hclosed] at hg
    cases hg
  · intro m' tmp' n _ hm ht hn
    obtain rfl : m = m' := Option.some.inj (hmetadata.symm.trans hm)
    obtain rfl : tmp = tmp' := Option.some.inj (htmp.symm.trans ht)
    have hcontent : s.store.data n = content := by
      rw [FileSystem.read, hn] at hread
      exact Option.some.inj hread
    refine hkeep ⟨by rw [hcontent, hsum], fun j g hg heq => ?_⟩
    by_cases hj : j = i
    · rw [hj, hclosed] at hg
      cases hg
    · exact (hG.others j hj).hashes hphase tmp htmp g hg (by rw [hn, heq])

theorem Safe.quiet (h : Safe s) (htidy : Tidy u') (hfin : (s.uploads i).finished = false)
    (hraised : (s.uploads i).phase = .publishing → u'.phase = .raised)
    (hpublishing : u'.phase ≠ .publishing)
    (hhandle : u'.fileHandle = (s.uploads i).fileHandle ∨ u'.fileHandle = none)
    (htmp : u'.tmpPath = (s.uploads i).tmpPath ∨ u'.tmpPath = none) :
    Safe (after s i s.store u') := by
  have hsame : ∀ f, u'.fileHandle = some f → (s.uploads i).fileHandle = some f := by
    intro f hf
    rcases hhandle with hsame | hnone
    · exact hsame ▸ hf
    · rw [hnone] at hf
      cases hf
  refine h.keeps htidy hraised hfin rfl le_rfl ?_ ?_ htmp ?_
  · exact fun n checksum hs => hs.after rfl fun f hf => hs.untouched i f (hsame f hf)
  · exact fun f hf => (h.sound i).allocated f (hsame f hf)
  · exact fun m tmp n hp => absurd hp hpublishing

/-- **A step that the other handlers do not disturb** keeps the invariant. -/
theorem Safe.step {w : ι → World} (h : Safe s) (hG : Undisturbed s i) {t : Server ι}
    (hstep : Grpc.step w s i = some t) : Safe t := by
  unfold Grpc.step at hstep
  split_ifs at hstep with hfin
  have hfin : (s.uploads i).finished = false := by simpa using hfin
  have htidy := (h.sound i).tidy.advance (w i) s.store
  have heffect := effect_advance (w i) s.store (s.uploads i)
  rw [Option.some.injEq] at hstep
  subst hstep
  generalize (advance (w i) s.store (s.uploads i)).1 = fs' at heffect htidy ⊢
  generalize (advance (w i) s.store (s.uploads i)).2 = u' at heffect htidy ⊢
  change Safe (after s i fs' u')
  cases heffect with
  | opens m rest u' hphase hstream hphase' hhandle hmetadata htmp =>
    exact h.opens hG htidy hphase hstream hphase' hhandle htmp
  | writes f bytes u' hphase hhandle hphase' hhandle' hmetadata htmp =>
    exact h.writes htidy hfin hphase hhandle hphase' hhandle' htmp
  | verifies m tmp content hphase hmetadata htmp hread hsum =>
    exact h.verifies hG htidy hfin hphase hmetadata htmp hread hsum
  | publishes m tmp fs' hphase hmetadata htmp hreplace =>
    exact h.publishes hG hphase hmetadata htmp hreplace rfl
  | removes tmp fs' u' hphase htmp hremove hpublishing hhandle hmetadata htmp' =>
    exact h.removes htidy hfin hphase htmp hremove hpublishing hhandle htmp'
  | quiet u' hraised hpublishing hhandle hmetadata htmp =>
    exact h.quiet htidy hfin hraised hpublishing hhandle htmp

end after

/-! ## The property -/

/-- **No unverified file is published** in a run in which the other handlers never
    disturb a step. -/
theorem verified_of_undisturbed (w : ι → World) (resolve : String → String) (store : Store)
    (streams : ι → List Chunk × Bool) (schedule : List ι) (s : Server ι)
    (hundisturbed : Along (step w) Undisturbed (serve resolve store streams) schedule)
    (hrun : run (step w) (serve resolve store streams) schedule = some s) : Verified s :=
  (run_invariant_along (fun _ _ _ hs hG ht => hs.step hG ht) schedule
    (safe_serve resolve store streams) hundisturbed hrun).verified

/-! ## Two uploads to one file -/

/-- A filename without a `./` before it. -/
def withoutDot (filename : String) : String :=
  if "./".toList <+: filename.toList then String.ofList (filename.toList.drop 2) else filename

/-- Two handlers that receive different contents. -/
def twoUploads (first second : String) : Bool → List Chunk × Bool
  | false => ([.metadata ⟨first, 1, computeSha256File [1]⟩, .data [1]], false)
  | true => ([.metadata ⟨second, 1, computeSha256File [2]⟩, .data [2]], false)

def oneAfterAnother : List Bool := List.replicate 7 false ++ List.replicate 7 true

/-- Two names of one file, one after the other: they do not disturb each other. -/
theorem verified_of_undisturbed_twoNames : ∃ s,
    Along (step fun _ => tickingWorld) Undisturbed
      (serve withoutDot .empty (twoUploads "a.bin" "./a.bin")) oneAfterAnother ∧
    run (step fun _ => tickingWorld) (serve withoutDot .empty (twoUploads "a.bin" "./a.bin"))
      oneAfterAnother = some s ∧
    Verified s := by
  have hundisturbed : Along (step fun _ => tickingWorld) Undisturbed
      (serve withoutDot .empty (twoUploads "a.bin" "./a.bin")) oneAfterAnother := by
    decide +kernel
  have hsome : (run (step fun _ => tickingWorld)
      (serve withoutDot .empty (twoUploads "a.bin" "./a.bin")) oneAfterAnother).isSome = true := by
    decide +kernel
  obtain ⟨s, hrun⟩ := Option.isSome_iff_exists.1 hsome
  exact ⟨s, hundisturbed, hrun, verified_of_undisturbed _ withoutDot .empty
    (twoUploads "a.bin" "./a.bin") oneAfterAnother s hundisturbed hrun⟩

/-- The first handler has verified its temp file when the second one truncates it,
    and has published it when the second one writes to it. -/
def truncatedAfterVerify : List Bool :=
  List.replicate 5 false ++ [true] ++ List.replicate 2 false ++ List.replicate 4 true

/-- The published file has the content of the other handler. -/
theorem not_verified_truncatedAfterVerify : ∃ s,
    run (step fun _ => tickingWorld) (serve withoutDot .empty (twoUploads "a.bin" "a.bin"))
      truncatedAfterVerify = some s ∧
    (∀ i, (s.uploads i).finished = true) ∧ ¬ Verified s := by
  have hfacts : (run (step fun _ => tickingWorld)
      (serve withoutDot .empty (twoUploads "a.bin" "a.bin")) truncatedAfterVerify).map
        (fun s => ((s.uploads false).finished, (s.uploads true).finished,
          s.published "a.bin", s.store.read "a.bin")) =
      some (true, true, some (computeSha256File [1]), some [2]) := by decide +kernel
  have hne : computeSha256File [2] ≠ computeSha256File [1] := by decide +kernel
  obtain ⟨s, hrun, hs⟩ := Option.map_eq_some_iff.1 hfacts
  simp only [Prod.mk.injEq] at hs
  obtain ⟨hfalse, htrue, hpub, hread⟩ := hs
  refine ⟨s, hrun, fun i => ?_, fun hverified => ?_⟩
  · cases i with
    | false => exact hfalse
    | true => exact htrue
  · obtain ⟨content, hcontent, hsum⟩ := hverified _ _ hpub
    rw [hread, Option.some.injEq] at hcontent
    exact hne (hcontent ▸ hsum)

end TransferTestbed.Grpc
