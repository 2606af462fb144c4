import Mathlib.Data.Fintype.Basic
import TransferTestbed.Common.Integrity
import TransferTestbed.Library.FileSystem
import TransferTestbed.Library.Transition

/-!
# Uploads to the Flask server

`upload` of `protocols/HTTP/server/flask_server.py` and `save_file` of `common/file_manager.py`.
The server handles each request in a thread of its own, so the steps of any number of uploads
come in any order. A file is opened for writing, written piece by piece and closed; file
operations do not fail. The files of the output directory are named by single path components.

What the server is for: a store that takes one file after the other, each as a whole.

Results:

* `Inv.step`: what the threads and the files hold, over one step.
* `stored_of_agreeing`: in runs in which uploads to one name overlap only with the same body, the
  files are those of the store.
-/

namespace TransferTestbed.Http

open Integrity Transition

/-! ## Uploads -/

/-- A PUT request: the name in its path, its body and its `X-Checksum` header. -/
structure Put where
  filename : String
  data : Bytes
  checksum : Option String
deriving DecidableEq, Repr

/-- The request passes the check (lines 16–18); an empty checksum is no checksum. -/
def Put.accepted (p : Put) : Bool :=
  match p.checksum with
  | none => true
  | some expected => expected = "" || expected = sha256 p.data

/-- Where the thread of a request is. -/
inductive Stage where
  | received
  /-- the check has passed -/
  | saving
  /-- in `f.write`, with what is left to be written -/
  | writing (handle : FileHandle) (rest : Bytes)
  | answered (status : ℕ)
deriving DecidableEq, Repr

structure Upload where
  put : Put
  stage : Stage
deriving DecidableEq, Repr

/-- The file is open. -/
def Upload.opens (u : Upload) (filename : String) : Bool :=
  match u.stage with
  | .writing _ _ => u.put.filename = filename
  | _ => false

abbrev Files := FileSystem String UInt8

variable {ι : Type*}

/-- The files and the uploads, and the files that have been saved, in order. -/
structure Server (ι : Type*) where
  files : Files
  uploads : ι → Upload
  saved : List (String × Bytes)

def serve (files : Files) (puts : ι → Put) : Server ι := ⟨files, fun i => ⟨puts i, .received⟩, []⟩

variable [DecidableEq ι]

def Server.set (s : Server ι) (i : ι) (stage : Stage) : Server ι :=
  { s with uploads := Function.update s.uploads i { s.uploads i with stage := stage } }

@[simp] theorem uploads_set_self (s : Server ι) (i : ι) (stage : Stage) :
    (s.set i stage).uploads i = ⟨(s.uploads i).put, stage⟩ := Function.update_self _ _ _

theorem uploads_set_of_ne (s : Server ι) {i j : ι} (hne : j ≠ i) (stage : Stage) :
    (s.set i stage).uploads j = s.uploads j := Function.update_of_ne hne _ _

/-- The next step of an upload; a write takes as many bytes as it likes, but at least one. -/
def step (s : Server ι) (a : ι × ℕ) : Option (Server ι) :=
  let u := s.uploads a.1
  match u.stage with
  | .received => some (s.set a.1 (if u.put.accepted then .saving else .answered 400))
  | .saving =>
    let opened := s.files.openTruncate u.put.filename
    some { s.set a.1 (.writing opened.2 u.put.data) with files := opened.1 }
  | .writing _ [] =>
    some { s.set a.1 (.answered 200) with saved := s.saved ++ [(u.put.filename, u.put.data)] }
  | .writing handle rest =>
    let written := s.files.writeAt handle (rest.take (a.2 + 1))
    some { s.set a.1 (.writing written.2 (rest.drop (a.2 + 1))) with files := written.1 }
  | .answered _ => none

/-- What a step leaves as it is. -/
structure Frame (s t : Server ι) (i : ι) : Prop where
  others : ∀ j ≠ i, t.uploads j = s.uploads j
  put : ∀ j, (t.uploads j).put = (s.uploads j).put
  saved : s.saved ⊆ t.saved

theorem frame_set {s t : Server ι} {i : ι} {stage : Stage}
    (huploads : t.uploads = (s.set i stage).uploads) (hsaved : s.saved ⊆ t.saved) :
    Frame s t i := by
  refine ⟨fun j hne => ?_, fun j => ?_, hsaved⟩
  · rw [huploads, uploads_set_of_ne s hne]
  · rw [huploads]
    by_cases hne : j = i
    · rw [hne, uploads_set_self]
    · rw [uploads_set_of_ne s hne]

theorem step_frame {s t : Server ι} {a : ι × ℕ} (h : step s a = some t) : Frame s t a.1 := by
  unfold step at h
  dsimp only at h
  split at h
  · cases h
    exact frame_set rfl (List.Subset.refl _)
  · cases h
    exact frame_set rfl (List.Subset.refl _)
  · cases h
    exact frame_set rfl (List.subset_append_left _ _)
  · cases h
    exact frame_set rfl (List.Subset.refl _)
  · cases h

/-! ## The store -/

/-- A store of whole files. -/
def saveAll (store : String → Option Bytes) (saved : List (String × Bytes)) :
    String → Option Bytes :=
  saved.foldl (fun store p => Function.update store p.1 (some p.2)) store

theorem saveAll_append (store : String → Option Bytes) (saved : List (String × Bytes))
    (p : String × Bytes) : saveAll store (saved ++ [p]) =
      Function.update (saveAll store saved) p.1 (some p.2) := by
  simp [saveAll]

/-- A name holds what was saved to it last. -/
theorem saveAll_cases (store : String → Option Bytes) (saved : List (String × Bytes))
    (filename : String) :
    (saveAll store saved filename = store filename ∧ ∀ p ∈ saved, p.1 ≠ filename) ∨
      ∃ data, (filename, data) ∈ saved ∧ saveAll store saved filename = some data := by
  induction saved using List.reverseRecOn with
  | nil => exact .inl ⟨rfl, by simp⟩
  | append_singleton saved p ih =>
    rw [saveAll_append, Function.update_apply]
    by_cases hname : filename = p.1
    · rw [if_pos hname, hname]
      exact .inr ⟨p.2, List.mem_append_right _ List.mem_cons_self, rfl⟩
    · rw [if_neg hname]
      refine ih.imp (fun h => ⟨h.1, fun q hq => ?_⟩) ?_
      · rcases List.mem_append.1 hq with hq | hq
        · exact h.2 q hq
        · rw [List.mem_singleton.1 hq]
          exact Ne.symm hname
      · rintro ⟨data, hmem, hsaved⟩
        exact ⟨data, List.mem_append_left _ hmem, hsaved⟩

/-! ## What the threads and the files hold -/

/-- A file is not opened for one body while it is open for another. -/
def Agreeing (s : Server ι) (a : ι × ℕ) : Prop :=
  (s.uploads a.1).stage = .saving →
    ∀ j, (s.uploads j).opens (s.uploads a.1).put.filename = true →
      (s.uploads j).put.data = (s.uploads a.1).put.data

instance [Fintype ι] (s : Server ι) (a : ι × ℕ) : Decidable (Agreeing s a) :=
  inferInstanceAs (Decidable (_ → _))

/-- What a thread has done. -/
def UploadOk (s : Server ι) (u : Upload) : Prop :=
  match u.stage with
  | .received => True
  | .saving => u.put.accepted = true
  | .writing handle rest => u.put.accepted = true ∧
      s.files.names u.put.filename = some handle.inode ∧
      handle.offset ≤ u.put.data.length ∧ rest = u.put.data.drop handle.offset
  | .answered status =>
    (status = 200 ∧ u.put.accepted = true ∧ (u.put.filename, u.put.data) ∈ s.saved) ∨
      (status = 400 ∧ u.put.accepted = false)

/-- The file is filled up to the place of one of its writers, or as a whole. -/
def FilledBy (s : Server ι) (filename : String) (body : Bytes) : Prop :=
  ∃ content n, s.files.read filename = some content ∧ FileSystem.Filled content body n ∧
    (n = body.length ∨ ∃ j handle rest, (s.uploads j).stage = .writing handle rest ∧
      (s.uploads j).put.filename = filename ∧ handle.offset = n)

structure Inv (files : Files) (s : Server ι) : Prop where
  uploads : ∀ i, UploadOk s (s.uploads i)
  agree : ∀ i j filename, (s.uploads i).opens filename = true →
    (s.uploads j).opens filename = true → (s.uploads i).put.data = (s.uploads j).put.data
  filled : ∀ i filename, (s.uploads i).opens filename = true →
    FilledBy s filename (s.uploads i).put.data
  stored : ∀ filename, (∀ i, (s.uploads i).opens filename = false) →
    s.files.read filename = saveAll files.read s.saved filename
  saved : ∀ p ∈ s.saved, ∃ i, (s.uploads i).put.filename = p.1 ∧ (s.uploads i).put.data = p.2 ∧
    (s.uploads i).stage = .answered 200

theorem opens_eq_true {u : Upload} {filename : String} :
    u.opens filename = true ↔
      ∃ handle rest, u.stage = .writing handle rest ∧ u.put.filename = filename := by
  unfold Upload.opens
  cases u.stage <;> simp

/-! ## One step -/

section Steps

variable {files : Files} {s s' t : Server ι} {i : ι}

omit [DecidableEq ι] in
theorem UploadOk.mono {u : Upload} (h : UploadOk s u)
    (hnames : ∀ filename inode, s.files.names filename = some inode →
      t.files.names filename = some inode)
    (hsub : s.saved ⊆ t.saved) : UploadOk t u := by
  unfold UploadOk at h ⊢
  cases hstage : u.stage with
  | received => trivial
  | saving =>
    rw [hstage] at h
    exact h
  | writing handle rest =>
    rw [hstage] at h
    exact ⟨h.1, hnames _ _ h.2.1, h.2.2⟩
  | answered status =>
    rw [hstage] at h
    rcases h with ⟨hstatus, haccepted, hmem⟩ | hrefused
    · exact .inl ⟨hstatus, haccepted, hsub hmem⟩
    · exact .inr hrefused

omit [DecidableEq ι] in
theorem FilledBy.mono {filename : String} {body : Bytes} (h : FilledBy s filename body)
    (hread : t.files.read filename = s.files.read filename)
    (hwriters : ∀ j handle rest, (s.uploads j).stage = .writing handle rest →
      (s.uploads j).put.filename = filename → t.uploads j = s.uploads j) :
    FilledBy t filename body := by
  obtain ⟨content, n, hcontent, hfilled, hplace⟩ := h
  refine ⟨content, n, hread.trans hcontent, hfilled, hplace.imp_right ?_⟩
  rintro ⟨j, handle, rest, hstage, hname, hoffset⟩
  have hj := hwriters j handle rest hstage hname
  exact ⟨j, handle, rest, by rw [hj, hstage], by rw [hj, hname], hoffset⟩

/-- The upload `i` goes on to a stage, and only its own file changes. -/
theorem Inv.goOn (h : Inv files s) (hbusy : ∀ status, (s.uploads i).stage ≠ .answered status)
    {stage : Stage}
    (huploads : t.uploads = Function.update s.uploads i ⟨(s.uploads i).put, stage⟩)
    (hself : UploadOk t ⟨(s.uploads i).put, stage⟩)
    (hnames : ∀ filename inode, s.files.names filename = some inode →
      t.files.names filename = some inode)
    (hread : ∀ filename ≠ (s.uploads i).put.filename,
      t.files.read filename = s.files.read filename)
    (hsaved : t.saved = s.saved ∨ stage = .answered 200 ∧
      t.saved = s.saved ++ [((s.uploads i).put.filename, (s.uploads i).put.data)])
    (hagree : ∀ handle rest, stage = .writing handle rest →
      ∀ j, (s.uploads j).opens (s.uploads i).put.filename = true →
        (s.uploads j).put.data = (s.uploads i).put.data)
    (hfilled : ∀ j, (t.uploads j).opens (s.uploads i).put.filename = true →
      FilledBy t (s.uploads i).put.filename (t.uploads j).put.data)
    (hstored : (∀ j, (t.uploads j).opens (s.uploads i).put.filename = false) →
      t.files.read (s.uploads i).put.filename =
        saveAll files.read t.saved (s.uploads i).put.filename) :
    Inv files t := by
  have hi : t.uploads i = ⟨(s.uploads i).put, stage⟩ := by rw [huploads, Function.update_self]
  have hj (j : ι) (hne : j ≠ i) : t.uploads j = s.uploads j := by
    rw [huploads, Function.update_of_ne hne]
  have hsub : s.saved ⊆ t.saved := by
    rcases hsaved with hsame | ⟨-, hmore⟩
    · rw [hsame]
      exact List.Subset.refl _
    · rw [hmore]
      exact List.subset_append_left _ _
  -- an upload beside `i` that has a file of `i` open
  have hbeside (j : ι) (hne : j ≠ i) (filename : String) (hopens : (t.uploads i).opens filename)
      (hother : (t.uploads j).opens filename = true) :
      (t.uploads j).put.data = (t.uploads i).put.data := by
    obtain ⟨handle, rest, hstage, hname⟩ := opens_eq_true.1 hopens
    rw [hi] at hstage hname ⊢
    rw [hj j hne] at hother ⊢
    exact hagree handle rest hstage j (hname ▸ hother)
  constructor
  · intro j
    by_cases hne : j = i
    · rw [hne, hi]
      exact hself
    · rw [hj j hne]
      exact (h.uploads j).mono hnames hsub
  · intro j k filename hopens hopens'
    by_cases hji : j = i
    · by_cases hki : k = i
      · rw [hji, hki]
      · rw [hji] at hopens ⊢
        exact (hbeside k hki filename hopens hopens').symm
    · by_cases hki : k = i
      · rw [hki] at hopens' ⊢
        exact hbeside j hji filename hopens' hopens
      · rw [hj j hji] at hopens ⊢
        rw [hj k hki] at hopens' ⊢
        exact h.agree j k filename hopens hopens'
  · intro j filename hopens
    by_cases hfile : filename = (s.uploads i).put.filename
    · rw [hfile] at hopens ⊢
      exact hfilled j hopens
    · have hne : j ≠ i := by
        rintro rfl
        obtain ⟨-, -, -, hname⟩ := opens_eq_true.1 hopens
        rw [hi] at hname
        exact hfile hname.symm
      rw [hj j hne] at hopens ⊢
      refine (h.filled j filename hopens).mono (hread filename hfile) fun k _ _ _ hname => hj k ?_
      rintro rfl
      exact hfile hname.symm
  · intro filename hclosed
    by_cases hfile : filename = (s.uploads i).put.filename
    · rw [hfile] at hclosed ⊢
      exact hstored hclosed
    · have hsame : saveAll files.read t.saved filename = saveAll files.read s.saved filename := by
        rcases hsaved with hsame | ⟨-, hmore⟩
        · rw [hsame]
        · rw [hmore, saveAll_append, Function.update_of_ne hfile]
      rw [hread filename hfile, hsame]
      refine h.stored filename fun j => ?_
      by_cases hne : j = i
      · by_contra hopens
        obtain ⟨-, -, -, hname⟩ := opens_eq_true.1 (by simpa using hopens)
        exact hfile (hne ▸ hname.symm)
      · rw [← hj j hne]
        exact hclosed j
  · intro p hp
    have hold (hp : p ∈ s.saved) : ∃ j, (t.uploads j).put.filename = p.1 ∧
        (t.uploads j).put.data = p.2 ∧ (t.uploads j).stage = .answered 200 := by
      obtain ⟨j, hname, hdata, hstage⟩ := h.saved p hp
      have hne : j ≠ i := by
        rintro rfl
        exact hbusy 200 hstage
      exact ⟨j, by rw [hj j hne]; exact ⟨hname, hdata, hstage⟩⟩
    rcases hsaved with hsame | ⟨hstage, hmore⟩
    · exact hold (hsame ▸ hp)
    · rw [hmore] at hp
      rcases List.mem_append.1 hp with hp | hp
      · exact hold hp
      · rw [List.mem_singleton.1 hp]
        exact ⟨i, by rw [hi]; exact ⟨rfl, rfl, hstage⟩⟩

omit [DecidableEq ι] in
theorem Inv.not_writing (h : Inv files s) {filename : String}
    (hstage : ∀ handle rest, (s.uploads i).stage ≠ .writing handle rest)
    (hothers : ∀ j ≠ i, (s.uploads j).opens filename = false) :
    s.files.read filename = saveAll files.read s.saved filename := by
  refine h.stored filename fun j => ?_
  by_cases hne : j = i
  · by_contra hopens
    obtain ⟨handle, rest, hwriting, -⟩ := opens_eq_true.1 (by simpa using hopens)
    exact hstage handle rest (hne ▸ hwriting)
  · exact hothers j hne

/-- The check. -/
theorem Inv.received (h : Inv files s) (hstage : (s.uploads i).stage = .received) :
    Inv files (s.set i (if (s.uploads i).put.accepted then .saving else .answered 400)) := by
  have hnot (handle : FileHandle) (rest : Bytes) :
      (if (s.uploads i).put.accepted then Stage.saving else .answered 400) ≠
        .writing handle rest := by
    split_ifs <;> simp
  refine h.goOn (by rw [hstage]; simp) rfl ?_ (fun _ _ hnames => hnames) (fun _ _ => rfl) (.inl rfl)
    (fun handle rest hwriting => absurd hwriting (hnot handle rest)) ?_ ?_
  · cases haccepted : (s.uploads i).put.accepted with
    | true => exact haccepted
    | false => exact .inr ⟨rfl, haccepted⟩
  · intro j hopens
    have hne : j ≠ i := by
      rintro rfl
      obtain ⟨handle, rest, hwriting, -⟩ := opens_eq_true.1 hopens
      rw [uploads_set_self] at hwriting
      exact hnot handle rest hwriting
    rw [uploads_set_of_ne s hne] at hopens ⊢
    refine (h.filled j _ hopens).mono rfl fun k _ _ hwriting _ => uploads_set_of_ne s ?_ _
    rintro rfl
    rw [hstage] at hwriting
    cases hwriting
  · intro hclosed
    refine h.not_writing (i := i) (by rw [hstage]; simp) fun j hne => ?_
    rw [← uploads_set_of_ne s hne]
    exact hclosed j

/-- The file is opened. -/
theorem Inv.opened (h : Inv files s) (hstage : (s.uploads i).stage = .saving)
    (hagree : ∀ j, (s.uploads j).opens (s.uploads i).put.filename = true →
      (s.uploads j).put.data = (s.uploads i).put.data) :
    Inv files { s.set i (.writing (s.files.openTruncate (s.uploads i).put.filename).2
      (s.uploads i).put.data) with
        files := (s.files.openTruncate (s.uploads i).put.filename).1 } := by
  have haccepted := h.uploads i
  rw [UploadOk, hstage] at haccepted
  refine h.goOn (by rw [hstage]; simp) rfl ?_ ?_ ?_ (.inl rfl) (fun _ _ _ => hagree) ?_ ?_
  · refine ⟨haccepted, ?_, Nat.zero_le _, rfl⟩
    exact (FileSystem.atEnd_openTruncate s.files _).names
  · intro filename inode hnames
    rw [FileSystem.names_openTruncate, Function.update_apply]
    split_ifs with hname
    · rw [← hname, FileSystem.inodeFor_of_names hnames]
    · exact hnames
  · intro filename hne
    rw [FileSystem.read_openTruncate, if_neg hne]
  · intro j hopens
    -- the file is empty, and `i` is at its beginning
    refine ⟨[], 0, ?_, FileSystem.filled_nil _, .inr ⟨i, ?_⟩⟩
    · rw [FileSystem.read_openTruncate, if_pos rfl]
    · dsimp only
      rw [uploads_set_self]
      exact ⟨_, _, rfl, rfl, rfl⟩
  · intro hclosed
    have hopens := hclosed i
    dsimp only at hopens
    rw [uploads_set_self] at hopens
    simp [Upload.opens] at hopens

/-- A piece is written. -/
theorem Inv.written (h : Inv files s) {handle : FileHandle} {rest : Bytes}
    (hstage : (s.uploads i).stage = .writing handle rest) (n : ℕ) :
    Inv files { s.set i (.writing (s.files.writeAt handle (rest.take n)).2 (rest.drop n)) with
      files := (s.files.writeAt handle (rest.take n)).1 } := by
  have hwriter := h.uploads i
  rw [UploadOk, hstage] at hwriter
  obtain ⟨haccepted, hnames, hoffset, hrest⟩ := hwriter
  have hopens : (s.uploads i).opens (s.uploads i).put.filename = true :=
    opens_eq_true.2 ⟨handle, rest, hstage, rfl⟩
  refine h.goOn (by rw [hstage]; simp) rfl ?_ (fun _ _ hnames => hnames) ?_ (.inl rfl) ?_ ?_ ?_
  · refine ⟨haccepted, hnames, ?_, ?_⟩
    · simp only [FileSystem.writeAt, hrest, List.length_take, List.length_drop]
      omega
    · simp only [FileSystem.writeAt, hrest, List.drop_drop, List.length_take, List.length_drop]
      by_cases hn : n ≤ (s.uploads i).put.data.length - handle.offset
      · rw [Nat.min_eq_left hn]
      · rw [List.drop_eq_nil_of_le (by omega), List.drop_eq_nil_of_le (by omega)]
  · intro filename hne
    rw [FileSystem.read_writeAt, if_neg fun hsame => hne (s.files.injective hsame hnames)]
  · intro _ _ _ j hother
    exact h.agree j i _ hother hopens
  · intro j hj
    have hbody : (((s.set i (.writing (s.files.writeAt handle (rest.take n)).2
        (rest.drop n))).uploads j).put.data) = (s.uploads i).put.data := by
      by_cases hne : j = i
      · rw [hne, uploads_set_self]
      · dsimp only at hj
        rw [uploads_set_of_ne s hne] at hj ⊢
        exact h.agree j i _ hj hopens
    dsimp only
    rw [hbody]
    obtain ⟨content, k, hcontent, hfilled, hplace⟩ := h.filled i _ hopens
    have hdata : s.files.data handle.inode = content := by
      rw [FileSystem.read, hnames, Option.map_some] at hcontent
      exact Option.some.inj hcontent
    have hread : (s.files.writeAt handle (rest.take n)).1.read (s.uploads i).put.filename =
        some (FileSystem.splice content handle.offset
          (((s.uploads i).put.data.drop handle.offset).take n)) := by
      rw [FileSystem.read_writeAt, if_pos hnames, hdata, ← hrest]
    rcases hplace with rfl | ⟨l, handle', rest', hwriting, hname, rfl⟩
    · exact ⟨_, _, hread, hfilled.splice hoffset n, .inl rfl⟩
    · by_cases hne : l = i
      · rw [hne, hstage] at hwriting
        cases hwriting
        refine ⟨_, _, hread, hfilled.splice_next n, .inr ⟨i, ?_⟩⟩
        dsimp only
        rw [uploads_set_self]
        exact ⟨_, _, rfl, rfl, by simp only [FileSystem.writeAt, hrest]⟩
      · refine ⟨_, _, hread, hfilled.splice hoffset n, .inr ⟨l, handle', rest', ?_, ?_, rfl⟩⟩
        · exact (congrArg Upload.stage (uploads_set_of_ne s hne _)).trans hwriting
        · exact (congrArg (·.put.filename) (uploads_set_of_ne s hne _)).trans hname
  · intro hclosed
    have hi := hclosed i
    dsimp only at hi
    rw [uploads_set_self] at hi
    simp [Upload.opens] at hi

/-- The file is closed. -/
theorem Inv.closed (h : Inv files s) {handle : FileHandle}
    (hstage : (s.uploads i).stage = .writing handle []) :
    Inv files { s.set i (.answered 200) with
      saved := s.saved ++ [((s.uploads i).put.filename, (s.uploads i).put.data)] } := by
  have hwriter := h.uploads i
  rw [UploadOk, hstage] at hwriter
  obtain ⟨haccepted, hnames, hoffset, hrest⟩ := hwriter
  have hopens : (s.uploads i).opens (s.uploads i).put.filename = true :=
    opens_eq_true.2 ⟨handle, [], hstage, rfl⟩
  have hend : handle.offset = (s.uploads i).put.data.length := by
    have := List.drop_eq_nil_iff.1 hrest.symm
    omega
  refine h.goOn (by rw [hstage]; simp) rfl ?_ (fun _ _ hnames => hnames) (fun _ _ => rfl)
    (.inr ⟨rfl, rfl⟩) (by simp) ?_ ?_
  · exact .inl ⟨rfl, haccepted, List.mem_append_right _ List.mem_cons_self⟩
  · intro j hj
    have hne : j ≠ i := by
      rintro rfl
      dsimp only at hj
      rw [uploads_set_self] at hj
      cases hj
    dsimp only at hj ⊢
    rw [uploads_set_of_ne s hne] at hj ⊢
    obtain ⟨content, k, hcontent, hfilled, hplace⟩ := h.filled j _ hj
    refine ⟨content, k, hcontent, hfilled, ?_⟩
    rcases hplace with hall | ⟨l, handle', rest', hwriting, hname, hk⟩
    · exact .inl hall
    · by_cases hli : l = i
      · rw [hli, hstage] at hwriting
        cases hwriting
        rw [← hk, hend, h.agree j i _ hj hopens]
        exact .inl rfl
      · refine .inr ⟨l, handle', rest', ?_, ?_, hk⟩
        · exact (congrArg Upload.stage (uploads_set_of_ne s hli _)).trans hwriting
        · exact (congrArg (·.put.filename) (uploads_set_of_ne s hli _)).trans hname
  · intro hclosed
    obtain ⟨content, k, hcontent, hfilled, hplace⟩ := h.filled i _ hopens
    have hall : k = (s.uploads i).put.data.length := by
      rcases hplace with hall | ⟨l, handle', rest', hwriting, hname, hk⟩
      · exact hall
      · by_cases hli : l = i
        · rw [hli, hstage] at hwriting
          cases hwriting
          rw [← hk, hend]
        · have hl := hclosed l
          dsimp only at hl
          rw [uploads_set_of_ne s hli] at hl
          rw [opens_eq_true.2 ⟨handle', rest', hwriting, hname⟩] at hl
          cases hl
    subst hall
    dsimp only
    rw [saveAll_append, Function.update_self, ← hfilled.eq]
    exact hcontent

theorem Inv.step {a : ι × ℕ} (h : Inv files s) (hagree : Agreeing s a)
    (hstep : Http.step s a = some s') : Inv files s' := by
  unfold Http.step at hstep
  dsimp only at hstep
  cases hstage : (s.uploads a.1).stage with
  | received =>
    rw [hstage] at hstep
    cases hstep
    exact h.received hstage
  | saving =>
    rw [hstage] at hstep
    cases hstep
    exact h.opened hstage (hagree hstage)
  | writing handle rest =>
    rw [hstage] at hstep
    cases rest with
    | nil =>
      cases hstep
      exact h.closed hstage
    | cons b rest =>
      cases hstep
      exact h.written hstage (a.2 + 1)
  | answered status =>
    rw [hstage] at hstep
    cases hstep

end Steps

/-! ## Runs -/

omit [DecidableEq ι] in
theorem inv_serve (files : Files) (puts : ι → Put) : Inv files (serve files puts) := by
  constructor
  · intro i
    trivial
  · intro i j filename hopens
    cases hopens
  · intro i filename hopens
    cases hopens
  · intro filename _
    rfl
  · intro p hp
    cases hp

/-- A request keeps its upload. -/
theorem put_of_run {files : Files} {puts : ι → Put} {as : List (ι × ℕ)} {s : Server ι}
    (hrun : run step (serve files puts) as = some s) (i : ι) : (s.uploads i).put = puts i := by
  have hput (s : Server ι) (a : ι × ℕ) (t : Server ι) (h : (s.uploads i).put = puts i)
      (_ : True) (hstep : Http.step s a = some t) : (t.uploads i).put = puts i :=
    ((step_frame hstep).put i).trans h
  exact run_invariant_along hput as rfl (along_of_forall (fun _ _ => trivial) _) hrun

/-- In a run in which uploads to one name overlap only with the same body, whatever their threads
    do in between: a file that is not open holds what was saved to it last, an upload answers 200
    exactly if its checksum is right and its body was saved, and only such bodies are saved. -/
theorem stored_of_agreeing (files : Files) (puts : ι → Put) (as : List (ι × ℕ)) (s : Server ι)
    (hrun : run step (serve files puts) as = some s)
    (hagree : Along step Agreeing (serve files puts) as) :
    (∀ filename, (∀ i, (s.uploads i).opens filename = false) →
      s.files.read filename = saveAll files.read s.saved filename) ∧
    (∀ i status, (s.uploads i).stage = .answered status →
      (status = 200 ∧ (puts i).accepted = true ∧ ((puts i).filename, (puts i).data) ∈ s.saved) ∨
        (status = 400 ∧ (puts i).accepted = false)) ∧
    ∀ p ∈ s.saved, ∃ i, (puts i).filename = p.1 ∧ (puts i).data = p.2 ∧
      (puts i).accepted = true ∧ (s.uploads i).stage = .answered 200 := by
  have h : Inv files s := run_invariant_along
    (fun s a t hinv hone hstep => hinv.step hone hstep) as (inv_serve files puts) hagree hrun
  have hanswered (i : ι) (status : ℕ) (hstage : (s.uploads i).stage = .answered status) :
      (status = 200 ∧ (puts i).accepted = true ∧ ((puts i).filename, (puts i).data) ∈ s.saved) ∨
        (status = 400 ∧ (puts i).accepted = false) := by
    have hi := h.uploads i
    rw [UploadOk, hstage, put_of_run hrun] at hi
    exact hi
  refine ⟨h.stored, hanswered, fun p hp => ?_⟩
  obtain ⟨i, hname, hdata, hstage⟩ := h.saved p hp
  rw [put_of_run hrun] at hname hdata
  refine ⟨i, hname, hdata, ?_, hstage⟩
  rcases hanswered i 200 hstage with ⟨-, haccepted, -⟩ | ⟨hstatus, -⟩
  · exact haccepted
  · omega

/-- A client and its retry, and the steps of their threads: the retry truncates the file that the
    first upload is about to write. -/
def retried (_ : Bool) : Put := ⟨"a.bin", [1, 2], some (sha256 [1, 2])⟩

def retriedSteps : List (Bool × ℕ) :=
  [(false, 0), (false, 0), (false, 0), (true, 0), (true, 0), (false, 0), (false, 0), (true, 1),
    (true, 0)]

/-- The stages after a run. -/
def stagesOf (puts : Bool → Put) (as : List (Bool × ℕ)) : Option (Stage × Stage) :=
  (run step (serve .empty puts) as).map fun s => ((s.uploads false).stage, (s.uploads true).stage)

theorem stagesOf_retried :
    stagesOf retried retriedSteps = some (.answered 200, .answered 200) := by
  decide +kernel

theorem agreeing_retried : Along step Agreeing (serve .empty retried) retriedSteps := by
  decide +kernel

theorem stored_of_retried : ∃ s, run step (serve .empty retried) retriedSteps = some s ∧
    s.files.read "a.bin" = saveAll (fun _ => none) s.saved "a.bin" ∧
    ("a.bin", [1, 2]) ∈ s.saved := by
  obtain ⟨s, hrun, hstages⟩ := Option.map_eq_some_iff.1 stagesOf_retried
  obtain ⟨h0, h1⟩ := Prod.mk.inj hstages
  obtain ⟨hstored, hanswered, -⟩ :=
    stored_of_agreeing .empty retried retriedSteps s hrun agreeing_retried
  refine ⟨s, hrun, hstored "a.bin" fun i => ?_, ?_⟩
  · cases i
    · simp [Upload.opens, h0]
    · simp [Upload.opens, h1]
  · rcases hanswered false 200 h0 with ⟨-, -, hmem⟩ | ⟨hstatus, -⟩
    · exact hmem
    · omega

end TransferTestbed.Http
