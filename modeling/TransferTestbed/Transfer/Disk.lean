import TransferTestbed.Common.Integrity
import TransferTestbed.Library.Dict

/-!
# The receiver's output directory and its one open file

The files of `OUTPUT_DIR` as another `open` of their paths reads them, and the
handle the receiver writes through. A buffered handle holds back a suffix of the
bytes written to it until it is closed.

Results:
* `view_openWrite`, `view_write`: the directory as it stands once the handle is closed.
* `Written.content`: what another reader sees of the file while it is open.
-/

namespace TransferTestbed.Transfer

open Integrity

/-- A file object opened with `"wb"`: its path and the bytes still in its buffer. -/
structure Handle where
  path : String
  pending : Bytes
  closed : Bool
deriving DecidableEq, Repr

structure Disk where
  files : Dict String Bytes
  handle : Option Handle
deriving DecidableEq, Repr

namespace Disk

/-- What reading the path gives. -/
def content (d : Disk) (path : String) : Option Bytes := d.files.get? path

/-- `handle.close()`. -/
def close (d : Disk) : Disk :=
  match d.handle with
  | none => d
  | some h =>
    if h.closed then d
    else
      { files := d.files.insert h.path ((d.content h.path).getD [] ++ h.pending)
        handle := some { h with pending := [], closed := true } }

/-- `handle = open(path, "wb")`. -/
def openWrite (d : Disk) (path : String) : Disk where
  files := d.files.insert path []
  handle := some ⟨path, [], false⟩

/-- `handle.write(data)`, after which the last `keep` bytes are in the buffer. -/
def write (d : Disk) (data : Bytes) (keep : ℕ) : Disk :=
  match d.handle with
  | none => d
  | some h =>
    let buffered := h.pending ++ data
    let out := buffered.length - keep
    { files := d.files.insert h.path ((d.content h.path).getD [] ++ buffered.take out)
      handle := some { h with pending := buffered.drop out } }

/-- `handle = None`. -/
def dropHandle (d : Disk) : Disk := { d with handle := none }

/-- A file as it stands once the handle is closed. -/
def view (d : Disk) (path : String) : Option Bytes := d.close.content path

/-- The handle is open on the path. -/
def OpenOn (d : Disk) (path : String) : Prop :=
  ∃ pending, d.handle = some ⟨path, pending, false⟩ ∧ d.content path ≠ none

theorem view_of_no_handle {d : Disk} (h : d.handle = none) (g : String) :
    d.view g = d.content g := by
  rw [view, close, h]

/-- Closing and dropping the handle shows the directory as it stands then. -/
theorem view_close_dropHandle (d : Disk) (g : String) : d.close.dropHandle.view g = d.view g := by
  rw [view_of_no_handle rfl]
  rfl

theorem openOn_openWrite (d : Disk) (path : String) : (d.openWrite path).OpenOn path :=
  ⟨[], rfl, by simp [openWrite, content, Dict.get?_insert]⟩

theorem view_openWrite (d : Disk) (path g : String) :
    (d.close.openWrite path).view g = if g = path then some [] else d.view g := by
  simp only [view, openWrite, close, content, Dict.get?_insert, Bool.false_eq_true, if_false]
  split_ifs with h
  · rfl
  · rfl

theorem view_openOn {d : Disk} {path : String} {pending : Bytes}
    (h : d.handle = some ⟨path, pending, false⟩) (g : String) :
    d.view g = if g = path then some ((d.content path).getD [] ++ pending) else d.content g := by
  simp [view, close, h, content, Dict.get?_insert]

/-- Writing appends to the file of the handle, as seen once it is closed. -/
theorem view_write {d : Disk} {path : String} (h : d.OpenOn path) (data : Bytes) (keep : ℕ)
    (g : String) :
    (d.write data keep).OpenOn path ∧ (d.write data keep).view g =
      if g = path then some ((d.view path).getD [] ++ data) else d.view g := by
  obtain ⟨pending, hd, hc⟩ := h
  have hhandle : (d.write data keep).handle =
      some ⟨path, (pending ++ data).drop ((pending ++ data).length - keep), false⟩ := by
    rw [write, hd]
  have hcontent : (d.write data keep).content path = some ((d.content path).getD [] ++
      (pending ++ data).take ((pending ++ data).length - keep)) := by
    rw [write, hd]
    simp [content, Dict.get?_insert]
  refine ⟨⟨_, hhandle, by rw [hcontent]; simp⟩, ?_⟩
  rw [view_openOn hhandle, hcontent, view_openOn hd, view_openOn hd, if_pos rfl]
  split_ifs with hg
  · rw [Option.getD_some, Option.getD_some, List.append_assoc, List.take_append_drop,
      List.append_assoc]
  · rw [write, hd]
    simp [content, Dict.get?_insert, hg]

/-- The handle is open on the path, has been given `data` and still holds back its
    last `held` bytes. -/
def Written (d : Disk) (path : String) (data : Bytes) (held : ℕ) : Prop :=
  ∃ out pending, d.handle = some ⟨path, pending, false⟩ ∧ d.content path = some out ∧
    out ++ pending = data ∧ pending.length = held

theorem written_openWrite (d : Disk) (path : String) : (d.openWrite path).Written path [] 0 :=
  ⟨[], [], rfl, by simp [openWrite, content, Dict.get?_insert], rfl, rfl⟩

theorem Written.openOn {d : Disk} {path : String} {data : Bytes} {held : ℕ}
    (h : d.Written path data held) : d.OpenOn path := by
  obtain ⟨out, pending, hd, hc, -, -⟩ := h
  exact ⟨pending, hd, by rw [hc]; simp⟩

theorem Written.write {d : Disk} {path : String} {data : Bytes} {held : ℕ}
    (h : d.Written path data held) (payload : Bytes) (keep : ℕ) :
    (d.write payload keep).Written path (data ++ payload) (min (held + payload.length) keep) := by
  obtain ⟨out, pending, hd, hc, rfl, rfl⟩ := h
  refine ⟨out ++ (pending ++ payload).take ((pending ++ payload).length - keep),
    (pending ++ payload).drop ((pending ++ payload).length - keep), ?_, ?_, ?_, ?_⟩
  · rw [Disk.write, hd]
  · rw [Disk.write, hd]
    simp only [content, Dict.get?_insert, if_true]
    rw [← content, hc]
    rfl
  · rw [List.append_assoc, List.take_append_drop, List.append_assoc]
  · rw [List.length_drop, List.length_append]
    omega

/-- What another reader sees of the file. -/
theorem Written.content {d : Disk} {path : String} {data : Bytes} {held : ℕ}
    (h : d.Written path data held) :
    d.content path = some (data.take (data.length - held)) := by
  obtain ⟨out, pending, -, hc, rfl, rfl⟩ := h
  rw [hc, List.length_append, Nat.add_sub_cancel, List.take_left]

end Disk

end TransferTestbed.Transfer
