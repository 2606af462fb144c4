import Mathlib.Data.Nat.Notation
import Mathlib.Logic.Function.Basic
import Mathlib.Tactic.SplitIfs

/-!
# A file system of names and inodes

A path names an inode, and an inode keeps its content whatever its name is. A
handle points at an inode and an offset, so it survives a rename. No two paths
name one inode.

* `read_openTruncate`, `read_writeAt`, `read_replace`, `read_remove`: what each
  operation does to the content of every path.
* `AtEnd.writeAt`: writing at the end of a file appends to it.
* `Filled.splice`, `Filled.splice_next`: several writers of one body.
-/

namespace TransferTestbed

structure FileSystem (π β : Type*) where
  names : π → Option ℕ
  data : ℕ → List β
  /-- The next inode to be allocated. -/
  next : ℕ
  lt_next : ∀ {p i}, names p = some i → i < next
  injective : ∀ {p q i}, names p = some i → names q = some i → p = q

/-- A file object opened for writing. -/
structure FileHandle where
  inode : ℕ
  offset : ℕ
deriving DecidableEq, Repr

namespace FileSystem

variable {π β : Type*}

/-- The content of a path. -/
def read (fs : FileSystem π β) (p : π) : Option (List β) := (fs.names p).map fs.data

/-- The inode that opening the path for writing gives. -/
def inodeFor (fs : FileSystem π β) (p : π) : ℕ := (fs.names p).getD fs.next

theorem inodeFor_of_names {fs : FileSystem π β} {p : π} {i : ℕ} (h : fs.names p = some i) :
    fs.inodeFor p = i := by
  rw [inodeFor, h]
  rfl

/-- Only the path itself names the inode that opening it gives. -/
theorem eq_of_names_inodeFor {fs : FileSystem π β} {p q : π}
    (h : fs.names q = some (fs.inodeFor p)) : q = p := by
  cases hp : fs.names p with
  | none =>
    rw [inodeFor, hp, Option.getD_none] at h
    exact absurd (fs.lt_next h) (Nat.lt_irrefl _)
  | some i =>
    rw [inodeFor_of_names hp] at h
    exact fs.injective h hp

/-- Bytes put at an offset, after a hole if the offset is beyond the end. -/
def splice [Inhabited β] (old : List β) (offset : ℕ) (new : List β) : List β :=
  (old ++ List.replicate (offset - old.length) default).take offset ++ new ++
    old.drop (offset + new.length)

theorem length_splice [Inhabited β] (old : List β) (offset : ℕ) (new : List β) :
    (splice old offset new).length = max old.length (offset + new.length) := by
  simp only [splice, List.length_append, List.length_take, List.length_replicate,
    List.length_drop]
  omega

theorem getElem?_splice [Inhabited β] (old : List β) (offset : ℕ) (new : List β) (i : ℕ) :
    (splice old offset new)[i]? =
      if i < offset then (if i < old.length then old[i]? else some default)
      else if i < offset + new.length then new[i - offset]?
      else old[i]? := by
  have hhead : ((old ++ List.replicate (offset - old.length) default).take offset).length =
      offset := by
    simp only [List.length_take, List.length_append, List.length_replicate]
    omega
  rw [splice, List.append_assoc]
  split_ifs with hoff hold hnew
  · rw [List.getElem?_append_left (by omega), List.getElem?_take_of_lt hoff,
      List.getElem?_append_left hold]
  · rw [List.getElem?_append_left (by omega), List.getElem?_take_of_lt hoff,
      List.getElem?_append_right (by omega), List.getElem?_replicate, if_pos (by omega)]
  · rw [List.getElem?_append_right (by omega), hhead, List.getElem?_append_left (by omega)]
  · rw [List.getElem?_append_right (by omega), hhead, List.getElem?_append_right (by omega),
      List.getElem?_drop]
    congr 1
    omega

/-- Writing through a handle, at the handle's own offset. -/
def writeAt [Inhabited β] (fs : FileSystem π β) (h : FileHandle) (new : List β) :
    FileSystem π β × FileHandle :=
  ({ fs with data := Function.update fs.data h.inode (splice (fs.data h.inode) h.offset new) },
    { h with offset := h.offset + new.length })

theorem read_writeAt [Inhabited β] (fs : FileSystem π β) (h : FileHandle) (new : List β) (q : π) :
    (fs.writeAt h new).1.read q =
      if fs.names q = some h.inode then some (splice (fs.data h.inode) h.offset new)
      else fs.read q := by
  simp only [read, writeAt]
  cases hi : fs.names q with
  | none => simp
  | some i =>
    by_cases hne : i = h.inode
    · simp [hne]
    · simp [hne]

/-! ## A file written from its beginning -/

theorem splice_end [Inhabited β] (old new : List β) : splice old old.length new = old ++ new := by
  simp [splice]

/-- The handle is at the end of the path's file, whose content is `content`. -/
structure AtEnd (fs : FileSystem π β) (h : FileHandle) (p : π) (content : List β) : Prop where
  names : fs.names p = some h.inode
  data : fs.data h.inode = content
  offset : h.offset = content.length

theorem AtEnd.read {fs : FileSystem π β} {h : FileHandle} {p : π} {content : List β}
    (hend : fs.AtEnd h p content) : fs.read p = some content := by
  rw [FileSystem.read, hend.names, Option.map_some, hend.data]

theorem AtEnd.writeAt [Inhabited β] {fs : FileSystem π β} {h : FileHandle} {p : π}
    {content : List β} (hend : fs.AtEnd h p content) (new : List β) :
    (fs.writeAt h new).1.AtEnd (fs.writeAt h new).2 p (content ++ new) where
  names := hend.names
  data := by
    simp only [FileSystem.writeAt, Function.update_self]
    rw [hend.data, hend.offset, splice_end]
  offset := by
    simp only [FileSystem.writeAt, List.length_append, hend.offset]

/-- Writing to another file. -/
theorem AtEnd.writeAt_other [Inhabited β] {fs : FileSystem π β} {h other : FileHandle} {p : π}
    {content : List β} (hend : fs.AtEnd h p content) (hne : h.inode ≠ other.inode)
    (new : List β) : (fs.writeAt other new).1.AtEnd h p content where
  names := hend.names
  data := by
    simp only [FileSystem.writeAt]
    rw [Function.update_of_ne hne, hend.data]
  offset := hend.offset

/-! ## A file written by several writers of one body -/

/-- A file with the first `n` bytes of a body, and nothing beyond the end of the body. -/
structure Filled (content body : List β) (n : ℕ) : Prop where
  le : n ≤ body.length
  length_le : content.length ≤ body.length
  bytes : ∀ i < n, content[i]? = body[i]?

theorem filled_nil (body : List β) : Filled [] body 0 := ⟨Nat.zero_le _, Nat.zero_le _, by simp⟩

theorem Filled.eq {content body : List β} (h : Filled content body body.length) :
    content = body := by
  refine List.ext_getElem? fun i => ?_
  by_cases hi : i < body.length
  · exact h.bytes i hi
  · have hlen := h.length_le
    rw [List.getElem?_eq_none (by omega), List.getElem?_eq_none (by omega)]

theorem getElem?_piece (body : List β) {offset m i : ℕ} (hle : offset ≤ i)
    (hlt : i < offset + ((body.drop offset).take m).length) :
    ((body.drop offset).take m)[i - offset]? = body[i]? := by
  rw [List.length_take, List.length_drop] at hlt
  rw [List.getElem?_take_of_lt (by omega), List.getElem?_drop]
  congr 1
  omega

/-- A piece of the body, written at its place. -/
theorem Filled.splice [Inhabited β] {content body : List β} {n offset : ℕ}
    (h : Filled content body n) (hoffset : offset ≤ body.length) (m : ℕ) :
    Filled (splice content offset ((body.drop offset).take m)) body n where
  le := h.le
  length_le := by
    rw [length_splice, List.length_take, List.length_drop]
    have := h.length_le
    omega
  bytes := by
    intro i hi
    have hbytes := h.bytes i hi
    have hlt : i < content.length := by
      by_contra hge
      rw [List.getElem?_eq_none (by omega), List.getElem?_eq_getElem (Nat.lt_of_lt_of_le hi h.le)]
        at hbytes
      cases hbytes
    rw [getElem?_splice]
    split_ifs with hbefore hpiece
    · exact hbytes
    · exact getElem?_piece body (by omega) hpiece
    · exact hbytes

/-- The piece that comes next. -/
theorem Filled.splice_next [Inhabited β] {content body : List β} {n : ℕ}
    (h : Filled content body n) (m : ℕ) :
    Filled (FileSystem.splice content n ((body.drop n).take m)) body
      (n + ((body.drop n).take m).length) where
  le := by
    have hle := h.le
    rw [List.length_take, List.length_drop]
    omega
  length_le := (h.splice h.le m).length_le
  bytes := by
    intro i hi
    by_cases hbefore : i < n
    · exact (h.splice h.le m).bytes i hbefore
    · rw [getElem?_splice, if_neg hbefore, if_pos hi]
      exact getElem?_piece body (by omega) hi

/-! ## Operations on names -/

variable [DecidableEq π]

/-- Opening a path for writing: the file is created or truncated. -/
def openTruncate (fs : FileSystem π β) (p : π) : FileSystem π β × FileHandle where
  fst :=
    { names := Function.update fs.names p (some (fs.inodeFor p))
      data := Function.update fs.data (fs.inodeFor p) []
      next := max fs.next (fs.inodeFor p + 1)
      lt_next := by
        intro q i h
        rw [Function.update_apply] at h
        split_ifs at h with hq
        · cases h
          omega
        · have := fs.lt_next h
          omega
      injective := by
        intro q r i hq hr
        rw [Function.update_apply] at hq hr
        split_ifs at hq hr with hqp hrp hrp
        · rw [hqp, hrp]
        · cases hq
          exact absurd (eq_of_names_inodeFor hr) hrp
        · cases hr
          exact absurd (eq_of_names_inodeFor hq) hqp
        · exact fs.injective hq hr }
  snd := ⟨fs.inodeFor p, 0⟩

/-- No files. -/
def empty : FileSystem π β := ⟨fun _ => none, fun _ => [], 0, by simp, by simp⟩

/-- One file. -/
def single [Inhabited β] (p : π) (content : List β) : FileSystem π β :=
  let opened := (empty (β := β)).openTruncate p
  (opened.1.writeAt opened.2 content).1

/-- Renaming `src` onto `dst`, if `src` exists. -/
def replace (fs : FileSystem π β) (src dst : π) : Option (FileSystem π β) :=
  if fs.names src = none then none
  else some
    { fs with
      names := Function.update (Function.update fs.names src none) dst (fs.names src)
      lt_next := by
        intro q i h
        rw [Function.update_apply, Function.update_apply] at h
        split_ifs at h
        · exact fs.lt_next h
        · exact fs.lt_next h
      injective := by
        intro q r i hq hr
        rw [Function.update_apply, Function.update_apply] at hq hr
        split_ifs at hq hr with hqd hrd hrs hqs hrd hrs
        · rw [hqd, hrd]
        · exact absurd (fs.injective hr hq) hrs
        · exact absurd (fs.injective hq hr) hqs
        · exact fs.injective hq hr }

/-- Removing a path, if it exists. -/
def remove (fs : FileSystem π β) (p : π) : Option (FileSystem π β) :=
  if fs.names p = none then none
  else some
    { fs with
      names := Function.update fs.names p none
      lt_next := by
        intro q i h
        rw [Function.update_apply] at h
        split_ifs at h
        exact fs.lt_next h
      injective := by
        intro q r i hq hr
        rw [Function.update_apply] at hq hr
        split_ifs at hq hr
        exact fs.injective hq hr }

/-! ## Names and contents after an operation -/

theorem names_openTruncate (fs : FileSystem π β) (p : π) :
    (fs.openTruncate p).1.names = Function.update fs.names p (some (fs.inodeFor p)) := rfl

theorem data_openTruncate (fs : FileSystem π β) (p : π) :
    (fs.openTruncate p).1.data = Function.update fs.data (fs.inodeFor p) [] := rfl

@[simp] theorem inode_openTruncate (fs : FileSystem π β) (p : π) :
    (fs.openTruncate p).2.inode = fs.inodeFor p := rfl

theorem atEnd_openTruncate (fs : FileSystem π β) (p : π) :
    (fs.openTruncate p).1.AtEnd (fs.openTruncate p).2 p [] where
  names := by rw [names_openTruncate, Function.update_self, inode_openTruncate]
  data := by rw [data_openTruncate, inode_openTruncate, Function.update_self]
  offset := rfl

theorem read_openTruncate (fs : FileSystem π β) (p q : π) :
    (fs.openTruncate p).1.read q = if q = p then some [] else fs.read q := by
  rw [read, names_openTruncate, data_openTruncate, Function.update_apply]
  split_ifs with hq
  · simp
  · rw [read]
    cases hi : fs.names q with
    | none => rfl
    | some i =>
      have hne : i ≠ fs.inodeFor p := fun h => hq (eq_of_names_inodeFor (hi.trans (by rw [h])))
      simp [hne]

theorem names_replace {fs fs' : FileSystem π β} {src dst : π}
    (h : fs.replace src dst = some fs') :
    fs'.names = Function.update (Function.update fs.names src none) dst (fs.names src) ∧
      fs'.data = fs.data ∧ fs.names src ≠ none := by
  unfold replace at h
  split_ifs at h with hsrc
  cases h
  exact ⟨rfl, rfl, hsrc⟩

theorem next_replace {fs fs' : FileSystem π β} {src dst : π}
    (h : fs.replace src dst = some fs') : fs'.next = fs.next := by
  unfold replace at h
  split_ifs at h
  cases h
  rfl

theorem read_replace {fs fs' : FileSystem π β} {src dst : π}
    (h : fs.replace src dst = some fs') (q : π) :
    fs'.read q = if q = dst then fs.read src else if q = src then none else fs.read q := by
  obtain ⟨hnames, hdata, -⟩ := names_replace h
  rw [read, hnames, hdata, Function.update_apply, Function.update_apply]
  split_ifs <;> rfl

theorem exists_replace {fs : FileSystem π β} {src dst : π} (h : fs.names src ≠ none) :
    ∃ fs', fs.replace src dst = some fs' :=
  ⟨_, if_neg h⟩

theorem names_remove {fs fs' : FileSystem π β} {p : π} (h : fs.remove p = some fs') :
    fs'.names = Function.update fs.names p none ∧ fs'.data = fs.data := by
  unfold remove at h
  split_ifs at h
  cases h
  exact ⟨rfl, rfl⟩

theorem next_remove {fs fs' : FileSystem π β} {p : π} (h : fs.remove p = some fs') :
    fs'.next = fs.next := by
  unfold remove at h
  split_ifs at h
  cases h
  rfl

theorem read_remove {fs fs' : FileSystem π β} {p : π} (h : fs.remove p = some fs') (q : π) :
    fs'.read q = if q = p then none else fs.read q := by
  obtain ⟨hnames, hdata⟩ := names_remove h
  rw [read, hnames, hdata, Function.update_apply]
  split_ifs <;> rfl

theorem exists_remove {fs : FileSystem π β} {p : π} (h : fs.names p ≠ none) :
    ∃ fs', fs.remove p = some fs' :=
  ⟨_, if_neg h⟩

end FileSystem

end TransferTestbed
