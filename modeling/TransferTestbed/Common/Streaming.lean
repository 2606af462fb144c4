import TransferTestbed.Common.Integrity

/-!
# Hashing a file block by block

`compute_sha256_file` (`common/integrity_checker.py`) and `sha256_file`
(`protocols/LWM2M/client/lwm2m_client.py`) over any way in which `read` cuts the file, and
over any hash object whose successive updates count as one.

Results:
* `hashLoop_spec`, `iterBlocks_spec`: what the two loops feed to the hasher.
* `checksums_agree`: both loops end with the digest of the whole content.
* `computeSha256File_eq_full`: for SHA-256, it is that of `Integrity.computeSha256File`.
-/

namespace TransferTestbed.Streaming

open Integrity

/-! ## Model -/

/-- `hashlib.sha256()` and its methods. -/
structure Hashlib (σ : Type) where
  new : σ
  update : σ → Bytes → σ
  hexdigest : σ → String

/-- Successive calls of `update` are one call with the concatenation. -/
def Hashlib.Incremental {σ : Type} (hashlib : Hashlib σ) : Prop :=
  ∀ blocks : List Bytes, hashlib.hexdigest (blocks.foldl hashlib.update hashlib.new) =
    hashlib.hexdigest (hashlib.update hashlib.new blocks.flatten)

/-- How many bytes each call of `read(1024 * 1024)` returns, by the number of the call and
    what is left of the file: some if there are any, and at most as many as are asked for. -/
structure Reads where
  size : ℕ → Bytes → ℕ
  pos : ∀ call rest, rest ≠ [] → 0 < size call rest
  le : ∀ call rest, size call rest ≤ blockSize

/-- An open file: how often it has been read, and what is left. -/
structure File where
  calls : ℕ
  rest : Bytes

/-- `open(filepath, "rb")`. -/
def File.opened (content : Bytes) : File := ⟨0, content⟩

/-- `f.read(1024 * 1024)`. -/
def File.read (reads : Reads) (f : File) : Bytes × File :=
  let size := reads.size f.calls f.rest
  (f.rest.take size, ⟨f.calls + 1, f.rest.drop size⟩)

section Loops

variable {σ : Type} (hashlib : Hashlib σ) (reads : Reads)

/-- `sha256(data)` (integrity_checker.py, lines 3–4). -/
def sha256 (data : Bytes) : String := hashlib.hexdigest (hashlib.update hashlib.new data)

/-- `while chunk := f.read(1024 * 1024): hasher.update(chunk)`; `none` when the fuel runs
    out. -/
def hashLoop : ℕ → File → σ → Option σ
  | 0, _, _ => none
  | fuel + 1, f, hasher =>
    let chunk := f.read reads
    if chunk.1 = [] then some hasher else hashLoop fuel chunk.2 (hashlib.update hasher chunk.1)

/-- `compute_sha256_file(filepath)` (integrity_checker.py, lines 6–11). -/
def computeSha256File (fuel : ℕ) (content : Bytes) : Option String :=
  (hashLoop hashlib reads fuel (.opened content) hashlib.new).map hashlib.hexdigest

/-- The blocks of `iter(lambda: f.read(1024 * 1024), b"")`. -/
def iterBlocks : ℕ → File → Option (List Bytes)
  | 0, _ => none
  | fuel + 1, f =>
    let block := f.read reads
    if block.1 = [] then some [] else (iterBlocks fuel block.2).map (block.1 :: ·)

/-- `sha256_file(filepath)` (lwm2m_client.py, lines 185–191). -/
def sha256File (fuel : ℕ) (content : Bytes) : Option String :=
  (iterBlocks reads fuel (.opened content)).map fun blocks =>
    hashlib.hexdigest (blocks.foldl hashlib.update hashlib.new)

/-! ## Reading to the end -/

variable {hashlib reads} {f : File}

theorem File.read_of_nil (h : f.rest = []) : (f.read reads).1 = [] := by
  rw [File.read, h, List.take_nil]

/-- A read before the end takes a first part of the file off it. -/
theorem File.read_of_ne_nil (h : f.rest ≠ []) :
    (f.read reads).1 ≠ [] ∧ (f.read reads).1 ++ (f.read reads).2.rest = f.rest ∧
      (f.read reads).2.rest.length < f.rest.length := by
  have hpos := reads.pos f.calls f.rest h
  have hlen := List.length_pos_iff.2 h
  refine ⟨?_, List.take_append_drop _ _, ?_⟩
  · rw [← List.length_pos_iff]
    simp only [File.read, List.length_take]
    omega
  · simp only [File.read, List.length_drop]
    omega

/-- The blocks of `iter` are the rest of the file. -/
theorem iterBlocks_spec (fuel : ℕ) (h : f.rest.length < fuel) :
    ∃ blocks, iterBlocks reads fuel f = some blocks ∧ blocks.flatten = f.rest := by
  induction fuel generalizing f with
  | zero => omega
  | succ fuel ih =>
    unfold iterBlocks
    by_cases hrest : f.rest = []
    · exact ⟨[], if_pos (File.read_of_nil hrest), hrest.symm⟩
    · obtain ⟨hblock, happend, hless⟩ := @File.read_of_ne_nil reads f hrest
      obtain ⟨blocks, hblocks, hflatten⟩ := @ih (f.read reads).2 (by omega)
      refine ⟨(f.read reads).1 :: blocks, ?_, ?_⟩
      · show (if _ then _ else _) = _
        rw [if_neg hblock, hblocks, Option.map_some]
      · rw [List.flatten_cons, hflatten, happend]

/-- The loop of `compute_sha256_file` updates with the same blocks. -/
theorem hashLoop_eq (fuel : ℕ) (hasher : σ) :
    hashLoop hashlib reads fuel f hasher =
      (iterBlocks reads fuel f).map fun blocks => blocks.foldl hashlib.update hasher := by
  induction fuel generalizing f hasher with
  | zero => rfl
  | succ fuel ih =>
    unfold hashLoop iterBlocks
    show (if _ then _ else _) = Option.map _ (if _ then _ else _)
    split_ifs
    · rfl
    · rw [ih, Option.map_map]
      rfl

/-- **The three checksums agree**: with more fuel than there are bytes both loops end, with
    the digest of the whole content. -/
theorem checksums_agree (hashlib : Hashlib σ) (hincremental : hashlib.Incremental) (reads : Reads)
    (content : Bytes) {fuel : ℕ} (hfuel : content.length < fuel) :
    computeSha256File hashlib reads fuel content = some (sha256 hashlib content) ∧
      sha256File hashlib reads fuel content = some (sha256 hashlib content) := by
  obtain ⟨blocks, hblocks, hflatten⟩ := @iterBlocks_spec reads (.opened content) fuel hfuel
  have hdigest := hincremental blocks
  rw [hflatten] at hdigest
  constructor
  · rw [computeSha256File, hashLoop_eq, hblocks, Option.map_some, Option.map_some, hdigest]
    rfl
  · rw [sha256File, hblocks, Option.map_some, hdigest]
    rfl

end Loops

/-! ## SHA-256 itself -/

/-- The hash object that keeps what it has been fed. -/
def sha256Object : Hashlib Bytes := ⟨[], (· ++ ·), Sha256.hexdigest⟩

theorem foldl_append (blocks : List Bytes) (fed : Bytes) :
    blocks.foldl (· ++ ·) fed = fed ++ blocks.flatten := by
  induction blocks generalizing fed with
  | nil => rw [List.foldl_nil, List.flatten_nil, List.append_nil]
  | cons block blocks ih => rw [List.foldl_cons, ih, List.flatten_cons, List.append_assoc]

theorem incremental_sha256Object : sha256Object.Incremental := by
  intro blocks
  show Sha256.hexdigest (blocks.foldl (· ++ ·) []) = Sha256.hexdigest ([] ++ blocks.flatten)
  rw [foldl_append]

/-- However the file is cut, its checksum is the one of full blocks. -/
theorem computeSha256File_eq_full (reads : Reads) (content : Bytes) {fuel : ℕ}
    (hfuel : content.length < fuel) :
    computeSha256File sha256Object reads fuel content =
      some (Integrity.computeSha256File content) := by
  obtain ⟨blocks, hblocks, hflatten⟩ := @iterBlocks_spec reads (.opened content) fuel hfuel
  rw [computeSha256File, hashLoop_eq, hblocks, computeSha256File_eq]
  show some (Sha256.hexdigest (blocks.foldl (· ++ ·) [])) = _
  rw [foldl_append, hflatten]
  rfl

/-- Reads that alternate between one byte and two. -/
def shortReads : Reads where
  size call _ := call % 2 + 1
  pos _ _ _ := Nat.succ_pos _
  le call _ := by
    show call % 2 + 1 ≤ 1024 * 1024
    omega

theorem checksums_agree_shortReads :
    computeSha256File sha256Object shortReads 5 [1, 2, 3, 4] =
        some (sha256 sha256Object [1, 2, 3, 4]) ∧
      sha256File sha256Object shortReads 5 [1, 2, 3, 4] =
        some (sha256 sha256Object [1, 2, 3, 4]) :=
  checksums_agree sha256Object incremental_sha256Object shortReads [1, 2, 3, 4] (by decide)

end TransferTestbed.Streaming
