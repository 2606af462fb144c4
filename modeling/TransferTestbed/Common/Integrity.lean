import TransferTestbed.Library.Sha256

/-!
# Checksums (`common/integrity_checker.py`)

* `computeSha256File_eq`: hashing a file block by block hashes its content.
-/

namespace TransferTestbed.Integrity

abbrev Bytes := List UInt8

/-- `sha256(data)`. -/
def sha256 (data : Bytes) : String := Sha256.hexdigest data

def blockSize : ℕ := 1024 * 1024

/-- The loop of `compute_sha256_file`: the data fed to the hasher, from what it has
    been fed and what is left to read. -/
def feed : ℕ → Bytes → Bytes → Bytes
  | 0, fed, _ => fed
  | fuel + 1, fed, rest =>
    if rest = [] then fed else feed fuel (fed ++ rest.take blockSize) (rest.drop blockSize)

/-- `compute_sha256_file`, on the content of the file. -/
def computeSha256File (content : Bytes) : String :=
  Sha256.hexdigest (feed content.length [] content)

theorem feed_eq (fuel : ℕ) (fed rest : Bytes) (h : rest.length ≤ fuel) :
    feed fuel fed rest = fed ++ rest := by
  induction fuel generalizing fed rest with
  | zero => rw [feed, List.eq_nil_of_length_eq_zero (Nat.le_zero.1 h), List.append_nil]
  | succ fuel ih =>
    rw [feed]
    split_ifs with hrest
    · rw [hrest, List.append_nil]
    · have hpos : 0 < rest.length := List.length_pos_iff.2 hrest
      have hblock : 0 < blockSize := by decide
      rw [ih _ _ (by rw [List.length_drop]; omega), List.append_assoc, List.take_append_drop]

theorem computeSha256File_eq (content : Bytes) : computeSha256File content = sha256 content := by
  rw [computeSha256File, feed_eq _ _ _ (Nat.le_refl _), List.nil_append, sha256]

end TransferTestbed.Integrity
