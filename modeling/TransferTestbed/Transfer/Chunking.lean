import TransferTestbed.Common.Integrity
import TransferTestbed.Library.Decimal
import TransferTestbed.Library.Json

/-!
# The chunking senders

`calculate_total_chunks`, `send_metadata` and `send_chunks` of the MQTT client
(`protocols/MQTT/clients/client_a.py`) and of the AMQP client
(`protocols/AMQP/client/amqp_client.py`), which agree but for the `qos` entry of
the control message. `math.ceil(file_size / CHUNK_SIZE)` rounds the quotient to
binary64 first.

Results:
* `flatten_readChunks`: the chunks are the content up to the announced number of them.
* `covered_of_le`: up to 2^53 bytes the chunks cover the file.
* `not_covered`: one byte more and the last byte is not sent.
-/

namespace TransferTestbed.Chunking

open Integrity Binary64 Json

def chunkSize : ℕ := 1024 * 1024

/-- `math.ceil(file_size / CHUNK_SIZE)`. -/
def calculateTotalChunks (fileSize : ℕ) : ℕ := ⌈trueDiv fileSize chunkSize⌉₊

/-- The loop of `send_chunks`: `total_chunks` reads of `CHUNK_SIZE` bytes. -/
def readChunks : ℕ → Bytes → List Bytes
  | 0, _ => []
  | n + 1, rest => rest.take chunkSize :: readChunks n (rest.drop chunkSize)

/-- What `send_chunks` publishes for a file. -/
def chunks (content : Bytes) : List Bytes :=
  readChunks (calculateTotalChunks content.length) content

/-- A control message. -/
structure Metadata where
  filename : String
  totalChunks : ℕ
  checksum : String
  /-- The MQTT client's QoS level. -/
  qos : Option ℤ
deriving DecidableEq, Repr

def Metadata.object (m : Metadata) : Object :=
  [("filename", .str m.filename), ("total_chunks", .int m.totalChunks),
    ("checksum", .str m.checksum)] ++
    match m.qos with
    | none => []
    | some q => [("qos", .int q)]

/-- `json.dumps(metadata)`. -/
def Metadata.text (m : Metadata) : List Char := dumps m.object

/-- The metadata `send_file` announces for a file. -/
def metadataOf (filename : String) (content : Bytes) (qos : Option ℤ) : Metadata where
  filename := filename
  totalChunks := calculateTotalChunks content.length
  checksum := computeSha256File content
  qos := qos

/-- A message on the control or the data channel. -/
inductive Message where
  | control (text : List Char)
  | data (payload : Bytes)
deriving DecidableEq

/-- What `send_file` publishes, in order. -/
def sendFile (filename : String) (content : Bytes) (qos : Option ℤ) : List Message :=
  .control (metadataOf filename content qos).text :: (chunks content).map .data

/-! ## Chunks -/

theorem chunkSize_pos : 0 < chunkSize := by decide

@[simp] theorem length_readChunks (n : ℕ) (rest : Bytes) : (readChunks n rest).length = n := by
  induction n generalizing rest with
  | zero => rfl
  | succ n ih => rw [readChunks, List.length_cons, ih]

theorem length_chunks (content : Bytes) :
    (chunks content).length = calculateTotalChunks content.length := length_readChunks _ _

theorem flatten_readChunks (n : ℕ) (rest : Bytes) :
    (readChunks n rest).flatten = rest.take (n * chunkSize) := by
  induction n generalizing rest with
  | zero => simp [readChunks]
  | succ n ih =>
    rw [readChunks, List.flatten_cons, ih, Nat.succ_mul, Nat.add_comm, List.take_add]

/-- The chunks of a file of this length are all of it. -/
def Covered (fileSize : ℕ) : Prop := fileSize ≤ ⌈trueDiv fileSize chunkSize⌉₊ * chunkSize

theorem flatten_chunks_eq_iff (content : Bytes) :
    (chunks content).flatten = content ↔ Covered content.length := by
  rw [chunks, flatten_readChunks, List.take_eq_self_iff]
  rfl

/-! ## Counting chunks -/

theorem trueDiv_chunkSize (n : ℕ) : trueDiv n chunkSize = fl ((n : ℚ) * 2 ^ (-20 : ℤ)) := by
  rw [trueDiv, div_eq_mul_inv]
  norm_num [chunkSize]

/-- **Up to 2^53 bytes the chunks cover the file.** -/
theorem covered_of_le {n : ℕ} (h : n ≤ 2 ^ 53) : Covered n := by
  have hle := Nat.le_ceil ((n : ℚ) * 2 ^ (-20 : ℤ))
  rw [Covered, trueDiv_chunkSize, fl_natCast_mul_zpow h]
  have hq : (n : ℚ) ≤ (⌈(n : ℚ) * 2 ^ (-20 : ℤ)⌉₊ : ℚ) * chunkSize := by
    have hchunk : ((chunkSize : ℕ) : ℚ) = 2 ^ (20 : ℤ) := by norm_num [chunkSize]
    calc (n : ℚ) = n * 2 ^ (-20 : ℤ) * 2 ^ (20 : ℤ) := by
          rw [mul_assoc, ← zpow_add₀ (by norm_num)]; norm_num
      _ ≤ _ := by rw [hchunk]; exact mul_le_mul_of_nonneg_right hle (by positivity)
  exact_mod_cast hq

/-- A file that is not empty has a chunk. -/
theorem calculateTotalChunks_pos {n : ℕ} (h : 0 < n) : 0 < calculateTotalChunks n := by
  have hn : (0 : ℚ) < n := by exact_mod_cast h
  have hchunk : (0 : ℚ) < chunkSize := by exact_mod_cast chunkSize_pos
  exact Nat.ceil_pos.2 (fl_pos (div_pos hn hchunk))

/-- A file of at most `CHUNK_SIZE` bytes has one chunk. -/
theorem chunks_of_le {content : Bytes} (hne : content ≠ []) (hle : content.length ≤ chunkSize) :
    chunks content = [content] := by
  have hpos := calculateTotalChunks_pos (List.length_pos_iff.2 hne)
  have hone : calculateTotalChunks content.length ≤ 1 := by
    have hchunk : chunkSize ≤ 2 ^ 53 := by norm_num [chunkSize]
    have hq : (content.length : ℚ) ≤ 2 ^ (20 : ℤ) := by
      have : (content.length : ℚ) ≤ chunkSize := by exact_mod_cast hle
      exact this.trans_eq (by norm_num [chunkSize])
    rw [calculateTotalChunks, trueDiv_chunkSize, fl_natCast_mul_zpow (hle.trans hchunk),
      Nat.ceil_le]
    calc (content.length : ℚ) * 2 ^ (-20 : ℤ) ≤ 2 ^ (20 : ℤ) * 2 ^ (-20 : ℤ) :=
          mul_le_mul_of_nonneg_right hq (by positivity)
      _ = ((1 : ℕ) : ℚ) := by norm_num
  rw [chunks, show calculateTotalChunks content.length = 1 by omega, readChunks, readChunks,
    List.take_of_length_le hle]

/-- The quotient of 2^53 + 1 is a tie, rounded down to 2^33 chunks. -/
theorem not_covered : ¬ Covered (2 ^ 53 + 1) := by
  have hquot : (((2 ^ 53 + 1 : ℕ) : ℚ)) * 2 ^ (-20 : ℤ) =
      (((2 ^ 52 : ℕ) : ℚ) + 1 / 2) * 2 ^ (-19 : ℤ) := by norm_num
  have hfl := fl_tie_down (z := 2 ^ 52) le_rfl (by norm_num) (by norm_num) (-19)
  have hceil : ⌈((2 ^ 52 : ℕ) : ℚ) * 2 ^ (-19 : ℤ)⌉₊ = 2 ^ 33 := by
    have hval : ((2 ^ 52 : ℕ) : ℚ) * 2 ^ (-19 : ℤ) = ((2 ^ 33 : ℕ) : ℚ) := by norm_num
    rw [hval, Nat.ceil_natCast]
  rw [Covered, trueDiv_chunkSize, hquot, hfl, hceil, chunkSize]
  norm_num

end TransferTestbed.Chunking
