import Mathlib.Algebra.Group.Nat.Defs
import Mathlib.Data.Nat.Notation
import Mathlib.Data.List.Basic

/-!
# SHA-256

The hash function of FIPS 180-4 on byte strings, with its lower-case hexadecimal
digest. Everything that uses it treats it as a fixed function; its definition
matters only where a digest is evaluated.
-/

namespace TransferTestbed.Sha256

abbrev Word := BitVec 32

def roundConstants : List Word := [
  0x428a2f98, 0x71374491, 0xb5c0fbcf, 0xe9b5dba5, 0x3956c25b, 0x59f111f1, 0x923f82a4, 0xab1c5ed5,
  0xd807aa98, 0x12835b01, 0x243185be, 0x550c7dc3, 0x72be5d74, 0x80deb1fe, 0x9bdc06a7, 0xc19bf174,
  0xe49b69c1, 0xefbe4786, 0x0fc19dc6, 0x240ca1cc, 0x2de92c6f, 0x4a7484aa, 0x5cb0a9dc, 0x76f988da,
  0x983e5152, 0xa831c66d, 0xb00327c8, 0xbf597fc7, 0xc6e00bf3, 0xd5a79147, 0x06ca6351, 0x14292967,
  0x27b70a85, 0x2e1b2138, 0x4d2c6dfc, 0x53380d13, 0x650a7354, 0x766a0abb, 0x81c2c92e, 0x92722c85,
  0xa2bfe8a1, 0xa81a664b, 0xc24b8b70, 0xc76c51a3, 0xd192e819, 0xd6990624, 0xf40e3585, 0x106aa070,
  0x19a4c116, 0x1e376c08, 0x2748774c, 0x34b0bcb5, 0x391c0cb3, 0x4ed8aa4a, 0x5b9cca4f, 0x682e6ff3,
  0x748f82ee, 0x78a5636f, 0x84c87814, 0x8cc70208, 0x90befffa, 0xa4506ceb, 0xbef9a3f7, 0xc67178f2]

/-- The working variables, and the chaining value. -/
structure Work where
  a : Word
  b : Word
  c : Word
  d : Word
  e : Word
  f : Word
  g : Word
  h : Word
deriving DecidableEq

def initial : Work :=
  ⟨0x6a09e667, 0xbb67ae85, 0x3c6ef372, 0xa54ff53a, 0x510e527f, 0x9b05688c, 0x1f83d9ab, 0x5be0cd19⟩

def bigSigma0 (x : Word) : Word := x.rotateRight 2 ^^^ x.rotateRight 13 ^^^ x.rotateRight 22

def bigSigma1 (x : Word) : Word := x.rotateRight 6 ^^^ x.rotateRight 11 ^^^ x.rotateRight 25

def smallSigma0 (x : Word) : Word := x.rotateRight 7 ^^^ x.rotateRight 18 ^^^ (x >>> 3)

def smallSigma1 (x : Word) : Word := x.rotateRight 17 ^^^ x.rotateRight 19 ^^^ (x >>> 10)

/-- One round, on the working variables and the last 16 words of the message
    schedule, the oldest first. -/
def round (s : Work × List Word) (k : Word) : Work × List Word :=
  let (v, w) := s
  let wt := w.headD 0
  let t1 := v.h + bigSigma1 v.e + ((v.e &&& v.f) ^^^ (~~~ v.e &&& v.g)) + k + wt
  let t2 := bigSigma0 v.a + ((v.a &&& v.b) ^^^ (v.a &&& v.c) ^^^ (v.b &&& v.c))
  let next := smallSigma1 (w.getD 14 0) + w.getD 9 0 + smallSigma0 (w.getD 1 0) + wt
  (⟨t1 + t2, v.a, v.b, v.c, v.d + t1, v.e, v.f, v.g⟩, w.tail ++ [next])

def compress (h : Work) (block : List Word) : Work :=
  let v := (roundConstants.foldl round (h, block)).1
  ⟨h.a + v.a, h.b + v.b, h.c + v.c, h.d + v.d, h.e + v.e, h.f + v.f, h.g + v.g, h.h + v.h⟩

/-- A big-endian word. -/
def word (bytes : List UInt8) : Word :=
  BitVec.ofNat 32 (bytes.foldl (fun n x => n * 256 + x.toNat) 0)

/-- The message, a one bit, zeros, and the length in bits in the last eight bytes. -/
def pad (m : List UInt8) : List UInt8 :=
  m ++ [0x80] ++ List.replicate ((119 - m.length % 64) % 64) 0 ++
    ((List.range 8).map fun i => UInt8.ofNat (m.length * 8 / 256 ^ (7 - i)))

def hash (m : List UInt8) : Work :=
  ((((pad m).toChunks 4).map word).toChunks 16).foldl compress initial

def hexDigit (n : ℕ) : Char := if n < 10 then Char.ofNat (48 + n) else Char.ofNat (87 + n)

def wordHex (w : Word) : List Char :=
  (List.range 8).map fun i => hexDigit (w.toNat / 16 ^ (7 - i) % 16)

/-- `hashlib.sha256(m).hexdigest()`. -/
@[irreducible] def hexdigest (m : List UInt8) : String :=
  let v := hash m
  String.ofList ([v.a, v.b, v.c, v.d, v.e, v.f, v.g, v.h].flatMap wordHex)

-- the digest of the empty string
example : hexdigest [] = "e3b0c44298fc1c149afbf4c8996fb92427ae41e4649b934ca495991b7852b855" := by
  decide +kernel

end TransferTestbed.Sha256
