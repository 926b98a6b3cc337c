import NovusHeadless.Cryptography.BigNumber

/-!
# `SHA1Hasher` (`Cryptography/SHA1.h`, `SHA1.cpp`)

The hasher is modelled by the bytes fed to it since the last `SHA1_Init` and by the digest of the last
`Finish`.  The hash function itself is OpenSSL's; the model takes it as a parameter `sha1`.  The last
section is SHA-1 as an executable function, for runs on concrete input.
-/

namespace NovusHeadless

open Lib

/-- `u8 _data[SHA_DIGEST_LENGTH]`. -/
abbrev Digest := Vector UInt8 20

structure SHA1Hasher where
  /-- the bytes fed since `SHA1_Init` -/
  state : Bytes
  data : Digest

namespace SHA1Hasher

/-- `SHA1Hasher()`.  `Init` leads to the same `state`; the `_data` it keeps is overwritten by the next
`Finish` before anything reads it. -/
def new : SHA1Hasher := ⟨[], Vector.replicate 20 0⟩

def updateHash (h : SHA1Hasher) (data : Bytes) : SHA1Hasher := { h with state := h.state ++ data }

/-- `UpdateHashForBn(n, ..)` for `n` numbers: each is fed as its `GetBytes()` little-endian bytes. -/
def updateHashForBn (h : SHA1Hasher) (bigNumbers : List BigNumber) : SHA1Hasher :=
  bigNumbers.foldl
    (fun h tempBn => h.updateHash ((tempBn.bn2BinArray 0 true).take tempBn.getBytes)) h

def finish (sha1 : Bytes → Digest) (h : SHA1Hasher) : SHA1Hasher := { h with data := sha1 h.state }

/-- What `UpdateHashForBn` feeds for one number: its shortest little-endian string. -/
lemma take_bn2BinArray (v : BigNumber) :
    (v.bn2BinArray 0 true).take v.getBytes = leBytes v.bigNum.natAbs := by
  rw [BigNumber.bn2BinArray_true v (by norm_num)]
  unfold padded BigNumber.getBytes BN.numBytes
  rw [List.take_left' rfl]

/-- **`UpdateHashForBn` feeds the shortest encodings, one after the other.** -/
theorem state_updateHashForBn (h : SHA1Hasher) (bns : List BigNumber) :
    (h.updateHashForBn bns).state =
      h.state ++ (bns.map fun v => leBytes v.bigNum.natAbs).flatten := by
  unfold updateHashForBn
  induction bns generalizing h with
  | nil => simp
  | cons v bns ih =>
    rw [List.foldl_cons, ih, take_bn2BinArray]
    simp [updateHash]

@[simp] lemma state_new : new.state = [] := rfl
@[simp] lemma state_updateHash (h : SHA1Hasher) (d : Bytes) :
    (h.updateHash d).state = h.state ++ d := rfl
@[simp] lemma data_finish (sha1 : Bytes → Digest) (h : SHA1Hasher) :
    (h.finish sha1).data = sha1 h.state := rfl

end SHA1Hasher

/-! ### SHA-1 -/

namespace Sha1

/-- Rotation of a 32-bit word to the left. -/
def rotl (n x : ℕ) : ℕ := ((x <<< n) ||| (x >>> (32 - n))) % 2 ^ 32

/-- The message, the bit `1`, zeros up to eight bytes before a block's end, and the length in bits. -/
def pad (message : Bytes) : Bytes :=
  message ++ [0x80] ++ List.replicate ((119 - message.length % 64) % 64) 0 ++
    (List.range 8).map fun i => UInt8.ofNat (message.length * 8 / 256 ^ (7 - i))

/-- The big-endian words of a block. -/
def words (block : Bytes) : List ℕ :=
  (List.range 16).map fun i =>
    ((List.range 4).map fun j => (block.getD (4 * i + j) 0).toNat * 256 ^ (3 - j)).sum

/-- The message schedule, last word first. -/
def schedule (block : Bytes) : ℕ → List ℕ
  | 0 => (words block).reverse
  | n + 1 =>
    let w := schedule block n
    rotl 1 (w.getD 2 0 ^^^ w.getD 7 0 ^^^ w.getD 13 0 ^^^ w.getD 15 0) :: w

structure Registers where
  (a b c d e : ℕ)

/-- The round function and constant of the rounds `20 * k .. 20 * k + 19`. -/
def roundFunction (k b c d : ℕ) : ℕ × ℕ :=
  match k with
  | 0 => ((b &&& c) ||| ((b ^^^ (2 ^ 32 - 1)) &&& d), 0x5A827999)
  | 1 => (b ^^^ c ^^^ d, 0x6ED9EBA1)
  | 2 => ((b &&& c) ||| (b &&& d) ||| (c &&& d), 0x8F1BBCDC)
  | _ => (b ^^^ c ^^^ d, 0xCA62C1D6)

def round (r : Registers) (w : ℕ × ℕ) : Registers :=
  let (f, k) := roundFunction (w.2 / 20) r.b r.c r.d
  ⟨(rotl 5 r.a + f + r.e + k + w.1) % 2 ^ 32, r.a, rotl 30 r.b, r.c, r.d⟩

def compress (h : Registers) (block : Bytes) : Registers :=
  let r := (schedule block 64).reverse.zipIdx.foldl round h
  ⟨(h.a + r.a) % 2 ^ 32, (h.b + r.b) % 2 ^ 32, (h.c + r.c) % 2 ^ 32, (h.d + r.d) % 2 ^ 32,
    (h.e + r.e) % 2 ^ 32⟩

/-- SHA-1 of a byte string. -/
def hash (message : Bytes) : Digest :=
  let padded := pad message
  let blocks := (List.range (padded.length / 64)).map fun i => (padded.drop (64 * i)).take 64
  let h := blocks.foldl compress ⟨0x67452301, 0xEFCDAB89, 0x98BADCFE, 0x10325476, 0xC3D2E1F0⟩
  Vector.ofFn fun i =>
    UInt8.ofNat (([h.a, h.b, h.c, h.d, h.e].getD (i / 4) 0) / 256 ^ (3 - i.val % 4))

end Sha1

/-- The digest of the string `abc`. -/
example : (Sha1.hash [0x61, 0x62, 0x63]).toList =
    [0xA9, 0x99, 0x3E, 0x36, 0x47, 0x06, 0x81, 0x6A, 0xBA, 0x3E,
      0x25, 0x71, 0x78, 0x50, 0xC2, 0x6C, 0x9C, 0xD0, 0xD8, 0x9D] := by decide +kernel

end NovusHeadless
