import NovusHeadless.Cryptography.SHA1
import NovusHeadless.Lib.Keystream

/-!
# `StreamCrypto` (`Cryptography/StreamCrypto.h`, `ArcFour.h`, `HMAC.h` and their sources)

HMAC-SHA1 and RC4 are OpenSSL's, and parameters of the model: a function of two byte strings, and a
keystream for each key.  The last section has both as executable functions, for runs on concrete input.

* `updateEncryption_of_lt` — `ArcFour::UpdateEncryption` on less than `2 ^ 31` bytes;
* `setupClient_eq`, `setupServer_eq` — what the two set-ups leave behind.
-/

namespace NovusHeadless

open Lib

/-- What is used of OpenSSL. -/
structure OpenSsl where
  /-- HMAC-SHA1 of a message under a key -/
  hmac : Bytes → Bytes → Digest
  /-- the keystream of RC4 under a key of 20 bytes -/
  keystream : Digest → ℕ → UInt8

variable (o : OpenSsl)

/-- `HMACH(16, seed)` and `CalculateHash(bigNumber)`. -/
def calculateHash (seed : Bytes) (bigNumber : BigNumber) : Digest :=
  o.hmac (seed.take 16) ((bigNumber.bn2BinArray 0 true).take bigNumber.getBytes)

/-! ### `ArcFour` -/

/-- An RC4 context: its key and the number of bytes processed since the key was set. -/
structure ArcFour where
  key : Digest
  processed : ℕ

namespace ArcFour

/-- `ArcFour(20)`; no key is set yet. -/
def new : ArcFour := ⟨Vector.replicate 20 0, 0⟩

/-- `Setup`. -/
def setup (_ : ArcFour) (seed : Digest) : ArcFour := ⟨seed, 0⟩

/-- `EVP_EncryptUpdate` in place: a length that is not positive processes nothing. -/
def encryptUpdate (c : ArcFour) (data : Bytes) (inl : ℤ) : Bytes × ArcFour :=
  if inl ≤ 0 then (data, c)
  else
    (xorFrom (o.keystream c.key) c.processed (data.take inl.toNat) ++ data.drop inl.toNat,
      { c with processed := c.processed + inl.toNat })

/-- `UpdateEncryption`; `EVP_EncryptFinal_ex` does nothing for a stream cipher. -/
def updateEncryption (c : ArcFour) (size : ℕ) (data : Bytes) : Bytes × ArcFour :=
  c.encryptUpdate o data (toI32 size)

variable {o}

/-- **Below `2 ^ 31` bytes** the whole chunk is processed. -/
theorem updateEncryption_of_lt (c : ArcFour) {data : Bytes} (h : data.length < 2 ^ 31) :
    c.updateEncryption o data.length data =
      (xorFrom (o.keystream c.key) c.processed data,
        { c with processed := c.processed + data.length }) := by
  unfold updateEncryption encryptUpdate
  rw [toI32_of_lt h]
  by_cases h0 : data = []
  · subst h0
    rfl
  · have hpos := List.length_pos_iff.2 h0
    rw [if_neg (by omega), Int.toNat_natCast, List.take_length, List.drop_length, List.append_nil]

/-- From `2 ^ 31` bytes on up to `2 ^ 32` the length is negative, and nothing is processed. -/
theorem updateEncryption_of_ge (c : ArcFour) {data : Bytes} (h : 2 ^ 31 ≤ data.length)
    (h' : data.length < 2 ^ 32) : c.updateEncryption o data.length data = (data, c) := by
  have hsize : toI32 data.length ≤ 0 := by
    unfold toI32
    rw [Int.bmod_def]
    omega
  unfold updateEncryption encryptUpdate
  rw [if_pos hsize]

end ArcFour

/-! ### `StreamCrypto` -/

structure StreamCrypto where
  cDecrypt : ArcFour
  sEncrypt : ArcFour
  valid : Bool

namespace StreamCrypto

/-- `StreamCrypto()`. -/
def new : StreamCrypto := ⟨.new, .new, false⟩

/-- `SetupClient`. -/
def setupClient (s : StreamCrypto) (key : BigNumber) : StreamCrypto :=
  let cEncryptionKey : Bytes := [0xC2, 0xB3, 0x72, 0x3C, 0xC6, 0xAE, 0xD9, 0xB5, 0x34, 0x3C, 0x53,
    0xEE, 0x2F, 0x43, 0x67, 0xCE]
  let eHash := calculateHash o cEncryptionKey key
  let sDecryptionKey : Bytes := [0xCC, 0x98, 0xAE, 0x04, 0xE8, 0x97, 0xEA, 0xCA, 0x12, 0xDD, 0xC0,
    0x93, 0x42, 0x91, 0x53, 0x57]
  let dHash := calculateHash o sDecryptionKey key
  let sEncrypt := s.sEncrypt.setup eHash
  let cDecrypt := s.cDecrypt.setup dHash
  let dropBuffer : Bytes := List.replicate 1024 0
  { sEncrypt := (sEncrypt.updateEncryption o 1024 dropBuffer).2
    cDecrypt := (cDecrypt.updateEncryption o 1024 dropBuffer).2
    valid := true }

/-- `SetupServer`. -/
def setupServer (s : StreamCrypto) (key : BigNumber) : StreamCrypto :=
  let sEncryptionKey : Bytes := [0xCC, 0x98, 0xAE, 0x04, 0xE8, 0x97, 0xEA, 0xCA, 0x12, 0xDD, 0xC0,
    0x93, 0x42, 0x91, 0x53, 0x57]
  let eHash := calculateHash o sEncryptionKey key
  let cDecryptionKey : Bytes := [0xC2, 0xB3, 0x72, 0x3C, 0xC6, 0xAE, 0xD9, 0xB5, 0x34, 0x3C, 0x53,
    0xEE, 0x2F, 0x43, 0x67, 0xCE]
  let dHash := calculateHash o cDecryptionKey key
  let sEncrypt := s.sEncrypt.setup eHash
  let cDecrypt := s.cDecrypt.setup dHash
  let dropBuffer : Bytes := List.replicate 1024 0
  { sEncrypt := (sEncrypt.updateEncryption o 1024 dropBuffer).2
    cDecrypt := (cDecrypt.updateEncryption o 1024 dropBuffer).2
    valid := true }

/-- `Decrypt(data, size)` on the `size` bytes `data`. -/
def decrypt (s : StreamCrypto) (data : Bytes) : Bytes × StreamCrypto :=
  if !s.valid then (data, s)
  else
    let (data, cDecrypt) := s.cDecrypt.updateEncryption o data.length data
    (data, { s with cDecrypt := cDecrypt })

/-- `Encrypt(data, size)` on the `size` bytes `data`. -/
def encrypt (s : StreamCrypto) (data : Bytes) : Bytes × StreamCrypto :=
  if !s.valid then (data, s)
  else
    let (data, sEncrypt) := s.sEncrypt.updateEncryption o data.length data
    (data, { s with sEncrypt := sEncrypt })

/-- The key of the direction from the client to the server. -/
def clientToServer (key : BigNumber) : Digest :=
  calculateHash o [0xC2, 0xB3, 0x72, 0x3C, 0xC6, 0xAE, 0xD9, 0xB5, 0x34, 0x3C, 0x53, 0xEE, 0x2F, 0x43,
    0x67, 0xCE] key

/-- The key of the direction from the server to the client. -/
def serverToClient (key : BigNumber) : Digest :=
  calculateHash o [0xCC, 0x98, 0xAE, 0x04, 0xE8, 0x97, 0xEA, 0xCA, 0x12, 0xDD, 0xC0, 0x93, 0x42, 0x91,
    0x53, 0x57] key

variable {o}

lemma drop_1024 (c : ArcFour) (seed : Digest) :
    ((c.setup seed).updateEncryption o 1024 (List.replicate 1024 0)).2 = ⟨seed, 1024⟩ := by
  have hlen : (List.replicate 1024 (0 : UInt8)).length = 1024 := List.length_replicate
  have h := ArcFour.updateEncryption_of_lt (o := o) (c.setup seed)
    (show (List.replicate 1024 (0 : UInt8)).length < 2 ^ 31 by rw [hlen]; norm_num)
  rw [hlen] at h
  rw [h]
  rfl

theorem setupClient_eq (s : StreamCrypto) (key : BigNumber) :
    s.setupClient o key =
      ⟨⟨serverToClient o key, 1024⟩, ⟨clientToServer o key, 1024⟩, true⟩ := by
  unfold setupClient
  simp only [drop_1024]
  rfl

theorem setupServer_eq (s : StreamCrypto) (key : BigNumber) :
    s.setupServer o key =
      ⟨⟨clientToServer o key, 1024⟩, ⟨serverToClient o key, 1024⟩, true⟩ := by
  unfold setupServer
  simp only [drop_1024]
  rfl

lemma encrypt_of_lt {s : StreamCrypto} (hv : s.valid = true) {data : Bytes}
    (h : data.length < 2 ^ 31) :
    s.encrypt o data =
      (xorFrom (o.keystream s.sEncrypt.key) s.sEncrypt.processed data,
        { s with sEncrypt := ⟨s.sEncrypt.key, s.sEncrypt.processed + data.length⟩ }) := by
  unfold encrypt
  rw [ArcFour.updateEncryption_of_lt _ h, if_neg (by simp [hv])]

lemma encrypt_of_ge {s : StreamCrypto} {data : Bytes} (h : 2 ^ 31 ≤ data.length)
    (h' : data.length < 2 ^ 32) : s.encrypt o data = (data, s) := by
  unfold encrypt
  rw [ArcFour.updateEncryption_of_ge _ h h']
  split <;> rfl

lemma decrypt_of_lt {s : StreamCrypto} (hv : s.valid = true) {data : Bytes}
    (h : data.length < 2 ^ 31) :
    s.decrypt o data =
      (xorFrom (o.keystream s.cDecrypt.key) s.cDecrypt.processed data,
        { s with cDecrypt := ⟨s.cDecrypt.key, s.cDecrypt.processed + data.length⟩ }) := by
  unfold decrypt
  rw [ArcFour.updateEncryption_of_lt _ h, if_neg (by simp [hv])]

end StreamCrypto

/-! ### HMAC-SHA1 and RC4 -/

/-- HMAC-SHA1 under a key of at most 64 bytes. -/
def Sha1.hmac (key message : Bytes) : Digest :=
  let block := key ++ List.replicate (64 - key.length) 0
  let inner := hash (block.map (· ^^^ 0x36) ++ message)
  hash (block.map (· ^^^ 0x5C) ++ inner.toList)

namespace Rc4

/-- The permutation, packed into a number with one byte for each entry, and the two indices. -/
structure State where
  s : ℕ
  i : ℕ
  j : ℕ

def entry (s i : ℕ) : ℕ := s / 256 ^ i % 256

def swap (s i j : ℕ) : ℕ :=
  s + entry s j * 256 ^ i + entry s i * 256 ^ j - entry s i * 256 ^ i - entry s j * 256 ^ j

/-- The key schedule. -/
def schedule (key : Bytes) : ℕ :=
  ((List.range 256).foldl
    (fun (s, j) i =>
      let j := (j + entry s i + (key.getD (i % key.length) 0).toNat) % 256
      (swap s i j, j))
    (Nat.ofDigits 256 (List.range 256), 0)).1

def next (r : State) : State :=
  let i := (r.i + 1) % 256
  let j := (r.j + entry r.s i) % 256
  ⟨swap r.s i j, i, j⟩

/-- The byte of the keystream at the position `n`. -/
def keystream (key : Digest) (n : ℕ) : UInt8 :=
  let r := next^[n + 1] ⟨schedule key.toList, 0, 0⟩
  UInt8.ofNat (entry r.s ((entry r.s r.i + entry r.s r.j) % 256))

end Rc4

/-- The functions themselves. -/
def OpenSsl.actual : OpenSsl := ⟨Sha1.hmac, Rc4.keystream⟩

/-- The first byte behind the drop, client to server, for the session key 1. -/
lemma keystream_actual :
    OpenSsl.actual.keystream (StreamCrypto.clientToServer .actual ⟨1⟩) 1024 = 41 := by
  decide +kernel

end NovusHeadless
