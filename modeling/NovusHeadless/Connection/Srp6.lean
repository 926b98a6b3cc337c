import NovusHeadless.Connection.Messages

/-!
# The SRP6 computation of `HandleCommandChallenge`

The arithmetic of `NovusConnection::HandleCommandChallenge`, one definition for each block of the
function, collected in `ChallengeLocals` (its local variables after the block "Finish SRP6").  SHA-1 is
the parameter `sha1`, and the private value is the outcome of `a.Rand(19 * 8)`.

`shaU`, `shaM1` and `shaM2` are the hashers right before the `Finish` that gives `u`, `M` and
`_proofM2`; what has been fed to them is `state_shaU`, `state_shaM1`, `state_shaM2`.
-/

namespace NovusHeadless

open Lib

/-- A result of `BN_rand(a, 152, 0, 1)`: 152 bits, the most significant and the least significant
set. -/
structure PrivateKey where
  val : ℕ
  lower : 2 ^ 151 ≤ val
  upper : val < 2 ^ 152
  odd : val % 2 = 1

namespace PrivateKey

def toBigNumber (a : PrivateKey) : BigNumber := ⟨a.val⟩

/-- The smallest private value. -/
def first : PrivateKey := ⟨2 ^ 151 + 1, by norm_num, by norm_num, by norm_num⟩

/-- The one behind it. -/
def second : PrivateKey := ⟨2 ^ 151 + 3, by norm_num, by norm_num, by norm_num⟩

end PrivateKey

/-! ### The blocks of the function -/

section Blocks

variable (sha1 : Bytes → Digest)

/-- The digest of what has been fed to a hasher, as a number. -/
def digestNumber (sha : SHA1Hasher) : BigNumber :=
  .bin2BN (sha.finish sha1).data.toList 20

/-- "Hash password" of `Start`: `SHA1(username:password)`. -/
def passwordHash (username password : Bytes) : BigNumber :=
  digestNumber sha1 (SHA1Hasher.new.updateHash (username ++ [0x3A] ++ password))

/-- "Hash password". -/
def privateX (salt passwordKey : BigNumber) : BigNumber :=
  digestNumber sha1 (SHA1Hasher.new.updateHashForBn [salt, passwordKey])

/-- "Random Key Pair". -/
def publicA (g a N : BigNumber) : BigNumber := g.modExponential a N

/-- The hasher of `u`. -/
def hasherU (A B : BigNumber) : SHA1Hasher := SHA1Hasher.new.updateHashForBn [A, B]

/-- "Compute Session Key": `S`, with `k = 3`. -/
def sessionSecret (N g B a u x : BigNumber) : BigNumber :=
  (B - (.ofUInt32 3 * g.modExponential x N)).modExponential (a + (u * x)) N

/-- `t1[i] = t[i * 2 + k]`. -/
def everySecond (t : Bytes) (k : ℕ) : Bytes := (List.range 16).map fun i => t.getD (i * 2 + k) 0

/-- `vK`: the digests of the bytes of `S` at even and at odd places, interleaved. -/
def sessionKey (S : BigNumber) : Vector UInt8 40 :=
  let t := (S.bn2BinArray 32 true).take 32
  let even := ((SHA1Hasher.new.updateHash (everySecond t 0)).finish sha1).data
  let odd := ((SHA1Hasher.new.updateHash (everySecond t 1)).finish sha1).data
  Vector.ofFn fun i =>
    if i.val % 2 = 0 then even.toList.getD (i / 2) 0 else odd.toList.getD (i / 2) 0

/-- `hash`: the xor of `SHA1(N)` and `SHA1(g)`. -/
def hashXor (N g : BigNumber) : Vector UInt8 20 :=
  let hash := ((SHA1Hasher.new.updateHashForBn [N]).finish sha1).data
  let hashG := ((SHA1Hasher.new.updateHashForBn [g]).finish sha1).data
  Vector.zipWith (· ^^^ ·) hash hashG

/-- The hasher of `M`. -/
def hasherM1 (t3 : BigNumber) (t4 : Digest) (salt A B key : BigNumber) : SHA1Hasher :=
  ((SHA1Hasher.new.updateHashForBn [t3]).updateHash t4.toList).updateHashForBn [salt, A, B, key]

/-- The hasher of `_proofM2`. -/
def hasherM2 (A M key : BigNumber) : SHA1Hasher := SHA1Hasher.new.updateHashForBn [A, M, key]

/-- The local variables of `HandleCommandChallenge`. -/
structure ChallengeLocals where
  N : BigNumber
  A : BigNumber
  B : BigNumber
  a : BigNumber
  u : BigNumber
  x : BigNumber
  S : BigNumber
  salt : BigNumber
  g : BigNumber
  vK : Vector UInt8 40
  /-- what `_key` is set to -/
  key : BigNumber
  hash : Vector UInt8 20
  t3 : BigNumber
  t4 : Digest
  M : BigNumber
  logonProof : CAuthLogonProof
  proofM2 : Digest
  shaU : SHA1Hasher
  shaM1 : SHA1Hasher
  shaM2 : SHA1Hasher

/-- What the function computes from the reply, the private value and the fields of the connection. -/
def challengeLocals (private_a : PrivateKey) (username : Bytes) (passwordKey : BigNumber)
    (logonChallenge : SAuthLogonChallengeData) : ChallengeLocals :=
  let g : BigNumber := .ofUInt32 logonChallenge.g.toNat
  let B : BigNumber := .bin2BN logonChallenge.b.toList 32
  let N : BigNumber := .bin2BN logonChallenge.n.toList 32
  let salt : BigNumber := .bin2BN logonChallenge.salt.toList 32
  let x := privateX sha1 salt passwordKey
  let a := private_a.toBigNumber
  let A := publicA g a N
  let shaU := hasherU A B
  let u := digestNumber sha1 shaU
  let S := sessionSecret N g B a u x
  let vK := sessionKey sha1 S
  let key : BigNumber := .bin2BN vK.toList 40
  let hash := hashXor sha1 N g
  let t3 : BigNumber := .bin2BN hash.toList 20
  let t4 := ((SHA1Hasher.new.updateHash username).finish sha1).data
  let shaM1 := hasherM1 t3 t4 salt A B key
  let M := digestNumber sha1 shaM1
  let logonProof : CAuthLogonProof :=
    { command := NovusCommand.proof.code
      A := (A.bn2BinArray 32 true).take 32
      M1 := (M.bn2BinArray 20 true).take 20
      crcHash := List.replicate 20 0
      numberOfKeys := 0
      securityFlags := 0 }
  let shaM2 := hasherM2 A M key
  { N, A, B, a, u, x, S, salt, g, vK, key, hash, t3, t4, M, logonProof, shaU, shaM1, shaM2
    proofM2 := (shaM2.finish sha1).data }

/-- The reply passes the test `(B % N).IsZero()`. -/
def SAuthLogonChallengeData.Accepted (m : SAuthLogonChallengeData) : Prop :=
  ((BigNumber.bin2BN m.b.toList 32) % (BigNumber.bin2BN m.n.toList 32)).isZero = false

instance (m : SAuthLogonChallengeData) : Decidable m.Accepted := by
  unfold SAuthLogonChallengeData.Accepted; infer_instance

lemma bigNum_bin2BN_vector {n : ℕ} (v : Vector UInt8 n) :
    (BigNumber.bin2BN v.toList n).bigNum = leVal v.toList :=
  BigNumber.bigNum_bin2BN (Vector.length_toList ..)

lemma bin2BN_vector {n : ℕ} (v : Vector UInt8 n) :
    BigNumber.bin2BN v.toList n = ⟨(leVal v.toList : ℕ)⟩ :=
  congrArg BigNumber.mk (bigNum_bin2BN_vector v)

/-- The test in numbers; with the modulus zero it only asks for a `B` that is not zero. -/
lemma accepted_iff (m : SAuthLogonChallengeData) :
    m.Accepted ↔ leVal m.b.toList % leVal m.n.toList ≠ 0 := by
  unfold SAuthLogonChallengeData.Accepted
  rw [BigNumber.isZero_mod (BigNumber.bin2BN_nonneg _ _), bigNum_bin2BN_vector,
    bigNum_bin2BN_vector, decide_eq_false_iff_not]
  exact_mod_cast Iff.rfl

/-! ### What has been fed to the hashers -/

variable {sha1}

theorem state_hasherU (A B : BigNumber) :
    (hasherU A B).state = leBytes A.bigNum.natAbs ++ leBytes B.bigNum.natAbs := by
  unfold hasherU
  rw [SHA1Hasher.state_updateHashForBn]
  simp

theorem state_hasherM1 (t3 : BigNumber) (t4 : Digest) (salt A B key : BigNumber) :
    (hasherM1 t3 t4 salt A B key).state =
      leBytes t3.bigNum.natAbs ++ t4.toList ++ leBytes salt.bigNum.natAbs ++
        leBytes A.bigNum.natAbs ++ leBytes B.bigNum.natAbs ++ leBytes key.bigNum.natAbs := by
  unfold hasherM1
  rw [SHA1Hasher.state_updateHashForBn, SHA1Hasher.state_updateHash,
    SHA1Hasher.state_updateHashForBn]
  simp

theorem state_hasherM2 (A M key : BigNumber) :
    (hasherM2 A M key).state =
      leBytes A.bigNum.natAbs ++ leBytes M.bigNum.natAbs ++ leBytes key.bigNum.natAbs := by
  unfold hasherM2
  rw [SHA1Hasher.state_updateHashForBn]
  simp

/-! ### Sizes -/

/-- `sizeof(cAuthLogonProof)`. -/
theorem length_logonProof (private_a : PrivateKey) (username : Bytes) (passwordKey : BigNumber)
    (m : SAuthLogonChallengeData) :
    (challengeLocals sha1 private_a username passwordKey m).logonProof.toBytes.length = 75 := by
  unfold challengeLocals CAuthLogonProof.toBytes
  have h32 : (32 : ℕ) < 2 ^ 31 := by norm_num
  have h20 : (20 : ℕ) < 2 ^ 31 := by norm_num
  simp only [BigNumber.bn2BinArray_true _ h32, BigNumber.bn2BinArray_true _ h20,
    List.length_append, List.length_cons, List.length_nil, length_take_padded,
    List.length_replicate]

lemma publicA_lt (g a : BigNumber) (n : Vector UInt8 32) :
    (publicA g a (.bin2BN n.toList 32)).bigNum.natAbs < 256 ^ 32 := by
  have hN := BigNumber.bin2BN_lt n.toList 32
  have hN0 := BigNumber.bin2BN_nonneg n.toList 32
  have h0 := BigNumber.modExponential_nonneg g a _ hN0
  unfold publicA
  rcases hN0.eq_or_lt with hz | hpos
  · rw [BigNumber.modExponential_zero _ _ _ hz.symm]
    norm_num
  · have := BigNumber.modExponential_lt g a _ hpos
    omega

/-- `assert(A.GetBytes() <= 32)` passes for every reply. -/
theorem getBytes_publicA_le (g a : BigNumber) (n : Vector UInt8 32) :
    (publicA g a (.bin2BN n.toList 32)).getBytes ≤ 32 := length_leBytes_le (publicA_lt g a n)

end Blocks

end NovusHeadless
