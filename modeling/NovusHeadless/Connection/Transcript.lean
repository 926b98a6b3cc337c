import NovusHeadless.Connection.Runs

/-!
# What is hashed and what is sent

`UpdateHashForBn` feeds a number at its shortest length, while the packet and the reply have it at a
fixed width.

* `FullWidth`, `fullWidth` — the computation of a party that hashes the fields as they stand on the wire;
* `OnWire` — the hashers of `HandleCommandChallenge` have been fed the fields as they stand on the wire,
  so that no other pair of public values has the same input for `u`;
* `onWire_iff` — this is the case exactly when no field of the full-width computation has a most
  significant byte that is zero.
-/

namespace NovusHeadless

open Lib

/-- The fields that a party which hashes at full width computes. -/
structure FullWidth where
  /-- the 32 bytes of `A` -/
  A : Bytes
  hash : Vector UInt8 20
  vK : Vector UInt8 40
  M1 : Digest

/-- The computation at full width, from what `HandleCommandChallenge` reads. -/
def fullWidth (sha1 : Bytes → Digest) (private_a : PrivateKey) (username : Bytes)
    (passwordKey : BigNumber) (m : SAuthLogonChallengeData) : FullWidth :=
  let g : BigNumber := .ofUInt32 m.g.toNat
  let B : BigNumber := .bin2BN m.b.toList 32
  let N : BigNumber := .bin2BN m.n.toList 32
  let x := privateX sha1 (.bin2BN m.salt.toList 32) passwordKey
  let a := private_a.toBigNumber
  let A := padded 32 (publicA g a N).bigNum.natAbs
  let u : BigNumber := .bin2BN (sha1 (A ++ m.b.toList)).toList 20
  let vK := sessionKey sha1 (sessionSecret N g B a u x)
  let hash := hashXor sha1 N g
  { A, hash, vK
    M1 := sha1 (hash.toList ++ (sha1 username).toList ++ m.salt.toList ++ A ++ m.b.toList ++
      vK.toList) }

/-- The most significant bytes of the fields that are hashed. -/
structure NoZeroTop (f : FullWidth) (m : SAuthLogonChallengeData) : Prop where
  A : f.A.getLast? ≠ some 0
  b : m.b.toList.getLast? ≠ some 0
  hash : f.hash.toList.getLast? ≠ some 0
  salt : m.salt.toList.getLast? ≠ some 0
  vK : f.vK.toList.getLast? ≠ some 0
  M1 : f.M1.toList.getLast? ≠ some 0

/-- The hashers have been fed the fields as they stand on the wire. -/
structure OnWire (sha1 : Bytes → Digest) (username : Bytes) (m : SAuthLogonChallengeData)
    (l : ChallengeLocals) : Prop where
  u : l.shaU.state = l.logonProof.A ++ m.b.toList
  M1 : l.shaM1.state = l.hash.toList ++ (sha1 username).toList ++ m.salt.toList ++ l.logonProof.A ++
    m.b.toList ++ l.vK.toList
  M2 : l.shaM2.state = l.logonProof.A ++ l.logonProof.M1 ++ l.vK.toList
  pair : ∀ private_a' username' passwordKey' m',
    (challengeLocals sha1 private_a' username' passwordKey' m').shaU.state = l.shaU.state →
      (challengeLocals sha1 private_a' username' passwordKey' m').A = l.A ∧
        (challengeLocals sha1 private_a' username' passwordKey' m').B = l.B

section

variable {sha1 : Bytes → Digest} {private_a : PrivateKey} {username : Bytes}
  {passwordKey : BigNumber} {m : SAuthLogonChallengeData}

/-! ### The encodings of the fields -/

/-- A number that has been read from bytes is fed to a hasher without its zero top bytes. -/
lemma leBytes_bin2BN {n : ℕ} (v : Vector UInt8 n) :
    leBytes (BigNumber.bin2BN v.toList n).bigNum.natAbs = trim v.toList := by
  rw [bigNum_bin2BN_vector, Int.natAbs_natCast, leBytes_leVal]

/-- `A` as it is sent. -/
def sentA (private_a : PrivateKey) (m : SAuthLogonChallengeData) : Bytes :=
  padded 32 (publicA (.ofUInt32 m.g.toNat) private_a.toBigNumber (.bin2BN m.n.toList 32)).bigNum.natAbs

lemma length_sentA : (sentA private_a m).length = 32 := length_padded (publicA_lt _ _ _)

lemma logonProof_A :
    (challengeLocals sha1 private_a username passwordKey m).logonProof.A = sentA private_a m := by
  show ((publicA _ _ _).bn2BinArray 32 true).take 32 = _
  rw [BigNumber.bn2BinArray_true _ (by norm_num)]
  exact List.take_of_length_le length_sentA.le

lemma logonProof_M1 :
    (challengeLocals sha1 private_a username passwordKey m).logonProof.M1 =
      (sha1 (challengeLocals sha1 private_a username passwordKey m).shaM1.state).toList := by
  show ((digestNumber sha1 _).bn2BinArray 20 true).take 20 = _
  unfold digestNumber
  rw [BigNumber.bn2BinArray_true _ (by norm_num), bigNum_bin2BN_vector, Int.natAbs_natCast]
  have h := padded_leVal (sha1 (challengeLocals sha1 private_a username passwordKey m).shaM1.state).toList
  rw [Vector.length_toList] at h
  rw [SHA1Hasher.data_finish]
  exact (congrArg (List.take 20) h).trans (List.take_of_length_le (by rw [Vector.length_toList]))

/-! ### What has been fed -/

lemma state_shaU :
    (challengeLocals sha1 private_a username passwordKey m).shaU.state =
      trim (sentA private_a m) ++ trim m.b.toList := by
  show (hasherU _ _).state = _
  rw [state_hasherU, leBytes_bin2BN, sentA, trim_padded]

lemma state_shaM1 :
    (challengeLocals sha1 private_a username passwordKey m).shaM1.state =
      trim (hashXor sha1 (.bin2BN m.n.toList 32) (.ofUInt32 m.g.toNat)).toList ++
        ((sha1 username).toList ++ ([m.salt.toList, sentA private_a m, m.b.toList,
          (challengeLocals sha1 private_a username passwordKey m).vK.toList].map trim).flatten) := by
  show (hasherM1 _ _ _ _ _ _).state = _
  rw [state_hasherM1, leBytes_bin2BN, leBytes_bin2BN, leBytes_bin2BN, leBytes_bin2BN,
    ← trim_padded 32]
  simp only [List.map_cons, List.map_nil, List.flatten_cons, List.flatten_nil, List.append_nil,
    List.append_assoc]
  rfl

lemma state_shaM2 :
    (challengeLocals sha1 private_a username passwordKey m).shaM2.state =
      ([sentA private_a m,
        (challengeLocals sha1 private_a username passwordKey m).logonProof.M1,
        (challengeLocals sha1 private_a username passwordKey m).vK.toList].map trim).flatten := by
  have hM : leBytes (challengeLocals sha1 private_a username passwordKey m).M.bigNum.natAbs =
      trim (sha1 (challengeLocals sha1 private_a username passwordKey m).shaM1.state).toList :=
    leBytes_bin2BN _
  have hkey : leBytes (challengeLocals sha1 private_a username passwordKey m).key.bigNum.natAbs =
      trim (challengeLocals sha1 private_a username passwordKey m).vK.toList := leBytes_bin2BN _
  have hA : leBytes (challengeLocals sha1 private_a username passwordKey m).A.bigNum.natAbs =
      trim (sentA private_a m) := (trim_padded 32 _).symm
  have hstate : (challengeLocals sha1 private_a username passwordKey m).shaM2.state = _ :=
    state_hasherM2 (challengeLocals sha1 private_a username passwordKey m).A
      (challengeLocals sha1 private_a username passwordKey m).M
      (challengeLocals sha1 private_a username passwordKey m).key
  rw [hstate, hM, hkey, hA, logonProof_M1]
  simp only [List.map_cons, List.map_nil, List.flatten_cons, List.flatten_nil, List.append_nil,
    List.append_assoc]

/-! ### The two computations -/

lemma vK_eq (hA : trim (sentA private_a m) = sentA private_a m)
    (hb : trim m.b.toList = m.b.toList) :
    (challengeLocals sha1 private_a username passwordKey m).vK =
      (fullWidth sha1 private_a username passwordKey m).vK := by
  have hvK : (challengeLocals sha1 private_a username passwordKey m).vK =
      sessionKey sha1 (sessionSecret (.bin2BN m.n.toList 32) (.ofUInt32 m.g.toNat)
        (.bin2BN m.b.toList 32) private_a.toBigNumber
        (.bin2BN (sha1 (challengeLocals sha1 private_a username passwordKey m).shaU.state).toList 20)
        (privateX sha1 (.bin2BN m.salt.toList 32) passwordKey)) := rfl
  rw [hvK, state_shaU, hA, hb]
  rfl

/-- With full parts, the input of `M` is the one at full width. -/
lemma M1_eq (hvK : (challengeLocals sha1 private_a username passwordKey m).vK =
      (fullWidth sha1 private_a username passwordKey m).vK)
    (h : (challengeLocals sha1 private_a username passwordKey m).shaM1.state =
      (challengeLocals sha1 private_a username passwordKey m).hash.toList ++ (sha1 username).toList ++
        m.salt.toList ++ sentA private_a m ++ m.b.toList ++
          (challengeLocals sha1 private_a username passwordKey m).vK.toList) :
    (challengeLocals sha1 private_a username passwordKey m).logonProof.M1 =
      (fullWidth sha1 private_a username passwordKey m).M1.toList := by
  rw [logonProof_M1, h, hvK]
  rfl

/-- **A pair of full public values is the only one with its input for `u`.** -/
theorem pair_of_full {private_a' : PrivateKey} {username' : Bytes} {passwordKey' : BigNumber}
    {m' : SAuthLogonChallengeData} (hA : trim (sentA private_a m) = sentA private_a m)
    (hb : trim m.b.toList = m.b.toList)
    (h : (challengeLocals sha1 private_a' username' passwordKey' m').shaU.state =
      (challengeLocals sha1 private_a username passwordKey m).shaU.state) :
    (challengeLocals sha1 private_a' username' passwordKey' m').A =
        (challengeLocals sha1 private_a username passwordKey m).A ∧
      (challengeLocals sha1 private_a' username' passwordKey' m').B =
        (challengeLocals sha1 private_a username passwordKey m).B := by
  have hval : ∀ (private_a : PrivateKey) (username : Bytes) (passwordKey : BigNumber)
      (m : SAuthLogonChallengeData),
      (challengeLocals sha1 private_a username passwordKey m).A =
          ⟨(leVal (trim (sentA private_a m)) : ℕ)⟩ ∧
        (challengeLocals sha1 private_a username passwordKey m).B =
          ⟨(leVal (trim m.b.toList) : ℕ)⟩ := by
    intro private_a username passwordKey m
    have hN0 := BigNumber.bin2BN_nonneg m.n.toList 32
    have h0 := BigNumber.modExponential_nonneg (.ofUInt32 m.g.toNat) private_a.toBigNumber _ hN0
    constructor
    · rw [sentA, trim_padded, leVal_leBytes]
      exact congrArg BigNumber.mk (Int.natAbs_of_nonneg h0).symm
    · rw [← leBytes_leVal, leVal_leBytes]
      exact congrArg BigNumber.mk (bigNum_bin2BN_vector m.b)
  rw [state_shaU, state_shaU] at h
  obtain ⟨hA', hb'⟩ : trim (sentA private_a' m') = trim (sentA private_a m) ∧
      trim m'.b.toList = trim m.b.toList := by
    refine append_eq_append_of_length_le ?_ ?_ h
    · rw [hA, length_sentA]
      exact (length_trim_le _).trans length_sentA.le
    · rw [hb, Vector.length_toList]
      exact (length_trim_le _).trans (Vector.length_toList ..).le
  obtain ⟨h1, h2⟩ := hval private_a' username' passwordKey' m'
  obtain ⟨h3, h4⟩ := hval private_a username passwordKey m
  exact ⟨by rw [h1, h3, hA'], by rw [h2, h4, hb']⟩

/-- The three inputs are the untrimmed ones exactly when each of the six fields is full. -/
lemma inputs_iff (A b hash t4 salt vK M1 : Bytes) :
    (trim A ++ trim b = A ++ b ∧
      trim hash ++ (t4 ++ ([salt, A, b, vK].map trim).flatten) = hash ++ t4 ++ salt ++ A ++ b ++ vK ∧
      ([A, M1, vK].map trim).flatten = A ++ M1 ++ vK) ↔
    trim A = A ∧ trim b = b ∧ trim hash = hash ∧ trim salt = salt ∧ trim vK = vK ∧
      trim M1 = M1 := by
  have h1 : hash ++ t4 ++ salt ++ A ++ b ++ vK = hash ++ (t4 ++ [salt, A, b, vK].flatten) := by
    simp
  have h2 : A ++ M1 ++ vK = [A, M1, vK].flatten := by simp
  rw [h1, h2, flatten_map_trim]
  constructor
  · rintro ⟨hu, hM1, hM2⟩
    obtain ⟨hA, hb⟩ := append_eq_append_of_length_le (length_trim_le _) (length_trim_le _) hu
    obtain ⟨hhash, hrest⟩ := append_eq_append_of_length_le (length_trim_le _) (by
      rw [List.length_append, List.length_append]
      exact Nat.add_le_add_left (length_flatten_map_trim_le _) _) hM1
    have hparts := (flatten_map_trim _).1 (List.append_cancel_left hrest)
    exact ⟨hA, hb, hhash, hparts _ (by simp), hparts _ (by simp), hM2 _ (by simp)⟩
  · rintro ⟨hA, hb, hhash, hsalt, hvK, hM1⟩
    refine ⟨by rw [hA, hb], ?_, ?_⟩
    · rw [hhash, (flatten_map_trim _).2]
      simp only [List.forall_mem_cons]
      exact ⟨hsalt, hA, hb, hvK, by simp⟩
    · simp only [List.forall_mem_cons]
      exact ⟨hA, hM1, hvK, by simp⟩

lemma onWire_iff_trim :
    OnWire sha1 username m (challengeLocals sha1 private_a username passwordKey m) ↔
      trim (sentA private_a m) = sentA private_a m ∧ trim m.b.toList = m.b.toList ∧
        trim (fullWidth sha1 private_a username passwordKey m).hash.toList =
          (fullWidth sha1 private_a username passwordKey m).hash.toList ∧
        trim m.salt.toList = m.salt.toList ∧
        trim (challengeLocals sha1 private_a username passwordKey m).vK.toList =
          (challengeLocals sha1 private_a username passwordKey m).vK.toList ∧
        trim (challengeLocals sha1 private_a username passwordKey m).logonProof.M1 =
          (challengeLocals sha1 private_a username passwordKey m).logonProof.M1 := by
  rw [← inputs_iff _ _ _ (sha1 username).toList]
  have hhash : (challengeLocals sha1 private_a username passwordKey m).hash =
      (fullWidth sha1 private_a username passwordKey m).hash := rfl
  constructor
  · rintro ⟨hu, hM1, hM2, -⟩
    rw [logonProof_A] at hu hM1 hM2
    rw [state_shaU] at hu
    rw [state_shaM1, hhash] at hM1
    rw [state_shaM2] at hM2
    exact ⟨hu, hM1, hM2⟩
  · rintro ⟨hu, hM1, hM2⟩
    obtain ⟨hA, hb⟩ := append_eq_append_of_length_le (length_trim_le _) (length_trim_le _) hu
    refine ⟨?_, ?_, ?_, fun _ _ _ _ h => pair_of_full hA hb h⟩
    · rw [logonProof_A, state_shaU, hu]
    · rw [logonProof_A, state_shaM1, hhash]
      exact hM1
    · rw [logonProof_A, state_shaM2]
      exact hM2

/-- **When the hashed transcript is the one on the wire.** -/
theorem onWire_iff (sha1 : Bytes → Digest) (private_a : PrivateKey) (username : Bytes)
    (passwordKey : BigNumber) (m : SAuthLogonChallengeData) :
    OnWire sha1 username m (challengeLocals sha1 private_a username passwordKey m) ↔
      NoZeroTop (fullWidth sha1 private_a username passwordKey m) m := by
  constructor
  · intro h
    obtain ⟨hA, hb, hhash, hsalt, hvK, hM1⟩ := onWire_iff_trim.1 h
    have hM := h.M1
    rw [logonProof_A] at hM
    rw [M1_eq (vK_eq hA hb) hM] at hM1
    rw [vK_eq hA hb] at hvK
    exact ⟨trim_eq_iff.1 hA, trim_eq_iff.1 hb, trim_eq_iff.1 hhash, trim_eq_iff.1 hsalt,
      trim_eq_iff.1 hvK, trim_eq_iff.1 hM1⟩
  · rintro ⟨hA, hb, hhash, hsalt, hvK, hM1⟩
    have hA' : trim (sentA private_a m) = sentA private_a m := trim_eq_iff.2 hA
    have hvK' : (challengeLocals sha1 private_a username passwordKey m).vK = _ :=
      vK_eq hA' (trim_eq_iff.2 hb)
    have hinput := ((inputs_iff _ _ _ (sha1 username).toList _ _ []).2 ⟨hA', trim_eq_iff.2 hb,
      trim_eq_iff.2 hhash, trim_eq_iff.2 hsalt, trim_eq_iff.2 hvK, trim_nil⟩).2.1
    have hM1' : (challengeLocals sha1 private_a username passwordKey m).logonProof.M1 =
        (fullWidth sha1 private_a username passwordKey m).M1.toList := by
      apply M1_eq hvK'
      rw [state_shaM1, hvK']
      exact hinput
    rw [onWire_iff_trim, hvK', hM1']
    exact ⟨hA', trim_eq_iff.2 hb, trim_eq_iff.2 hhash, trim_eq_iff.2 hsalt, trim_eq_iff.2 hvK,
      trim_eq_iff.2 hM1⟩

end

/-! ### A reply with a zero top byte -/

/-- A challenge whose `b` has the top byte zero. -/
def shortB : SAuthLogonChallengeData :=
  { sampleChallenge with b := (Vector.replicate 32 1).set 31 0 }

/-- A challenge with these small numbers. -/
def smallChallenge (g : UInt8) (n b : List UInt8) : SAuthLogonChallengeData :=
  { sampleChallenge with
    g := g
    n := Vector.ofFn fun i => n.getD i 0
    b := Vector.ofFn fun i => b.getD i 0 }

/-- A reply that passes the test and whose `b` is fed to the hasher of `u` with 31 bytes; and two replies
that pass the test, with different pairs of public values and the same input for `u`: `289, 1` and
`33, 257`. -/
theorem transcript_counterexample :
    (shortB.Accepted ∧
      ¬ OnWire Sha1.hash [0x41] shortB (challengeLocals Sha1.hash .first [0x41] ⟨1⟩ shortB)) ∧
    (smallChallenge 17 [51, 1] [1]).Accepted ∧ (smallChallenge 33 [34] [1, 1]).Accepted ∧
      ∀ (sha1 : Bytes → Digest) (username : Bytes) (passwordKey : BigNumber),
        let l := challengeLocals sha1 .second username passwordKey (smallChallenge 17 [51, 1] [1])
        let l' := challengeLocals sha1 .first username passwordKey (smallChallenge 33 [34] [1, 1])
        l.shaU.state = l'.shaU.state ∧ l.A ≠ l'.A ∧ l.B ≠ l'.B := by
  have hA : sentA .second (smallChallenge 17 [51, 1] [1]) = [33, 1] ++ List.replicate 30 0 := by
    decide +kernel
  have hA' : sentA .first (smallChallenge 33 [34] [1, 1]) = [33] ++ List.replicate 31 0 := by
    decide +kernel
  refine ⟨⟨?_, ?_⟩, ?_, ?_, fun sha1 username passwordKey => ⟨?_, ?_, ?_⟩⟩
  · rw [accepted_iff]
    decide +kernel
  · intro h
    have hb := (onWire_iff_trim.1 h).2.1
    exact absurd hb (by decide +kernel)
  · rw [accepted_iff]
    decide +kernel
  · rw [accepted_iff]
    decide +kernel
  · rw [state_shaU, state_shaU, hA, hA']
    decide +kernel
  · show BigNumber.modExponential _ _ _ ≠ BigNumber.modExponential _ _ _
    decide +kernel
  · show BigNumber.bin2BN _ _ ≠ BigNumber.bin2BN _ _
    decide +kernel

end NovusHeadless
