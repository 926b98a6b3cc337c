import NovusHeadless.Lib.Bytes
import NovusHeadless.Lib.Powers

/-!
# `BigNumber` (`Cryptography/BigNumber.h`, `BigNumber.cpp`)

A `BigNumber` owns an OpenSSL `BIGNUM`, a signed integer.  The OpenSSL calls it makes are the functions
of the namespace `BN`: exact integer arithmetic, the minimal big-endian encoding, and two calls that can
fail, `BN_mod` and `BN_mod_exp`, which leave their result operand as it was when the modulus is zero.
-/

namespace NovusHeadless

open Lib

abbrev Bytes := List UInt8

/-- Named, so that membership in a list of byte strings is decided by the same instance everywhere. -/
instance Bytes.lawfulBEq : LawfulBEq Bytes := inferInstanceAs (LawfulBEq (List UInt8))

/-- The conversion `(i32)size`. -/
def toI32 (size : ℕ) : ℤ := (size : ℤ).bmod (2 ^ 32)

lemma toI32_of_lt {size : ℕ} (h : size < 2 ^ 31) : toI32 size = size := by
  unfold toI32
  rw [Int.bmod_eq_of_le] <;> omega

lemma toI32_lt {size : ℕ} (h : 2 ^ 31 ≤ size) : toI32 size < size := by
  have hlt : toI32 size < (2 ^ 32 + 1) / 2 := Int.bmod_lt (by norm_num)
  omega

/-! ### The OpenSSL calls -/

namespace BN

/-- `BN_bin2bn`: the big-endian value of a byte string. -/
def bin2bn (s : Bytes) : ℤ := leVal s.reverse

/-- `BN_bn2bin`: the minimal big-endian bytes of the absolute value. -/
def bn2bin (n : ℤ) : Bytes := (leBytes n.natAbs).reverse

/-- `BN_num_bytes`. -/
def numBytes (n : ℤ) : ℕ := (leBytes n.natAbs).length

/-- `BN_set_word`. -/
def setWord (word : ℕ) : ℤ := word

/-- `BN_lshift`. -/
def lshift (n : ℤ) (bits : ℕ) : ℤ := n * 2 ^ bits

/-- `BN_mod`: the remainder has the sign of the dividend; `none` when the divisor is zero. -/
def mod (n d : ℤ) : Option ℤ := if d = 0 then none else some (n.tmod d)

/-- `BN_mod_exp`: the base is first reduced to its non-negative residue; `none` when the modulus is
zero. -/
def modExp (b e m : ℤ) : Option ℤ :=
  if m = 0 then none else some (powMod (b % m).toNat e.natAbs m.natAbs : ℕ)

end BN

/-! ### The class -/

structure BigNumber where
  bigNum : ℤ
  deriving DecidableEq, Repr

namespace BigNumber

/-- `BigNumber()`: `BN_new` is zero. -/
def new : BigNumber := ⟨0⟩

/-- `BigNumber(u32)`, through `SetUInt32`. -/
def ofUInt32 (val : ℕ) : BigNumber := ⟨val⟩

/-- What the number was before is overwritten. -/
def setUInt32 (_ : BigNumber) (val : UInt32) : BigNumber := ⟨BN.setWord val.toNat⟩

def setUInt64 (v : BigNumber) (val : UInt64) : BigNumber :=
  let v := v.setUInt32 (val >>> 32).toUInt32
  let v : BigNumber := ⟨BN.lshift v.bigNum 32⟩
  v.setUInt32 (val &&& 0xFFFFFFFF).toUInt32

/-- The copy reverses the little-endian `data` into the big-endian order of `BN_bin2bn`.  `size` is an `i32`
that is not negative. -/
def bin2BN (data : Bytes) (size : ℕ) : BigNumber := ⟨BN.bin2bn (data.take size).reverse⟩

def getBytes (v : BigNumber) : ℕ := BN.numBytes v.bigNum

def neededSize (v : BigNumber) (size : ℕ) : ℕ :=
  if toI32 size ≥ v.getBytes then (toI32 size).toNat else v.getBytes

/-- OpenSSL writes the number at the front of the array; only that front is reversed. -/
def bn2BinArray (v : BigNumber) (size : ℕ) (littleEndian : Bool) : Bytes :=
  let numBytes := v.getBytes
  let array := BN.bn2bin v.bigNum ++ List.replicate (v.neededSize size - numBytes) 0
  if littleEndian then (array.take numBytes).reverse ++ array.drop numBytes else array

/-- The result is a fresh number, so a failed `BN_mod_exp` returns zero. -/
def modExponential (v bn1 bn2 : BigNumber) : BigNumber :=
  ⟨(BN.modExp v.bigNum bn1.bigNum bn2.bigNum).getD new.bigNum⟩

def isZero (v : BigNumber) : Bool := v.bigNum == 0

instance : Add BigNumber := ⟨fun v w => ⟨v.bigNum + w.bigNum⟩⟩
instance : Sub BigNumber := ⟨fun v w => ⟨v.bigNum - w.bigNum⟩⟩
instance : Mul BigNumber := ⟨fun v w => ⟨v.bigNum * w.bigNum⟩⟩

/-- The result operand of `BN_mod` is the left operand, which a failed call leaves as it was. -/
instance : Mod BigNumber := ⟨fun v w => ⟨(BN.mod v.bigNum w.bigNum).getD v.bigNum⟩⟩

/-! ### Arithmetic -/

@[simp] lemma bigNum_ofUInt32 (n : ℕ) : (ofUInt32 n).bigNum = n := rfl
@[simp] lemma bigNum_add (v w : BigNumber) : (v + w).bigNum = v.bigNum + w.bigNum := rfl
@[simp] lemma bigNum_sub (v w : BigNumber) : (v - w).bigNum = v.bigNum - w.bigNum := rfl
@[simp] lemma bigNum_mul (v w : BigNumber) : (v * w).bigNum = v.bigNum * w.bigNum := rfl

lemma modExponential_zero (v bn1 bn2 : BigNumber) (h : bn2.bigNum = 0) :
    v.modExponential bn1 bn2 = ⟨0⟩ := by
  simp [modExponential, BN.modExp, h, new]

/-- **`ModExponential` computes the non-negative residue of the power.** -/
theorem bigNum_modExponential (v bn1 bn2 : BigNumber) (h : 0 < bn2.bigNum) :
    (v.modExponential bn1 bn2).bigNum = v.bigNum ^ bn1.bigNum.natAbs % bn2.bigNum := by
  have hm : 0 < bn2.bigNum.natAbs := by omega
  have hN : ((bn2.bigNum.natAbs : ℕ) : ℤ) = bn2.bigNum := Int.natAbs_of_nonneg h.le
  have hb : (((v.bigNum % bn2.bigNum).toNat : ℕ) : ℤ) = v.bigNum % bn2.bigNum :=
    Int.toNat_of_nonneg (Int.emod_nonneg _ h.ne')
  unfold modExponential BN.modExp
  rw [if_neg h.ne', Option.getD_some, powMod_eq _ _ hm]
  push_cast
  rw [hb, ← Int.natCast_natAbs, hN]
  exact (Int.mod_modEq v.bigNum bn2.bigNum).pow _

lemma modExponential_nonneg (v bn1 bn2 : BigNumber) (h : 0 ≤ bn2.bigNum) :
    0 ≤ (v.modExponential bn1 bn2).bigNum := by
  rcases h.eq_or_lt with h | h
  · rw [modExponential_zero _ _ _ h.symm]
  · rw [bigNum_modExponential _ _ _ h]
    exact Int.emod_nonneg _ h.ne'

lemma modExponential_lt (v bn1 bn2 : BigNumber) (h : 0 < bn2.bigNum) :
    (v.modExponential bn1 bn2).bigNum < bn2.bigNum := by
  rw [bigNum_modExponential _ _ _ h]
  exact Int.emod_lt_of_pos _ h

/-- The test `(B % N).IsZero()` on non-negative numbers: with `N = 0` it asks whether `B` is zero. -/
lemma isZero_mod {v w : BigNumber} (hv : 0 ≤ v.bigNum) :
    (v % w).isZero = decide (v.bigNum % w.bigNum = 0) := by
  show ((BN.mod v.bigNum w.bigNum).getD v.bigNum == 0) = _
  unfold BN.mod
  split
  · next h =>
    rw [h, Int.emod_zero]
    rfl
  · rw [Option.getD_some, Int.tmod_eq_emod_of_nonneg hv]
    rfl

/-! ### Encodings -/

lemma bigNum_bin2BN {data : Bytes} {size : ℕ} (h : data.length = size) :
    (bin2BN data size).bigNum = leVal data := by
  subst h
  simp [bin2BN, BN.bin2bn]

lemma bin2BN_nonneg (data : Bytes) (size : ℕ) : 0 ≤ (bin2BN data size).bigNum :=
  Int.natCast_nonneg _

lemma bin2BN_lt (data : Bytes) (size : ℕ) : (bin2BN data size).bigNum < 256 ^ size := by
  have h1 := leVal_lt (data.take size)
  have h2 : 256 ^ (data.take size).length ≤ 256 ^ size :=
    Nat.pow_le_pow_right (by norm_num) (List.length_take_le _ _)
  show (leVal (data.take size).reverse.reverse : ℤ) < 256 ^ size
  rw [List.reverse_reverse]
  exact_mod_cast h1.trans_le h2

lemma neededSize_of_lt (v : BigNumber) {size : ℕ} (h : size < 2 ^ 31) :
    v.neededSize size = max size v.getBytes := by
  unfold neededSize
  rw [toI32_of_lt h]
  split_ifs <;> omega

lemma getBytes_le_neededSize (v : BigNumber) (size : ℕ) : v.getBytes ≤ v.neededSize size := by
  unfold neededSize
  split_ifs <;> omega

/-- From `2 ^ 31` on the conversion makes the size smaller. -/
lemma neededSize_lt {v : BigNumber} {size : ℕ} (h : 2 ^ 31 ≤ size) (hv : v.getBytes < size) :
    v.neededSize size < size := by
  have hlt := toI32_lt h
  unfold neededSize
  split_ifs <;> omega

lemma bn2BinArray_true_eq (v : BigNumber) (size : ℕ) :
    v.bn2BinArray size true =
      leBytes v.bigNum.natAbs ++ List.replicate (v.neededSize size - v.getBytes) 0 := by
  have hlen : (BN.bn2bin v.bigNum).length = v.getBytes := by
    simp [BN.bn2bin, getBytes, BN.numBytes]
  unfold bn2BinArray
  simp only [if_true]
  rw [List.take_left' hlen, List.drop_left' hlen]
  unfold BN.bn2bin
  rw [List.reverse_reverse]

/-- **`BN2BinArray` in little-endian order is the padded encoding.** -/
theorem bn2BinArray_true (v : BigNumber) {size : ℕ} (h : size < 2 ^ 31) :
    v.bn2BinArray size true = padded size v.bigNum.natAbs := by
  have hsub : v.neededSize size - v.getBytes = size - (leBytes v.bigNum.natAbs).length := by
    rw [neededSize_of_lt v h]
    unfold getBytes BN.numBytes
    omega
  rw [bn2BinArray_true_eq, hsub]
  rfl

end BigNumber

end NovusHeadless
