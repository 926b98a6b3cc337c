import NovusHeadless.Cryptography.BigNumber

/-!
# Numbers as bytes (`Cryptography/BigNumber.cpp`)

`Bin2BN` reads a little-endian array; `BN2BinArray` has OpenSSL write a big-endian one at the front of an
array of the size asked for, and reverses the front when the little-endian order is asked for.

* `storesBytes_iff` — the little-endian order round-trips in both directions, up to the conversion of the
  size to `i32`;
* `ordersAgree_iff` — the big-endian order has the padding behind the number, where it belongs in the
  little-endian one only;
* `setsUInt64_iff` — `SetUInt64` keeps the lower half.
-/

namespace NovusHeadless

open Lib

namespace BigNumber

lemma eq_of_bigNum {v w : BigNumber} (h : v.bigNum = w.bigNum) : v = w := by
  cases v
  cases w
  exact congrArg mk h

/-! ### The little-endian order -/

/-- An array is read as the number it denotes, and comes back. -/
structure LoadsBytes (d : Bytes) : Prop where
  value : (bin2BN d d.length).bigNum =
    ∑ i ∈ Finset.range d.length, ((d.getD i 0).toNat : ℤ) * 256 ^ i
  back : (bin2BN d d.length).bn2BinArray d.length true = d

/-- A number is written into as many bytes as asked for, or as it needs, with zeros behind its own bytes,
and comes back. -/
structure StoresBytes (v : BigNumber) (size : ℕ) : Prop where
  length : (v.bn2BinArray size true).length = max size v.getBytes
  zeros : ∀ b ∈ (v.bn2BinArray size true).drop v.getBytes, b = 0
  back : bin2BN (v.bn2BinArray size true) (v.bn2BinArray size true).length = v

section

variable {v : BigNumber} {size : ℕ}

theorem loadsBytes {d : Bytes} (hd : d.length < 2 ^ 31) : LoadsBytes d := by
  have hval : (bin2BN d d.length).bigNum = leVal d := bigNum_bin2BN rfl
  refine ⟨?_, ?_⟩
  · rw [hval, leVal_eq_sum]
    push_cast
    rfl
  · rw [bn2BinArray_true _ hd, hval, Int.natAbs_natCast, padded_leVal]

lemma length_leBytes_bigNum (v : BigNumber) : (leBytes v.bigNum.natAbs).length = v.getBytes := rfl

lemma length_bn2BinArray_true (v : BigNumber) (size : ℕ) :
    (v.bn2BinArray size true).length = v.neededSize size := by
  have hle := v.getBytes_le_neededSize size
  rw [bn2BinArray_true_eq, List.length_append, List.length_replicate, length_leBytes_bigNum]
  omega

lemma bin2BN_bn2BinArray (hv : 0 ≤ v.bigNum) (size : ℕ) :
    bin2BN (v.bn2BinArray size true) (v.bn2BinArray size true).length = v := by
  apply eq_of_bigNum
  rw [bigNum_bin2BN rfl, bn2BinArray_true_eq, leVal_append, leVal_replicate_zero, leVal_leBytes,
    Nat.mul_zero, Nat.add_zero]
  exact Int.natAbs_of_nonneg hv

/-- The array has the size meant exactly when the conversion leaves the size alone, or the number needs
more anyway. -/
lemma neededSize_eq_max : v.neededSize size = max size v.getBytes ↔
    size < 2 ^ 31 ∨ size ≤ v.getBytes := by
  constructor
  · intro h
    by_contra hnot
    obtain ⟨hsize, hbytes⟩ := not_or.1 hnot
    have hlt := neededSize_lt (not_lt.1 hsize) (not_le.1 hbytes)
    omega
  · rintro (h | h)
    · exact neededSize_of_lt v h
    · have hle := v.getBytes_le_neededSize size
      by_cases hsize : size < 2 ^ 31
      · exact neededSize_of_lt v hsize
      · have hlt := toI32_lt (not_lt.1 hsize)
        unfold neededSize
        rw [if_neg (by omega)]
        omega

/-- **The round trips of the little-endian order**, with the condition on the size. -/
theorem storesBytes_iff (hv : 0 ≤ v.bigNum) (size : ℕ) {d : Bytes} (hd : d.length < 2 ^ 31) :
    LoadsBytes d ∧ StoresBytes v size ↔ size < 2 ^ 31 ∨ size ≤ v.getBytes := by
  rw [← neededSize_eq_max, and_iff_right (loadsBytes hd)]
  constructor
  · intro h
    rw [← length_bn2BinArray_true]
    exact h.length
  · intro h
    refine ⟨?_, ?_, bin2BN_bn2BinArray hv size⟩
    · rw [length_bn2BinArray_true, h]
    · intro b hb
      rw [bn2BinArray_true_eq, List.drop_left' (length_leBytes_bigNum v)] at hb
      exact List.eq_of_mem_replicate hb

end

theorem storesBytes_iff_one : LoadsBytes [7, 0] ∧ StoresBytes ⟨1⟩ 4 :=
  (storesBytes_iff (v := ⟨1⟩) (by decide) 4 (by decide)).2 (Or.inl (by decide))

/-- Of the size `2 ^ 31` nothing is left. -/
theorem size_narrowed :
    ¬ ∀ (v : BigNumber) (size : ℕ) (d : Bytes), 0 ≤ v.bigNum → d.length < 2 ^ 31 →
      LoadsBytes d ∧ StoresBytes v size := by
  intro h
  obtain ⟨-, hlen, -⟩ := h ⟨1⟩ (2 ^ 31) [] (by decide) (by decide)
  have hone : (⟨1⟩ : BigNumber).getBytes = 1 := by decide
  have hlt : (⟨1⟩ : BigNumber).neededSize (2 ^ 31) < 2 ^ 31 :=
    neededSize_lt le_rfl (by rw [hone]; norm_num)
  rw [length_bn2BinArray_true, hone] at hlen
  omega

/-! ### The big-endian order -/

/-- The big-endian array is the little-endian one reversed, and a big-endian encoding of the number. -/
structure OrdersAgree (v : BigNumber) (size : ℕ) : Prop where
  reverse : v.bn2BinArray size false = (v.bn2BinArray size true).reverse
  length : (v.bn2BinArray size false).length = max size v.getBytes
  value : BN.bin2bn (v.bn2BinArray size false) = v.bigNum

section

variable {v : BigNumber} {size : ℕ}

/-- In either order the padding is behind the number. -/
lemma bn2BinArray_false_eq (v : BigNumber) (size : ℕ) :
    v.bn2BinArray size false =
      (leBytes v.bigNum.natAbs).reverse ++ List.replicate (v.neededSize size - v.getBytes) 0 := rfl

lemma length_bn2BinArray_false (v : BigNumber) (size : ℕ) :
    (v.bn2BinArray size false).length = v.neededSize size := by
  rw [← length_bn2BinArray_true, bn2BinArray_false_eq, bn2BinArray_true_eq, List.length_append,
    List.length_append, List.length_reverse]

/-- Padding behind a big-endian number makes it larger. -/
lemma bin2bn_bn2BinArray_false (v : BigNumber) (size : ℕ) :
    BN.bin2bn (v.bn2BinArray size false) =
      256 ^ (v.neededSize size - v.getBytes) * (v.bigNum.natAbs : ℤ) := by
  unfold BN.bin2bn
  rw [bn2BinArray_false_eq, List.reverse_append, List.reverse_reverse, List.reverse_replicate,
    leVal_append, leVal_replicate_zero, List.length_replicate, leVal_leBytes, Nat.zero_add]
  push_cast
  rfl

lemma ordersAgree_of_le (hv : 0 ≤ v.bigNum) (hle : size ≤ v.getBytes) : OrdersAgree v size := by
  have hsize : v.neededSize size = v.getBytes := by
    rw [neededSize_eq_max.2 (Or.inr hle)]
    omega
  refine ⟨?_, ?_, ?_⟩
  · rw [bn2BinArray_false_eq, bn2BinArray_true_eq, hsize, Nat.sub_self, List.replicate_zero,
      List.append_nil, List.append_nil]
  · rw [length_bn2BinArray_false, hsize]
    omega
  · rw [bin2bn_bn2BinArray_false, hsize, Nat.sub_self, pow_zero, one_mul]
    exact Int.natAbs_of_nonneg hv

lemma ordersAgree_zero (hv : v.bigNum = 0) (hsize : size < 2 ^ 31) : OrdersAgree v size := by
  have hnil : leBytes v.bigNum.natAbs = [] := by rw [hv]; rfl
  refine ⟨?_, ?_, ?_⟩
  · rw [bn2BinArray_false_eq, bn2BinArray_true_eq, hnil, List.reverse_nil, List.nil_append,
      List.reverse_replicate]
  · rw [length_bn2BinArray_false, neededSize_of_lt v hsize]
  · rw [bin2bn_bn2BinArray_false, hv]
    simp

/-- **When the two orders agree.** -/
theorem ordersAgree_iff (hv : 0 ≤ v.bigNum) (size : ℕ) :
    OrdersAgree v size ↔ size ≤ v.getBytes ∨ v.bigNum = 0 ∧ size < 2 ^ 31 := by
  constructor
  · intro h
    by_cases hle : size ≤ v.getBytes
    · exact Or.inl hle
    right
    have hlength := h.length
    rw [length_bn2BinArray_false] at hlength
    have hsize := (neededSize_eq_max.1 hlength).resolve_right hle
    refine ⟨?_, hsize⟩
    -- a number that is not zero would have grown by the padding
    by_contra hzero
    have hvalue := h.value
    rw [bin2bn_bn2BinArray_false, Int.natAbs_of_nonneg hv] at hvalue
    have hpos : 0 < v.bigNum := lt_of_le_of_ne hv (Ne.symm hzero)
    have hgrow : (1 : ℤ) < 256 ^ (v.neededSize size - v.getBytes) :=
      one_lt_pow₀ (by norm_num) (by omega)
    nlinarith
  · rintro (hle | ⟨hzero, hsize⟩)
    · exact ordersAgree_of_le hv hle
    · exact ordersAgree_zero hzero hsize

end

theorem ordersAgree_iff_two : OrdersAgree ⟨258⟩ 2 :=
  (ordersAgree_iff (v := ⟨258⟩) (by decide) 2).2 (Or.inl (by decide))

/-- The number 1 in two bytes is `01 00` in either order. -/
theorem padding_misplaced :
    ¬ ∀ (v : BigNumber) (size : ℕ), 0 ≤ v.bigNum → OrdersAgree v size := by
  intro h
  have hreverse := (h ⟨1⟩ 2 (by decide)).reverse
  exact absurd hreverse (by decide)

/-! ### `SetUInt64` -/

/-- The number is that of the eight bytes of the value, and gives them back. -/
structure SetsUInt64 (v : BigNumber) (val : UInt64) : Prop where
  value : v.setUInt64 val = bin2BN (padded 8 val.toNat) 8
  bytes : (v.setUInt64 val).bn2BinArray 8 true = padded 8 val.toNat

/-- What the shift has made of the upper half is overwritten. -/
lemma bigNum_setUInt64 (v : BigNumber) (val : UInt64) :
    (v.setUInt64 val).bigNum = (val.toNat % 2 ^ 32 : ℕ) := by
  show (((val &&& 0xFFFFFFFF).toUInt32.toNat : ℕ) : ℤ) = _
  have hmask : (0xFFFFFFFF : UInt64).toNat = 2 ^ 32 - 1 := rfl
  rw [UInt64.toNat_toUInt32, UInt64.toNat_and, hmask, Nat.and_two_pow_sub_one_eq_mod, Nat.mod_mod]

lemma bigNum_bin2BN_padded (val : UInt64) :
    (bin2BN (padded 8 val.toNat) 8).bigNum = val.toNat := by
  rw [bigNum_bin2BN (length_padded val.toNat_lt), leVal_padded]

/-- **When `SetUInt64` sets the value.** -/
theorem setsUInt64_iff (v : BigNumber) (val : UInt64) :
    SetsUInt64 v val ↔ val.toNat < 2 ^ 32 := by
  constructor
  · intro h
    have hvalue := congrArg bigNum h.value
    rw [bigNum_setUInt64, bigNum_bin2BN_padded] at hvalue
    omega
  · intro hlt
    have hset : (v.setUInt64 val).bigNum = val.toNat := by
      rw [bigNum_setUInt64, Nat.mod_eq_of_lt hlt]
    refine ⟨eq_of_bigNum ?_, ?_⟩
    · rw [hset, bigNum_bin2BN_padded]
    · rw [bn2BinArray_true _ (by norm_num), hset, Int.natAbs_natCast]

/-- The value `2 ^ 32` becomes zero. -/
theorem upper_half_lost : ¬ ∀ (v : BigNumber) (val : UInt64), SetsUInt64 v val := by
  intro h
  have hvalue := (h .new 0x100000000).value
  exact absurd hvalue (by decide)

end BigNumber

end NovusHeadless
