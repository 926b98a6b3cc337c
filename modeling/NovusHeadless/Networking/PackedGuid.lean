import Mathlib.Data.UInt
import NovusHeadless.Lib.Sparse
import NovusHeadless.Networking.RawWrites

/-!
# The packed form of an id (`Networking/ByteBuffer.h`)

`AppendGuid` goes through the id until the rest is zero, `ReadPackedGUID` through the eight bits of the mask.
Both are about the marks and the payload of the eight bytes of the id.

* `packedGuid_spec` — the packed form as a mask and a payload;
* `exists_packedGuid` — every mask with a payload that fits is the packed form of an id;
* `guid_canonical` — what is written, that no two ids have forms of which one continues the other, and that
  every form that is read is the one that is written for the result.
-/

namespace NovusHeadless

open Lib

/-- The eight bits of a mask, from the lowest on. -/
def maskBits (mask : UInt8) : List Bool := (List.range 8).map mask.toNat.testBit

/-- A mask byte, and as many non-zero bytes as it has bits. -/
structure EncodedForm (mask : UInt8) (bytes : Bytes) : Prop where
  count : bytes.length = (maskBits mask).count true
  nonzero : ∀ b ∈ bytes, b ≠ 0

section

variable {guid guid' : UInt64} {mask mask' : UInt8}

lemma maskBits_injective (h : maskBits mask = maskBits mask') : mask = mask' := by
  apply UInt8.toNat_inj.1
  apply Nat.eq_of_testBit_eq
  intro j
  by_cases hj : j < 8
  · exact List.map_inj_left.1 h j (List.mem_range.2 hj)
  · have hhigh : ∀ m : UInt8, m.toNat.testBit j = false := by
      intro m
      apply Nat.testBit_lt_two_pow
      exact m.toNat_lt.trans_le (Nat.pow_le_pow_right (by norm_num) (not_lt.1 hj))
    rw [hhigh, hhigh]

lemma marks_eq_maskBits {bs : Bytes} (hlen : bs.length = 8)
    (h : ∀ j < 8, mask.toNat.testBit j = decide (bs.getD j 0 ≠ 0)) : maskBits mask = marks bs := by
  unfold maskBits marks
  apply List.ext_getElem
  · rw [List.length_map, List.length_map, List.length_range, hlen]
  · intro j h1 h2
    rw [List.length_map] at h2
    rw [List.getElem_map, List.getElem_map, List.getElem_range, h j (by omega),
      List.getD_eq_getElem _ _ h2]

/-- **The packed form** is the mask of the bytes of the id, and those that are not zero. -/
theorem packedGuid_spec (guid : UInt64) :
    ∃ mask, Vec.packedGuid guid = mask :: payload (guidBytes guid) ∧
      maskBits mask = marks (guidBytes guid) := by
  obtain ⟨mask, hpacked, hmask⟩ := packedGuid_eq guid
  exact ⟨mask, hpacked, marks_eq_maskBits (length_guidBytes guid) hmask⟩

lemma guidBytes_injective (h : guidBytes guid = guidBytes guid') : guid = guid' := by
  have hval := congrArg leVal h
  rw [leVal_guidBytes, leVal_guidBytes] at hval
  exact UInt64.toNat_inj.1 hval

/-- **No packed form continues another one.** -/
theorem eq_of_packedGuid_isPrefix (h : Vec.packedGuid guid <+: Vec.packedGuid guid') :
    guid = guid' := by
  obtain ⟨mask, hpacked, hmask⟩ := packedGuid_spec guid
  obtain ⟨mask', hpacked', hmask'⟩ := packedGuid_spec guid'
  rw [hpacked, hpacked', List.cons_prefix_cons] at h
  obtain ⟨rfl, hprefix⟩ := h
  exact guidBytes_injective (eq_of_payload_isPrefix (hmask.symm.trans hmask') hprefix)

/-- **Every encoded form** is the packed form of an id. -/
theorem exists_packedGuid {bytes : Bytes} (h : EncodedForm mask bytes) :
    ∃ guid, Vec.packedGuid guid = mask :: bytes := by
  obtain ⟨hmarks, hpayload⟩ := marks_spread h.count h.nonzero
  have hlen : (spread (maskBits mask) bytes).length = 8 := length_spread _ _
  generalize spread (maskBits mask) bytes = bs at hmarks hpayload hlen
  have hval := leVal_lt bs
  rw [hlen] at hval
  have hguid : guidBytes (UInt64.ofNat (leVal bs)) = bs := by
    unfold guidBytes
    rw [UInt64.toNat_ofNat_of_lt' (by omega), ← hlen, padded_leVal]
  obtain ⟨mask', hpacked, hmask'⟩ := packedGuid_spec (UInt64.ofNat (leVal bs))
  rw [hguid] at hpacked hmask'
  obtain rfl := maskBits_injective (hmask'.trans hmarks)
  exact ⟨_, hpacked.trans (congrArg _ hpayload)⟩

lemma length_packedGuid_le (guid : UInt64) : (Vec.packedGuid guid).length ≤ 9 := by
  obtain ⟨mask, hpacked, -⟩ := packedGuid_spec guid
  have hle : (payload (guidBytes guid)).length ≤ (guidBytes guid).length := List.length_filter_le _ _
  rw [length_guidBytes] at hle
  rw [hpacked, List.length_cons]
  omega

end

/-! ### What is written and read -/

/-- `AppendGuid` stores the packed form, which is a mask byte and behind it one byte for each byte of the id
that is not zero. -/
structure Packs (growth : ℕ → ℕ → ℕ) (b : Vec) (guid : UInt64) : Prop where
  stores : b.toByteBuffer.Stores (Vec.packedGuid guid) (b.appendGuid growth guid).toByteBuffer
  form : ∃ mask, Vec.packedGuid guid = mask :: payload (guidBytes guid) ∧
    maskBits mask = marks (guidBytes guid)
  atMost : (Vec.packedGuid guid).length ≤ 9

/-- `ReadPackedGUID` takes off the mask and the bytes, for an id that is packed into just these. -/
def Unpacks (r : Reader) (mask : UInt8) (bytes : Bytes) : Prop :=
  ∃ guid, r.Reads guid (bytes.length + 1) r.readPackedGUID ∧ Vec.packedGuid guid = mask :: bytes

theorem packs {growth : ℕ → ℕ → ℕ} {b : Vec} (hw : b.writePos ≤ b.bufferData.length)
    (hs : b.bufferData.length + 9 < 2 ^ 64) (guid : UInt64) : Packs growth b guid := by
  have hle := length_packedGuid_le guid
  exact ⟨ByteBuffer.stores_append growth hw (by omega), packedGuid_spec guid, hle⟩

theorem unpacks {r : Reader} {mask : UInt8} {bytes post : Bytes}
    (hs : r.bufferData.length < 2 ^ 64) (hform : EncodedForm mask bytes)
    (h : r.getReadPointer = mask :: bytes ++ post) : Unpacks r mask bytes := by
  obtain ⟨guid, hpacked⟩ := exists_packedGuid hform
  rw [← hpacked] at h
  have hreads := Reader.reads_guid guid h hs
  rw [hpacked, List.length_cons] at hreads
  exact ⟨guid, hreads, hpacked⟩

/-- **The packed form is canonical.** -/
theorem guid_canonical (growth : ℕ → ℕ → ℕ) :
    (∀ (b : Vec) (guid : UInt64), b.writePos ≤ b.bufferData.length →
        b.bufferData.length + 9 < 2 ^ 64 → Packs growth b guid) ∧
      Function.Injective Vec.packedGuid ∧
      (∀ guid guid' : UInt64, Vec.packedGuid guid <+: Vec.packedGuid guid' →
        Vec.packedGuid guid = Vec.packedGuid guid') ∧
      ∀ (r : Reader) (mask : UInt8) (bytes post : Bytes), r.bufferData.length < 2 ^ 64 →
        EncodedForm mask bytes → r.getReadPointer = mask :: bytes ++ post → Unpacks r mask bytes := by
  refine ⟨fun b guid hw hs => packs hw hs guid, ?_, ?_, fun r mask bytes post => unpacks⟩
  · intro guid guid' h
    exact eq_of_packedGuid_isPrefix (h ▸ List.prefix_rfl)
  · intro guid guid' h
    rw [eq_of_packedGuid_isPrefix h]

theorem guid_canonical_gap :
    Packs max (.fresh 4096) 0x0100000000000700 ∧
      Unpacks { readPos := 1, writePos := 4, bufferData := [9, 0x82, 7, 1], accesses := [] } 0x82 [7, 1] :=
  ⟨(guid_canonical max).1 _ _ (by decide) (by decide),
    (guid_canonical max).2.2.2 _ _ _ [] (by decide) ⟨by decide, by simp⟩ rfl⟩

end NovusHeadless
