import NovusHeadless.Lib.Splice
import NovusHeadless.Cryptography.BigNumber

/-!
# `ByteBuffer` (`Networking/ByteBuffer.h`)

A byte vector with a read and a write position, both `size_t`.  The two size getters subtract positions
as `size_t` and convert to `u32`; nothing in the class keeps the read position behind the write
position, so the subtraction can wrap.

* `Ordered b` — `_readPos <= _writePos <= size()` with a size below `2 ^ 32`: the getters are the exact
  differences (`getActualSize_of_ordered`, `getSpaceLeft_of_ordered`);
* `getActualSize_of_lt` — the getter when the read position has passed the write position;
* `unread b` — the bytes in `[_readPos, _writePos)`.
-/

namespace NovusHeadless

open Lib

structure ByteBuffer where
  readPos : ℕ
  writePos : ℕ
  bufferData : Bytes
  deriving DecidableEq, Repr

namespace ByteBuffer

/-- `ByteBuffer()` and `ByteBuffer(size_t)`: reserving capacity does not change the size. -/
def new : ByteBuffer := ⟨0, 0, []⟩

def clean (_ : ByteBuffer) : ByteBuffer := ⟨0, 0, []⟩

/-- `_bufferData.resize`: new elements are zero. -/
def resize (b : ByteBuffer) (newSize : ℕ) : ByteBuffer :=
  { b with bufferData :=
      b.bufferData.take newSize ++ List.replicate (newSize - b.bufferData.length) 0 }

def writeBytes (b : ByteBuffer) (size : ℕ) : ByteBuffer :=
  { b with writePos := (b.writePos + size) % 2 ^ 64 }

def readBytes (b : ByteBuffer) (size : ℕ) : ByteBuffer :=
  { b with readPos := (b.readPos + size) % 2 ^ 64 }

/-- `(u32)(_writePos - _readPos)`. -/
def getActualSize (b : ByteBuffer) : ℕ := (b.writePos + 2 ^ 64 - b.readPos) % 2 ^ 64 % 2 ^ 32

/-- `(u32)(_bufferData.size() - _writePos)`. -/
def getSpaceLeft (b : ByteBuffer) : ℕ :=
  (b.bufferData.length + 2 ^ 64 - b.writePos) % 2 ^ 64 % 2 ^ 32

/-- The memory from the start of the vector on. -/
def getDataPointer (b : ByteBuffer) : Bytes := b.bufferData

/-- The memory from the read position on. -/
def getReadPointer (b : ByteBuffer) : Bytes := b.bufferData.drop b.readPos

def empty (b : ByteBuffer) : Bool := b.bufferData.isEmpty

/-- The move is a `memmove`: source and destination may overlap. -/
def cleanBuffer (b : ByteBuffer) : ByteBuffer :=
  if b.readPos ≠ 0 then
    let data :=
      if b.readPos ≠ b.writePos then
        splice b.bufferData 0 (b.getReadPointer.take b.getActualSize)
      else b.bufferData
    ⟨0, (b.writePos + 2 ^ 64 - b.readPos) % 2 ^ 64, data⟩
  else b

/-- The factor `1.5f`, as `floor (1.5 * size)`. -/
def recalculateSize (b : ByteBuffer) : ByteBuffer :=
  if b.getSpaceLeft = 0 then b.resize (b.bufferData.length * 3 / 2) else b

/-- `Read<u8>`. -/
def readU8 (b : ByteBuffer) : UInt8 × ByteBuffer :=
  (b.getReadPointer.getD 0 0, b.readBytes 1)

/-- `Read<u16>`, little-endian. -/
def readU16 (b : ByteBuffer) : ℕ × ByteBuffer :=
  (leVal (b.getReadPointer.take 2), b.readBytes 2)

/-- The bytes between the two positions. -/
def unread (b : ByteBuffer) : Bytes := b.getReadPointer.take (b.writePos - b.readPos)

/-- The positions are in order and the size fits in a `u32`. -/
structure Ordered (b : ByteBuffer) : Prop where
  read_le : b.readPos ≤ b.writePos
  write_le : b.writePos ≤ b.bufferData.length
  size_lt : b.bufferData.length < 2 ^ 32

lemma resize_new (n : ℕ) : new.resize n = ⟨0, 0, List.replicate n 0⟩ := by simp [new, resize]

/-! ### The size getters -/

lemma getActualSize_of_le {b : ByteBuffer} (h : b.readPos ≤ b.writePos) (hw : b.writePos < 2 ^ 32) :
    b.getActualSize = b.writePos - b.readPos := by
  unfold getActualSize
  omega

/-- Past the write position the unread count is a huge number. -/
lemma getActualSize_of_lt {b : ByteBuffer} (h : b.writePos < b.readPos) (hr : b.readPos < 2 ^ 32) :
    b.getActualSize = 2 ^ 32 - (b.readPos - b.writePos) := by
  unfold getActualSize
  omega

lemma getActualSize_eq_zero_iff {b : ByteBuffer} (hr : b.readPos < 2 ^ 32)
    (hw : b.writePos < 2 ^ 32) : b.getActualSize = 0 ↔ b.readPos = b.writePos := by
  unfold getActualSize
  omega

lemma getSpaceLeft_of_le {b : ByteBuffer} (h : b.writePos ≤ b.bufferData.length)
    (hs : b.bufferData.length < 2 ^ 32) : b.getSpaceLeft = b.bufferData.length - b.writePos := by
  unfold getSpaceLeft
  omega

theorem getActualSize_of_ordered {b : ByteBuffer} (h : b.Ordered) :
    b.getActualSize = b.writePos - b.readPos :=
  getActualSize_of_le h.read_le (h.write_le.trans_lt h.size_lt)

theorem getSpaceLeft_of_ordered {b : ByteBuffer} (h : b.Ordered) :
    b.getSpaceLeft = b.bufferData.length - b.writePos :=
  getSpaceLeft_of_le h.write_le h.size_lt

/-! ### Compaction and growth -/

lemma cleanBuffer_of_readPos {b : ByteBuffer} (h : b.readPos = 0) : b.cleanBuffer = b := by
  unfold cleanBuffer
  rw [if_neg (not_not.2 h)]

/-- Everything read: the positions go back to the start and the bytes stay where they are. -/
lemma cleanBuffer_of_eq {b : ByteBuffer} (h : b.readPos = b.writePos) :
    b.cleanBuffer = ⟨0, 0, b.bufferData⟩ := by
  obtain ⟨r, w, data⟩ := b
  obtain rfl : r = w := h
  unfold cleanBuffer
  by_cases h0 : r = 0
  · subst h0
    rfl
  · simp [h0]

lemma recalculateSize_of_space {b : ByteBuffer} (h : b.getSpaceLeft ≠ 0) :
    b.recalculateSize = b := by
  unfold recalculateSize
  rw [if_neg h]

lemma length_unread {b : ByteBuffer} (h : b.Ordered) :
    b.unread.length = b.writePos - b.readPos := by
  have := h.write_le
  unfold unread getReadPointer
  rw [List.length_take, List.length_drop]
  omega

/-- **Compaction of an ordered buffer**: the unread bytes go to the front. -/
theorem cleanBuffer_of_ordered {b : ByteBuffer} (h : b.Ordered) :
    b.cleanBuffer = ⟨0, b.writePos - b.readPos, splice b.bufferData 0 b.unread⟩ := by
  have hw := h.write_le
  have hr := h.read_le
  have hs := h.size_lt
  by_cases h0 : b.readPos = 0
  · have hun : b.unread = b.bufferData.take b.writePos := by
      unfold unread getReadPointer
      rw [h0, List.drop_zero, Nat.sub_zero]
    have hlen : (b.bufferData.take b.writePos).length = b.writePos := by simp [hw]
    rw [cleanBuffer_of_readPos h0, hun, splice_zero, hlen, List.take_append_drop, h0, Nat.sub_zero]
    cases b
    simp_all
  · have hsub : (b.writePos + 2 ^ 64 - b.readPos) % 2 ^ 64 = b.writePos - b.readPos := by omega
    unfold cleanBuffer
    rw [if_pos h0, hsub, getActualSize_of_ordered h]
    by_cases heq : b.readPos = b.writePos
    · have hun : b.unread = [] := by
        unfold unread
        rw [heq, Nat.sub_self, List.take_zero]
      have hsplice : splice b.bufferData 0 ([] : Bytes) = b.bufferData := splice_zero _ _
      rw [hun, hsplice]
      simp [heq]
    · rw [if_pos heq]
      rfl

lemma unread_cleanBuffer {b : ByteBuffer} (h : b.Ordered) : b.cleanBuffer.unread = b.unread := by
  have hfront : (b.unread ++ b.bufferData.drop b.unread.length).take (b.writePos - b.readPos) =
      b.unread := List.take_left' (length_unread h)
  rw [cleanBuffer_of_ordered h, splice_zero]
  exact hfront

lemma length_cleanBuffer {b : ByteBuffer} (h : b.Ordered) :
    b.cleanBuffer.bufferData.length = b.bufferData.length := by
  have hw := h.write_le
  rw [cleanBuffer_of_ordered h]
  exact length_splice (by rw [length_unread h]; omega)

/-- The number of bytes by which `RecalculateSize` lets an ordered buffer grow. -/
def growth (b : ByteBuffer) : ℕ :=
  if b.writePos = b.bufferData.length then b.bufferData.length / 2 else 0

/-- **Growth of an ordered buffer** puts zeros behind the vector. -/
theorem recalculateSize_of_ordered {b : ByteBuffer} (h : b.Ordered) :
    b.recalculateSize =
      ⟨b.readPos, b.writePos, b.bufferData ++ List.replicate b.growth 0⟩ := by
  have hw := h.write_le
  unfold recalculateSize growth
  rw [getSpaceLeft_of_ordered h]
  by_cases hfull : b.writePos = b.bufferData.length
  · have hgrow : b.bufferData.length * 3 / 2 - b.bufferData.length = b.bufferData.length / 2 := by
      omega
    rw [if_pos (by omega), if_pos hfull]
    unfold resize
    rw [hgrow, List.take_of_length_le (by omega)]
  · rw [if_neg (by omega), if_neg hfull, List.replicate_zero, List.append_nil]

lemma unread_recalculateSize {b : ByteBuffer} (h : b.Ordered) :
    b.recalculateSize.unread = b.unread := by
  have hw := h.write_le
  have hr := h.read_le
  rw [recalculateSize_of_ordered h]
  show ((b.bufferData ++ List.replicate b.growth 0).drop b.readPos).take (b.writePos - b.readPos) =
    (b.bufferData.drop b.readPos).take (b.writePos - b.readPos)
  rw [List.drop_append_of_le_length (by omega),
    List.take_append_of_le_length (by rw [List.length_drop]; omega)]

/-- The growth rule multiplies the size, so an empty vector stays empty. -/
lemma recalculateSize_clean (b : ByteBuffer) : b.clean.recalculateSize = ⟨0, 0, []⟩ := by
  unfold recalculateSize clean resize
  rw [if_pos (by decide)]
  rfl

end ByteBuffer

end NovusHeadless
