import NovusHeadless.Networking.Serialization

/-!
# Raw writes to a `ByteBuffer` (`Networking/ByteBuffer.h`)

`Write(void const*, size_t)` copies a block to the write position, and `WriteAt<T>` a value to any position.
Neither lets the vector grow: a copy that does not fit into it is outside of it, which is `none`.

* `writesAgree_iff` — `Write` does what `Append` does exactly when there is enough room;
* `writesInPlace_iff` — a `WriteAt` whose assertion passes stays in the vector exactly when all of its bytes
  fit, not only the first one.
-/

namespace NovusHeadless

open Lib

namespace ByteBuffer

/-- `Write(void const*, size_t)`. -/
def write (b : ByteBuffer) (data : Bytes) : Option ByteBuffer :=
  if data.length ≠ 0 then
    if b.writePos + data.length ≤ b.bufferData.length then
      some ({ b with bufferData := splice b.bufferData b.writePos data }.writeBytes data.length)
    else none
  else some b

/-- The assertion of `WriteAt`. -/
def WriteAtAsserts (b : ByteBuffer) (position : ℕ) : Prop := b.bufferData.length > position

instance (b : ByteBuffer) (position : ℕ) : Decidable (b.WriteAtAsserts position) := by
  unfold WriteAtAsserts
  infer_instance

/-- `WriteAt<T>`; `none` is a failed assertion, too. -/
def writeAt {t : IntegerType} (b : ByteBuffer) (value : t.Val) (position : ℕ) : Option ByteBuffer :=
  if b.WriteAtAsserts position then
    if position + t.size ≤ b.bufferData.length then
      some { b with bufferData := splice b.bufferData position (IntegerType.toBytes value) }
    else none
  else none

/-- `ReadAt<T>`. -/
def readAt (b : ByteBuffer) (t : IntegerType) (position : ℕ) : Option t.Val :=
  if position + t.size ≤ b.bufferData.length then
    some (t.ofBytes ((b.bufferData.drop position).take t.size))
  else none

/-! ### Blocks at the write position -/

/-- The block is in the buffer from the old write position on, and what was before is as it was. -/
structure Stores (b : ByteBuffer) (data : Bytes) (b' : ByteBuffer) : Prop where
  readPos : b'.readPos = b.readPos
  writePos : b'.writePos = b.writePos + data.length
  inside : b'.writePos ≤ b'.bufferData.length
  stored : (b'.bufferData.drop b.writePos).take data.length = data
  earlier : b'.bufferData.take b.writePos = b.bufferData.take b.writePos

/-- `Write` leaves what `Append` leaves, with the block in the buffer. -/
def WritesAgree (growth : ℕ → ℕ → ℕ) (b : Vec) (data : Bytes) : Prop :=
  ∃ b', b.toByteBuffer.write data = some b' ∧ b' = (b.append growth data).toByteBuffer ∧
    b.toByteBuffer.Stores data b'

section

variable {b : Vec} {data : Bytes}

/-- **`Append`** stores the block, at any fill level. -/
theorem stores_append (growth : ℕ → ℕ → ℕ) (hw : b.writePos ≤ b.bufferData.length)
    (hs : b.bufferData.length + data.length < 2 ^ 64) :
    b.toByteBuffer.Stores data (b.append growth data).toByteBuffer := by
  rw [Vec.toByteBuffer_append_of_le growth hw hs]
  have hle : b.writePos ≤ (b.bufferData ++
      List.replicate (b.writePos + data.length - b.bufferData.length) 0).length := by
    rw [List.length_append]
    omega
  refine ⟨rfl, rfl, ?_, take_drop_splice hle, ?_⟩
  · show b.writePos + data.length ≤ (splice _ b.writePos data).length
    rw [length_splice] <;> rw [List.length_append, List.length_replicate] <;> omega
  · show (splice _ b.writePos data).take b.writePos = b.bufferData.take b.writePos
    rw [take_splice_left hle, List.take_append_of_le_length hw]

/-- **When the two write paths agree.** -/
theorem writesAgree_iff (growth : ℕ → ℕ → ℕ) (hw : b.writePos ≤ b.bufferData.length)
    (hne : data ≠ []) (hs : b.bufferData.length + data.length < 2 ^ 64) :
    WritesAgree growth b data ↔ b.writePos + data.length ≤ b.bufferData.length := by
  have hlen : data.length ≠ 0 := fun h => hne (List.eq_nil_of_length_eq_zero h)
  constructor
  · rintro ⟨b', hwrite, -, -⟩
    by_contra hroom
    unfold write at hwrite
    rw [if_pos hlen, if_neg hroom] at hwrite
    exact Option.some_ne_none b' hwrite.symm
  · intro hroom
    have happend := Vec.toByteBuffer_append_of_le growth hw hs
    rw [Nat.sub_eq_zero_of_le hroom, List.replicate_zero, List.append_nil] at happend
    refine ⟨_, ?_, rfl, stores_append growth hw hs⟩
    have hpos : (b.writePos + data.length) % 2 ^ 64 = b.writePos + data.length := by omega
    unfold write writeBytes
    rw [if_pos hlen, if_pos hroom, happend]
    show some (ByteBuffer.mk b.readPos ((b.writePos + data.length) % 2 ^ 64) _) = _
    rw [hpos]

end

theorem writesAgree_iff_room :
    (0 ≤ 2 ∧ ([1, 2] : Bytes) ≠ [] ∧ 2 + 2 < 2 ^ 64) ∧
      WritesAgree max { new.resize 2 with capacity := 2 } [1, 2] :=
  ⟨by decide, (writesAgree_iff max (b := { new.resize 2 with capacity := 2 }) (by decide)
    (by decide) (by decide)).2 (by decide)⟩

/-- A byte for an empty buffer is written behind its end. -/
theorem block_outside :
    ¬ ∀ (growth : ℕ → ℕ → ℕ) (b : Vec) (data : Bytes), b.writePos ≤ b.bufferData.length →
      data ≠ [] → b.bufferData.length + data.length < 2 ^ 64 → WritesAgree growth b data := by
  intro h
  obtain ⟨b', hwrite, -⟩ := h max (.fresh 4096) [1] (by decide) (by decide) (by decide)
  exact Option.some_ne_none b' hwrite.symm

/-! ### Values at a position -/

/-- The value is at its position, and nothing else is changed. -/
def WritesInPlace {t : IntegerType} (b : ByteBuffer) (value : t.Val) (position : ℕ) : Prop :=
  ∃ b', b.writeAt value position = some b' ∧ b'.readAt t position = some value ∧
    b'.readPos = b.readPos ∧ b'.writePos = b.writePos ∧
    b'.bufferData.length = b.bufferData.length ∧
    ∀ i, i < position ∨ position + t.size ≤ i → b'.bufferData[i]? = b.bufferData[i]?

/-- **When a write stays in its place.** -/
theorem writesInPlace_iff {t : IntegerType} {b : ByteBuffer} (value : t.Val) {position : ℕ}
    (hassert : b.WriteAtAsserts position) :
    WritesInPlace b value position ↔ position + t.size ≤ b.bufferData.length := by
  constructor
  · rintro ⟨b', hwrite, -⟩
    by_contra hout
    unfold writeAt at hwrite
    rw [if_pos hassert, if_neg hout] at hwrite
    exact Option.some_ne_none b' hwrite.symm
  · intro hin
    have hsize := IntegerType.length_toBytes value
    have hpos : position ≤ b.bufferData.length := by omega
    have hlen : (splice b.bufferData position (IntegerType.toBytes value)).length =
        b.bufferData.length := length_splice (by rw [hsize]; exact hin)
    refine ⟨{ b with bufferData := splice b.bufferData position (IntegerType.toBytes value) },
      ?_, ?_, rfl, rfl, hlen, ?_⟩
    · unfold writeAt
      rw [if_pos hassert, if_pos hin]
    · have hstored : ((splice b.bufferData position (IntegerType.toBytes value)).drop
          position).take (IntegerType.toBytes value).length = _ := take_drop_splice hpos
      rw [hsize] at hstored
      unfold readAt
      dsimp only
      rw [hlen, if_pos hin, hstored, IntegerType.ofBytes_toBytes]
    · intro i hi
      rw [← hsize] at hi
      exact getElem?_splice hpos hi

theorem writesInPlace_iff_end :
    (new.resize 4).WriteAtAsserts 2 ∧ WritesInPlace (t := .u16) (new.resize 4) 0x0201 2 := by
  have hassert : (new.resize 4).WriteAtAsserts 2 := by decide
  exact ⟨hassert, (writesInPlace_iff (t := .u16) 0x0201 hassert).2 (by decide)⟩

/-- Two bytes at the last byte of a buffer. -/
theorem last_byte_only :
    ¬ ∀ (t : IntegerType) (b : ByteBuffer) (value : t.Val) (position : ℕ),
      b.WriteAtAsserts position → WritesInPlace b value position := by
  intro h
  obtain ⟨b', hwrite, -⟩ := h .u16 (new.resize 1) 0x0201 0 (by decide)
  exact Option.some_ne_none b' hwrite.symm

end ByteBuffer

end NovusHeadless
