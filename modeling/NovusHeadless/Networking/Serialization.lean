import NovusHeadless.Networking.ByteBuffer
import Mathlib.Data.Nat.Bitwise

/-!
# Typed values in a `ByteBuffer` (`Networking/ByteBuffer.h`)

Writing: `Append` with its growth ladder, `Write<T>`, `WriteString`, `AppendGuid`.  Reading: `Read<T>`,
`Read(std::string&)`, `ReadPackedGUID`.

* `Value` — what can be written; `Kind` — what can be asked for when reading;
* `encode` — the bytes a value is laid out as;
* `toByteBuffer_write`, `read_value` — writing a value appends its layout, and reading it takes the layout
  off again, at any offset;
* `readAll_writeAll` — the values of a whole packet.

`Vec` is a `ByteBuffer` with the capacity of its vector, which only `Append` looks at; `Reader` is a
`ByteBuffer` with a record of the bytes that reading has touched.
-/

namespace NovusHeadless

open Lib

/-- The types of `Write<T>` and `Read<T>`. -/
inductive IntegerType where
  | u8 | u16 | u32 | u64 | i8 | i16 | i32 | i64
  deriving DecidableEq, Repr

namespace IntegerType

/-- `sizeof(T)`. -/
def size : IntegerType → ℕ
  | u8 | i8 => 1
  | u16 | i16 => 2
  | u32 | i32 => 4
  | u64 | i64 => 8

/-- The values of the type by their bits: a signed value is stored in two's complement. -/
abbrev Val (t : IntegerType) : Type := BitVec (8 * t.size)

/-- The memory of a value, least significant byte first. -/
def toBytes {t : IntegerType} (v : t.Val) : Bytes := padded t.size v.toNat

/-- `*((T const*)memory)`. -/
def ofBytes (t : IntegerType) (memory : Bytes) : t.Val := BitVec.ofNat _ (leVal memory)

lemma length_toBytes {t : IntegerType} (v : t.Val) : (toBytes v).length = t.size := by
  apply length_padded
  have : (256 : ℕ) ^ t.size = 2 ^ (8 * t.size) := by rw [pow_mul]; norm_num
  rw [this]
  exact v.isLt

lemma ofBytes_toBytes {t : IntegerType} (v : t.Val) : t.ofBytes (toBytes v) = v := by
  unfold ofBytes toBytes
  rw [leVal_padded, BitVec.ofNat_toNat, BitVec.setWidth_eq]

end IntegerType

/-! ### Writing -/

/-- A buffer and the capacity of its vector. -/
structure Vec extends ByteBuffer where
  capacity : ℕ

namespace Vec

/-- `ByteBuffer()` and `ByteBuffer(size_t)`. -/
def fresh (reserveSize : ℕ) : Vec := { ByteBuffer.new with capacity := reserveSize }

/-- `_bufferData.reserve`. -/
def reserve (b : Vec) (n : ℕ) : Vec := { b with capacity := max b.capacity n }

/- The capacity that a `resize` beyond the capacity leads to: the choice of the standard library. -/
variable (growth : ℕ → ℕ → ℕ)

/-- `_bufferData.resize`. -/
def resize (b : Vec) (newSize : ℕ) : Vec where
  toByteBuffer := b.toByteBuffer.resize newSize
  capacity := if newSize ≤ b.capacity then b.capacity else growth b.capacity newSize

/-- The growth ladder of `Append`. -/
def reserveFor (b : Vec) (newSize : ℕ) : Vec :=
  if b.capacity < newSize then
    if newSize < 100 then b.reserve 300
    else if newSize < 750 then b.reserve 2500
    else if newSize < 6000 then b.reserve 10000
    else b.reserve 400000
  else b

/-- `Append(u8 const*, size_t)`. -/
def append (b : Vec) (value : Bytes) : Vec :=
  let newSize := (b.writePos + value.length) % 2 ^ 64
  let b := b.reserveFor newSize
  let b := if b.bufferData.length < newSize then b.resize growth newSize else b
  { b with bufferData := splice b.bufferData b.writePos value, writePos := newSize }

/-- `Write<T>`. -/
def writeInteger {t : IntegerType} (b : Vec) (value : t.Val) : Vec :=
  b.append growth (IntegerType.toBytes value)

/-- `WriteString`. -/
def writeString (b : Vec) (value : Bytes) : Vec :=
  let b := if value.length ≠ 0 then b.append growth value else b
  b.writeInteger growth (0 : IntegerType.u8.Val)

/-- The loop of `AppendGuid` from the index `i` on; `packed` is what has been stored behind the mask. -/
def packLoop (i guid : ℕ) (mask : UInt8) (packed : Bytes) : UInt8 × Bytes :=
  if guid = 0 then (mask, packed)
  else if guid % 256 ≠ 0 then
    packLoop (i + 1) (guid / 256) (mask ||| (1 <<< UInt8.ofNat i))
      (packed ++ [UInt8.ofNat (guid % 256)])
  else packLoop (i + 1) (guid / 256) mask packed
termination_by guid

/-- `packedGuid[0], .., packedGuid[size - 1]`. -/
def packedGuid (guid : UInt64) : Bytes :=
  let (mask, packed) := packLoop 0 guid.toNat 0 []
  mask :: packed

/-- `AppendGuid`. -/
def appendGuid (b : Vec) (guid : UInt64) : Vec := b.append growth (packedGuid guid)

lemma toByteBuffer_reserveFor (b : Vec) (newSize : ℕ) :
    (b.reserveFor newSize).toByteBuffer = b.toByteBuffer := by
  unfold reserveFor
  split_ifs <;> rfl

/-- **`Append` at the write position**: the vector grows if there is not enough room behind it. -/
theorem toByteBuffer_append_of_le {b : Vec} (hw : b.writePos ≤ b.bufferData.length) {value : Bytes}
    (hs : b.bufferData.length + value.length < 2 ^ 64) :
    (b.append growth value).toByteBuffer =
      ⟨b.readPos, b.writePos + value.length,
        splice (b.bufferData ++
          List.replicate (b.writePos + value.length - b.bufferData.length) 0) b.writePos value⟩ := by
  have hnew : (b.writePos + value.length) % 2 ^ 64 = b.writePos + value.length := by omega
  unfold append
  dsimp only
  rw [hnew]
  have hb := toByteBuffer_reserveFor b (b.writePos + value.length)
  generalize b.reserveFor (b.writePos + value.length) = c at hb
  have hread : c.readPos = b.readPos := by rw [hb]
  have hwrite : c.writePos = b.writePos := by rw [hb]
  have hdata : c.bufferData = b.bufferData := by rw [hb]
  by_cases hlt : c.bufferData.length < b.writePos + value.length
  · have hresize : (c.resize growth (b.writePos + value.length)).bufferData = b.bufferData ++
        List.replicate (b.writePos + value.length - b.bufferData.length) 0 := by
      show c.bufferData.take _ ++ List.replicate (_ - c.bufferData.length) 0 = _
      rw [hdata, List.take_of_length_le (by rw [← hdata]; omega)]
    rw [if_pos hlt, hresize]
    show (⟨c.readPos, _, splice _ c.writePos value⟩ : ByteBuffer) = _
    rw [hread, hwrite]
  · have hroom : b.writePos + value.length - b.bufferData.length = 0 := by
      rw [hdata] at hlt
      omega
    rw [if_neg hlt, hroom, List.replicate_zero, List.append_nil, hdata, hwrite, hread]

/-- **`Append` at the end of the buffer**: whatever the ladder reserves, the bytes are appended. -/
theorem toByteBuffer_append {b : Vec} (hw : b.writePos = b.bufferData.length) {value : Bytes}
    (hs : b.bufferData.length + value.length < 2 ^ 64) :
    (b.append growth value).toByteBuffer =
      ⟨b.readPos, b.bufferData.length + value.length, b.bufferData ++ value⟩ := by
  have hsplice : splice (b.bufferData ++ List.replicate value.length 0) b.bufferData.length value =
      b.bufferData ++ value := by
    unfold splice
    rw [List.take_left' rfl, List.drop_of_length_le (by simp), List.append_nil]
  rw [toByteBuffer_append_of_le growth hw.le hs, hw, Nat.add_sub_cancel_left, hsplice]

end Vec

/-- A buffer and the places `(position, length)` that have been read; no function looks at them. -/
structure Reader extends ByteBuffer where
  accesses : List (ℕ × ℕ)

namespace Reader

/-- `Read(void*, size_t)`; `Read<T>` and `Read()` read in the same way. -/
def read (r : Reader) (length : ℕ) : Bytes × Reader :=
  (r.getReadPointer.take length,
    { r with
      toByteBuffer := r.toByteBuffer.readBytes length
      accesses := r.accesses ++ [(r.readPos, length)] })

/-- `Read<T>` with its type written out, as the callers do; without it the overload `Read(size_t)` would
take a `u64`. -/
def readInteger (r : Reader) (t : IntegerType) : t.Val × Reader :=
  let (memory, r) := r.read t.size
  (t.ofBytes memory, r)

/-- `size()`. -/
def size (r : Reader) : ℕ := r.bufferData.length % 2 ^ 32

/-- At most `n` passes of the loop of `Read(std::string&)`. -/
def readStringLoop : ℕ → Bytes → Reader → Bytes × Reader
  | 0, value, r => (value, r)
  | n + 1, value, r =>
    if r.readPos < r.size then
      let (c, r) := r.read 1
      if c.getD 0 0 = 0 then (value, r) else readStringLoop n (value ++ [c.getD 0 0]) r
    else (value, r)

/-- `Read(std::string&)`.  Every pass of the loop moves the read position towards `size()`. -/
def readString (r : Reader) : Bytes × Reader := readStringLoop (r.size - r.readPos) [] r

/-- One pass of the loop of `ReadPackedGUID`. -/
def readGuidStep (guidmark : UInt8) (s : ℕ × Reader) (i : ℕ) : ℕ × Reader :=
  if guidmark &&& (1 <<< UInt8.ofNat i) ≠ 0 then
    let (bit, r) := s.2.read 1
    (s.1 ||| ((bit.getD 0 0).toNat <<< (i * 8)), r)
  else s

/-- `ReadPackedGUID`. -/
def readPackedGUID (r : Reader) : UInt64 × Reader :=
  let (guidmark, r) := r.read 1
  let (guid, r) := (List.range 8).foldl (readGuidStep (guidmark.getD 0 0)) (0, r)
  (UInt64.ofNat guid, r)

/-- The read position `n` bytes further on, after these accesses. -/
def moved (r : Reader) (n : ℕ) (log : List (ℕ × ℕ)) : Reader :=
  { r with readPos := r.readPos + n, accesses := r.accesses ++ log }

/-- All accesses lie in the `n` bytes behind the read position. -/
def Within (r : Reader) (n : ℕ) (log : List (ℕ × ℕ)) : Prop :=
  ∀ a ∈ log, r.readPos ≤ a.1 ∧ a.1 + a.2 ≤ r.readPos + n

/-- The reading of `x` behind the position of `r` takes the `n` bytes of its layout off. -/
def Reads {α : Type*} (r : Reader) (x : α) (n : ℕ) (result : α × Reader) : Prop :=
  ∃ log, result = (x, r.moved n log) ∧ r.Within n log

section

variable {r : Reader} {xs post : Bytes}

lemma getReadPointer_moved (h : r.getReadPointer = xs ++ post) (log : List (ℕ × ℕ)) :
    (r.moved xs.length log).getReadPointer = post := by
  show r.bufferData.drop (r.readPos + xs.length) = post
  rw [← List.drop_drop]
  show r.getReadPointer.drop xs.length = post
  rw [h, List.drop_left' rfl]

lemma moved_moved (n m : ℕ) (log log' : List (ℕ × ℕ)) :
    (r.moved n log).moved m log' = r.moved (n + m) (log ++ log') := by
  unfold moved
  simp only [Nat.add_assoc, List.append_assoc]

lemma Within.append {n m : ℕ} {log log' : List (ℕ × ℕ)} (h : r.Within n log)
    (h' : (r.moved n log).Within m log') : r.Within (n + m) (log ++ log') := by
  intro a ha
  rcases List.mem_append.1 ha with ha | ha
  · obtain ⟨h1, h2⟩ := h a ha
    exact ⟨h1, by omega⟩
  · obtain ⟨h1, h2⟩ := h' a ha
    have hpos : (r.moved n log).readPos = r.readPos + n := rfl
    exact ⟨by omega, by omega⟩

lemma readPos_add_le (h : r.getReadPointer = xs ++ post) (hx : xs ≠ []) :
    r.readPos + xs.length ≤ r.bufferData.length := by
  have hlen : r.bufferData.length - r.readPos = xs.length + post.length := by
    rw [← List.length_append, ← h]
    exact (List.length_drop ..).symm
  have := List.length_pos_iff.2 hx
  omega

/-- **Reading bytes.** -/
theorem reads_read (h : r.getReadPointer = xs ++ post) (hx : xs ≠ [])
    (hs : r.bufferData.length < 2 ^ 64) : r.Reads xs xs.length (r.read xs.length) := by
  have hle := readPos_add_le h hx
  have hmod : (r.readPos + xs.length) % 2 ^ 64 = r.readPos + xs.length :=
    Nat.mod_eq_of_lt (by omega)
  refine ⟨[(r.readPos, xs.length)], ?_, ?_⟩
  · unfold read ByteBuffer.readBytes moved
    rw [h, List.take_left' rfl, hmod]
  · intro a ha
    obtain rfl := List.mem_singleton.1 ha
    exact ⟨le_rfl, le_rfl⟩

lemma Reads.then {α β : Type*} {x : α} {y : β} {n m : ℕ} {result : α × Reader}
    (h : r.Reads x n result) {next : Reader → β × Reader}
    (hnext : ∀ log, (r.moved n log).Reads y m (next (r.moved n log))) :
    r.Reads y (n + m) (next result.2) := by
  obtain ⟨log, rfl, hw⟩ := h
  obtain ⟨log', hr, hw'⟩ := hnext log
  refine ⟨log ++ log', ?_, hw.append hw'⟩
  rw [← moved_moved]
  exact hr

/-! ### Integers and strings -/

/-- **`Read<T>` undoes `Write<T>`.** -/
theorem reads_integer {t : IntegerType} (v : t.Val)
    (h : r.getReadPointer = IntegerType.toBytes v ++ post) (hs : r.bufferData.length < 2 ^ 64) :
    r.Reads v t.size (r.readInteger t) := by
  have hlen := IntegerType.length_toBytes v
  have hne : IntegerType.toBytes v ≠ [] := by
    intro h0
    rw [h0, List.length_nil] at hlen
    cases t <;> exact absurd hlen (by decide)
  obtain ⟨log, hr, hw⟩ := reads_read h hne hs
  rw [hlen] at hr hw
  refine ⟨log, ?_, hw⟩
  unfold readInteger
  rw [hr]
  exact congrArg (fun v => (v, r.moved t.size log)) (IntegerType.ofBytes_toBytes v)

lemma size_eq (hs : r.bufferData.length < 2 ^ 32) : r.size = r.bufferData.length :=
  Nat.mod_eq_of_lt hs

/-- One pass of the loop of `Read(std::string&)` over the byte `c`. -/
lemma readStringLoop_succ {c : UInt8} (h : r.getReadPointer = [c] ++ post)
    (hs : r.bufferData.length < 2 ^ 32) (n : ℕ) (value : Bytes) :
    readStringLoop (n + 1) value r =
      if c = 0 then (value, (r.read 1).2) else readStringLoop n (value ++ [c]) (r.read 1).2 := by
  have hlt : r.readPos < r.size := by
    have := readPos_add_le h (List.cons_ne_nil _ _)
    rw [List.length_singleton] at this
    rw [size_eq hs]
    omega
  obtain ⟨log, hr, -⟩ := reads_read h (List.cons_ne_nil _ _) (by omega)
  rw [List.length_singleton] at hr
  rw [readStringLoop, if_pos hlt, hr]
  rfl

/-- **The loop of `Read(std::string&)`** consumes the bytes up to the first zero, and the zero. -/
theorem reads_stringLoop {s : Bytes} (h0 : (0 : UInt8) ∉ s) (value : Bytes)
    (h : r.getReadPointer = s ++ 0 :: post) (hs : r.bufferData.length < 2 ^ 32) {n : ℕ}
    (hn : s.length < n) :
    r.Reads (value ++ s) (s.length + 1) (readStringLoop n value r) := by
  obtain ⟨n, rfl⟩ := Nat.exists_eq_succ_of_ne_zero (Nat.ne_of_gt (Nat.zero_lt_of_lt hn))
  induction s generalizing r value n with
  | nil =>
    have hsplit : r.getReadPointer = [0] ++ post := h
    obtain ⟨log, hr, hw⟩ := reads_read hsplit (List.cons_ne_nil _ _) (by omega)
    rw [List.length_singleton] at hr
    refine ⟨log, ?_, hw⟩
    rw [readStringLoop_succ hsplit hs, if_pos rfl, hr, List.append_nil]
    rfl
  | cons c s ih =>
    have hc : c ≠ 0 := fun hc => h0 (hc ▸ List.mem_cons_self)
    have hsplit : r.getReadPointer = [c] ++ (s ++ 0 :: post) := h
    obtain ⟨n, rfl⟩ := Nat.exists_eq_succ_of_ne_zero
      (Nat.ne_of_gt (Nat.zero_lt_of_lt (Nat.lt_of_succ_lt_succ hn)))
    have hrest : r.Reads (value ++ [c] ++ s) (1 + (s.length + 1))
        (readStringLoop (n + 1) (value ++ [c]) (r.read 1).2) :=
      (reads_read hsplit (List.cons_ne_nil _ _) (by omega)).then fun log =>
        ih (fun hm => h0 (List.mem_cons_of_mem _ hm)) (value ++ [c])
          (getReadPointer_moved hsplit log) hs n (Nat.lt_of_succ_lt_succ hn)
    rw [readStringLoop_succ hsplit hs, if_neg hc, List.length_cons, Nat.add_comm (s.length + 1)]
    rwa [List.append_assoc] at hrest

/-- **`Read(std::string&)` undoes `WriteString`.** -/
theorem reads_string {s : Bytes} (h0 : (0 : UInt8) ∉ s) (h : r.getReadPointer = s ++ 0 :: post)
    (hs : r.bufferData.length < 2 ^ 32) : r.Reads s (s.length + 1) r.readString := by
  have hlen : s.length < r.size - r.readPos := by
    have hsplit : r.getReadPointer = (s ++ [0]) ++ post := by rw [h, List.append_cons]
    have := readPos_add_le hsplit (by simp)
    rw [List.length_append, List.length_singleton] at this
    rw [size_eq hs]
    omega
  exact reads_stringLoop h0 [] h hs hlen

end

end Reader

/-! ### Ids -/

lemma and_shiftLeft_ne_zero_iff (mask : UInt8) {i : ℕ} (hi : i < 8) :
    mask &&& (1 <<< UInt8.ofNat i) ≠ 0 ↔ mask.toNat.testBit i = true := by
  have hof : (UInt8.ofNat i).toNat = i := by simp; omega
  have hpow : 2 ^ i < 2 ^ 8 := Nat.pow_lt_pow_right (by norm_num) hi
  rw [ne_eq, ← UInt8.toNat_inj, UInt8.toNat_and, UInt8.toNat_shiftLeft, hof, UInt8.toNat_one,
    UInt8.toNat_zero, Nat.one_shiftLeft, Nat.mod_eq_of_lt hi, Nat.mod_eq_of_lt hpow,
    Nat.and_two_pow]
  cases mask.toNat.testBit i <;> simp

lemma testBit_or_shiftLeft (mask : UInt8) {i : ℕ} (hi : i < 8) (j : ℕ) :
    (mask ||| (1 <<< UInt8.ofNat i)).toNat.testBit j = (mask.toNat.testBit j || decide (i = j)) := by
  have hof : (UInt8.ofNat i).toNat = i := by simp; omega
  have hpow : 2 ^ i < 2 ^ 8 := Nat.pow_lt_pow_right (by norm_num) hi
  rw [UInt8.toNat_or, UInt8.toNat_shiftLeft, hof, UInt8.toNat_one, Nat.one_shiftLeft,
    Nat.mod_eq_of_lt hi, Nat.mod_eq_of_lt hpow, Nat.testBit_or, Nat.testBit_two_pow]

namespace Vec

/-- One pass of the loop of `AppendGuid` takes one byte of the id, also when the rest is zero. -/
lemma packLoop_cons (i : ℕ) (b : UInt8) (bs : Bytes) (mask : UInt8) (packed : Bytes) :
    packLoop i (leVal (b :: bs)) mask packed =
      if b ≠ 0 then packLoop (i + 1) (leVal bs) (mask ||| (1 <<< UInt8.ofNat i)) (packed ++ [b])
      else packLoop (i + 1) (leVal bs) mask packed := by
  have hb := b.toNat_lt
  have hval := leVal_cons b bs
  by_cases h0 : leVal (b :: bs) = 0
  · have hb0 : b = 0 := UInt8.toNat_inj.1 (by rw [UInt8.toNat_zero]; omega)
    have hbs0 : leVal bs = 0 := by omega
    rw [h0, hbs0, if_neg (not_not.2 hb0)]
    rw [packLoop, if_pos rfl, packLoop, if_pos rfl]
  · have hdiv : leVal (b :: bs) / 256 = leVal bs := by omega
    have hmod : leVal (b :: bs) % 256 = b.toNat := by omega
    rw [packLoop, if_neg h0, hdiv, hmod, UInt8.ofNat_toNat]
    have hiff : b.toNat ≠ 0 ↔ b ≠ 0 := by rw [ne_eq, ne_eq, ← UInt8.toNat_inj, UInt8.toNat_zero]
    simp only [hiff]

/-- **The packed form**: the mask marks the places of the non-zero bytes, which follow in order. -/
theorem packLoop_spec {bs : Bytes} {i : ℕ} (hi : i + bs.length ≤ 8) (mask : UInt8)
    (packed : Bytes) :
    (packLoop i (leVal bs) mask packed).2 = packed ++ bs.filter (· ≠ 0) ∧
      ∀ j < 8, (packLoop i (leVal bs) mask packed).1.toNat.testBit j =
        (mask.toNat.testBit j || decide (i ≤ j ∧ bs.getD (j - i) 0 ≠ 0)) := by
  induction bs generalizing i mask packed with
  | nil =>
    have h0 : leVal ([] : Bytes) = 0 := rfl
    rw [h0, packLoop, if_pos rfl]
    exact ⟨by simp, by simp⟩
  | cons b bs ih =>
    rw [List.length_cons] at hi
    have hplace : ∀ j, j ≠ i → (decide (i + 1 ≤ j ∧ bs.getD (j - (i + 1)) 0 ≠ 0) =
        decide (i ≤ j ∧ (b :: bs).getD (j - i) 0 ≠ 0)) := by
      intro j hj
      by_cases hle : i + 1 ≤ j
      · have hsub : j - i = j - (i + 1) + 1 := by omega
        rw [hsub, List.getD_cons_succ]
        simp [hle, Nat.le_of_succ_le hle]
      · simp [hle, show ¬ i ≤ j by omega]
    rw [packLoop_cons]
    by_cases hb : b = 0
    · obtain ⟨h1, h2⟩ := ih (i := i + 1) (by omega) mask packed
      rw [if_neg (not_not.2 hb)]
      refine ⟨by rw [h1, hb]; simp, ?_⟩
      intro j hj
      rw [h2 j hj]
      by_cases hji : j = i
      · subst hji
        simp [hb]
      · rw [hplace j hji]
    · obtain ⟨h1, h2⟩ := ih (i := i + 1) (by omega) (mask ||| (1 <<< UInt8.ofNat i)) (packed ++ [b])
      rw [if_pos hb]
      refine ⟨by rw [h1]; simp [hb], ?_⟩
      intro j hj
      rw [h2 j hj, testBit_or_shiftLeft mask (by omega)]
      by_cases hji : j = i
      · subst hji
        simp [hb]
      · rw [hplace j hji]
        simp [Ne.symm hji]

end Vec

/-- The eight bytes of an id. -/
def guidBytes (guid : UInt64) : Bytes := padded 8 guid.toNat

lemma length_guidBytes (guid : UInt64) : (guidBytes guid).length = 8 :=
  length_padded guid.toNat_lt

lemma leVal_guidBytes (guid : UInt64) : leVal (guidBytes guid) = guid.toNat := leVal_padded _ _

lemma packedGuid_eq (guid : UInt64) :
    ∃ mask : UInt8, Vec.packedGuid guid = mask :: (guidBytes guid).filter (· ≠ 0) ∧
      ∀ j < 8, mask.toNat.testBit j = decide ((guidBytes guid).getD j 0 ≠ 0) := by
  have hlen : 0 + (guidBytes guid).length ≤ 8 := by rw [length_guidBytes]
  obtain ⟨h1, h2⟩ := Vec.packLoop_spec hlen 0 []
  rw [leVal_guidBytes] at h1 h2
  refine ⟨(Vec.packLoop 0 guid.toNat 0 []).1, ?_, ?_⟩
  · unfold Vec.packedGuid
    exact congrArg (List.cons _) h1
  · intro j hj
    rw [h2 j hj]
    simp

namespace Reader

variable {r : Reader} {post : Bytes}

/-- **The loop of `ReadPackedGUID`** after `k` passes has put the first `k` bytes together. -/
theorem reads_guidLoop {bs : Bytes} {mask : UInt8} (hbs : bs.length = 8)
    (hmask : ∀ j < 8, mask.toNat.testBit j = decide (bs.getD j 0 ≠ 0))
    (h : r.getReadPointer = bs.filter (· ≠ 0) ++ post) (hs : r.bufferData.length < 2 ^ 64) {k : ℕ}
    (hk : k ≤ 8) :
    r.Reads (leVal (bs.take k)) ((bs.take k).filter (· ≠ 0)).length
      ((List.range k).foldl (readGuidStep mask) (0, r)) := by
  induction k with
  | zero =>
    refine ⟨[], ?_, fun a ha => absurd ha List.not_mem_nil⟩
    simp [moved, leVal]
  | succ k ih =>
    have hkl : k < bs.length := by omega
    obtain ⟨log, hr, hw⟩ := ih (by omega)
    have htake : bs.take (k + 1) = bs.take k ++ [bs[k]] := List.take_succ_eq_append_getElem hkl
    have hget : bs.getD k 0 = bs[k] := List.getD_eq_getElem _ _ hkl
    have hsplit : bs.filter (· ≠ 0) = (bs.take k).filter (· ≠ 0) ++ (bs.drop k).filter (· ≠ 0) := by
      rw [← List.filter_append, List.take_append_drop]
    have hdrop : bs.drop k = bs[k] :: bs.drop (k + 1) := List.drop_eq_getElem_cons hkl
    rw [List.range_succ, List.foldl_append, List.foldl_cons, List.foldl_nil, hr]
    have htest := (and_shiftLeft_ne_zero_iff mask (by omega : k < 8)).trans
      (Bool.eq_iff_iff.1 (hmask k (by omega)))
    rw [decide_eq_true_eq, hget] at htest
    unfold readGuidStep
    by_cases h0 : bs[k] = 0
    · rw [if_neg fun hne => htest.1 hne h0, htake, h0]
      refine ⟨log, ?_, ?_⟩
      · rw [leVal_append]
        simp [leVal, List.filter_append]
      · simpa [List.filter_append] using hw
    · have hahead : (r.moved ((bs.take k).filter (· ≠ 0)).length log).getReadPointer =
          [bs[k]] ++ ((bs.drop (k + 1)).filter (· ≠ 0) ++ post) := by
        rw [hsplit, hdrop, List.append_assoc] at h
        rw [getReadPointer_moved h, List.filter_cons_of_pos (by simpa using h0)]
        rfl
      obtain ⟨log', hr', hw'⟩ := reads_read hahead (List.cons_ne_nil _ _) hs
      rw [List.length_singleton] at hr' hw'
      rw [if_pos (htest.2 h0), hr']
      have hcount : ((bs.take (k + 1)).filter (· ≠ 0)).length =
          ((bs.take k).filter (· ≠ 0)).length + 1 := by
        rw [htake, List.filter_append, List.length_append]
        simp [h0]
      rw [hcount]
      refine ⟨log ++ log', ?_, hw.append hw'⟩
      · have hlt : leVal (bs.take k) < 2 ^ (k * 8) := by
          have hlen : (bs.take k).length = k := by rw [List.length_take]; omega
          have := leVal_lt (bs.take k)
          rwa [hlen, show (256 : ℕ) = 2 ^ 8 by norm_num, ← pow_mul, Nat.mul_comm] at this
        have hor : leVal (bs.take k) ||| bs[k].toNat <<< (k * 8) = leVal (bs.take (k + 1)) := by
          have hlen : (bs.take k).length = k := by rw [List.length_take]; omega
          have hone : leVal [bs[k]] = bs[k].toNat := by simp [leVal]
          rw [Nat.lor_comm, ← Nat.shiftLeft_add_eq_or_of_lt hlt, htake, leVal_append, hlen, hone,
            Nat.shiftLeft_eq, show (256 : ℕ) = 2 ^ 8 by norm_num, ← pow_mul]
          ring
        rw [moved_moved, ← hor]
        rfl

/-- **`ReadPackedGUID` undoes `AppendGuid`.** -/
theorem reads_guid (guid : UInt64) (h : r.getReadPointer = Vec.packedGuid guid ++ post)
    (hs : r.bufferData.length < 2 ^ 64) :
    r.Reads guid (Vec.packedGuid guid).length r.readPackedGUID := by
  obtain ⟨mask, hpacked, hmask⟩ := packedGuid_eq guid
  have hlen := length_guidBytes guid
  have hval := leVal_guidBytes guid
  rw [hpacked] at h ⊢
  generalize guidBytes guid = bs at hmask hlen hval h ⊢
  have hmem : r.getReadPointer = [mask] ++ (bs.filter (· ≠ 0) ++ post) := h
  obtain ⟨log, hr, hw⟩ := reads_read hmem (List.cons_ne_nil _ _) hs
  rw [List.length_singleton] at hr hw
  obtain ⟨log', hr', hw'⟩ := reads_guidLoop hlen hmask (getReadPointer_moved hmem log) hs le_rfl
  rw [List.length_singleton, List.take_of_length_le hlen.le] at hr' hw'
  refine ⟨log ++ log', ?_, ?_⟩
  · unfold readPackedGUID
    rw [hr]
    dsimp only
    rw [List.getD_cons_zero, hr', hval, UInt64.ofNat_toNat, moved_moved, List.length_cons,
      Nat.add_comm 1]
  · rw [List.length_cons, Nat.add_comm]
    exact hw.append hw'

end Reader

/-! ### Values -/

/-- A value that is written to a packet. -/
inductive Value where
  | integer (t : IntegerType) (value : t.Val)
  | string (value : Bytes)
  | guid (guid : UInt64)
  deriving DecidableEq

/-- What the reader of a packet asks for. -/
inductive Kind where
  | integer (t : IntegerType)
  | string
  | guid
  deriving DecidableEq, Repr

namespace Value

def kind : Value → Kind
  | integer t _ => .integer t
  | string _ => .string
  | guid _ => .guid

/-- The layout of a value. -/
def encode : Value → Bytes
  | integer _ value => IntegerType.toBytes value
  | string value => value ++ [0]
  | guid g => Vec.packedGuid g

/-- A string has no NUL. -/
def NulFree : Value → Prop
  | string value => (0 : UInt8) ∉ value
  | _ => True

instance : DecidablePred NulFree := fun v => by cases v <;> unfold NulFree <;> infer_instance

end Value

/-- `Write<T>`, `WriteString` or `AppendGuid`. -/
def Vec.write (growth : ℕ → ℕ → ℕ) (b : Vec) : Value → Vec
  | .integer _ value => b.writeInteger growth value
  | .string value => b.writeString growth value
  | .guid g => b.appendGuid growth g

/-- The values of a packet, in order. -/
def Vec.writeAll (growth : ℕ → ℕ → ℕ) (b : Vec) (values : List Value) : Vec :=
  values.foldl (Vec.write growth) b

/-- `Read<T>`, `Read(std::string&)` or `ReadPackedGUID`. -/
def Reader.readValue (r : Reader) : Kind → Value × Reader
  | .integer t => (.integer t (r.readInteger t).1, (r.readInteger t).2)
  | .string => (.string r.readString.1, r.readString.2)
  | .guid => (.guid r.readPackedGUID.1, r.readPackedGUID.2)

/-- Values of these kinds, in order. -/
def Reader.readAll (r : Reader) : List Kind → List Value × Reader
  | [] => ([], r)
  | kind :: kinds =>
    let (value, r) := r.readValue kind
    let (values, r) := r.readAll kinds
    (value :: values, r)

/-- **Writing a value appends its layout.** -/
theorem toByteBuffer_write (growth : ℕ → ℕ → ℕ) {b : Vec} (hw : b.writePos = b.bufferData.length)
    (v : Value) (hs : b.bufferData.length + v.encode.length < 2 ^ 64) :
    (b.write growth v).toByteBuffer =
      ⟨b.readPos, b.bufferData.length + v.encode.length, b.bufferData ++ v.encode⟩ := by
  cases v with
  | integer t value => exact Vec.toByteBuffer_append growth hw hs
  | guid g => exact Vec.toByteBuffer_append growth hw hs
  | string value =>
    have hlen : (Value.string value).encode.length = value.length + 1 := by
      unfold Value.encode
      rw [List.length_append, List.length_singleton]
    rw [hlen] at hs ⊢
    have hzero : IntegerType.toBytes (0 : IntegerType.u8.Val) = [0] := by decide
    -- the characters, and behind them the terminator
    have hchars : (if value.length ≠ 0 then b.append growth value else b).toByteBuffer =
        ⟨b.readPos, b.bufferData.length + value.length, b.bufferData ++ value⟩ := by
      by_cases h0 : value.length = 0
      · have hnil : value = [] := List.eq_nil_of_length_eq_zero h0
        rw [if_neg (not_not.2 h0), hnil, List.append_nil, List.length_nil, Nat.add_zero, ← hw]
      · rw [if_pos h0]
        exact Vec.toByteBuffer_append growth hw (by omega)
    show (((if value.length ≠ 0 then b.append growth value else b)).append growth
      (IntegerType.toBytes (0 : IntegerType.u8.Val))).toByteBuffer = _
    generalize (if value.length ≠ 0 then b.append growth value else b) = c at hchars ⊢
    have hdata : c.bufferData = b.bufferData ++ value := by rw [hchars]
    have hwrite : c.writePos = c.bufferData.length := by
      rw [hdata, List.length_append, hchars]
    have hread : c.readPos = b.readPos := by rw [hchars]
    rw [hzero, Vec.toByteBuffer_append growth hwrite (by
      rw [hdata, List.length_append, List.length_singleton]; omega), hread, hdata,
      List.length_append, List.length_singleton, List.append_assoc, Nat.add_assoc]
    rfl

theorem toByteBuffer_writeAll (growth : ℕ → ℕ → ℕ) {b : Vec}
    (hw : b.writePos = b.bufferData.length) (values : List Value)
    (hs : b.bufferData.length + (values.flatMap Value.encode).length < 2 ^ 64) :
    (b.writeAll growth values).toByteBuffer =
      ⟨b.readPos, b.bufferData.length + (values.flatMap Value.encode).length,
        b.bufferData ++ values.flatMap Value.encode⟩ := by
  induction values generalizing b with
  | nil =>
    rw [List.flatMap_nil, List.append_nil, List.length_nil, Nat.add_zero, ← hw]
    rfl
  | cons v values ih =>
    rw [List.flatMap_cons, List.length_append] at hs
    have hv := toByteBuffer_write growth hw v (by omega)
    have hdata : (b.write growth v).bufferData = b.bufferData ++ v.encode := by rw [hv]
    have hread : (b.write growth v).readPos = b.readPos := by rw [hv]
    have hwrite : (b.write growth v).writePos = (b.write growth v).bufferData.length := by
      rw [hdata, List.length_append, hv]
    have hrest := ih hwrite (by rw [hdata, List.length_append]; omega)
    rw [hread, hdata, List.length_append] at hrest
    rw [List.flatMap_cons, List.length_append, ← List.append_assoc, ← Nat.add_assoc]
    exact hrest

/-- **Reading a value takes its layout off**, at any offset. -/
theorem read_value {r : Reader} {post : Bytes} (v : Value) (hv : v.NulFree)
    (h : r.getReadPointer = v.encode ++ post) (hs : r.bufferData.length < 2 ^ 32) :
    r.Reads v v.encode.length (r.readValue v.kind) := by
  cases v with
  | integer t value =>
    obtain ⟨log, hr, hw⟩ := Reader.reads_integer value h (by omega)
    have hlen : (Value.integer t value).encode.length = t.size := IntegerType.length_toBytes value
    rw [hlen]
    refine ⟨log, ?_, hw⟩
    show (Value.integer t (r.readInteger t).1, (r.readInteger t).2) = _
    rw [hr]
  | string value =>
    have h' : r.getReadPointer = value ++ 0 :: post := by
      rw [h, List.append_cons]
      rfl
    obtain ⟨log, hr, hw⟩ := Reader.reads_string hv h' hs
    have hlen : (Value.string value).encode.length = value.length + 1 := by
      unfold Value.encode
      rw [List.length_append, List.length_singleton]
    rw [hlen]
    refine ⟨log, ?_, hw⟩
    show (Value.string r.readString.1, r.readString.2) = _
    rw [hr]
  | guid g =>
    obtain ⟨log, hr, hw⟩ := Reader.reads_guid g h (by omega)
    refine ⟨log, ?_, hw⟩
    show (Value.guid r.readPackedGUID.1, r.readPackedGUID.2) = _
    rw [hr]
    rfl

/-- The values of a whole packet, at any offset. -/
theorem read_values {r : Reader} {post : Bytes} (values : List Value)
    (hv : ∀ v ∈ values, v.NulFree) (h : r.getReadPointer = values.flatMap Value.encode ++ post)
    (hs : r.bufferData.length < 2 ^ 32) :
    r.Reads values (values.flatMap Value.encode).length (r.readAll (values.map Value.kind)) := by
  induction values generalizing r with
  | nil => exact ⟨[], by simp [Reader.readAll, Reader.moved], fun a ha => absurd ha List.not_mem_nil⟩
  | cons v values ih =>
    have hsplit : r.getReadPointer = v.encode ++ (values.flatMap Value.encode ++ post) := by
      rw [h, List.flatMap_cons, List.append_assoc]
    obtain ⟨log, hr, hw⟩ := read_value v (hv v List.mem_cons_self) hsplit hs
    obtain ⟨log', hr', hw'⟩ := ih (fun w hm => hv w (List.mem_cons_of_mem _ hm))
      (Reader.getReadPointer_moved hsplit log) hs
    rw [List.flatMap_cons, List.length_append]
    refine ⟨log ++ log', ?_, hw.append hw'⟩
    rw [List.map_cons, Reader.readAll, hr]
    dsimp only
    rw [hr', Reader.moved_moved]

/-- **Decoding undoes encoding over whole packets.**  Whatever the standard library makes of the capacity,
the values written to a fresh buffer are read back in order, no read goes beyond what has been written,
and at the end everything has been read. -/
theorem readAll_writeAll (growth : ℕ → ℕ → ℕ) (reserveSize : ℕ) (values : List Value)
    (hv : ∀ v ∈ values, v.NulFree) (hs : (values.flatMap Value.encode).length < 2 ^ 32) :
    let b := (Vec.fresh reserveSize).writeAll growth values
    let (values', r) := Reader.readAll ⟨b.toByteBuffer, []⟩ (values.map Value.kind)
    values' = values ∧ (∀ a ∈ r.accesses, a.1 + a.2 ≤ b.writePos) ∧
      r.writePos = b.writePos ∧ r.readPos = r.writePos := by
  have hb : ((Vec.fresh reserveSize).writeAll growth values).toByteBuffer =
      ⟨0, (values.flatMap Value.encode).length, values.flatMap Value.encode⟩ := by
    have := toByteBuffer_writeAll growth (b := Vec.fresh reserveSize) rfl values (by
      show 0 + _ < 2 ^ 64
      omega)
    rw [this]
    show (⟨0, 0 + _, [] ++ _⟩ : ByteBuffer) = _
    rw [Nat.zero_add, List.nil_append]
  generalize (Vec.fresh reserveSize).writeAll growth values = b at hb
  have hread : (⟨b.toByteBuffer, []⟩ : Reader).getReadPointer =
      values.flatMap Value.encode ++ [] := by
    show b.bufferData.drop b.readPos = _
    rw [hb, List.drop_zero, List.append_nil]
  have hdata : (⟨b.toByteBuffer, []⟩ : Reader).bufferData.length < 2 ^ 32 := by
    show b.bufferData.length < 2 ^ 32
    rw [hb]
    exact hs
  have hpos : b.readPos = 0 := by rw [hb]
  have hwrite : b.writePos = (values.flatMap Value.encode).length := by rw [hb]
  obtain ⟨log, hr, hw⟩ := read_values values hv hread hdata
  dsimp only
  rw [hr]
  refine ⟨rfl, ?_, rfl, ?_⟩
  · intro a ha
    have := (hw a ha).2
    rw [hwrite]
    show a.1 + a.2 ≤ _
    have h0 : (⟨b.toByteBuffer, []⟩ : Reader).readPos = 0 := hpos
    omega
  · show b.readPos + _ = b.writePos
    rw [hpos, hwrite, Nat.zero_add]

/-- A packet with a string between a signed number and an id. -/
theorem readAll_writeAll_sample :
    (Reader.readAll ⟨((Vec.fresh 4096).writeAll max
        [.integer .i16 (-2), .string [0x48, 0x69], .guid 0x0100000000000700]).toByteBuffer, []⟩
      [.integer .i16, .string, .guid]).1 =
      [.integer .i16 (-2), .string [0x48, 0x69], .guid 0x0100000000000700] := by
  have h := readAll_writeAll max 4096
    [.integer .i16 (-2), .string [0x48, 0x69], .guid 0x0100000000000700] (by decide) (by
      obtain ⟨mask, hpacked, -⟩ := packedGuid_eq 0x0100000000000700
      have hle := List.length_filter_le (fun b : UInt8 => b ≠ 0) (guidBytes 0x0100000000000700)
      rw [length_guidBytes] at hle
      simp only [List.flatMap_cons, List.flatMap_nil, List.length_append, Value.encode, hpacked,
        IntegerType.length_toBytes, List.length_cons, List.length_nil, IntegerType.size]
      omega)
  exact h.1

end NovusHeadless
