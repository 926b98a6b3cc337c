import NovusHeadless.Networking.ByteBuffer

/-!
# `Common::BaseSocket` (`Networking/BaseSocket.h`)

The state of the socket is what the class stores together with what asio holds for it: whether the
socket is open, the read operations and the write operations that are outstanding.  `sent` is the
sequence of all packets handed to `async_write_some` so far.

`close` does not remove operations: closing the socket aborts those still pending, and their completions
(or the completions already queued) are delivered later.
-/

namespace NovusHeadless

open Lib

/-- The region of the receive buffer handed to `async_read_some`. -/
structure ReadOp where
  offset : ℕ
  len : ℕ
  deriving DecidableEq, Repr

structure BaseSocket where
  byteBuffer : ByteBuffer
  isClosed : Bool
  /-- `_socket->is_open()` -/
  isOpen : Bool
  reads : List ReadOp
  writes : List Bytes
  sent : List Bytes

namespace BaseSocket

/-- `BaseSocket(socket)` on a socket that is not yet connected. -/
def new : BaseSocket := ⟨ByteBuffer.new.resize 4096, false, false, [], [], []⟩

/-- `_socket->connect`. -/
def connect (s : BaseSocket) : BaseSocket := { s with isOpen := true }

def close (s : BaseSocket) : BaseSocket := { s with isOpen := false, isClosed := true }

/-- The bytes are copied when `Send` is called.  The code hands `async_write_some` a pointer into the packet
instead, and the packet is destroyed when the function that called `Send` returns: that the write finds
the bytes there is left out. -/
def send (s : BaseSocket) (buffer : ByteBuffer) : BaseSocket :=
  if !buffer.empty then
    let data := buffer.getReadPointer.take buffer.getActualSize
    { s with writes := s.writes ++ [data], sent := s.sent ++ [data] }
  else s

def asyncRead (s : BaseSocket) : BaseSocket :=
  if s.isOpen then
    let b := s.byteBuffer.cleanBuffer.recalculateSize
    { s with byteBuffer := b, reads := s.reads ++ [⟨b.writePos, b.getSpaceLeft⟩] }
  else s

/-- A read completes: asio has stored `chunk` in the region of the operation, and
`HandleInternalRead` advances the write position. -/
def received (s : BaseSocket) (op : ReadOp) (chunk : Bytes) : BaseSocket :=
  { s with
    reads := s.reads.erase op
    byteBuffer :=
      { s.byteBuffer with
        bufferData := splice s.byteBuffer.bufferData op.offset chunk }.writeBytes chunk.length }

/-- `HandleInternalWrite`, for the oldest write. -/
def handleInternalWrite (s : BaseSocket) (error : Bool) (_transferedBytes : ℕ) : BaseSocket :=
  let s := { s with writes := s.writes.tail }
  if error then s.close else s

@[simp] lemma asyncRead_isClosed (s : BaseSocket) : s.asyncRead.isClosed = s.isClosed := by
  unfold asyncRead; split <;> rfl

@[simp] lemma asyncRead_sent (s : BaseSocket) : s.asyncRead.sent = s.sent := by
  unfold asyncRead; split <;> rfl

lemma asyncRead_of_closed {s : BaseSocket} (h : s.isOpen = false) : s.asyncRead = s := by
  unfold asyncRead
  rw [if_neg (by simp [h])]

/-- **A read with room left.**  When the read position is at the start and the buffer is not full, the
read is for the free part and moves nothing. -/
theorem asyncRead_of_room {s : BaseSocket} (ho : s.isOpen = true) {data : Bytes} {n : ℕ}
    (hb : s.byteBuffer = ⟨0, n, data⟩) (hn : n < data.length) (hd : data.length < 2 ^ 32) :
    s.asyncRead = { s with reads := s.reads ++ [⟨n, data.length - n⟩] } := by
  have hspace : (⟨0, n, data⟩ : ByteBuffer).getSpaceLeft = data.length - n :=
    ByteBuffer.getSpaceLeft_of_le hn.le hd
  obtain ⟨b, cl, op, rs, ws, snt⟩ := s
  obtain rfl : b = _ := hb
  unfold asyncRead
  rw [if_pos ho, ByteBuffer.cleanBuffer_of_readPos rfl,
    ByteBuffer.recalculateSize_of_space (by rw [hspace]; omega)]
  simp only [hspace]

lemma connect_asyncRead :
    new.connect.asyncRead =
      ⟨⟨0, 0, List.replicate 4096 0⟩, false, true, [⟨0, 4096⟩], [], []⟩ := by
  have hb : new.connect.byteBuffer = ⟨0, 0, List.replicate 4096 0⟩ :=
    ByteBuffer.resize_new 4096
  have hlen : (List.replicate 4096 (0 : UInt8)).length = 4096 := List.length_replicate
  rw [asyncRead_of_room rfl hb (by rw [hlen]; norm_num) (by rw [hlen]; norm_num), hlen]
  unfold connect at hb ⊢
  simp only at hb
  rw [hb]
  rfl

/-- After everything has been read the next read starts at the front. -/
theorem asyncRead_of_consumed {s : BaseSocket} (ho : s.isOpen = true) {data : Bytes} {n : ℕ}
    (hb : s.byteBuffer = ⟨n, n, data⟩) (hn : 0 < data.length) (hd : data.length < 2 ^ 32) :
    s.asyncRead =
      { s with byteBuffer := ⟨0, 0, data⟩, reads := s.reads ++ [⟨0, data.length⟩] } := by
  have hspace : (⟨0, 0, data⟩ : ByteBuffer).getSpaceLeft = data.length :=
    ByteBuffer.getSpaceLeft_of_le (Nat.zero_le _) hd
  unfold asyncRead
  rw [if_pos ho, hb, ByteBuffer.cleanBuffer_of_eq rfl,
    ByteBuffer.recalculateSize_of_space (by rw [hspace]; omega)]
  simp only [hspace]

/-- After `Clean` the vector is empty and stays empty, so the region of the read is empty too. -/
theorem asyncRead_of_clean {s : BaseSocket} (ho : s.isOpen = true)
    (hb : s.byteBuffer = ⟨0, 0, []⟩) :
    s.asyncRead = { s with byteBuffer := ⟨0, 0, []⟩, reads := s.reads ++ [⟨0, 0⟩] } := by
  unfold asyncRead
  rw [if_pos ho, hb, ByteBuffer.cleanBuffer_of_readPos rfl,
    show (⟨0, 0, []⟩ : ByteBuffer).recalculateSize = ⟨0, 0, []⟩ from
      ByteBuffer.recalculateSize_clean ⟨0, 0, []⟩]
  rfl

end BaseSocket

end NovusHeadless
