import Mathlib
import NovusHeadless.Lib.Fifo
import NovusHeadless.Lib.Transition
import NovusHeadless.Networking.BaseSocket

/-!
# The receive buffer is a queue

A run of the receive buffer: `AsyncRead`, the completion of the read, any number of `ReadBytes`, and again.
The buffer of a run refines a queue of bytes (`Holds`, `holds_step`): a completion puts the bytes received
in, `ReadBytes` takes bytes out, and `AsyncRead`, which compacts the buffer and lets it grow, leaves the
queue alone.

* `bufferStep` — one action on the socket, with the conditions under which it may happen;
* `queueStep` — what the action is for the queue;
* `receiveBuffer_fifo` — the unread bytes are the stream received without the bytes consumed, and the
  region of an outstanding read is not empty and apart from them.
-/

namespace NovusHeadless

open Lib

/-- What happens to the receive buffer. -/
inductive BufferAction where
  | asyncRead
  | complete (chunk : Bytes)
  | readBytes (size : ℕ)

namespace BaseSocket

/-- One action.  A completion brings at most `GetSpaceLeft()` bytes, `ReadBytes` consumes at most
`GetActualSize()` of them, and the buffer stays below `2 ^ 32` bytes. -/
def bufferStep (s : BaseSocket) : BufferAction → Option BaseSocket
  | .asyncRead =>
    if s.reads = [] ∧ s.asyncRead.byteBuffer.bufferData.length < 2 ^ 32 then some s.asyncRead
    else none
  | .complete chunk =>
    match s.reads with
    | [] => none
    | op :: _ =>
      if chunk.length ≤ s.byteBuffer.getSpaceLeft then some (s.received op chunk) else none
  | .readBytes size =>
    if s.reads = [] ∧ size ≤ s.byteBuffer.getActualSize then
      some { s with byteBuffer := s.byteBuffer.readBytes size }
    else none

lemma bufferStep_asyncRead {s : BaseSocket} (hr : s.reads = [])
    (hs : s.asyncRead.byteBuffer.bufferData.length < 2 ^ 32) :
    s.bufferStep .asyncRead = some s.asyncRead := by
  unfold bufferStep
  rw [if_pos ⟨hr, hs⟩]

lemma bufferStep_complete {s : BaseSocket} {op : ReadOp} {ops : List ReadOp}
    (hr : s.reads = op :: ops) {chunk : Bytes} (hc : chunk.length ≤ s.byteBuffer.getSpaceLeft) :
    s.bufferStep (.complete chunk) = some (s.received op chunk) := by
  unfold bufferStep
  simp only [hr, if_pos hc]

lemma bufferStep_readBytes {s : BaseSocket} (hr : s.reads = []) {size : ℕ}
    (hs : size ≤ s.byteBuffer.getActualSize) :
    s.bufferStep (.readBytes size) = some { s with byteBuffer := s.byteBuffer.readBytes size } := by
  unfold bufferStep
  simp only [if_pos (And.intro hr hs)]

end BaseSocket

/-! ### The queue -/

/-- What an action is for a queue of bytes. -/
def queueStep (q : Fifo UInt8) : BufferAction → Option (Fifo UInt8)
  | .asyncRead => some q
  | .complete chunk => some (q.push chunk)
  | .readBytes size => if h : size ≤ q.content.length then some (q.pop size h) else none

namespace BufferAction

/-- The bytes an action brings. -/
def bytes : BufferAction → Bytes
  | .complete chunk => chunk
  | _ => []

/-- The number of bytes an action consumes. -/
def size : BufferAction → ℕ
  | .readBytes size => size
  | _ => 0

end BufferAction

/-- The stream received in a run. -/
def streamOf (actions : List BufferAction) : Bytes := actions.flatMap BufferAction.bytes

/-- The number of bytes consumed in a run. -/
def consumedIn (actions : List BufferAction) : ℕ := (actions.map BufferAction.size).sum

lemma queueStep_history {q q' : Fifo UInt8} {i : BufferAction} (h : queueStep q i = some q') :
    q'.received = q.received ++ i.bytes ∧ q'.consumed = q.consumed + i.size := by
  cases i with
  | asyncRead =>
    obtain rfl := Option.some.inj h
    exact ⟨(List.append_nil _).symm, rfl⟩
  | complete chunk =>
    obtain rfl := Option.some.inj h
    exact ⟨rfl, rfl⟩
  | readBytes size =>
    simp only [queueStep, Option.dite_none_right_eq_some, Option.some.injEq] at h
    obtain ⟨-, rfl⟩ := h
    exact ⟨(List.append_nil _).symm, rfl⟩

theorem run_queueStep {q q' : Fifo UInt8} {is : List BufferAction}
    (h : run queueStep q is = some q') :
    q'.received = q.received ++ streamOf is ∧ q'.consumed = q.consumed + consumedIn is := by
  induction is generalizing q with
  | nil =>
    obtain rfl := Option.some.inj h
    exact ⟨(List.append_nil _).symm, rfl⟩
  | cons i is ih =>
    obtain ⟨q₁, hq₁, h⟩ := run_cons_eq_some.1 h
    obtain ⟨hr, hc⟩ := queueStep_history hq₁
    obtain ⟨hr', hc'⟩ := ih h
    constructor
    · rw [hr', hr, List.append_assoc]
      rfl
    · rw [hc', hc, Nat.add_assoc]
      rfl

/-! ### The simulation -/

/-- **The socket holds the queue** in its receive buffer. -/
structure Holds (s : BaseSocket) (q : Fifo UInt8) : Prop where
  isOpen_eq : s.isOpen = true
  ordered : s.byteBuffer.Ordered
  two_le : 2 ≤ s.byteBuffer.bufferData.length
  unread_eq : s.byteBuffer.unread = q.content
  reads : s.reads = [] ∨ s.byteBuffer.readPos = 0 ∧
    s.byteBuffer.writePos < s.byteBuffer.bufferData.length ∧
    s.reads = [⟨s.byteBuffer.writePos, s.byteBuffer.bufferData.length - s.byteBuffer.writePos⟩]

section

variable {s s' : BaseSocket} {q : Fifo UInt8}

lemma holds_new : Holds BaseSocket.new.connect Fifo.empty where
  isOpen_eq := rfl
  ordered := by
    show (ByteBuffer.new.resize 4096).Ordered
    rw [ByteBuffer.resize_new]
    exact ⟨le_rfl, Nat.zero_le _, by rw [List.length_replicate]; norm_num⟩
  two_le := by
    show 2 ≤ (ByteBuffer.new.resize 4096).bufferData.length
    rw [ByteBuffer.resize_new, List.length_replicate]
    norm_num
  unread_eq := by
    show (ByteBuffer.new.resize 4096).unread = []
    rw [ByteBuffer.resize_new]
    rfl
  reads := .inl rfl

/-- **`AsyncRead`**: compaction and growth leave the queue alone and make room. -/
lemma holds_asyncRead (h : Holds s q) (hr : s.reads = [])
    (hs : s.asyncRead.byteBuffer.bufferData.length < 2 ^ 32) : Holds s.asyncRead q := by
  have hw := h.ordered.write_le
  have h2 := h.two_le
  have hclean : s.byteBuffer.cleanBuffer.Ordered := by
    refine ⟨?_, ?_, ?_⟩
    · rw [ByteBuffer.cleanBuffer_of_ordered h.ordered]
      exact Nat.zero_le _
    · rw [ByteBuffer.length_cleanBuffer h.ordered, ByteBuffer.cleanBuffer_of_ordered h.ordered]
      show s.byteBuffer.writePos - s.byteBuffer.readPos ≤ s.byteBuffer.bufferData.length
      omega
    · rw [ByteBuffer.length_cleanBuffer h.ordered]
      exact h.ordered.size_lt
  have hread : s.byteBuffer.cleanBuffer.readPos = 0 := by
    rw [ByteBuffer.cleanBuffer_of_ordered h.ordered]
  have hlen : 2 ≤ s.byteBuffer.cleanBuffer.bufferData.length := by
    rw [ByteBuffer.length_cleanBuffer h.ordered]
    exact h2
  have hun : s.byteBuffer.cleanBuffer.recalculateSize.unread = q.content := by
    rw [ByteBuffer.unread_recalculateSize hclean, ByteBuffer.unread_cleanBuffer h.ordered,
      h.unread_eq]
  have hasync : s.asyncRead = { s with
      byteBuffer := s.byteBuffer.cleanBuffer.recalculateSize
      reads := [⟨s.byteBuffer.cleanBuffer.recalculateSize.writePos,
        s.byteBuffer.cleanBuffer.recalculateSize.getSpaceLeft⟩] } := by
    unfold BaseSocket.asyncRead
    rw [if_pos h.isOpen_eq, hr]
    rfl
  rw [hasync] at hs ⊢
  generalize s.byteBuffer.cleanBuffer = b at hclean hread hlen hun hs ⊢
  have hgrow := ByteBuffer.recalculateSize_of_ordered hclean
  have hroom : b.writePos < b.bufferData.length + b.growth := by
    have := hclean.write_le
    unfold ByteBuffer.growth
    split <;> omega
  have hlength : b.recalculateSize.bufferData.length = b.bufferData.length + b.growth := by
    rw [hgrow, List.length_append, List.length_replicate]
  have hwrite : b.recalculateSize.writePos = b.writePos := by rw [hgrow]
  have hord : b.recalculateSize.Ordered := by
    refine ⟨?_, by omega, hs⟩
    rw [hgrow]
    exact hclean.read_le
  refine ⟨h.isOpen_eq, hord, ?_, hun, .inr ⟨?_, ?_, ?_⟩⟩
  · show 2 ≤ b.recalculateSize.bufferData.length
    omega
  · show b.recalculateSize.readPos = 0
    rw [hgrow]
    exact hread
  · show b.recalculateSize.writePos < b.recalculateSize.bufferData.length
    omega
  · show [(⟨_, b.recalculateSize.getSpaceLeft⟩ : ReadOp)] = _
    rw [ByteBuffer.getSpaceLeft_of_ordered hord]

/-- **A completion** puts what has been received behind the unread bytes. -/
lemma holds_received (h : Holds s q) {op : ReadOp} {ops : List ReadOp} (hop : s.reads = op :: ops)
    {chunk : Bytes} (hc : chunk.length ≤ s.byteBuffer.getSpaceLeft) :
    Holds (s.received op chunk) (q.push chunk) := by
  rcases h.reads with hr | ⟨hread, -, hr⟩
  · rw [hr] at hop
    exact absurd hop (List.cons_ne_nil _ _).symm
  obtain ⟨rfl, rfl⟩ := List.cons.inj (hop.symm.trans hr)
  have hw := h.ordered.write_le
  have hs := h.ordered.size_lt
  rw [ByteBuffer.getSpaceLeft_of_ordered h.ordered] at hc
  have hlen : (splice s.byteBuffer.bufferData s.byteBuffer.writePos chunk).length =
      s.byteBuffer.bufferData.length := length_splice (by omega)
  have hb : (s.received ⟨s.byteBuffer.writePos,
      s.byteBuffer.bufferData.length - s.byteBuffer.writePos⟩ chunk).byteBuffer =
      ⟨0, s.byteBuffer.writePos + chunk.length,
        splice s.byteBuffer.bufferData s.byteBuffer.writePos chunk⟩ := by
    have hmod : (s.byteBuffer.writePos + chunk.length) % 2 ^ 64 =
        s.byteBuffer.writePos + chunk.length := Nat.mod_eq_of_lt (by omega)
    unfold BaseSocket.received ByteBuffer.writeBytes
    simp only [hmod, hread]
  refine ⟨h.isOpen_eq, ?_, ?_, ?_, .inl ?_⟩
  · rw [hb]
    refine ⟨Nat.zero_le _, ?_, hlen.trans_lt hs⟩
    show s.byteBuffer.writePos + chunk.length ≤ (splice _ _ _).length
    omega
  · rw [hb, hlen]
    exact h.two_le
  · have hun : s.byteBuffer.unread =
        s.byteBuffer.bufferData.take s.byteBuffer.writePos := by
      unfold ByteBuffer.unread ByteBuffer.getReadPointer
      rw [hread, List.drop_zero, Nat.sub_zero]
    rw [hb, Fifo.content_push, ← h.unread_eq, hun]
    exact take_splice hw
  · unfold BaseSocket.received
    simp only [hr, List.erase_cons_head]

/-- **`ReadBytes`** takes bytes out at the front. -/
lemma holds_readBytes (h : Holds s q) (hr : s.reads = []) {k : ℕ}
    (hk : k ≤ s.byteBuffer.getActualSize) (hq : k ≤ q.content.length) :
    Holds { s with byteBuffer := s.byteBuffer.readBytes k } (q.pop k hq) := by
  have hw := h.ordered.write_le
  have hs := h.ordered.size_lt
  have hrw := h.ordered.read_le
  rw [ByteBuffer.getActualSize_of_ordered h.ordered] at hk
  have hb : s.byteBuffer.readBytes k = { s.byteBuffer with readPos := s.byteBuffer.readPos + k } := by
    unfold ByteBuffer.readBytes
    rw [Nat.mod_eq_of_lt (by omega)]
  refine ⟨h.isOpen_eq, ?_, ?_, ?_, .inl hr⟩
  · show (s.byteBuffer.readBytes k).Ordered
    rw [hb]
    exact ⟨by show s.byteBuffer.readPos + k ≤ s.byteBuffer.writePos; omega, hw, hs⟩
  · exact h.two_le
  · show (s.byteBuffer.readBytes k).unread = _
    have hcount : s.byteBuffer.writePos - (s.byteBuffer.readPos + k) =
        s.byteBuffer.writePos - s.byteBuffer.readPos - k := by omega
    rw [hb, Fifo.content_pop, ← h.unread_eq]
    unfold ByteBuffer.unread ByteBuffer.getReadPointer
    rw [List.drop_take, List.drop_drop, hcount]

/-- **Every action on the socket is the action on the queue.** -/
theorem holds_step (h : Holds s q) {i : BufferAction} (hs : s.bufferStep i = some s') :
    ∃ q', queueStep q i = some q' ∧ Holds s' q' := by
  cases i with
  | asyncRead =>
    simp only [BaseSocket.bufferStep, Option.ite_none_right_eq_some, Option.some.injEq] at hs
    obtain ⟨⟨hr, hlt⟩, rfl⟩ := hs
    exact ⟨q, rfl, holds_asyncRead h hr hlt⟩
  | complete chunk =>
    simp only [BaseSocket.bufferStep] at hs
    cases hops : s.reads with
    | nil =>
      rw [hops] at hs
      simp at hs
    | cons op ops =>
      rw [hops] at hs
      simp only [Option.ite_none_right_eq_some, Option.some.injEq] at hs
      obtain ⟨hc, rfl⟩ := hs
      exact ⟨q.push chunk, rfl, holds_received h hops hc⟩
  | readBytes k =>
    simp only [BaseSocket.bufferStep, Option.ite_none_right_eq_some, Option.some.injEq] at hs
    obtain ⟨⟨hr, hk⟩, rfl⟩ := hs
    have hq : k ≤ q.content.length := by
      rw [← h.unread_eq, ByteBuffer.length_unread h.ordered,
        ← ByteBuffer.getActualSize_of_ordered h.ordered]
      exact hk
    exact ⟨q.pop k hq, dif_pos hq, holds_readBytes h hr hk hq⟩

end

/-- **The receive buffer refines a queue of bytes.**  Behind every run from the new connection the unread
bytes are the stream received without the bytes consumed, the positions are in order, and the region of
an outstanding read lies in the buffer, is not empty and does not overlap the unread bytes. -/
theorem receiveBuffer_fifo {is : List BufferAction} {s : BaseSocket}
    (h : run BaseSocket.bufferStep BaseSocket.new.connect is = some s) :
    consumedIn is ≤ (streamOf is).length ∧
      s.byteBuffer.unread = (streamOf is).drop (consumedIn is) ∧
      s.byteBuffer.readPos ≤ s.byteBuffer.writePos ∧
      s.byteBuffer.writePos ≤ s.byteBuffer.bufferData.length ∧
      ∀ op ∈ s.reads, 0 < op.len ∧ op.offset + op.len ≤ s.byteBuffer.bufferData.length ∧
        Disjoint (Set.Ico op.offset (op.offset + op.len))
          (Set.Ico s.byteBuffer.readPos s.byteBuffer.writePos) := by
  have hstep : ∀ s q i s', Holds s q → BaseSocket.bufferStep s i = some s' →
      ∃ q', queueStep q i = some q' ∧ Holds s' q' := fun _ _ _ _ hold hs => holds_step hold hs
  obtain ⟨q, hq, hold⟩ := run_of_simulates hstep holds_new h
  obtain ⟨hrec, hcon⟩ := run_queueStep hq
  have hrec' : q.received = streamOf is := hrec
  have hcon' : q.consumed = consumedIn is := hcon.trans (Nat.zero_add _)
  refine ⟨?_, ?_, hold.ordered.read_le, hold.ordered.write_le, ?_⟩
  · rw [← hrec', ← hcon']
    exact q.consumed_le
  · rw [hold.unread_eq, ← hrec', ← hcon']
    rfl
  · intro op hop
    have hw := hold.ordered.write_le
    rcases hold.reads with hr | ⟨-, hlt, hr⟩
    · rw [hr] at hop
      exact absurd hop List.not_mem_nil
    · rw [hr] at hop
      obtain rfl := List.mem_singleton.1 hop
      refine ⟨Nat.sub_pos_of_lt hlt, ?_, ?_⟩
      · show s.byteBuffer.writePos + (s.byteBuffer.bufferData.length - s.byteBuffer.writePos) ≤ _
        omega
      · rw [Set.disjoint_left]
        intro i hi hi'
        exact absurd hi'.2 (not_lt.2 hi.1)

/-- A run that receives two bytes and consumes one of them. -/
theorem receiveBuffer_fifo_sample :
    ∃ s, run BaseSocket.bufferStep BaseSocket.new.connect
        [.asyncRead, .complete [7, 8], .readBytes 1] = some s ∧ s.byteBuffer.unread = [8] := by
  have hlen : (List.replicate 4096 (0 : UInt8)).length = 4096 := List.length_replicate
  have hread := BaseSocket.bufferStep_asyncRead (s := BaseSocket.new.connect) rfl (by
    rw [BaseSocket.connect_asyncRead]
    exact hlen.trans_lt (by norm_num))
  rw [BaseSocket.connect_asyncRead] at hread
  generalize List.replicate 4096 (0 : UInt8) = data at hread hlen
  let s₁ : BaseSocket := ⟨⟨0, 0, data⟩, false, true, [⟨0, 4096⟩], [], []⟩
  have hspace : s₁.byteBuffer.getSpaceLeft = data.length :=
    ByteBuffer.getSpaceLeft_of_le (Nat.zero_le _) (hlen.trans_lt (by norm_num))
  have hfit : ([7, 8] : Bytes).length ≤ s₁.byteBuffer.getSpaceLeft := by
    rw [hspace, hlen]
    decide
  have hdone : s₁.bufferStep (.complete [7, 8]) = some (s₁.received ⟨0, 4096⟩ [7, 8]) :=
    BaseSocket.bufferStep_complete rfl hfit
  have hsize : (s₁.received ⟨0, 4096⟩ [7, 8]).byteBuffer.getActualSize = 2 :=
    ByteBuffer.getActualSize_of_le (Nat.zero_le _) (show 2 < 2 ^ 32 by norm_num)
  have htake := BaseSocket.bufferStep_readBytes (s := s₁.received ⟨0, 4096⟩ [7, 8]) rfl
    (show 1 ≤ _ by rw [hsize]; norm_num)
  have hrun := (run_cons hread _).trans ((run_cons hdone _).trans (run_cons htake []))
  exact ⟨_, hrun, (receiveBuffer_fifo hrun).2.1⟩

end NovusHeadless
