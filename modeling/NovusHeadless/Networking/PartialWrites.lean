import NovusHeadless.Lib.Transition
import NovusHeadless.Networking.BaseSocket

/-!
# Writes that transfer a part (`Networking/BaseSocket.h`)

`Send` starts one `async_write_some` for the unread bytes of a packet.  Its completion tells how many of
them were transferred, and `HandleInternalWrite` does not look at the number.

* The writes of a socket complete in the order in which they were started; `wire` is what has been put on
  the socket.
* A completion without an error transfers a part that is not empty, unless there was nothing to transfer.
* `wire_iff` — when no write is outstanding, everything has been put on the socket or the connection is
  closed, exactly when an error was reported or every write has transferred all it was given.
-/

namespace NovusHeadless

open Lib

/-- A packet as the callers of `Send` make it. -/
abbrev Packet := { buffer : ByteBuffer // buffer.Ordered }

namespace BaseSocket

lemma send_packet_eq (s : BaseSocket) (packet : Packet) :
    (s.send packet.1 = s ∧ packet.1.unread = []) ∨
      s.send packet.1 = { s with
        writes := s.writes ++ [packet.1.unread]
        sent := s.sent ++ [packet.1.unread] } := by
  obtain ⟨buffer, hordered⟩ := packet
  unfold send
  cases hempty : buffer.empty with
  | true =>
    refine Or.inl ⟨rfl, ?_⟩
    have hnil : buffer.bufferData = [] := List.isEmpty_iff.1 hempty
    unfold ByteBuffer.unread ByteBuffer.getReadPointer
    rw [hnil, List.drop_nil, List.take_nil]
  | false =>
    right
    unfold ByteBuffer.unread
    rw [ByteBuffer.getActualSize_of_ordered hordered]
    rfl

end BaseSocket

/-- A socket that is written to. -/
structure Writer where
  socket : BaseSocket
  /-- what the writes have put on the socket -/
  wire : Bytes
  /-- the unread bytes of the packets given to `Send` -/
  given : Bytes

namespace Writer

/-- A socket on which nothing is outstanding. -/
structure Free (socket : BaseSocket) : Prop where
  isClosed : socket.isClosed = false
  writes : socket.writes = []

def fresh (socket : BaseSocket) : Writer := ⟨socket, [], []⟩

inductive Action where
  | send (packet : Packet)
  /-- the oldest write completes and has transferred so many bytes -/
  | written (transferedBytes : ℕ)
  /-- the oldest write completes with an error -/
  | failed

/-- What `async_write_some` may transfer of what it was given. -/
def Transfers (data : Bytes) (n : ℕ) : Prop := n ≤ data.length ∧ (n = 0 → data = [])

instance (data : Bytes) (n : ℕ) : Decidable (Transfers data n) := by
  unfold Transfers
  infer_instance

def step (w : Writer) : Action → Option Writer
  | .send packet =>
    some { w with socket := w.socket.send packet.1, given := w.given ++ packet.1.unread }
  | .written n =>
    w.socket.writes.head?.bind fun data =>
      if Transfers data n then
        some { w with
          socket := w.socket.handleInternalWrite false n
          wire := w.wire ++ data.take n }
      else none
  | .failed =>
    w.socket.writes.head?.map fun _ => { w with socket := w.socket.handleInternalWrite true 0 }

/-- A write that completes without an error has transferred all it was given. -/
def Whole (w : Writer) (a : Action) (_ : Writer) : Prop :=
  ∀ n, a = .written n → ∀ data, w.socket.writes.head? = some data → n = data.length

/-- Nothing was lost, and no error was reported. -/
structure Complete (w : Writer) : Prop where
  isClosed : w.socket.isClosed = false
  given : w.wire ++ w.socket.writes.flatten = w.given

/-- Something was lost. -/
def Short (w : Writer) : Prop :=
  w.wire.length + w.socket.writes.flatten.length < w.given.length

section

variable {w w' : Writer} {a : Action} {socket : BaseSocket}

lemma written_eq_some {n : ℕ} (h : w.step (.written n) = some w') :
    ∃ data writes, w.socket.writes = data :: writes ∧ n ≤ data.length ∧
      w' = ⟨{ w.socket with writes := writes }, w.wire ++ data.take n, w.given⟩ := by
  obtain ⟨data, hdata, h⟩ := Option.bind_eq_some_iff.1 h
  rw [Option.ite_none_right_eq_some] at h
  obtain ⟨htransfers, h⟩ := h
  obtain ⟨writes, hwrites⟩ := List.head?_eq_some_iff.1 hdata
  refine ⟨data, writes, hwrites, htransfers.1, ?_⟩
  rw [← Option.some.inj h]
  unfold BaseSocket.handleInternalWrite
  rw [hwrites]
  rfl

lemma failed_eq_some (h : w.step .failed = some w') : w'.socket.isClosed = true := by
  obtain ⟨data, -, rfl⟩ := Option.map_eq_some_iff.1 h
  rfl

/-- A packet that is sent is outstanding as a whole. -/
lemma send_spec (w : Writer) (packet : Packet) :
    (w.socket.send packet.1).isClosed = w.socket.isClosed ∧
      (w.socket.send packet.1).writes.flatten = w.socket.writes.flatten ++ packet.1.unread := by
  rcases BaseSocket.send_packet_eq w.socket packet with ⟨hsend, hunread⟩ | hsend
  · rw [hsend, hunread, List.append_nil]
    exact ⟨rfl, rfl⟩
  · rw [hsend]
    refine ⟨rfl, ?_⟩
    rw [List.flatten_append, List.flatten_singleton]

lemma isClosed_step (hs : w.step a = some w') (h : w.socket.isClosed = true) :
    w'.socket.isClosed = true := by
  cases a with
  | send packet =>
    obtain rfl := Option.some.inj hs
    exact (send_spec w packet).1.trans h
  | written n =>
    obtain ⟨data, writes, -, -, rfl⟩ := written_eq_some hs
    exact h
  | failed => exact failed_eq_some hs

/-- **A step that transfers everything** loses nothing. -/
lemma complete_step (hc : w.Complete) (hs : w.step a = some w') (ha : a ≠ .failed)
    (hwhole : Whole w a w') : w'.Complete := by
  cases a with
  | send packet =>
    obtain rfl := Option.some.inj hs
    obtain ⟨hclosed, hwrites⟩ := send_spec w packet
    refine ⟨hclosed.trans hc.isClosed, ?_⟩
    show w.wire ++ (w.socket.send packet.1).writes.flatten = w.given ++ packet.1.unread
    rw [hwrites, ← List.append_assoc, hc.given]
  | written n =>
    obtain ⟨data, writes, hwrites, -, rfl⟩ := written_eq_some hs
    have hn := hwhole n rfl data (by rw [hwrites]; rfl)
    refine ⟨hc.isClosed, ?_⟩
    show (w.wire ++ data.take n) ++ writes.flatten = w.given
    rw [hn, List.take_length, List.append_assoc, ← List.flatten_cons, ← hwrites, hc.given]
  | failed => exact absurd rfl ha

/-- **A write that transfers a part** loses the rest. -/
lemma short_written (hc : w.Complete) (hs : w.step a = some w') (hwhole : ¬ Whole w a w') :
    w'.Short := by
  simp only [Whole, not_forall] at hwhole
  obtain ⟨n, rfl, data, hdata, hn⟩ := hwhole
  obtain ⟨data', writes, hwrites, hle, rfl⟩ := written_eq_some hs
  rw [hwrites] at hdata
  obtain rfl := Option.some.inj hdata
  have hgiven := congrArg List.length hc.given
  rw [hwrites, List.flatten_cons, List.length_append, List.length_append] at hgiven
  show (w.wire ++ data'.take n).length + writes.flatten.length < w.given.length
  rw [List.length_append, List.length_take]
  omega

/-- What was lost is not made up for. -/
lemma short_step (h : w.Short) (hs : w.step a = some w') : w'.Short := by
  unfold Short at h
  cases a with
  | send packet =>
    obtain rfl := Option.some.inj hs
    have hwrites := congrArg List.length (send_spec w packet).2
    rw [List.length_append] at hwrites
    show w.wire.length + (w.socket.send packet.1).writes.flatten.length <
      (w.given ++ packet.1.unread).length
    rw [List.length_append]
    omega
  | written n =>
    obtain ⟨data, writes, hwrites, hle, rfl⟩ := written_eq_some hs
    rw [hwrites, List.flatten_cons, List.length_append] at h
    show (w.wire ++ data.take n).length + writes.flatten.length < w.given.length
    rw [List.length_append, List.length_take]
    omega
  | failed =>
    obtain ⟨data, hdata, rfl⟩ := Option.map_eq_some_iff.1 hs
    obtain ⟨writes, hwrites⟩ := List.head?_eq_some_iff.1 hdata
    rw [hwrites, List.flatten_cons, List.length_append] at h
    show w.wire.length + w.socket.writes.tail.flatten.length < w.given.length
    rw [hwrites, List.tail_cons]
    omega

lemma isClosed_of_ne_failed (hs : w.step a = some w') (ha : a ≠ .failed) :
    w'.socket.isClosed = w.socket.isClosed := by
  cases a with
  | send packet =>
    obtain rfl := Option.some.inj hs
    exact (send_spec w packet).1
  | written n =>
    obtain ⟨data, writes, -, -, rfl⟩ := written_eq_some hs
    rfl
  | failed => exact absurd rfl ha

lemma isClosed_run {actions : List Action} (hrun : run step w actions = some w')
    (hfailed : .failed ∈ actions) : w'.socket.isClosed = true := by
  induction actions generalizing w with
  | nil => exact absurd hfailed List.not_mem_nil
  | cons a actions ih =>
    obtain ⟨t, ht, hrest⟩ := run_cons_eq_some.1 hrun
    rcases List.mem_cons.1 hfailed with rfl | hfailed
    · have hstep : ∀ (s : Writer) (i : Action) (s' : Writer), True → s.socket.isClosed = true →
          step s i = some s' → s'.socket.isClosed = true :=
        fun s i s' _ hclosed hs => isClosed_step hs hclosed
      exact run_inv_of hstep (failed_eq_some ht) (fun _ _ => trivial) hrest
    · exact ih hrest hfailed

/-- **A run without an error** loses something exactly when a write transfers a part only. -/
lemma run_without_error {actions : List Action} (hc : w.Complete)
    (hrun : run step w actions = some w') (hfailed : .failed ∉ actions) :
    w'.socket.isClosed = false ∧ (Along step Whole w actions → w'.Complete) ∧
      (¬ Along step Whole w actions → w'.Short) := by
  induction actions generalizing w with
  | nil =>
    obtain rfl := Option.some.inj hrun
    exact ⟨hc.isClosed, fun _ => hc, fun h => absurd trivial h⟩
  | cons a actions ih =>
    obtain ⟨t, ht, hrun⟩ := run_cons_eq_some.1 hrun
    obtain ⟨ha, hactions⟩ := not_or.1 (mt List.mem_cons.2 hfailed)
    by_cases hwhole : Whole w a t
    · obtain ⟨hopen, hcomplete, hshort⟩ := ih (complete_step hc ht (Ne.symm ha) hwhole) hrun hactions
      refine ⟨hopen, fun halong => hcomplete (halong t ht).2, fun hnot => hshort ?_⟩
      intro halong
      apply hnot
      intro t' ht'
      obtain rfl := Option.some.inj (ht.symm.trans ht')
      exact ⟨hwhole, halong⟩
    · have hstep : ∀ (s : Writer) (i : Action) (s' : Writer), i ≠ .failed →
          s.Short ∧ s.socket.isClosed = false → step s i = some s' →
          s'.Short ∧ s'.socket.isClosed = false := by
        rintro s i s' hi ⟨hshort, hopen⟩ hs
        exact ⟨short_step hshort hs, (isClosed_of_ne_failed hs hi).trans hopen⟩
      have hopen := (isClosed_of_ne_failed ht (Ne.symm ha)).trans hc.isClosed
      have hothers : ∀ i ∈ actions, i ≠ .failed := by
        rintro i hi rfl
        exact hactions hi
      obtain ⟨hshort, hopen⟩ := run_inv_of hstep ⟨short_written hc ht hwhole, hopen⟩ hothers hrun
      exact ⟨hopen, fun halong => absurd (halong t ht).1 hwhole, fun _ => hshort⟩

end

/-- **When nothing is lost.** -/
theorem wire_iff {socket : BaseSocket} (hfree : Free socket) {actions : List Action} {w : Writer}
    (hrun : run step (fresh socket) actions = some w) (hdone : w.socket.writes = []) :
    (w.socket.isClosed = true ∨ w.wire = w.given) ↔
      .failed ∈ actions ∨ Along step Whole (fresh socket) actions := by
  have hfresh : (fresh socket).Complete := by
    refine ⟨hfree.isClosed, ?_⟩
    show [] ++ socket.writes.flatten = []
    rw [hfree.writes]
    rfl
  by_cases hfailed : Action.failed ∈ actions
  · exact iff_of_true (Or.inl (isClosed_run hrun hfailed)) (Or.inl hfailed)
  · obtain ⟨hopen, hcomplete, hshort⟩ := run_without_error hfresh hrun hfailed
    rw [hopen, or_iff_right Bool.false_ne_true, or_iff_right hfailed]
    constructor
    · intro hwire
      by_contra hnot
      have hlt := hshort hnot
      unfold Short at hlt
      rw [hwire, hdone] at hlt
      exact absurd hlt (Nat.lt_irrefl _)
    · intro halong
      have hgiven := (hcomplete halong).given
      rwa [hdone, List.flatten_nil, List.append_nil] at hgiven

/-- A packet of two bytes. -/
def twoBytes : Packet := ⟨⟨0, 2, [1, 2]⟩, by decide, by decide, by decide⟩

/-- A socket that is open and has nothing to do. -/
def idleSocket : BaseSocket := ⟨.new, false, true, [], [], []⟩

lemma free_idleSocket : Free idleSocket := ⟨rfl, rfl⟩

lemma along_whole : Along step Whole (fresh idleSocket) [.send twoBytes, .written 2] := by
  intro t ht
  obtain rfl := Option.some.inj ht
  refine ⟨?_, ?_⟩
  · rintro n ⟨⟩
  · intro t' _
    refine ⟨?_, trivial⟩
    intro n hn data hdata
    obtain rfl := Action.written.inj hn
    obtain rfl := Option.some.inj hdata
    rfl

theorem wire_iff_whole :
    ∃ w, run step (fresh idleSocket) [.send twoBytes, .written 2] = some w ∧
      w.socket.writes = [] ∧ (w.socket.isClosed = true ∨ w.wire = w.given) :=
  ⟨_, rfl, rfl, (wire_iff free_idleSocket rfl rfl).2 (Or.inr along_whole)⟩

/-- A write that transfers one byte of two, after which nothing is outstanding. -/
theorem second_byte_lost :
    ¬ ∀ (socket : BaseSocket) (actions : List Action) (w : Writer), Free socket →
      run step (fresh socket) actions = some w → w.socket.writes = [] →
      w.socket.isClosed = true ∨ w.wire = w.given := by
  intro h
  have hlost := h idleSocket [.send twoBytes, .written 1] _ free_idleSocket rfl rfl
  exact absurd hlost (by decide)

end Writer

end NovusHeadless
