import NovusHeadless.Lib.Terminated
import NovusHeadless.Networking.Serialization

/-!
# Reading a string (`Networking/ByteBuffer.h`)

The loop of `Read(std::string&)` stops at a zero or at `size()`; the write position, behind which nothing has
been written, does not stop it.

* `readString_spec` — the loop reads the string at the read position in the memory of the vector;
* `readStringLoop_stable` — it has stopped after as many passes as there are bytes up to `size()`;
* `readsString_iff` — this is the string in the unread bytes exactly when they have a terminator, or reach to
  the end of the vector.
-/

namespace NovusHeadless

open Lib

namespace Reader

/-- The string of the unread bytes is read, in finitely many passes and no further than to the write
position, whatever is behind the write position. -/
structure ReadsString (r : Reader) : Prop where
  stops : ∀ n, r.size - r.readPos ≤ n → readStringLoop n [] r = r.readString
  value : r.readString.1 = cString r.unread
  ordered : r.readString.2.readPos ≤ r.readString.2.writePos
  written : ∀ r' : Reader, r'.readPos = r.readPos → r'.writePos = r.writePos →
    r'.bufferData.length = r.bufferData.length →
    r'.bufferData.take r.writePos = r.bufferData.take r.writePos →
    r'.readString.1 = r.readString.1 ∧ r'.readString.2.readPos = r.readString.2.readPos

section

variable {r : Reader}

/-! ### The loop -/

lemma readStringLoop_of_end (hend : ¬ r.readPos < r.size) (n : ℕ) (value : Bytes) :
    readStringLoop n value r = (value, r) := by
  cases n with
  | zero => rfl
  | succ n => rw [readStringLoop, if_neg hend]

theorem readStringLoop_stable {n m : ℕ} (hn : r.size - r.readPos ≤ n) (hm : r.size - r.readPos ≤ m)
    (value : Bytes) : readStringLoop n value r = readStringLoop m value r := by
  induction n generalizing m r value with
  | zero =>
    have hend : ¬ r.readPos < r.size := by omega
    rw [readStringLoop_of_end hend, readStringLoop_of_end hend]
  | succ n ih =>
    by_cases hr : r.readPos < r.size
    · obtain ⟨m, rfl⟩ := Nat.exists_eq_succ_of_ne_zero (show m ≠ 0 by omega)
      have hnext : (r.read 1).2.size - (r.read 1).2.readPos = r.size - r.readPos - 1 := by
        have hlt : r.size < 2 ^ 32 := Nat.mod_lt _ (by norm_num)
        show r.size - (r.readPos + 1) % 2 ^ 64 = _
        omega
      have hrest : ∀ value : Bytes,
          readStringLoop n value (r.read 1).2 = readStringLoop m value (r.read 1).2 :=
        ih (by rw [hnext]; omega) (by rw [hnext]; omega)
      rw [readStringLoop, readStringLoop, if_pos hr, if_pos hr]
      dsimp only
      rw [hrest]
    · rw [readStringLoop_of_end hr, readStringLoop_of_end hr]

/-- Memory without a terminator is read to the end of the vector. -/
lemma reads_stringLoop_of_not_mem {t : Bytes} (h0 : 0 ∉ t) (value : Bytes)
    (h : r.getReadPointer = t) (hs : r.bufferData.length < 2 ^ 32) {n : ℕ} (hn : t.length ≤ n) :
    r.Reads (value ++ t) t.length (readStringLoop n value r) := by
  induction t generalizing r value n with
  | nil =>
    have hend : ¬ r.readPos < r.size := by
      have hle := List.drop_eq_nil_iff.1 h
      rw [size_eq hs]
      omega
    refine ⟨[], ?_, fun a ha => absurd ha List.not_mem_nil⟩
    rw [readStringLoop_of_end hend, List.append_nil]
    unfold moved
    rw [List.append_nil]
    rfl
  | cons c t ih =>
    obtain ⟨hc, ht⟩ := not_or.1 (mt List.mem_cons.2 h0)
    have hsplit : r.getReadPointer = [c] ++ t := h
    obtain ⟨n, rfl⟩ := Nat.exists_eq_succ_of_ne_zero
      (show n ≠ 0 by rw [List.length_cons] at hn; omega)
    have hrest : r.Reads (value ++ [c] ++ t) (1 + t.length)
        (readStringLoop n (value ++ [c]) (r.read 1).2) :=
      (reads_read hsplit (List.cons_ne_nil _ _) (by omega)).then fun log =>
        ih ht (value ++ [c]) (getReadPointer_moved hsplit log) hs (Nat.le_of_succ_le_succ hn)
    rw [readStringLoop_succ hsplit hs, if_neg (Ne.symm hc), List.length_cons,
      Nat.add_comm t.length]
    rwa [List.append_assoc] at hrest

/-- **`Read(std::string&)`** reads the string at the read position in memory. -/
theorem readString_spec (hs : r.bufferData.length < 2 ^ 32) :
    r.Reads (cString r.getReadPointer) (consumed r.getReadPointer) r.readString := by
  by_cases hmem : 0 ∈ r.getReadPointer
  · obtain ⟨front, rest, heq, hfront⟩ := exists_eq_append_zero hmem
    unfold consumed
    rw [if_pos hmem, heq, cString_append_zero hfront]
    exact reads_string hfront heq hs
  · have hlen : r.getReadPointer.length ≤ r.size - r.readPos := by
      rw [size_eq hs]
      exact (List.length_drop ..).le
    unfold consumed
    rw [if_neg hmem, cString_eq_self_iff.2 hmem]
    exact reads_stringLoop_of_not_mem hmem [] rfl hs hlen

/-! ### The unread bytes -/

/-- The memory behind the read position: the unread bytes, and what is behind the write position. -/
lemma getReadPointer_eq (hb : r.Ordered) :
    r.getReadPointer = r.unread ++ r.bufferData.drop r.writePos := by
  have hle := hb.read_le
  have hsum : r.readPos + (r.writePos - r.readPos) = r.writePos := by omega
  have hdrop : r.bufferData.drop r.writePos = r.getReadPointer.drop (r.writePos - r.readPos) := by
    show _ = (r.bufferData.drop r.readPos).drop _
    rw [List.drop_drop, hsum]
  rw [hdrop]
  exact (List.take_append_drop _ _).symm

/-- The unread bytes have a terminator, or reach to the end of the vector. -/
def StringEnds (r : Reader) : Prop := 0 ∈ r.unread ∨ r.writePos = r.bufferData.length

lemma readString_of_ends (hb : r.Ordered) (hends : r.StringEnds) :
    r.readString.1 = cString r.unread ∧
      r.readString.2.readPos = r.readPos + consumed r.unread ∧
      r.readString.2.writePos = r.writePos := by
  obtain ⟨log, hread, -⟩ := readString_spec hb.size_lt
  have hmemory : cString r.getReadPointer = cString r.unread ∧
      consumed r.getReadPointer = consumed r.unread := by
    rw [getReadPointer_eq hb]
    rcases hends with hmem | hend
    · rw [cString_append, consumed_append, if_pos hmem, if_pos hmem]
      exact ⟨rfl, rfl⟩
    · rw [hend, List.drop_length, List.append_nil]
      exact ⟨rfl, rfl⟩
  rw [hread, hmemory.1, hmemory.2]
  exact ⟨rfl, rfl, rfl⟩

lemma unread_eq (r : Reader) :
    r.unread = (r.bufferData.take r.writePos).drop r.readPos := by
  show (r.bufferData.drop r.readPos).take (r.writePos - r.readPos) = _
  rw [List.drop_take]

/-- **When the string is read.** -/
theorem readsString_iff (hb : r.Ordered) : r.ReadsString ↔ r.StringEnds := by
  constructor
  · intro h
    by_contra hnot
    obtain ⟨hmem, hend⟩ := not_or.1 hnot
    have hw := hb.write_le
    have hle := hb.read_le
    -- the loop goes past the write position
    obtain ⟨log, hread, -⟩ := readString_spec hb.size_lt
    have hordered := h.ordered
    rw [hread] at hordered
    have hbehind : r.bufferData.drop r.writePos ≠ [] := by
      rw [Ne, List.drop_eq_nil_iff]
      omega
    have hpos := consumed_pos hbehind
    have hmoved : r.readPos + consumed r.getReadPointer ≤ r.writePos := hordered
    have hlen : r.unread.length = r.writePos - r.readPos := ByteBuffer.length_unread hb
    rw [getReadPointer_eq hb, consumed_append, if_neg hmem, hlen] at hmoved
    omega
  · intro hends
    obtain ⟨hvalue, hpos, hwrite⟩ := readString_of_ends hb hends
    have hle := hb.read_le
    have hlen : r.unread.length = r.writePos - r.readPos := ByteBuffer.length_unread hb
    have hconsumed := consumed_le r.unread
    refine ⟨fun n hn => readStringLoop_stable hn le_rfl [], hvalue, by omega, ?_⟩
    intro r' hr hw hsize hdata
    have hunread : r'.unread = r.unread := by rw [unread_eq, unread_eq, hr, hw, hdata]
    have hb' : r'.Ordered := ⟨by rw [hr, hw]; exact hb.read_le, by rw [hw, hsize]; exact hb.write_le,
      by rw [hsize]; exact hb.size_lt⟩
    have hends' : r'.StringEnds := by
      unfold StringEnds
      rw [hunread, hw, hsize]
      exact hends
    obtain ⟨hvalue', hpos', -⟩ := readString_of_ends hb' hends'
    rw [hvalue', hvalue, hpos', hpos, hunread, hr]
    exact ⟨rfl, rfl⟩

end

/-- A string of two bytes at the front of a larger vector. -/
def terminated : Reader := ⟨⟨0, 3, [0x48, 0x69, 0, 7]⟩, []⟩

theorem readsString_iff_terminated : terminated.Ordered ∧ terminated.ReadsString := by
  have hb : terminated.Ordered := ⟨by decide, by decide, by decide⟩
  exact ⟨hb, (readsString_iff hb).2 (Or.inl (by decide))⟩

/-- Without its terminator the string goes on behind the write position. -/
theorem unwritten_bytes_read : ¬ ∀ r : Reader, r.Ordered → r.ReadsString := by
  intro h
  have hvalue := (h ⟨⟨0, 2, [0x48, 0x69, 7]⟩, []⟩ ⟨by decide, by decide, by decide⟩).value
  exact absurd hvalue (by decide)

end Reader

end NovusHeadless
