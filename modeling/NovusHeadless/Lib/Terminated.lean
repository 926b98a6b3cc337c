import Mathlib.Data.List.TakeWhile
import Mathlib.Tactic

/-!
# Strings with a terminator

A string in memory is the bytes before the first zero.  A reader of such a string that finds no zero takes
all of the memory.

* `cString s` — the string at the start of the memory `s`;
* `consumed s` — how many bytes its reader moves on, the terminator included;
* `cString_append`, `consumed_append` — what the bytes behind a piece of the memory have to do with it:
  nothing, when there is a terminator in the piece.
-/

namespace NovusHeadless.Lib

/-- The bytes before the first zero. -/
def cString (s : List UInt8) : List UInt8 := s.takeWhile fun c => c ≠ 0

def consumed (s : List UInt8) : ℕ := if 0 ∈ s then (cString s).length + 1 else s.length

section

variable {s t : List UInt8}

lemma cString_cons (c : UInt8) (s : List UInt8) :
    cString (c :: s) = if c = 0 then [] else c :: cString s := by
  unfold cString
  rw [List.takeWhile_cons]
  by_cases hc : c = 0
  · rw [if_pos hc, if_neg (by simp [hc])]
  · rw [if_neg hc, if_pos (by simp [hc])]

lemma cString_isPrefix (s : List UInt8) : cString s <+: s := List.takeWhile_prefix _

lemma cString_eq_self_iff : cString s = s ↔ 0 ∉ s := by
  unfold cString
  rw [List.takeWhile_eq_self_iff]
  constructor
  · intro h hmem
    exact absurd (h 0 hmem) (by decide)
  · intro h c hc
    rw [decide_eq_true_eq]
    rintro rfl
    exact h hc

lemma zero_notMem_cString (s : List UInt8) : 0 ∉ cString s := by
  intro hmem
  have hne := List.mem_takeWhile_imp hmem
  rw [decide_eq_true_eq] at hne
  exact hne rfl

/-- **A terminator in the front** keeps what follows out. -/
theorem cString_append (s t : List UInt8) :
    cString (s ++ t) = if 0 ∈ s then cString s else s ++ cString t := by
  induction s with
  | nil => rfl
  | cons c s ih =>
    rw [List.cons_append, cString_cons, cString_cons, ih]
    by_cases hc : c = 0
    · rw [if_pos hc, if_pos hc, if_pos (hc ▸ List.mem_cons_self)]
    · have hmem : 0 ∈ c :: s ↔ 0 ∈ s := by simp [Ne.symm hc]
      rw [if_neg hc, if_neg hc]
      simp only [hmem]
      split <;> rfl

lemma cString_append_zero (h : 0 ∉ s) (t : List UInt8) : cString (s ++ 0 :: t) = s := by
  rw [cString_append, if_neg h, cString_cons, if_pos rfl, List.append_nil]

lemma exists_eq_append_zero (h : 0 ∈ s) : ∃ front rest, s = front ++ 0 :: rest ∧ 0 ∉ front :=
  List.eq_append_cons_of_mem h

/-! ### How far the reader moves -/

lemma consumed_le (s : List UInt8) : consumed s ≤ s.length := by
  unfold consumed
  split
  · next h =>
    obtain ⟨front, rest, rfl, hfront⟩ := exists_eq_append_zero h
    rw [cString_append_zero hfront, List.length_append, List.length_cons]
    omega
  · exact le_rfl

lemma consumed_pos (h : s ≠ []) : 0 < consumed s := by
  unfold consumed
  split
  · exact Nat.succ_pos _
  · exact List.length_pos_iff.2 h

theorem consumed_append (s t : List UInt8) :
    consumed (s ++ t) = if 0 ∈ s then consumed s else s.length + consumed t := by
  unfold consumed
  by_cases hs : 0 ∈ s
  · rw [if_pos (List.mem_append_left t hs), if_pos hs, if_pos hs, cString_append, if_pos hs]
  · rw [if_neg hs, cString_append, if_neg hs, List.length_append, List.length_append]
    by_cases ht : 0 ∈ t
    · rw [if_pos (List.mem_append_right s ht), if_pos ht, Nat.add_assoc]
    · rw [if_neg (List.not_mem_append hs ht), if_neg ht]

end

end NovusHeadless.Lib
