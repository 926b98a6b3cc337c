import Mathlib.Tactic

/-!
# First in, first out

A queue as its history: everything that has been put in, and how much of it has been taken out.  What
the queue holds is the rest (`content`), so nothing can be lost, doubled or reordered.

* `push`, `pop` — the two operations, `pop` with a proof that the queue holds enough;
* `content_push`, `content_pop` — what they do to the content;
* `tryPop` — the first element, if there is one, with `taken`, everything that has been taken out.
-/

namespace NovusHeadless.Lib

variable {α : Type*}

structure Fifo (α : Type*) where
  received : List α
  consumed : ℕ
  consumed_le : consumed ≤ received.length

namespace Fifo

def empty : Fifo α := ⟨[], 0, le_rfl⟩

/-- What has been put in and not yet taken out. -/
def content (q : Fifo α) : List α := q.received.drop q.consumed

lemma length_content (q : Fifo α) : q.content.length = q.received.length - q.consumed :=
  List.length_drop

def push (q : Fifo α) (xs : List α) : Fifo α where
  received := q.received ++ xs
  consumed := q.consumed
  consumed_le := by
    rw [List.length_append]
    exact q.consumed_le.trans (Nat.le_add_right _ _)

def pop (q : Fifo α) (k : ℕ) (h : k ≤ q.content.length) : Fifo α where
  received := q.received
  consumed := q.consumed + k
  consumed_le := by
    have := q.consumed_le
    rw [length_content] at h
    omega

/-- **Put in at the back.** -/
theorem content_push (q : Fifo α) (xs : List α) : (q.push xs).content = q.content ++ xs :=
  List.drop_append_of_le_length q.consumed_le

/-- **Taken out at the front.** -/
theorem content_pop (q : Fifo α) {k : ℕ} (h : k ≤ q.content.length) :
    (q.pop k h).content = q.content.drop k := by
  unfold content pop
  rw [List.drop_drop]

/-- What has been taken out. -/
def taken (q : Fifo α) : List α := q.received.take q.consumed

lemma taken_append_content (q : Fifo α) : q.taken ++ q.content = q.received :=
  List.take_append_drop q.consumed q.received

lemma taken_prefix (q : Fifo α) : q.taken <+: q.received := List.take_prefix _ _

lemma taken_push (q : Fifo α) (xs : List α) : (q.push xs).taken = q.taken :=
  List.take_append_of_le_length q.consumed_le

/-- Take the first element out, if there is one. -/
def tryPop (q : Fifo α) : Option (α × Fifo α) :=
  match h : q.content with
  | [] => none
  | x :: _ => some (x, q.pop 1 (by rw [h]; exact Nat.succ_le_succ (Nat.zero_le _)))

/-- **One element** goes from the content to what has been taken out. -/
theorem tryPop_eq_some {q q' : Fifo α} {x : α} (h : q.tryPop = some (x, q')) :
    q.content = x :: q'.content ∧ q'.taken = q.taken ++ [x] ∧ q'.received = q.received := by
  unfold tryPop at h
  split at h
  · exact absurd h (by simp)
  · rename_i y ys hcontent
    obtain ⟨rfl, rfl⟩ := Prod.mk.inj (Option.some.inj h)
    refine ⟨?_, ?_, rfl⟩
    · rw [content_pop, hcontent]
      rfl
    · have htake : (q.received.drop q.consumed).take 1 = [y] := by
        have hdrop : q.received.drop q.consumed = y :: ys := hcontent
        rw [hdrop]
        rfl
      unfold taken pop
      rw [List.take_add, htake]

lemma exists_tryPop {q : Fifo α} {x : α} {xs : List α} (h : q.content = x :: xs) :
    ∃ q', q.tryPop = some (x, q') ∧ q'.content = xs := by
  cases hpop : q.tryPop with
  | none =>
    unfold tryPop at hpop
    split at hpop
    · rename_i h'
      rw [h] at h'
      exact absurd h' (List.cons_ne_nil _ _)
    · exact absurd hpop (by simp)
  | some r =>
    obtain ⟨y, q'⟩ := r
    obtain ⟨hcontent, -, -⟩ := tryPop_eq_some hpop
    rw [h] at hcontent
    obtain ⟨rfl, rfl⟩ := List.cons.inj hcontent
    exact ⟨q', rfl, rfl⟩

end Fifo

end NovusHeadless.Lib
