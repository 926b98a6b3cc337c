import Mathlib.Tactic

/-!
# Overwriting a stretch of a list

`splice l i xs` is the memory `l` after the bytes `xs` have been stored from index `i` on.  Two
stores one behind the other are one store (`splice_append`), and below the end of the last store the
memory is the old front followed by what was stored (`take_splice`).  Outside of the stretch the memory is
what it was (`getElem?_splice`).
-/

namespace NovusHeadless.Lib

variable {α : Type*}

/-- The list `l` with `xs` stored from index `i` on. -/
def splice (l : List α) (i : ℕ) (xs : List α) : List α := l.take i ++ xs ++ l.drop (i + xs.length)

lemma length_splice {l xs : List α} {i : ℕ} (h : i + xs.length ≤ l.length) :
    (splice l i xs).length = l.length := by
  unfold splice
  simp only [List.length_append, List.length_take, List.length_drop]
  omega

lemma take_splice {l xs : List α} {i : ℕ} (h : i ≤ l.length) :
    (splice l i xs).take (i + xs.length) = l.take i ++ xs := by
  unfold splice
  rw [List.take_left' (by simp; omega)]

lemma drop_splice {l xs : List α} {i : ℕ} (h : i ≤ l.length) :
    (splice l i xs).drop (i + xs.length) = l.drop (i + xs.length) := by
  unfold splice
  rw [List.drop_left' (by simp; omega)]

lemma take_drop_splice {l xs : List α} {i : ℕ} (h : i ≤ l.length) :
    ((splice l i xs).drop i).take xs.length = xs := by
  unfold splice
  rw [List.append_assoc, List.drop_left' (by simp; omega), List.take_left' rfl]

lemma take_splice_left {l xs : List α} {i : ℕ} (h : i ≤ l.length) :
    (splice l i xs).take i = l.take i := by
  unfold splice
  rw [List.append_assoc, List.take_left' (by simp; omega)]

/-- **Outside of the stretch** nothing is changed. -/
theorem getElem?_splice {l xs : List α} {i j : ℕ} (h : i ≤ l.length)
    (hj : j < i ∨ i + xs.length ≤ j) : (splice l i xs)[j]? = l[j]? := by
  rcases hj with hj | hj
  · rw [← List.getElem?_take_of_lt hj, take_splice_left h, List.getElem?_take_of_lt hj]
  · obtain ⟨k, rfl⟩ := Nat.exists_eq_add_of_le hj
    rw [← List.getElem?_drop, drop_splice h, List.getElem?_drop]

/-- Two stores, the second behind the first, are one store. -/
theorem splice_append {l xs : List α} {i : ℕ} (h : i ≤ l.length) (ys : List α) :
    splice (splice l i xs) (i + xs.length) ys = splice l i (xs ++ ys) := by
  have hfront : (splice l i xs).take (i + xs.length) = l.take i ++ xs := take_splice h
  have hback : (splice l i xs).drop (i + xs.length + ys.length) =
      l.drop (i + xs.length + ys.length) := by
    rw [← List.drop_drop, drop_splice h, List.drop_drop]
  rw [splice.eq_def (splice l i xs), hfront, hback]
  unfold splice
  simp only [List.append_assoc, List.length_append, Nat.add_assoc]

lemma splice_zero (l xs : List α) : splice l 0 xs = xs ++ l.drop xs.length := by simp [splice]

end NovusHeadless.Lib
