import Mathlib.Tactic

/-!
# A stream cut into pieces

`gather t x xs` appends the pieces `xs` to `x` until there are `t` elements.  A consumer that does
nothing with fewer than `t` elements but keep them cannot tell the pieces from the gathered front
(`run_gather`).
-/

namespace NovusHeadless.Lib

variable {α β : Type*}

/-- The gathered front, and the pieces behind it. -/
def gather (t : ℕ) : List α → List (List α) → List α × List (List α)
  | x, [] => (x, [])
  | x, y :: ys => if t ≤ x.length then (x, y :: ys) else gather t (x ++ y) ys

/-- The length of the shortest front of whole pieces with at least `t` elements. -/
def firstTotal (t : ℕ) (xs : List (List α)) : ℕ := (gather t [] xs).1.length

theorem gather_flatten (t : ℕ) (x : List α) (xs : List (List α)) :
    (gather t x xs).1 ++ (gather t x xs).2.flatten = x ++ xs.flatten := by
  induction xs generalizing x with
  | nil => rfl
  | cons y ys ih =>
    unfold gather
    split
    · rfl
    · rw [ih, List.flatten_cons, List.append_assoc]

lemma le_length_gather {t : ℕ} {x : List α} {xs : List (List α)}
    (h : t ≤ (x ++ xs.flatten).length) : t ≤ (gather t x xs).1.length := by
  induction xs generalizing x with
  | nil => simpa [gather] using h
  | cons y ys ih =>
    unfold gather
    split
    · assumption
    · exact ih (by rwa [List.append_assoc, ← List.flatten_cons])

lemma gather_suffix (t : ℕ) (x : List α) (xs : List (List α)) : (gather t x xs).2 <:+ xs := by
  induction xs generalizing x with
  | nil => exact List.suffix_rfl
  | cons y ys ih =>
    unfold gather
    split
    · exact List.suffix_rfl
    · exact (ih _).trans (List.suffix_cons y ys)

/-- **Gathering is invisible** to a consumer of the stream `s` for which a front of fewer than `t`
elements and the piece behind it are as good as one. -/
theorem run_gather {run : List (List α) → β} {t : ℕ} {s : List α}
    (merge : ∀ x y zs, x.length < t → x ++ (y ++ zs.flatten) = s →
      run (x :: y :: zs) = run ((x ++ y) :: zs)) :
    ∀ (xs : List (List α)) (x : List α), x ++ xs.flatten = s →
      run (x :: xs) = run ((gather t x xs).1 :: (gather t x xs).2) := by
  intro xs
  induction xs with
  | nil => intro x _; rfl
  | cons y ys ih =>
    intro x hs
    rw [List.flatten_cons] at hs
    unfold gather
    split
    · rfl
    · next ht =>
      rw [merge x y ys (by omega) hs]
      exact ih _ (by rwa [List.append_assoc])

/-- A stream that ends with the front has no pieces behind it, when no piece is empty. -/
lemma gather_eq_of_length {t : ℕ} {xs : List (List α)} (hne : ∀ x ∈ xs, x ≠ [])
    (h : (gather t [] xs).1.length = xs.flatten.length) : gather t [] xs = (xs.flatten, []) := by
  have hflat := gather_flatten t [] xs
  rw [List.nil_append] at hflat
  have hlen := congrArg List.length hflat
  rw [List.length_append, h] at hlen
  have hrest : (gather t [] xs).2.flatten = [] := List.eq_nil_of_length_eq_zero (by omega)
  have hnil : (gather t [] xs).2 = [] := by
    cases hr : (gather t [] xs).2 with
    | nil => rfl
    | cons y ys =>
      have hy : y ∈ xs := (gather_suffix t [] xs).subset (by rw [hr]; exact List.mem_cons_self)
      rw [hr, List.flatten_cons, List.append_eq_nil_iff] at hrest
      exact absurd hrest.1 (hne y hy)
  rw [hrest, List.append_nil] at hflat
  exact Prod.ext hflat hnil

end NovusHeadless.Lib
