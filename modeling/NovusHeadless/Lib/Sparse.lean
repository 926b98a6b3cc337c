import Mathlib.Tactic

/-!
# Lists without their zeros

A list is determined by the marks of its non-zero entries together with these entries.

* `marks l`, `payload l` — the two parts of a list, and `spread` puts them together again (`spread_marks`);
* `marks_spread` — every payload without zeros that has as many entries as there are marks comes from a list;
* `eq_of_payload_isPrefix` — with the marks given, no payload continues another one.
-/

namespace NovusHeadless.Lib

variable {α : Type*} [Zero α]

/-- The list with these marks and these entries. -/
def spread : List Bool → List α → List α
  | [], _ => []
  | false :: ms, xs => 0 :: spread ms xs
  | true :: ms, xs => xs.headD 0 :: spread ms xs.tail

lemma length_spread (ms : List Bool) (xs : List α) : (spread ms xs).length = ms.length := by
  induction ms generalizing xs with
  | nil => rfl
  | cons m ms ih => cases m <;> simp [spread, ih]

variable [DecidableEq α]

def marks (l : List α) : List Bool := l.map fun x => decide (x ≠ 0)

/-- The non-zero entries, in order. -/
def payload (l : List α) : List α := l.filter (· ≠ 0)

section

variable {l l' xs : List α} {ms : List Bool} {x : α}

@[simp] lemma marks_zero_cons : marks (0 :: l) = false :: marks l := by simp [marks]
@[simp] lemma payload_zero_cons : payload (0 :: l) = payload l := by simp [payload]

lemma marks_cons_of_ne (hx : x ≠ 0) : marks (x :: l) = true :: marks l := by simp [marks, hx]
lemma payload_cons_of_ne (hx : x ≠ 0) : payload (x :: l) = x :: payload l := by simp [payload, hx]

lemma length_payload (l : List α) : (payload l).length = (marks l).count true := by
  induction l with
  | nil => rfl
  | cons x l ih =>
    rcases eq_or_ne x 0 with rfl | hx
    · simp [ih]
    · simp [marks_cons_of_ne hx, payload_cons_of_ne hx, ih]

/-- **Nothing is lost.** -/
theorem spread_marks (l : List α) : spread (marks l) (payload l) = l := by
  induction l with
  | nil => rfl
  | cons x l ih =>
    rcases eq_or_ne x 0 with rfl | hx
    · simp [spread, ih]
    · simp [marks_cons_of_ne hx, payload_cons_of_ne hx, spread, ih]

/-- **Every pair of parts that fit** comes from a list. -/
theorem marks_spread (hlen : xs.length = ms.count true) (h : ∀ x ∈ xs, x ≠ 0) :
    marks (spread ms xs) = ms ∧ payload (spread ms xs) = xs := by
  induction ms generalizing xs with
  | nil =>
    obtain rfl := List.eq_nil_of_length_eq_zero hlen
    exact ⟨rfl, rfl⟩
  | cons m ms ih =>
    cases m with
    | false =>
      rw [List.count_cons_of_ne (by decide)] at hlen
      obtain ⟨hmarks, hpayload⟩ := ih hlen h
      simp [spread, hmarks, hpayload]
    | true =>
      rw [List.count_cons_self] at hlen
      cases xs with
      | nil => exact absurd hlen (Nat.succ_ne_zero _).symm
      | cons x xs =>
        obtain ⟨hx, hxs⟩ := List.forall_mem_cons.1 h
        obtain ⟨hmarks, hpayload⟩ := ih (Nat.succ.inj hlen) hxs
        simp [spread, marks_cons_of_ne hx, payload_cons_of_ne hx, hmarks, hpayload]

lemma eq_of_marks (hm : marks l = marks l') (hp : payload l = payload l') : l = l' := by
  rw [← spread_marks l, ← spread_marks l', hm, hp]

/-- The marks tell where the payload ends. -/
theorem eq_of_payload_isPrefix (hm : marks l = marks l') (hp : payload l <+: payload l') : l = l' := by
  apply eq_of_marks hm
  apply hp.eq_of_length
  rw [length_payload, length_payload, hm]

end

end NovusHeadless.Lib
