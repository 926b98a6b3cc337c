import Mathlib.Algebra.BigOperators.Fin
import Mathlib.Algebra.Order.BigOperators.Group.Finset
import Mathlib.Data.Multiset.Count
import Mathlib.Tactic

/-!
# Objects in places

Every place holds a multiset of objects.  A transfer brings a new object to a place, or takes objects from one
place to another one.

* `occurrences c x` — how often the object is held, over all of the places;
* `HeldOnce c x` — one place holds the object, and holds it once; `heldOnce_iff` is this as a number;
* `occurrences_apply` — a transfer that fits adds the object that it brings, and loses and doubles nothing;
* `Balanced` — the objects that were brought are held once and all others nowhere, which is kept by every
  transfer that fits and brings a new object (`balanced_apply`).
-/

namespace NovusHeadless.Lib

inductive Transfer (π α : Type*) where
  | nothing
  /-- an object that comes from outside -/
  | bring (p : π) (x : α)
  | move (p q : π) (x : α)
  | moveAll (p q : π)

variable {π α : Type*} [DecidableEq α]

namespace Transfer

def apply [DecidableEq π] (c : π → Multiset α) : Transfer π α → π → Multiset α
  | .nothing => c
  | .bring p x => Function.update c p (x ::ₘ c p)
  | .move p q x =>
    let c := Function.update c p ((c p).erase x)
    Function.update c q (x ::ₘ c q)
  | .moveAll p q => Function.update (Function.update c q (c q + c p)) p 0

/-- What is taken from a place is there. -/
def Fits (c : π → Multiset α) : Transfer π α → Prop
  | .nothing => True
  | .bring _ _ => True
  | .move p _ x => x ∈ c p
  | .moveAll p q => p ≠ q

def brought : Transfer π α → Option α
  | .bring _ x => some x
  | .nothing => none
  | .move _ _ _ => none
  | .moveAll _ _ => none

end Transfer

variable [Fintype π]

def occurrences (c : π → Multiset α) (x : α) : ℕ := ∑ p, (c p).count x

structure HeldOnce (c : π → Multiset α) (x : α) : Prop where
  place : ∃! p, x ∈ c p
  once : ∀ p, (c p).count x ≤ 1

/-- The objects of a list are held once, all others are not held. -/
def Balanced (c : π → Multiset α) (objects : List α) : Prop :=
  ∀ x, occurrences c x = if x ∈ objects then 1 else 0

lemma Balanced.mem {c : π → Multiset α} {objects : List α} {p : π} {x : α} (h : Balanced c objects)
    (hx : x ∈ c p) : x ∈ objects := by
  by_contra hnot
  have hsum := h x
  rw [if_neg hnot] at hsum
  have hcount := Finset.sum_eq_zero_iff.1 hsum p (Finset.mem_univ p)
  exact Multiset.count_eq_zero.1 hcount hx

section

variable [DecidableEq π] {c : π → Multiset α} {objects : List α} {p : π} {x : α}

lemma occurrences_update (c : π → Multiset α) (p : π) (m : Multiset α) (x : α) :
    occurrences (Function.update c p m) x + (c p).count x = occurrences c x + m.count x := by
  have hothers : ∑ q ∈ Finset.univ.erase p, (Function.update c p m q).count x =
      ∑ q ∈ Finset.univ.erase p, (c q).count x := by
    apply Finset.sum_congr rfl
    intro q hq
    rw [Function.update_of_ne (Finset.ne_of_mem_erase hq)]
  have hnew := Finset.add_sum_erase Finset.univ (fun q => (Function.update c p m q).count x)
    (Finset.mem_univ p)
  have hold := Finset.add_sum_erase Finset.univ (fun q => (c q).count x) (Finset.mem_univ p)
  simp only [Function.update_self] at hnew
  unfold occurrences
  omega

lemma occurrences_bring (c : π → Multiset α) (p : π) (x y : α) :
    occurrences (Function.update c p (x ::ₘ c p)) y =
      occurrences c y + if y = x then 1 else 0 := by
  have h := occurrences_update c p (x ::ₘ c p) y
  rw [Multiset.count_cons] at h
  omega

lemma occurrences_erase (h : x ∈ c p) (y : α) :
    occurrences (Function.update c p ((c p).erase x)) y + (if y = x then 1 else 0) =
      occurrences c y := by
  have hupdate := occurrences_update c p ((c p).erase x) y
  have hcount : (x ::ₘ (c p).erase x).count y = (c p).count y := by rw [Multiset.cons_erase h]
  rw [Multiset.count_cons] at hcount
  omega

/-- **Nothing is lost or doubled** by a transfer that fits. -/
theorem occurrences_apply {t : Transfer π α} (h : t.Fits c) (y : α) :
    occurrences (t.apply c) y = occurrences c y + if t.brought = some y then 1 else 0 := by
  have hnone : ∀ t : Transfer π α, t.brought = none → ¬ t.brought = some y := by
    intro t ht
    rw [ht]
    exact (Option.some_ne_none y).symm
  cases t with
  | nothing =>
    rw [if_neg (hnone _ rfl)]
    rfl
  | bring p x =>
    simp only [Transfer.apply, Transfer.brought, Option.some.injEq]
    rw [occurrences_bring]
    simp only [eq_comm]
  | move p q x =>
    have herase := occurrences_erase h y
    rw [if_neg (hnone _ rfl)]
    simp only [Transfer.apply]
    rw [occurrences_bring, herase, Nat.add_zero]
  | moveAll p q =>
    have hempty := occurrences_update (Function.update c q (c q + c p)) p 0 y
    have hall := occurrences_update c q (c q + c p) y
    rw [Function.update_of_ne h, Multiset.count_zero] at hempty
    rw [Multiset.count_add] at hall
    rw [if_neg (hnone _ rfl)]
    simp only [Transfer.apply]
    omega

/-- **One place, and once** is the number one. -/
theorem heldOnce_iff : HeldOnce c x ↔ occurrences c x = 1 := by
  constructor
  · rintro ⟨⟨p, hp, hothers⟩, honce⟩
    have hsum : occurrences c x = (c p).count x := by
      apply Finset.sum_eq_single_of_mem p (Finset.mem_univ p)
      intro q _ hq
      rw [Multiset.count_eq_zero]
      exact fun hmem => hq (hothers q hmem)
    rw [hsum]
    exact le_antisymm (honce p) (Multiset.one_le_count_iff_mem.2 hp)
  · intro h
    have hle : ∀ p, (c p).count x ≤ 1 := by
      intro p
      rw [← h]
      exact Finset.single_le_sum (f := fun p => (c p).count x) (fun _ _ => Nat.zero_le _)
        (Finset.mem_univ p)
    refine ⟨?_, hle⟩
    obtain ⟨p, -, hp⟩ := Finset.exists_ne_zero_of_sum_ne_zero
      (show ∑ p, (c p).count x ≠ 0 by unfold occurrences at h; omega)
    refine ⟨p, Multiset.count_ne_zero.1 hp, ?_⟩
    intro q hq
    by_contra hne
    -- two places would make it two
    have hpair := Finset.sum_pair (f := fun q => (c q).count x) hne
    have hsub := Finset.sum_le_sum_of_subset (f := fun q => (c q).count x)
      (Finset.subset_univ {q, p})
    have hpos := Multiset.one_le_count_iff_mem.2 hq
    unfold occurrences at h
    omega

lemma Balanced.heldOnce (h : Balanced c objects) (hx : x ∈ objects) : HeldOnce c x := by
  rw [heldOnce_iff, h x, if_pos hx]

/-- **The balance is kept** by a transfer that fits and brings no object twice. -/
theorem balanced_apply {t : Transfer π α} (h : Balanced c objects) (ht : t.Fits c)
    (hnew : ∀ x ∈ t.brought, x ∉ objects) :
    Balanced (t.apply c) (objects ++ t.brought.toList) := by
  intro y
  rw [occurrences_apply ht, h y]
  cases hb : t.brought with
  | none => simp
  | some x =>
    by_cases hy : y = x
    · subst hy
      have hfresh := hnew y hb
      simp [hfresh]
    · simp [hy, Ne.symm hy]

end

end NovusHeadless.Lib
