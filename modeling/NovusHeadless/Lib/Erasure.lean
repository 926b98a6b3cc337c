import Mathlib.Data.List.Forall2
import Mathlib.Tactic

/-!
# Erasing in place

`Erases fixed z l l'`: the list `l'` is `l` with some of its elements replaced by `z`, none of them one of the
`fixed` ones.  Places do not move, so what is counted by `fixed` elements in front of a place, such as the
lines of a text, stays the same.
-/

namespace NovusHeadless.Lib

variable {α : Type*} {fixed : α → Prop} {z : α}

/-- `l'` is `l` with some elements that are not fixed replaced by `z`. -/
def Erases (fixed : α → Prop) (z : α) (l l' : List α) : Prop :=
  List.Forall₂ (fun a b => b = a ∨ ¬fixed a ∧ b = z) l l'

namespace Erases

variable {l l' l'' k k' : List α}

@[refl] lemma refl (l : List α) : Erases fixed z l l := by
  induction l with
  | nil => exact List.Forall₂.nil
  | cons a l ih => exact List.Forall₂.cons (Or.inl rfl) ih

lemma trans (h : Erases fixed z l l') (h' : Erases fixed z l' l'') : Erases fixed z l l'' := by
  induction h generalizing l'' with
  | nil => exact h'
  | @cons a b l l' hab _ ih =>
    obtain ⟨c, t, hbc, ht, rfl⟩ := List.forall₂_cons_left_iff.1 h'
    refine List.Forall₂.cons ?_ (ih ht)
    rcases hab with rfl | ⟨ha, rfl⟩
    · exact hbc
    · rcases hbc with rfl | ⟨-, rfl⟩
      · exact Or.inr ⟨ha, rfl⟩
      · exact Or.inr ⟨ha, rfl⟩

lemma length_eq (h : Erases fixed z l l') : l'.length = l.length := (List.Forall₂.length_eq h).symm

lemma append (h : Erases fixed z l l') (hk : Erases fixed z k k') : Erases fixed z (l ++ k) (l' ++ k') :=
  List.rel_append h hk

/-- Whatever is not fixed may be erased. -/
lemma map_of (f : α → α) (hf : ∀ a, f a = a ∨ ¬fixed a ∧ f a = z) (l : List α) :
    Erases fixed z l (l.map f) := by
  induction l with
  | nil => exact List.Forall₂.nil
  | cons a l ih => exact List.Forall₂.cons (hf a) ih

lemma getElem?_eq (h : Erases fixed z l l') (i : ℕ) :
    l'[i]? = l[i]? ∨ ∃ a, l[i]? = some a ∧ ¬fixed a ∧ l'[i]? = some z := by
  induction h generalizing i with
  | nil => exact Or.inl rfl
  | @cons a b l l' hab _ ih =>
    cases i with
    | zero =>
      rcases hab with rfl | ⟨ha, rfl⟩
      · exact Or.inl rfl
      · exact Or.inr ⟨a, rfl, ha, rfl⟩
    | succ i => simpa using ih i

/-- A fixed element stays where it is, and none comes in. -/
lemma fixed_getElem?_iff (hz : ¬fixed z) (h : Erases fixed z l l') {i : ℕ} {a : α} (ha : fixed a) :
    l'[i]? = some a ↔ l[i]? = some a := by
  rcases h.getElem?_eq i with heq | ⟨b, hb, hfix, hz'⟩
  · rw [heq]
  · rw [hb, hz', Option.some.injEq, Option.some.injEq]
    constructor
    · rintro rfl
      exact absurd ha hz
    · rintro rfl
      exact absurd ha hfix

/-- **The fixed elements in front of a place stay**, in number and in order. -/
lemma filter_take_eq {p : α → Bool} (hp : ∀ a, p a = true ↔ fixed a) (hz : ¬fixed z)
    (h : Erases fixed z l l') (i : ℕ) : (l'.take i).filter p = (l.take i).filter p := by
  induction h generalizing i with
  | nil => rfl
  | @cons a b l l' hab _ ih =>
    cases i with
    | zero => rfl
    | succ i =>
      rw [List.take_succ_cons, List.take_succ_cons]
      rcases hab with rfl | ⟨ha, rfl⟩
      · simp only [List.filter_cons, ih i]
      · rw [List.filter_cons_of_neg (by rwa [hp]), List.filter_cons_of_neg (by rwa [hp]), ih i]

lemma eq_of_not_mem (h : Erases fixed z l l') (hz : z ∉ l') : l' = l := by
  induction h with
  | nil => rfl
  | @cons a b l l' hab _ ih =>
    rw [List.mem_cons, not_or] at hz
    rcases hab with rfl | ⟨-, rfl⟩
    · rw [ih hz.2]
    · exact absurd rfl hz.1

lemma infix_of_not_mem {p : List α} (h : Erases fixed z l l') (hz : z ∉ p) (hp : p <:+: l') : p <:+: l := by
  obtain ⟨front, back, rfl⟩ := hp
  have hpiece : Erases fixed z ((l.drop front.length).take p.length) p := by
    have := List.forall₂_take p.length (List.forall₂_drop front.length h)
    rwa [List.append_assoc, List.drop_left, List.take_left] at this
  rw [hpiece.eq_of_not_mem hz]
  exact (List.take_prefix _ _).isInfix.trans (List.drop_suffix _ _).isInfix

end Erases

end NovusHeadless.Lib
