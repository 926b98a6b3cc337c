import Mathlib.Data.List.DropRight
import Mathlib.Data.List.Perm.Basic

/-!
# Insertion sort

An element is inserted from the back: `insertBack less l x` has `x` in front of the elements at the back of `l`
that it is `less` than.  Nothing is assumed of `less` for the elements to be kept (`insertionSort_perm`), and for
those that are in order already to stay so (`insertionSort_stable`).  The result is ordered by any transitive
relation that agrees with `less` (`insertionSort_pairwise`).  `StableSort less l l'` says all of this of two lists.
-/

namespace NovusHeadless.Lib

variable {α : Type*} {less : α → α → Bool}

def insertBack (less : α → α → Bool) (l : List α) (x : α) : List α :=
  l.rdropWhile (less x) ++ x :: l.rtakeWhile (less x)

def insertionSort (less : α → α → Bool) (l : List α) : List α := l.foldl (insertBack less) []

lemma insertionSort_concat (l : List α) (x : α) :
    insertionSort less (l ++ [x]) = insertBack less (insertionSort less l) x := List.foldl_concat _ _ _ _

lemma insertBack_perm (l : List α) (x : α) : (insertBack less l x).Perm (l ++ [x]) := by
  have hsplit : l ++ [x] = l.rdropWhile (less x) ++ (l.rtakeWhile (less x) ++ [x]) := by
    rw [← List.append_assoc, List.rdropWhile_append_rtakeWhile]
  rw [hsplit]
  exact (List.perm_append_singleton x _).symm.append_left _

lemma sublist_insertBack {c l : List α} (h : c.Sublist l) (x : α) : c.Sublist (insertBack less l x) := by
  rw [← List.rdropWhile_append_rtakeWhile (p := less x) (l := l)] at h
  exact h.trans ((List.sublist_cons_self _ _).append_left _)

/-- An element that is less than none of some others comes to lie behind them. -/
lemma concat_sublist_insertBack {c l : List α} (h : c.Sublist l) {x : α} (hx : ∀ y ∈ c, less x y = false) :
    (c ++ [x]).Sublist (insertBack less l x) := by
  rw [← List.rdropWhile_append_rtakeWhile (p := less x) (l := l)] at h
  obtain ⟨c₁, c₂, rfl, h₁, h₂⟩ := List.sublist_append_iff.1 h
  have hnil : c₂ = [] := by
    refine List.eq_nil_iff_forall_not_mem.2 fun y hy => ?_
    have hmoved : less x y = true := List.mem_rtakeWhile_imp (h₂.subset hy)
    rw [hx y (List.mem_append_right _ hy)] at hmoved
    cases hmoved
  rw [hnil, List.append_nil]
  exact h₁.append (List.singleton_sublist.2 List.mem_cons_self)

section

variable {R : α → α → Prop}

lemma insertBack_pairwise (hless : ∀ x y, less x y = true → R x y) (hnot : ∀ x y, less x y = false → R y x)
    (htrans : ∀ x y z, R x y → R y z → R x z) {l : List α} (h : l.Pairwise R) (x : α) :
    (insertBack less l x).Pairwise R := by
  rw [← List.rdropWhile_append_rtakeWhile (p := less x) (l := l), List.pairwise_append] at h
  obtain ⟨hfront, hback, hboth⟩ := h
  have hafter : ∀ y ∈ l.rtakeWhile (less x), R x y := fun y hy => hless x y (List.mem_rtakeWhile_imp hy)
  -- the last of the elements in front of `x` is not greater, and the others are not greater than that one
  have hbefore : ∀ y ∈ l.rdropWhile (less x), R y x := by
    intro y hy
    have hne := List.ne_nil_of_mem hy
    have hlast := hnot x _ (Bool.not_eq_true _ ▸ List.rdropWhile_last_not (less x) l hne)
    have hconcat := List.dropLast_concat_getLast hne
    rw [← hconcat] at hy hfront
    rcases List.mem_append.1 hy with hy | hy
    · exact htrans _ _ _ ((List.pairwise_append.1 hfront).2.2 y hy _ List.mem_cons_self) hlast
    · rw [List.mem_singleton.1 hy]
      exact hlast
  refine List.pairwise_append.2 ⟨hfront, List.pairwise_cons.2 ⟨hafter, hback⟩, fun y hy z hz => ?_⟩
  rcases List.mem_cons.1 hz with rfl | hz
  · exact hbefore y hy
  · exact hboth y hy z hz

end

/-! ### Of a whole list -/

/-- **The elements are kept.** -/
lemma insertionSort_perm (l : List α) : (insertionSort less l).Perm l := by
  induction l using List.reverseRecOn with
  | nil => exact List.Perm.refl _
  | append_singleton l x ih =>
    rw [insertionSort_concat]
    exact (insertBack_perm _ x).trans (ih.append_right [x])

/-- **Elements that are in order stay in order.** -/
lemma insertionSort_stable {c l : List α} (h : c.Sublist l) (hc : c.Pairwise fun y x => less x y = false) :
    c.Sublist (insertionSort less l) := by
  induction l using List.reverseRecOn generalizing c with
  | nil =>
    rw [List.sublist_nil.1 h]
    exact List.nil_sublist _
  | append_singleton l x ih =>
    rw [insertionSort_concat]
    obtain ⟨c₁, c₂, rfl, h₁, h₂⟩ := List.sublist_append_iff.1 h
    obtain ⟨hc₁, -, hx⟩ := List.pairwise_append.1 hc
    rcases List.sublist_singleton.1 h₂ with rfl | rfl
    · rw [List.append_nil]
      exact sublist_insertBack (ih h₁ hc₁) x
    · exact concat_sublist_insertBack (ih h₁ hc₁) fun y hy => hx y hy x List.mem_cons_self

/-- **The result is in order.** -/
lemma insertionSort_pairwise {R : α → α → Prop} (hless : ∀ x y, less x y = true → R x y)
    (hnot : ∀ x y, less x y = false → R y x) (htrans : ∀ x y z, R x y → R y z → R x z) (l : List α) :
    (insertionSort less l).Pairwise R := by
  induction l using List.reverseRecOn with
  | nil => exact List.Pairwise.nil
  | append_singleton l x ih =>
    rw [insertionSort_concat]
    exact insertBack_pairwise hless hnot htrans ih x

/-- `l'` is what a stable sort makes of `l`, whatever the order is that `less` belongs to. -/
structure StableSort (less : α → α → Bool) (l l' : List α) : Prop where
  perm : l'.Perm l
  stable : ∀ c : List α, c.Sublist l → c.Pairwise (fun y x => less x y = false) → c.Sublist l'
  ordered : ∀ R : α → α → Prop, (∀ x y, less x y = true → R x y) → (∀ x y, less x y = false → R y x) →
    (∀ x y z, R x y → R y z → R x z) → l'.Pairwise R

lemma insertionSort_stableSort (l : List α) : StableSort less l (insertionSort less l) :=
  ⟨insertionSort_perm l, fun _ => insertionSort_stable, fun _ hless hnot htrans => insertionSort_pairwise hless hnot htrans l⟩

lemma insertionSort_of_length_lt {l : List α} (h : l.length < 2) : insertionSort less l = l := by
  rcases l with _ | ⟨x, _ | ⟨y, l⟩⟩
  · rfl
  · rfl
  · rw [List.length_cons, List.length_cons] at h
    omega

end NovusHeadless.Lib
