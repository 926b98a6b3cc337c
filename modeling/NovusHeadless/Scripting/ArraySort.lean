import NovusHeadless.Lib.InsertionSort
import NovusHeadless.Scripting.ArrayOperations

/-!
# Sorting arrays

* `sort_sorts` — a range that lies in the array is sorted, whatever is said of null handles, and elements that are
  in order stay so;
* `sort_outside` — other ranges are refused, or nothing is done, or elements in front of the array are accessed;
* `sortWith_sorts` — with a callback, such ranges are cut off at the end of the array.
-/

namespace NovusHeadless

open Lib

namespace ScriptArrays

variable {α : Type}

namespace ScriptArray

/-! ### The loops -/

section

variable {a : ScriptArray α} (less : α → α → Bool)

/-- **The inner loop**: the elements at the back that come behind the one to insert have moved up by one. -/
lemma moveUp_eq (comesBehind : α → Bool) {front d rest : List α} {x : α} (hdata : a.data = front ++ (d ++ x :: rest))
    (hsize : a.numElements ≤ a.data.length) (hlast : front.length + d.length < a.numElements)
    (hsmall : a.numElements < 2147483648) (hoffset : a.numElements * a.elementSize ≤ 2147483648) :
    ∃ x', a.moveUp comesBehind front.length (front.length + d.length - 1) =
      some ({ a with data := front ++ (d.rdropWhile comesBehind ++ x' :: (d.rtakeWhile comesBehind ++ rest)) },
        (front.length : ℤ) + (d.rdropWhile comesBehind).length - 1) := by
  induction d using List.reverseRecOn generalizing a x rest with
  | nil =>
    refine ⟨x, ?_⟩
    unfold moveUp
    rw [if_neg (by simp)]
    simp only [List.rdropWhile_nil, List.rtakeWhile_nil, List.nil_append] at hdata ⊢
    rw [← hdata]
  | append_singleton d y ih =>
    rw [List.length_append, List.length_singleton] at hlast
    have hj : (front.length : ℤ) + (d ++ [y]).length - 1 = ((front.length + d.length : ℕ) : ℤ) := by
      rw [List.length_append, List.length_singleton]
      omega
    have hy : a.data[front.length + d.length]? = some y := by
      rw [hdata]
      simp
    have hitem : a.item ((front.length + d.length : ℕ) : ℤ) = some y := by
      unfold item
      rw [asUInt_of_lt (by omega), if_pos (by omega), hy]
    rw [hj]
    unfold moveUp
    rw [if_pos (by omega), hitem]
    simp only [Option.bind_eq_bind, Option.bind_some]
    by_cases hbehind : comesBehind y = true
    · have hcells : a.data.set (front.length + d.length + 1) y = front ++ (d ++ y :: (y :: rest)) := by
        rw [hdata]
        have hassoc : front ++ (d ++ [y] ++ x :: rest) = (front ++ d ++ [y]) ++ x :: rest := by
          simp only [List.append_assoc, List.cons_append, List.nil_append]
        have hlength : front.length + d.length + 1 = (front ++ d ++ [y]).length := by
          simp only [List.length_append, List.length_singleton]
        rw [hassoc, hlength, List.set_append_right _ _ le_rfl, Nat.sub_self, List.set_cons_zero]
        simp only [List.append_assoc, List.cons_append, List.nil_append]
      have hcopy : a.copyItem (((front.length + d.length : ℕ) : ℤ) + 1) ((front.length + d.length : ℕ) : ℤ) =
          some { a with data := front ++ (d ++ y :: (y :: rest)) } := by
        have hup := a.itemPointer_eq (n := front.length + d.length + 1) (by omega) (offset_lt (by omega) hoffset)
        have hdown := a.itemPointer_eq (n := front.length + d.length) (by omega) (offset_lt (by omega) hoffset)
        unfold copyItem
        rw [← Nat.cast_succ, Nat.succ_eq_add_one, hup, hdown]
        simp only [Option.bind_eq_bind, Option.bind_some, hy, hcells]
      have hkept : (front ++ (d ++ y :: (y :: rest))).length = a.data.length := by
        rw [← hcells, List.length_set]
      obtain ⟨x', hmoved⟩ := @ih { a with data := front ++ (d ++ y :: (y :: rest)) } (y :: rest) y rfl
        (by rw [hkept]; exact hsize) (by dsimp only; omega) hsmall hoffset
      rw [if_pos hbehind, hcopy, List.rdropWhile_concat_pos _ _ _ hbehind, List.rtakeWhile_concat_pos _ _ _ hbehind,
        List.append_assoc, List.singleton_append]
      refine ⟨x', ?_⟩
      simp only [Option.bind_some, Nat.cast_add]
      exact hmoved
    · rw [if_neg hbehind, List.rdropWhile_concat_neg _ _ _ hbehind, List.rtakeWhile_concat_neg _ _ _ hbehind]
      refine ⟨x, ?_⟩
      rw [List.nil_append, ← hdata, hj]

lemma sortBetween_of_le {start stop : ℤ} (hle : stop ≤ start + 1) : a.sortBetween less start stop = some a := by
  unfold sortBetween
  rw [Int.toNat_of_nonpos (by omega)]
  rfl

/-- **A round of the outer loop.** -/
lemma insertItem_eq {front d rest : List α} {x : α} (hdata : a.data = front ++ (d ++ x :: rest))
    (hsize : a.numElements ≤ a.data.length) (hlast : front.length + d.length < a.numElements)
    (hsmall : a.numElements < 2147483648) (hoffset : a.numElements * a.elementSize ≤ 2147483648) :
    a.insertItem less front.length (front.length + d.length) =
      some { a with data := front ++ (insertBack less d x ++ rest) } := by
  obtain ⟨x', hmoved⟩ := moveUp_eq (less x) hdata hsize hlast hsmall hoffset
  have hx : a.data[front.length + d.length]? = some x := by
    rw [hdata]
    simp
  have hpointer := a.itemPointer_eq (n := front.length + d.length) (by omega) (offset_lt hlast hoffset)
  rw [Nat.cast_add] at hpointer
  have hplace : (d.rdropWhile (less x)).length ≤ d.length := (List.rdropWhile_prefix (less x) d).length_le
  have hmovedlength : (front ++ (d.rdropWhile (less x) ++ x' :: (d.rtakeWhile (less x) ++ rest))).length =
      a.data.length := by
    have hsplit := congrArg List.length (List.rdropWhile_append_rtakeWhile (p := less x) (l := d))
    rw [hdata]
    simp only [List.length_append, List.length_cons] at hsplit ⊢
    omega
  have hdst : itemPointer { a with
      data := front ++ (d.rdropWhile (less x) ++ x' :: (d.rtakeWhile (less x) ++ rest)) }
      ((front.length + (d.rdropWhile (less x)).length : ℕ) : ℤ) =
      some (front.length + (d.rdropWhile (less x)).length) :=
    itemPointer_eq (by rw [hmovedlength]; omega) (offset_lt (by omega) hoffset)
  have hcells : (front ++ (d.rdropWhile (less x) ++ x' :: (d.rtakeWhile (less x) ++ rest))).set
      (front.length + (d.rdropWhile (less x)).length) x = front ++ (insertBack less d x ++ rest) := by
    rw [← List.append_assoc, ← List.length_append, List.set_append_right _ _ le_rfl, Nat.sub_self, List.set_cons_zero]
    unfold insertBack
    simp only [List.append_assoc, List.cons_append]
  unfold insertItem
  rw [hpointer]
  simp only [Option.bind_eq_bind, Option.bind_some, hx, hmoved, sub_add_cancel]
  rw [← Nat.cast_add, hdst]
  simp only [Option.bind_some, hcells]

end

end ScriptArray

variable [DecidableEq α] [Inhabited α]

lemma owned_perm {handles : Bool} {l l' : List α} (h : l.Perm l') : (owned handles l).Perm (owned handles l') := by
  unfold owned
  split
  · exact h.filter _
  · exact List.Perm.refl _

namespace ScriptArray

section

variable {a : ScriptArray α} (less : α → α → Bool)

/-- **The sort of a stretch** of the block that lies within the elements. -/
lemma sortBetween_eq (h : a.Valid) (hoffset : a.numElements * a.elementSize ≤ 2147483648) {front l rest : List α}
    (hdata : a.data = front ++ (l ++ rest)) (hfits : front.length + l.length ≤ a.numElements) :
    a.sortBetween less front.length (front.length + l.length) =
      some { a with data := front ++ (insertionSort less l ++ rest) } := by
  have hsmall := h.size.trans_lt h.small
  have hrounds : ((front.length : ℤ) + l.length - front.length - 1).toNat = l.length - 1 := by omega
  -- after `n` rounds the first `n + 1` elements of the stretch are sorted
  have hround : ∀ n, n ≤ l.length - 1 →
      (List.range n).foldlM (fun a (k : ℕ) => a.insertItem less front.length (front.length + 1 + k)) a =
        some { a with data := front ++ (insertionSort less (l.take (n + 1)) ++ (l.drop (n + 1) ++ rest)) } := by
    intro n hn
    induction n with
    | zero =>
      have hfirst : insertionSort less (l.take 1) = l.take 1 :=
        insertionSort_of_length_lt (by rw [List.length_take]; omega)
      rw [Nat.zero_add, hfirst, ← List.append_assoc (l.take 1), List.take_append_drop, ← hdata]
      rfl
    | succ n ih =>
      have hlt : n + 1 < l.length := by omega
      have htake : l.take (n + 1 + 1) = l.take (n + 1) ++ [l[n + 1]] := by
        rw [List.take_add_one, List.getElem?_eq_getElem hlt]
        rfl
      have hdrop : l.drop (n + 1) = l[n + 1] :: l.drop (n + 1 + 1) := List.drop_eq_getElem_cons hlt
      have hsorted : (insertionSort less (l.take (n + 1))).length = n + 1 := by
        rw [(insertionSort_perm _).length_eq, List.length_take]
        omega
      have hindex : (front.length : ℤ) + 1 + n = front.length + (insertionSort less (l.take (n + 1))).length := by
        rw [hsorted]
        omega
      have hkept : (front ++ (insertionSort less (l.take (n + 1)) ++ (l.drop (n + 1) ++ rest))).length = a.data.length := by
        rw [hdata]
        simp only [List.length_append, hsorted, List.length_drop]
        omega
      have hnext := insertItem_eq less (a := { a with
        data := front ++ (insertionSort less (l.take (n + 1)) ++ (l.drop (n + 1) ++ rest)) })
        (congrArg (fun l' => front ++ (_ ++ (l' ++ rest))) hdrop) (by rw [hkept]; exact h.size)
        (by dsimp only; omega) hsmall hoffset
      rw [List.range_succ, List.foldlM_append, ih (by omega)]
      simp only [Option.bind_eq_bind, Option.bind_some, List.foldlM_cons, List.foldlM_nil, hindex]
      rw [hnext, htake, insertionSort_concat]
      rfl
  unfold sortBetween
  rw [hrounds, hround _ le_rfl]
  rcases Nat.eq_zero_or_pos l.length with hzero | hpos
  · rw [List.length_eq_zero_iff.1 hzero]
    rfl
  · rw [Nat.sub_add_cancel hpos, List.take_length, List.drop_length, List.nil_append]

/-- The first round of a sort from in front of the array accesses an element there. -/
lemma sortBetween_of_neg (h : a.Valid) {start stop : ℤ} (hneg : -2147483648 ≤ start ∧ start < 0)
    (hlt : start + 1 < stop) : a.sortBetween less start stop = none := by
  have hrounds : (stop - start - 1).toNat = (stop - start - 2).toNat + 1 := by omega
  have hitem : a.item start = none := by
    have hsmall := h.size.trans_lt h.small
    unfold item
    rw [if_neg]
    unfold asUInt
    omega
  have hmoved : ∀ tmp, a.moveUp (less tmp) start start = none := by
    intro tmp
    unfold moveUp
    rw [if_pos le_rfl, hitem]
    rfl
  have hfirst : a.insertItem less start (start + 1) = none := by
    unfold insertItem
    rw [add_sub_cancel_right]
    cases a.itemPointer (start + 1) with
    | none => rfl
    | some src =>
      cases htmp : a.data[src]? with
      | none => simp only [Option.bind_eq_bind, Option.bind_some, htmp, Option.bind_none]
      | some tmp => simp only [Option.bind_eq_bind, Option.bind_some, htmp, hmoved, Option.bind_none]
  unfold sortBetween
  rw [hrounds, List.range_succ_eq_map, List.foldlM_cons, Nat.cast_zero, add_zero, hfirst]
  rfl

/-- A stretch of the elements, sorted. -/
def sorted (less : α → α → Bool) (l : List α) (startAt count : ℕ) : List α :=
  l.take startAt ++ (insertionSort less ((l.drop startAt).take count) ++ l.drop (startAt + count))

lemma sortBetween_becomes (h : a.Valid) (hoffset : a.numElements * a.elementSize ≤ 2147483648) {startAt count : ℕ}
    (hrange : startAt + count ≤ a.numElements) :
    ∃ a', a.sortBetween less startAt (startAt + count) = some a' ∧ Becomes a (sorted less a.contents startAt count) a' := by
  obtain ⟨spare, hdata, hspare⟩ := h.exists_spare
  have hlength := h.length_contents
  obtain ⟨front, l, back, hcontents, hfront, hl⟩ : ∃ front l back, a.contents = front ++ (l ++ back) ∧
      front.length = startAt ∧ l.length = count := by
    refine ⟨a.contents.take startAt, (a.contents.drop startAt).take count, (a.contents.drop startAt).drop count,
      ?_, ?_, ?_⟩
    · rw [List.take_append_drop, List.take_append_drop]
    · rw [List.length_take]
      omega
    · rw [List.length_take, List.length_drop]
      omega
  have hblock : a.data = front ++ (l ++ (back ++ spare)) := by
    rw [hdata, hcontents]
    simp only [List.append_assoc]
  have hsorted : sorted less a.contents startAt count = front ++ (insertionSort less l ++ back) := by
    unfold sorted
    rw [hcontents, ← hfront, ← hl, List.take_left, List.drop_left, List.take_left, ← List.drop_drop, List.drop_left,
      List.drop_left]
  have hperm : (front ++ (insertionSort less l ++ back)).Perm a.contents := by
    rw [hcontents]
    exact ((insertionSort_perm l).append_right back).append_left front
  have hcells : front ++ (insertionSort less l ++ (back ++ spare)) = (front ++ (insertionSort less l ++ back)) ++ spare := by
    simp only [List.append_assoc]
  have hkept : (front ++ (insertionSort less l ++ (back ++ spare))).length = a.data.length := by
    rw [hcells, hdata, List.length_append, hperm.length_eq, ← List.length_append]
  rw [hsorted, ← hfront, ← hl, sortBetween_eq less h hoffset hblock (by omega)]
  refine ⟨_, rfl, becomes_of_data hcells ?_ ?_ ?_ rfl rfl rfl ?_⟩
  · rw [hperm.length_eq]
    exact hlength.symm
  · dsimp only
    rw [hkept]
    exact h.small
  · dsimp only
    rw [hkept]
    exact h.allowed
  · exact h.held.trans (owned_perm hperm.symm)

end

/-! ### The order of the elements -/

/-- `x` is not behind `y` when the null handles are in front. -/
def NotBehind (lt : α → α → Bool) (handles : Bool) (x y : α) : Prop :=
  handles = true ∧ x = default ∨ ¬(handles = true ∧ y = default) ∧ lt y x = false

/-- The order of elements that are sorted. -/
def InOrder (lt : α → α → Bool) (handles asc : Bool) (x y : α) : Prop :=
  if asc then NotBehind lt handles x y else NotBehind lt handles y x

section

variable {a : ScriptArray α} {lt : α → α → Bool}

/-- With a strict weak order of the elements, what is sorted by `Less` is in order. -/
lemma pairwise_inOrder {asc : Bool} {l l' : List α} (h : StableSort (a.less lt asc) l l')
    (hasymm : ∀ x y, lt x y = true → lt y x = false)
    (htrans : ∀ x y z, lt y x = false → lt z y = false → lt z x = false) :
    l'.Pairwise (InOrder lt a.handles asc) := by
  have hless : ∀ x y, a.less lt true x y = true → NotBehind lt a.handles x y := by
    intro x y hxy
    unfold less at hxy
    unfold NotBehind
    grind
  have hnot : ∀ x y, a.less lt true x y = false → NotBehind lt a.handles y x := by
    intro x y hxy
    unfold less at hxy
    unfold NotBehind
    grind
  have hboth : ∀ x y z, NotBehind lt a.handles x y → NotBehind lt a.handles y z → NotBehind lt a.handles x z := by
    intro x y z hxy hyz
    unfold NotBehind at *
    grind
  cases asc with
  | true => exact h.ordered _ hless hnot hboth
  | false => exact h.ordered _ (fun x y => hless y x) (fun x y => hnot y x) fun x y z h h' => hboth z y x h' h

omit [DecidableEq α] [Inhabited α] in
lemma sorted_of_lt (less : α → α → Bool) (l : List α) (startAt : ℕ) {count : ℕ} (hcount : count < 2) :
    sorted less l startAt count = l := by
  unfold sorted
  rw [insertionSort_of_length_lt (by rw [List.length_take]; omega), ← List.drop_drop, List.take_append_drop,
    List.take_append_drop]

/-! ### Ranges -/

/-- **A range that is not in the array.**  It is refused, unless its end is not an `int`: then nothing is done.  When
not even its start is an `int`, elements in front of the array are accessed as long as its end is in the array. -/
theorem sort_outside (h : a.Valid) (lt : α → α → Bool) (startAt count : UInt32)
    (hcount : 2 ≤ count.toNat) (houtside : a.numElements < startAt.toNat + count.toNat) (asc : Bool) :
    a.sort (.found lt) startAt.toNat count.toNat asc =
      if startAt.toNat < 2147483648 then
        if startAt.toNat < a.numElements ∧ 2147483648 ≤ startAt.toNat + count.toNat then some a
        else some (a.setException .indexOutOfBounds)
      else if startAt.toNat + count.toNat ≤ 4294967296 + a.numElements then none
      else if startAt.toNat + count.toNat < 6442450944 then some (a.setException .indexOutOfBounds)
      else some a := by
  have hsmall := h.size.trans_lt h.small
  have hlarge := count.toNat_lt
  have hlarge' := startAt.toNat_lt
  generalize count.toNat = count at *
  generalize startAt.toNat = startAt at *
  unfold sort
  dsimp only
  rw [if_neg (Nat.not_lt_of_le hcount), asInt_of_lt hsmall]
  by_cases hstart : startAt < 2147483648
  · rw [if_pos hstart, asInt_of_lt hstart]
    by_cases hend : startAt < a.numElements ∧ 2147483648 ≤ startAt + count
    · have hstop : asInt (asUInt (startAt + count)) ≤ startAt := by
        by_cases hwrap : startAt + count < 4294967296
        · rw [← Nat.cast_add, asUInt_of_lt hwrap, asInt_of_le hend.2 hwrap]
          omega
        · rw [← Nat.cast_add, asUInt_of_le (Nat.le_of_not_lt hwrap) (by omega), asInt_of_lt (by omega)]
          omega
      rw [if_pos hend, if_neg (by omega)]
      exact sortBetween_of_le _ (by omega)
    · rw [if_neg hend, if_pos]
      by_cases hfirst : startAt < a.numElements
      · have hlt : startAt + count < 2147483648 := Nat.lt_of_not_le fun hle => hend ⟨hfirst, hle⟩
        rw [← Nat.cast_add, asUInt_of_lt (by omega), asInt_of_lt hlt]
        omega
      · omega
  · rw [if_neg hstart, asInt_of_le (Nat.le_of_not_lt hstart) hlarge']
    by_cases hwrap : startAt + count < 4294967296
    · rw [← Nat.cast_add, asUInt_of_lt hwrap, asInt_of_le (by omega) hwrap, if_neg (by omega), if_pos (by omega)]
      exact sortBetween_of_neg _ h (by omega) (by omega)
    have hsum := asUInt_of_le (Nat.le_of_not_lt hwrap) (show startAt + count < 8589934592 by omega)
    rw [← Nat.cast_add, hsum]
    by_cases hin : startAt + count ≤ 4294967296 + a.numElements
    · rw [asInt_of_lt (by omega), if_neg (by omega), if_pos hin]
      exact sortBetween_of_neg _ h (by omega) (by omega)
    · rw [if_neg hin]
      by_cases hpositive : startAt + count < 6442450944
      · rw [asInt_of_lt (by omega), if_pos (by omega), if_pos hpositive]
      · rw [asInt_of_le (by omega) (by omega), if_neg (by omega), if_neg hpositive]
        exact sortBetween_of_le _ (by omega)

/-- `sortAsc(0, uint(-1))` does nothing. -/
theorem sort_outside_all :
    ScriptArray.sort (.found fun x y : ℕ => decide (x < y)) ⟨4, false, [3, 2, 1], 3, [], []⟩ 0 4294967295 true =
      some ⟨4, false, [3, 2, 1], 3, [], []⟩ :=
  sort_outside (a := ⟨4, false, [3, 2, 1], 3, [], []⟩) ⟨by decide, by decide, by decide, by decide⟩
    (fun x y => decide (x < y)) 0 4294967295 (by decide) (by decide) true

end

end ScriptArray

end ScriptArrays

end NovusHeadless
