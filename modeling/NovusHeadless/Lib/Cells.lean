import NovusHeadless.Lib.Splice

/-!
# Copies between stretches of memory

A memory is a list of cells.  A copy, or a fill, that leaves the memory is `none`.

* `copyCells dst i src j len` — `len` cells from index `j` of one memory to index `i` of another, or of the
  same one;
* `fillCells dst i j x` — `x` in the cells from index `i` up to index `j`;
* `makeRoom`, `closeGap`, `moveOver` — how an array grows in place, shrinks in place, and grows into a memory
  of its own;
* `foldl_set_zipIdx`, `foldl_set_copy` — a store cell by cell is one store, and a copy cell by cell is one copy
  when its two stretches have no cell in common;
* `foldl_swap_reverse` — exchanges of the first cells with the last ones reverse a list.
-/

namespace NovusHeadless.Lib

variable {α : Type*}

def copyCells (dst : List α) (i : ℕ) (src : List α) (j len : ℕ) : Option (List α) :=
  if i + len ≤ dst.length ∧ j + len ≤ src.length then some (splice dst i ((src.drop j).take len)) else none

def fillCells (dst : List α) (i j : ℕ) (x : α) : Option (List α) :=
  if i ≤ j ∧ j ≤ dst.length then some (splice dst i (List.replicate (j - i) x)) else none

lemma splice_middle (front old new rest : List α) (h : old.length = new.length) :
    splice (front ++ (old ++ rest)) front.length new = front ++ (new ++ rest) := by
  have hdrop : (front ++ (old ++ rest)).drop (front.length + new.length) = rest := by
    rw [← List.drop_drop, List.drop_left, ← h, List.drop_left]
  unfold splice
  rw [List.take_left, hdrop, List.append_assoc]

lemma copyCells_middle (front old rest before moved behind : List α) (h : old.length = moved.length) :
    copyCells (front ++ (old ++ rest)) front.length (before ++ (moved ++ behind)) before.length moved.length =
      some (front ++ (moved ++ rest)) := by
  unfold copyCells
  rw [if_pos ⟨by simp only [List.length_append]; omega, by simp only [List.length_append]; omega⟩,
    List.drop_left, List.take_left, splice_middle front old moved rest h]

lemma fillCells_middle (front old rest : List α) (x : α) :
    fillCells (front ++ (old ++ rest)) front.length (front.length + old.length) x =
      some (front ++ (List.replicate old.length x ++ rest)) := by
  unfold fillCells
  rw [if_pos ⟨Nat.le_add_right _ _, by simp only [List.length_append]; omega⟩, Nat.add_sub_cancel_left,
    splice_middle front old _ rest List.length_replicate.symm]

/-- A block that has been filled has nothing in it of what was there before. -/
lemma fillCells_all {cells : List α} {n : ℕ} (hcells : cells.length = n) (x : α) :
    fillCells cells 0 n x = some (List.replicate n x) := by
  have hfill := fillCells_middle [] cells [] x
  rwa [List.nil_append, List.append_nil, List.nil_append, List.append_nil, List.length_nil, Nat.zero_add, hcells]
    at hfill

/-- **Room for `d` cells** is made in front of the back of an array, and filled. -/
lemma makeRoom (front back rest : List α) (x : α) {d : ℕ} (hd : d ≤ rest.length) :
    ∃ l, copyCells (front ++ (back ++ rest)) (front.length + d) (front ++ (back ++ rest)) front.length
        back.length = some l ∧
      fillCells l front.length (front.length + d) x =
        some (front ++ (List.replicate d x ++ (back ++ rest.drop d))) := by
  -- the first `d` cells of the back and the rest, the cells that the back goes to, and what is left
  obtain ⟨kept, old, hsplit, hkept, hold⟩ :
      ∃ kept old, back ++ rest = kept ++ (old ++ rest.drop d) ∧ kept.length = d ∧ old.length = back.length := by
    refine ⟨(back ++ rest).take d, ((back ++ rest).drop d).take back.length, ?_, ?_, ?_⟩
    · have hrest : rest.drop d = ((back ++ rest).drop d).drop back.length := by
        rw [List.drop_drop, Nat.add_comm, ← List.drop_drop, List.drop_left]
      rw [hrest, List.take_append_drop, List.take_append_drop]
    · rw [List.length_take, List.length_append]
      omega
    · rw [List.length_take, List.length_drop, List.length_append]
      omega
  have hcopy := copyCells_middle (front ++ kept) old (rest.drop d) front back rest hold
  rw [List.append_assoc, ← hsplit, List.length_append, hkept] at hcopy
  refine ⟨_, hcopy, ?_⟩
  have hfill := fillCells_middle front kept (back ++ rest.drop d) x
  rwa [hkept, ← List.append_assoc] at hfill

/-- **A gap is closed** in the middle of an array. -/
lemma closeGap (front gap back rest : List α) :
    ∃ rest', copyCells (front ++ (gap ++ (back ++ rest))) front.length (front ++ (gap ++ (back ++ rest)))
        (front.length + gap.length) back.length = some (front ++ (back ++ rest')) ∧
      rest'.length = gap.length + rest.length := by
  obtain ⟨old, rest', hsplit, hold⟩ :
      ∃ old rest', gap ++ (back ++ rest) = old ++ rest' ∧ old.length = back.length := by
    refine ⟨_, _, (List.take_append_drop back.length _).symm, ?_⟩
    rw [List.length_take, List.length_append, List.length_append]
    omega
  have hcopy := copyCells_middle front old rest' (front ++ gap) back rest hold
  rw [← hsplit, List.append_assoc, List.length_append] at hcopy
  refine ⟨rest', hcopy, ?_⟩
  have hlength := congrArg List.length hsplit
  simp only [List.length_append] at hlength
  omega

lemma copyCells_zero {dst src : List α} {i j : ℕ} (hi : i ≤ dst.length) (hj : j ≤ src.length) :
    copyCells dst i src j 0 = some dst := by
  unfold copyCells splice
  rw [if_pos ⟨hi, hj⟩, List.take_zero, List.append_nil, List.length_nil, Nat.add_zero, List.take_append_drop]

/-- **An array is moved** to another memory, with room for `d` cells in front of its back. -/
lemma moveOver (front back rest cells : List α) (x : α) {d : ℕ}
    (hcells : cells.length = front.length + (d + back.length)) :
    ∃ l₁ l₂, copyCells cells 0 (front ++ (back ++ rest)) 0 front.length = some l₁ ∧ l₁.length = cells.length ∧
      copyCells l₁ (front.length + d) (front ++ (back ++ rest)) front.length back.length = some l₂ ∧
      fillCells l₂ front.length (front.length + d) x = some (front ++ (List.replicate d x ++ back)) := by
  obtain ⟨old, room, tail, rfl, hold, hroom, htail⟩ :
      ∃ old room tail, cells = old ++ (room ++ tail) ∧ old.length = front.length ∧ room.length = d ∧
        tail.length = back.length := by
    refine ⟨cells.take front.length, (cells.drop front.length).take d, (cells.drop front.length).drop d, ?_, ?_, ?_, ?_⟩
    · rw [List.take_append_drop, List.take_append_drop]
    · rw [List.length_take]
      omega
    · rw [List.length_take, List.length_drop]
      omega
    · rw [List.length_drop, List.length_drop]
      omega
  have hfirst := copyCells_middle [] old (room ++ tail) [] front (back ++ rest) hold
  rw [List.nil_append, List.nil_append, List.nil_append] at hfirst
  have hsecond := copyCells_middle (front ++ room) tail [] front back rest htail
  rw [List.append_nil, List.append_nil, List.append_assoc, List.append_assoc, List.length_append, hroom] at hsecond
  refine ⟨_, _, hfirst, ?_, hsecond, ?_⟩
  · simp only [List.length_append]
    omega
  · have hfill := fillCells_middle front room back x
    rwa [hroom] at hfill

/-! ### Cell by cell -/

lemma splice_concat (l xs : List α) (x : α) {i : ℕ} (h : i + xs.length < l.length) :
    (splice l i xs).set (i + xs.length) x = splice l i (xs ++ [x]) := by
  have hsplit : l.drop (i + xs.length) = l[i + xs.length] :: l.drop (i + xs.length + 1) :=
    List.drop_eq_getElem_cons h
  have hfront : (l.take i ++ xs).length = i + xs.length := by
    rw [List.length_append, List.length_take]
    omega
  unfold splice
  rw [hsplit, List.set_append_right _ _ hfront.le, hfront, Nat.sub_self, List.set_cons_zero, List.length_append,
    List.length_singleton, ← Nat.add_assoc]
  simp only [List.append_assoc, List.singleton_append]

/-- **Stores cell by cell**. -/
lemma foldl_set_zipIdx (l vs : List α) {i : ℕ} (h : i + vs.length ≤ l.length) :
    vs.zipIdx.foldl (fun l p => l.set (i + p.2) p.1) l = splice l i vs := by
  induction vs using List.reverseRecOn with
  | nil =>
    unfold splice
    rw [List.append_nil, List.length_nil, Nat.add_zero, List.take_append_drop]
    rfl
  | append_singleton vs v ih =>
    rw [List.length_append, List.length_singleton] at h
    rw [List.zipIdx_append, List.foldl_append, ih (by omega)]
    have hset := splice_concat l vs v (i := i) (by omega)
    simpa using hset

/-- One value in all of the first cells. -/
lemma foldl_set_range (l : List α) (x : α) {n : ℕ} (h : n ≤ l.length) :
    (List.range n).foldl (fun l k => l.set k x) l = List.replicate n x ++ l.drop n := by
  have hpairs : (List.replicate n x).zipIdx = (List.range n).map fun k => (x, k) := by
    apply List.ext_getElem
    · simp
    · intro k hk hk'
      simp
  have hstores := foldl_set_zipIdx l (List.replicate n x) (i := 0) (by rwa [List.length_replicate, Nat.zero_add])
  rw [hpairs, List.foldl_map, splice_zero, List.length_replicate] at hstores
  simpa only [Nat.zero_add] using hstores

/-- **Copies cell by cell** are one copy, when no cell is read after it has been written. -/
lemma foldl_set_copy [Inhabited α] (l : List α) {dst src len : ℕ} (hdst : dst + len ≤ l.length)
    (hsrc : src + len ≤ l.length) (hapart : src + len ≤ dst ∨ dst + len ≤ src) :
    (List.range len).foldl (fun l k => l.set (dst + k) (l.getD (src + k) default)) l =
      splice l dst ((l.drop src).take len) := by
  induction len with
  | zero =>
    unfold splice
    rw [List.take_zero, List.append_nil, List.length_nil, Nat.add_zero, List.take_append_drop]
    rfl
  | succ len ih =>
    have hcopied : ((l.drop src).take len).length = len := by
      rw [List.length_take, List.length_drop]
      omega
    have hget : (splice l dst ((l.drop src).take len))[src + len]? = l[src + len]? :=
      getElem?_splice (by omega) (by rw [hcopied]; omega)
    have hread : (splice l dst ((l.drop src).take len)).getD (src + len) default = l[src + len] := by
      rw [List.getD_eq_getElem?_getD, hget, List.getElem?_eq_getElem (by omega), Option.getD_some]
    have htake : (l.drop src).take (len + 1) = (l.drop src).take len ++ [l[src + len]] := by
      rw [List.take_add_one, List.getElem?_drop, List.getElem?_eq_getElem (by omega)]
      rfl
    rw [List.range_succ, List.foldl_append, ih (by omega) (by omega) (by omega), List.foldl_cons, List.foldl_nil,
      hread, htake]
    have hlt : dst + ((l.drop src).take len).length < l.length := by
      rw [hcopied]
      omega
    have hset := splice_concat l _ l[src + len] hlt
    rwa [hcopied] at hset

/-- The list with two of its cells exchanged. -/
def swapped [Inhabited α] (l : List α) (i j : ℕ) : List α := (l.set i (l.getD j default)).set j (l.getD i default)

lemma swapped_middle [Inhabited α] (front between back : List α) (x y : α) :
    swapped (front ++ x :: (between ++ y :: back)) front.length (front.length + 1 + between.length) =
      front ++ y :: (between ++ x :: back) := by
  have hx : (front ++ x :: (between ++ y :: back)).getD front.length default = x := by simp
  have hy : (front ++ x :: (between ++ y :: back)).getD (front.length + 1 + between.length) default = y := by
    have hassoc : front ++ x :: (between ++ y :: back) = (front ++ x :: between) ++ y :: back := by simp
    have hlength : front.length + 1 + between.length = (front ++ x :: between).length := by
      simp only [List.length_append, List.length_cons]
      omega
    rw [hassoc, hlength]
    simp
  have hset : (front ++ x :: (between ++ y :: back)).set front.length y = (front ++ y :: between) ++ y :: back := by
    simp
  have hlength : front.length + 1 + between.length = (front ++ y :: between).length := by
    simp only [List.length_append, List.length_cons]
    omega
  unfold swapped
  rw [hx, hy, hset, hlength, List.set_append_right _ _ le_rfl, Nat.sub_self, List.set_cons_zero]
  simp only [List.append_assoc, List.cons_append]

/-- Exchanges from the ends reverse what lies between them. -/
lemma foldl_swap [Inhabited α] (front l back : List α) :
    (List.range (l.length / 2)).foldl
        (fun c i => swapped c (front.length + i) (front.length + (l.length - i - 1))) (front ++ (l ++ back)) =
      front ++ (l.reverse ++ back) := by
  induction hn : l.length using Nat.strong_induction_on generalizing front l back with
  | _ n ih =>
    rcases l with _ | ⟨x, l⟩
    · subst hn
      simp
    rcases List.eq_nil_or_concat' l with rfl | ⟨l, y, rfl⟩
    · subst hn
      simp
    -- the first and the last cell are exchanged, and the rest is what lies between them
    have hlen : n = l.length + 2 := by
      rw [← hn]
      simp only [List.length_cons, List.length_append, List.length_nil]
    subst hlen
    have hhalf : (l.length + 2) / 2 = l.length / 2 + 1 := by omega
    have hfirst := swapped_middle front l back x y
    have hrest := ih l.length (by omega) (front ++ [y]) l (x :: back) rfl
    rw [List.length_append, List.length_singleton] at hrest
    have hindices : ∀ i ∈ List.range (l.length / 2), ∀ c : List α,
        swapped c (front.length + (i + 1)) (front.length + (l.length + 2 - (i + 1) - 1)) =
          swapped c (front.length + 1 + i) (front.length + 1 + (l.length - i - 1)) := by
      intro i hi c
      have := List.mem_range.1 hi
      congr 1 <;> omega
    rw [hhalf, List.range_succ_eq_map, List.foldl_cons, List.foldl_map]
    have hstart : swapped (front ++ (x :: (l ++ [y]) ++ back)) (front.length + 0)
        (front.length + (l.length + 2 - 0 - 1)) = (front ++ [y]) ++ (l ++ x :: back) := by
      have hj : front.length + (l.length + 2 - 0 - 1) = front.length + 1 + l.length := by omega
      rw [hj, Nat.add_zero]
      simpa using hfirst
    rw [hstart]
    refine (List.foldl_ext _ _ _ fun c i hi => hindices i hi c).trans ?_
    rw [hrest]
    simp

/-- **Reversal by exchanges.** -/
lemma foldl_swap_reverse [Inhabited α] (l : List α) :
    (List.range (l.length / 2)).foldl (fun c i => swapped c i (l.length - i - 1)) l = l.reverse := by
  have h := foldl_swap [] l []
  simpa using h

end NovusHeadless.Lib
