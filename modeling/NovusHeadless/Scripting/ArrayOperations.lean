import NovusHeadless.Lib.Loop
import NovusHeadless.Scripting.ScriptArray

/-!
# The elements of an array, its block and its references

* `Valid` — the elements lie in the block, and an array of handles holds one reference for each of them that
  is not null;
* `resizeBy_grow`, `resizeBy_shrink` — what `Resize(delta, at)` does to the elements;
* `exists_store`, `exists_setValues`, `exists_copies` — what becomes of elements that are replaced, one or many.
-/

namespace NovusHeadless

open Lib

namespace ScriptArrays

lemma asUInt_of_lt {n : ℕ} (h : n < 4294967296) : asUInt n = n := by
  unfold asUInt
  rw [Int.emod_eq_of_lt (Int.natCast_nonneg n) (by omega)]
  exact Int.toNat_natCast n

lemma asUInt_of_le {n : ℕ} (h : 4294967296 ≤ n) (hn : n < 8589934592) : asUInt n = n - 4294967296 := by
  unfold asUInt
  omega

lemma asInt_of_lt {n : ℕ} (h : n < 2147483648) : asInt n = n := by
  unfold asInt
  exact Int.bmod_eq_of_le (by omega) (by omega)

lemma asInt_of_le {n : ℕ} (h : 2147483648 ≤ n) (hn : n < 4294967296) : asInt n = n - 4294967296 := by
  have hmod : (n : ℤ) % ((4294967296 : ℕ) : ℤ) = n := Int.emod_eq_of_lt (Int.natCast_nonneg n) (by omega)
  unfold asInt
  rw [Int.bmod_def, hmod, if_neg (by omega)]
  rfl

variable {α : Type}

lemma ScriptArray.contents_of_data {a : ScriptArray α} {l spare : List α} (hdata : a.data = l ++ spare)
    (hsize : a.numElements = l.length) : a.contents = l := by
  unfold contents
  rw [hdata, hsize, List.take_left]

/-- `GetArrayItemPointer` finds the cells whose offsets are an `int`. -/
lemma ScriptArray.itemPointer_eq {a : ScriptArray α} {n : ℕ} (hn : n < a.data.length)
    (hoffset : n * a.elementSize < 2147483648) : a.itemPointer n = some n := by
  have hcast : ((n : ℤ) * (a.elementSize : ℤ)) < 2147483648 := by exact_mod_cast hoffset
  unfold itemPointer
  rw [if_pos ⟨by omega, by omega, hcast⟩, Int.toNat_natCast]

lemma offset_lt {n size elementSize : ℕ} (hn : n < size) (hoffset : size * elementSize ≤ 2147483648) :
    n * elementSize < 2147483648 := by
  rcases Nat.eq_zero_or_pos elementSize with hzero | hpos
  · rw [hzero, Nat.mul_zero]
    omega
  · have hle : (n + 1) * elementSize ≤ size * elementSize := Nat.mul_le_mul_right _ hn
    rw [Nat.add_mul, Nat.one_mul] at hle
    omega

variable [DecidableEq α] [Inhabited α]

/-- The references that an array with these elements holds. -/
def owned (handles : Bool) (l : List α) : List α := if handles then l.filter (· ≠ default) else []

section

variable {handles : Bool}

lemma owned_append (l l' : List α) : owned handles (l ++ l') = owned handles l ++ owned handles l' := by
  unfold owned
  split
  · exact List.filter_append _ _
  · rfl

lemma owned_replicate (n : ℕ) : owned handles (List.replicate n (default : α)) = [] := by
  unfold owned
  split
  · rw [List.filter_eq_nil_iff]
    intro x hx
    rw [List.eq_of_mem_replicate hx]
    simp
  · rfl

lemma owned_singleton (x : α) : owned true [x] = if x = default then [] else [x] := by
  unfold owned
  by_cases hx : x = default
  · simp [hx]
  · simp [hx]

lemma release_one {x : α} {references rest : List α} (h : references.Perm (owned true [x] ++ rest)) :
    ∃ references', release references x = some references' ∧ references'.Perm rest := by
  rw [owned_singleton] at h
  unfold release
  by_cases hx : x = default
  · rw [if_pos hx, List.nil_append] at h
    rw [if_pos hx]
    exact ⟨references, rfl, h⟩
  · rw [if_neg hx, List.singleton_append] at h
    have hmem : x ∈ references := h.mem_iff.2 List.mem_cons_self
    have herase := h.erase x
    rw [List.erase_cons_head] at herase
    rw [if_neg hx, if_pos (List.contains_iff_mem.2 hmem)]
    exact ⟨_, rfl, herase⟩

lemma release_all {l references rest : List α} (h : references.Perm (owned true l ++ rest)) :
    ∃ references', l.foldlM release references = some references' ∧ references'.Perm rest := by
  induction l generalizing references with
  | nil => exact ⟨references, rfl, h⟩
  | cons x l ih =>
    have hcons : owned true (x :: l) = owned true [x] ++ owned true l := owned_append [x] l
    rw [hcons, List.append_assoc] at h
    obtain ⟨references', hrelease, hrest⟩ := release_one h
    rw [List.foldlM_cons, hrelease]
    exact ih hrest

end

namespace ScriptArray

/-- The elements lie in the block, the block is one that `CheckMaxSize` lets pass, and the references are those of
the elements. -/
structure Valid (a : ScriptArray α) : Prop where
  size : a.numElements ≤ a.data.length
  small : a.data.length < 2147483648
  allowed : a.data.length ≤ maxSize a.elementSize
  held : a.references.Perm (owned a.handles a.contents)

/-- Whatever has happened to the elements, the array is one that can be used. -/
structure Safe (a a' : ScriptArray α) : Prop where
  valid : a'.Valid
  elementSize : a'.elementSize = a.elementSize
  handles : a'.handles = a.handles
  exceptions : a.exceptions <+: a'.exceptions

/-- The elements have been replaced, and nothing else has happened. -/
structure Becomes (a : ScriptArray α) (l : List α) (a' : ScriptArray α) : Prop extends Safe a a' where
  noException : a'.exceptions = a.exceptions
  contents_eq : a'.contents = l

section

variable {a a' a'' : ScriptArray α} {l l' : List α}

protected lemma Safe.refl (h : a.Valid) : Safe a a := ⟨h, rfl, rfl, List.prefix_rfl⟩

protected lemma Safe.trans (h : Safe a a') (h' : Safe a' a'') : Safe a a'' :=
  ⟨h'.valid, h'.elementSize.trans h.elementSize, h'.handles.trans h.handles, h.exceptions.trans h'.exceptions⟩

protected lemma Becomes.trans (h : Becomes a l a') (h' : Becomes a' l' a'') : Becomes a l' a'' :=
  ⟨h.toSafe.trans h'.toSafe, h'.noException.trans h.noException, h'.contents_eq⟩

lemma Valid.length_contents (h : a.Valid) : a.contents.length = a.numElements := by
  unfold contents
  rw [List.length_take]
  exact Nat.min_eq_left h.size

lemma Valid.exists_spare (h : a.Valid) :
    ∃ spare, a.data = a.contents ++ spare ∧ a.numElements + spare.length = a.data.length := by
  refine ⟨a.data.drop a.numElements, (List.take_append_drop _ _).symm, ?_⟩
  rw [List.length_drop]
  exact Nat.add_sub_cancel' h.size

lemma setException_safe (h : a.Valid) (e : ArrayException) : Safe a (a.setException e) :=
  ⟨⟨h.size, h.small, h.allowed, h.held⟩, rfl, rfl, List.prefix_append _ _⟩

lemma becomes_of_data {spare : List α} (hdata : a'.data = l ++ spare) (hsize : a'.numElements = l.length)
    (hsmall : a'.data.length < 2147483648) (hallowed : a'.data.length ≤ maxSize a.elementSize)
    (helementSize : a'.elementSize = a.elementSize) (hhandles : a'.handles = a.handles)
    (hexceptions : a'.exceptions = a.exceptions) (hheld : a'.references.Perm (owned a.handles l)) :
    Becomes a l a' := by
  have hcontents := contents_of_data hdata hsize
  refine ⟨⟨⟨?_, hsmall, helementSize ▸ hallowed, ?_⟩, helementSize, hhandles, ?_⟩, hexceptions, hcontents⟩
  · rw [hdata, hsize, List.length_append]
    exact Nat.le_add_right _ _
  · rwa [hhandles, hcontents]
  · rw [hexceptions]

end

section

variable {a : ScriptArray α}

/-- `Destruct` releases the references of the elements in a gap, and keeps the others. -/
lemma exists_destruct (h : a.Valid) {front gap back : List α} (hcontents : a.contents = front ++ (gap ++ back)) :
    ∃ references, a.destruct front.length (front.length + gap.length) =
        some { a with references := references } ∧
      references.Perm (owned a.handles (front ++ back)) := by
  obtain ⟨spare, hdata, hspare⟩ := h.exists_spare
  have hlength := h.length_contents
  rw [hcontents] at hdata hlength
  have hheld := h.held
  rw [hcontents, owned_append, owned_append] at hheld
  have hsame : (⟨a.elementSize, a.handles, a.data, a.numElements, a.references, a.exceptions⟩ : ScriptArray α) = a := rfl
  unfold destruct
  by_cases hgap : a.handles = true ∧ front.length < front.length + gap.length
  · have hstop : front.length + gap.length ≤ a.data.length := by
      rw [hdata]
      simp only [List.length_append]
      omega
    have hstretch : (a.data.drop front.length).take (front.length + gap.length - front.length) = gap := by
      rw [hdata, List.append_assoc, List.drop_left, Nat.add_sub_cancel_left, List.append_assoc, List.take_left]
    rw [hgap.1] at hheld ⊢
    have hothers : a.references.Perm (owned true gap ++ owned true (front ++ back)) := by
      refine List.perm_iff_count.2 fun x => ?_
      have := hheld.count_eq x
      simp only [owned_append, List.count_append] at this ⊢
      omega
    obtain ⟨references, hrelease, hperm⟩ := release_all hothers
    rw [if_pos ⟨rfl, hgap.2⟩, if_pos hstop, hstretch, hrelease]
    exact ⟨references, rfl, hperm⟩
  · refine ⟨a.references, ?_, ?_⟩
    · rw [if_neg hgap]
    · rw [owned_append]
      -- there is nothing in the gap, or there are no references
      have hnothing : owned a.handles gap = [] := by
        rw [not_and_or] at hgap
        rcases hgap with hprimitive | hempty
        · exact if_neg hprimitive
        · have hnil : gap = [] := List.length_eq_zero_iff.1 (by omega)
          rw [hnil]
          exact owned_replicate 0
      rwa [hnothing, List.nil_append] at hheld

/-- There is room for this number of elements, or there is a block with room for them. -/
def CanHold (m : Allocator α) (a : ScriptArray α) (size : ℕ) : Prop :=
  size ≤ a.data.length ∨ size ≤ maxSize a.elementSize ∧ (m.alloc size).isSome

instance decidableCanHold (m : Allocator α) (a : ScriptArray α) (size : ℕ) : Decidable (a.CanHold m size) :=
  inferInstanceAs (Decidable (size ≤ a.data.length ∨ size ≤ maxSize a.elementSize ∧ (m.alloc size).isSome))

/-- The number is below `2^31`, or too large for `CheckMaxSize`: which it then is, unless the elements are bytes. -/
def Checked (a : ScriptArray α) (size : ℕ) : Prop := size < 2147483648 ∨ maxSize a.elementSize < size

omit [DecidableEq α] [Inhabited α] in
instance decidableChecked (a : ScriptArray α) (size : ℕ) : Decidable (a.Checked size) :=
  inferInstanceAs (Decidable (size < 2147483648 ∨ maxSize a.elementSize < size))

/-- What `Resize(delta, at)` does when it adds elements. -/
lemma resizeBy_grow (m : Allocator α) (h : a.Valid) {d : ℕ} (hd : 0 < d) (pos : ℕ)
    (hchecked : a.Checked (a.numElements + d)) (hwrap : a.numElements + d < 4294967296) :
    (¬a.CanHold m (a.numElements + d) ∧ ∃ e, a.resizeBy m d pos = some (a.setException e)) ∨
      a.CanHold m (a.numElements + d) ∧ ∃ a', a.resizeBy m d pos = some a' ∧
        Becomes a (a.contents.take (min pos a.numElements) ++
          (List.replicate d default ++ a.contents.drop (min pos a.numElements))) a' := by
  have hsize : asUInt (a.numElements + d) = a.numElements + d := by
    rw [← Nat.cast_add]
    exact asUInt_of_lt hwrap
  by_cases hlarge : maxSize a.elementSize < a.numElements + d
  · have := h.allowed
    refine Or.inl ⟨fun hhold => ?_, .tooLarge, ?_⟩
    · rcases hhold with hhold | ⟨hhold, -⟩ <;> omega
    · unfold resizeBy
      rw [hsize, if_pos ⟨by omega, hlarge⟩]
  have hsmall := hchecked.resolve_right hlarge
  have hclamp : a.clamp d pos = ((d : ℤ), min pos a.numElements) := by
    unfold clamp
    rw [if_neg (by omega), if_pos (by omega), Nat.min_def]
    simp only [Prod.mk.injEq, true_and]
    split <;> split <;> omega
  have hpos : min pos a.numElements ≤ a.numElements := Nat.min_le_right _ _
  generalize min pos a.numElements = at' at *
  have hbehind : asUInt (at' + d) = at' + d := by
    rw [← Nat.cast_add]
    exact asUInt_of_lt (by omega)
  obtain ⟨spare, hdata, hspare⟩ := h.exists_spare
  have hlength := h.length_contents
  have hsplit := List.take_append_drop at' a.contents
  generalize hfront : a.contents.take at' = front at *
  generalize hback : a.contents.drop at' = back at *
  have hfrontlen : front.length = at' := by
    rw [← hfront, List.length_take]
    omega
  have hbacklen : back.length = a.numElements - at' := by
    rw [← hback, List.length_drop, hlength]
  rw [← hsplit, List.append_assoc] at hdata
  have hheld : a.references.Perm (owned a.handles (front ++ (List.replicate d default ++ back))) := by
    rw [owned_append, owned_append, owned_replicate, List.nil_append, ← owned_append, hsplit]
    exact h.held
  have hnewlength : (front ++ (List.replicate d default ++ back)).length = a.numElements + d := by
    simp only [List.length_append, List.length_replicate]
    omega
  unfold resizeBy
  rw [hsize, if_neg (by omega), hclamp]
  simp only [hsize]
  rw [if_neg (by omega)]
  by_cases hroom : a.data.length < a.numElements + d
  · rw [if_pos hroom]
    unfold moveToNew
    simp only [hsize, hbehind]
    cases halloc : m.alloc (a.numElements + d) with
    | none =>
      refine Or.inl ⟨fun hhold => ?_, .outOfMemory, rfl⟩
      rcases hhold with hhold | ⟨-, hhold⟩
      · omega
      · rw [halloc] at hhold
        cases hhold
    | some cells =>
      have hcells : cells.length = front.length + (d + back.length) := by
        rw [m.length_alloc halloc]
        omega
      obtain ⟨l₁, l₂, hfirst, hl₁, hsecond, hfill⟩ := moveOver front back spare cells default hcells
      rw [hfrontlen, hbacklen, ← hdata] at hsecond
      rw [hfrontlen, ← hdata] at hfirst
      rw [hfrontlen] at hfill
      have hboth : (if at' < a.numElements then copyCells l₁ (at' + d) a.data at' (a.numElements - at') else some l₁) =
          some l₂ := by
        split
        · exact hsecond
        · have hzero : a.numElements - at' = 0 := by omega
          rw [hzero, copyCells_zero (by rw [hl₁, hcells]; omega) (by omega)] at hsecond
          exact hsecond
      refine Or.inr ⟨Or.inr ⟨Nat.le_of_not_lt hlarge, by rw [halloc]; rfl⟩,
        { a with data := front ++ (List.replicate d default ++ back), numElements := a.numElements + d }, ?_, ?_⟩
      · simp only [hfirst, hboth, hfill, Option.bind_eq_bind, Option.bind_some]
      · refine becomes_of_data (List.append_nil _).symm hnewlength.symm ?_ ?_ rfl rfl rfl hheld
        · rw [hnewlength]
          exact hsmall
        · rw [hnewlength]
          omega
  · rw [if_neg hroom, if_neg (by omega)]
    obtain ⟨l, hcopy, hfill⟩ := makeRoom front back spare default (d := d) (by omega)
    rw [hfrontlen, hbacklen, ← hdata] at hcopy
    rw [hfrontlen] at hfill
    have hmoved : asUInt (a.numElements - at') = a.numElements - at' := by
      rw [← Nat.cast_sub hpos]
      exact asUInt_of_lt (by omega)
    refine Or.inr ⟨Or.inl (Nat.le_of_not_lt hroom), { a with
      data := front ++ (List.replicate d default ++ (back ++ spare.drop d))
      numElements := a.numElements + d }, ?_, ?_⟩
    · simp only [hbehind, hmoved, hcopy, hfill, Option.bind_eq_bind, Option.bind_some]
    · have hassoc : front ++ (List.replicate d default ++ (back ++ spare.drop d)) =
          (front ++ (List.replicate d default ++ back)) ++ spare.drop d := by
        simp only [List.append_assoc]
      have hkept : (front ++ (List.replicate d default ++ (back ++ spare.drop d))).length = a.data.length := by
        rw [hassoc, List.length_append, hnewlength, List.length_drop]
        omega
      refine becomes_of_data hassoc hnewlength.symm ?_ ?_ rfl rfl rfl hheld
      · rw [hkept]
        exact h.small
      · rw [hkept]
        exact h.allowed

/-- What `Resize(delta, at)` does when it takes elements away. -/
lemma resizeBy_shrink (m : Allocator α) (h : a.Valid) {k : ℕ} (hk : 0 < k) (hle : k ≤ a.numElements) (pos : ℕ) :
    ∃ a', a.resizeBy m (-k) pos = some a' ∧
      Becomes a (a.contents.take (min pos (a.numElements - k)) ++
        a.contents.drop (min pos (a.numElements - k) + k)) a' := by
  have hsmall : a.numElements < 2147483648 := h.size.trans_lt h.small
  have hsize : asUInt (a.numElements + -k) = a.numElements - k := by
    rw [← sub_eq_add_neg, ← Nat.cast_sub hle]
    exact asUInt_of_lt (by omega)
  have hclamp : a.clamp (-k) pos = (-(k : ℤ), min pos (a.numElements - k)) := by
    unfold clamp
    rw [if_pos (by omega), asInt_of_lt hsmall, if_neg (by omega)]
    simp only [hsize, Prod.mk.injEq, true_and]
    split <;> omega
  have hpos : min pos (a.numElements - k) + k ≤ a.numElements := by omega
  generalize min pos (a.numElements - k) = at' at *
  have hbehind : asUInt (at' - -(k : ℤ)) = at' + k := by
    rw [sub_neg_eq_add, ← Nat.cast_add]
    exact asUInt_of_lt (by omega)
  have hmoved : asUInt (a.numElements - (at' - -(k : ℤ))) = a.numElements - (at' + k) := by
    rw [sub_neg_eq_add, ← Nat.cast_add, ← Nat.cast_sub hpos]
    exact asUInt_of_lt (by omega)
  obtain ⟨spare, hdata, hspare⟩ := h.exists_spare
  have hlength := h.length_contents
  obtain ⟨front, gap, back, hcontents, hfront, hgap⟩ :
      ∃ front gap back, a.contents = front ++ (gap ++ back) ∧ front.length = at' ∧ gap.length = k := by
    refine ⟨a.contents.take at', (a.contents.drop at').take k, (a.contents.drop at').drop k, ?_, ?_, ?_⟩
    · rw [List.take_append_drop, List.take_append_drop]
    · rw [List.length_take]
      omega
    · rw [List.length_take, List.length_drop]
      omega
  have hbacklen : back.length = a.numElements - (at' + k) := by
    have := congrArg List.length hcontents
    simp only [List.length_append] at this
    omega
  obtain ⟨references, hdestruct, hheld⟩ := exists_destruct h hcontents
  obtain ⟨spare', hcopy, hspare'⟩ := closeGap front gap back spare
  have hblock : front ++ (gap ++ (back ++ spare)) = a.data := by
    rw [hdata, hcontents, List.append_assoc, List.append_assoc]
  rw [hblock, hfront, hgap, hbacklen] at hcopy
  rw [hfront, hgap] at hdestruct
  have hkept : a.contents.take at' ++ a.contents.drop (at' + k) = front ++ back := by
    rw [hcontents, ← hfront, List.take_left, ← hgap, ← List.drop_drop, List.drop_left, List.drop_left]
  have hkeptlen : (front ++ back).length = a.numElements - k := by
    rw [List.length_append]
    omega
  refine ⟨{ a with
    data := front ++ (back ++ spare')
    numElements := a.numElements - k
    references := references }, ?_, ?_⟩
  · unfold resizeBy
    rw [if_neg (by omega), hclamp]
    simp only [hsize]
    rw [if_neg (by omega), if_neg (by omega), if_pos (by omega), hbehind, hdestruct]
    simp only [hmoved, hcopy, Option.bind_eq_bind, Option.bind_some]
  · rw [hkept]
    have hlen : (front ++ (back ++ spare')).length = a.data.length := by
      rw [← hblock]
      simp only [List.length_append]
      omega
    refine becomes_of_data (List.append_assoc front back spare').symm hkeptlen.symm ?_ ?_ rfl rfl rfl hheld
    · rw [hlen]
      exact h.small
    · rw [hlen]
      exact h.allowed

lemma exists_store (h : a.Valid) {index : ℕ} (hindex : index < a.numElements) (value : α) :
    ∃ a', a.store index value = some a' ∧ Becomes a (a.contents.set index value) a' := by
  obtain ⟨spare, hdata, hspare⟩ := h.exists_spare
  have hlength := h.length_contents
  obtain ⟨front, old, back, hcontents, hfront⟩ :
      ∃ front old back, a.contents = front ++ old :: back ∧ front.length = index := by
    have hlt : index < a.contents.length := by omega
    refine ⟨a.contents.take index, a.contents[index], a.contents.drop (index + 1), ?_, ?_⟩
    · rw [← List.drop_eq_getElem_cons hlt, List.take_append_drop]
    · rw [List.length_take]
      omega
  have hold : a.data[index]? = some old := by
    rw [hdata, hcontents, ← hfront]
    simp
  have hset : a.contents.set index value = front ++ value :: back := by
    rw [hcontents, ← hfront]
    simp
  have hsetdata : a.data.set index value = (front ++ value :: back) ++ spare := by
    rw [hdata, List.set_append_left index value (by omega), hset]
  have hkeptlen : (front ++ value :: back).length = a.numElements := by
    have := congrArg List.length hcontents
    simp only [List.length_append, List.length_cons] at this ⊢
    omega
  have hlen : (a.data.set index value).length = a.data.length := List.length_set
  have hheld := h.held
  rw [hset]
  unfold store
  rw [hold]
  simp only [Option.bind_eq_bind, Option.bind_some]
  by_cases hhandles : a.handles = true
  · rw [if_pos hhandles]
    rw [hhandles] at hheld
    -- the reference to the old value is held, and the new one has been added
    have hboth : (addRef a.references value).Perm (owned true [old] ++ owned true (front ++ value :: back)) := by
      have hvalue : (addRef a.references value).Perm (owned true [value] ++ a.references) := by
        unfold addRef
        rw [owned_singleton]
        split <;> exact List.Perm.refl _
      have hnew : front ++ value :: back = front ++ ([value] ++ back) := rfl
      have hprevious : a.contents = front ++ ([old] ++ back) := hcontents
      refine List.perm_iff_count.2 fun x => ?_
      have h₁ := hvalue.count_eq x
      have h₂ := hheld.count_eq x
      rw [hprevious] at h₂
      rw [hnew]
      simp only [owned_append, List.count_append] at h₁ h₂ ⊢
      omega
    obtain ⟨references, hrelease, hperm⟩ := release_one hboth
    rw [hrelease]
    refine ⟨_, rfl, becomes_of_data hsetdata hkeptlen.symm ?_ ?_ rfl rfl rfl ?_⟩
    · exact hlen ▸ h.small
    · exact hlen ▸ h.allowed
    · rw [hhandles]
      exact hperm
  · rw [if_neg hhandles]
    refine ⟨_, rfl, becomes_of_data hsetdata hkeptlen.symm ?_ ?_ rfl rfl rfl ?_⟩
    · exact hlen ▸ h.small
    · exact hlen ▸ h.allowed
    · unfold owned at hheld ⊢
      rw [if_neg hhandles] at hheld ⊢
      exact hheld

end

/-! ### Elements that are stored one after the other -/

section

variable {a a' a'' : ScriptArray α} {l : List α}

lemma Becomes.numElements_eq (h : Becomes a l a') : a'.numElements = l.length := by
  rw [← h.valid.length_contents, h.contents_eq]

lemma Safe.raised {e : ArrayException} (h : Safe (a.setException e) a') : a'.exceptions ≠ a.exceptions := by
  intro heq
  have hprefix : a.exceptions ++ [e] <+: a'.exceptions := h.exceptions
  have := hprefix.length_le
  rw [heq, List.length_append, List.length_singleton] at this
  omega

lemma exists_setValue (h : a.Valid) (index : ℕ) (value : α) :
    ∃ a', a.setValue index value = some a' ∧ Safe a a' ∧ a'.numElements = a.numElements ∧
      (index < a.numElements → Becomes a (a.contents.set index value) a') ∧
      (a.numElements ≤ index → a'.exceptions ≠ a.exceptions) := by
  unfold setValue
  by_cases hindex : a.numElements ≤ index
  · have hsafe := setException_safe h .indexOutOfBounds
    refine ⟨_, if_pos hindex, hsafe, rfl, fun hlt => absurd hindex (Nat.not_le_of_lt hlt), fun _ => ?_⟩
    exact (Safe.refl hsafe.valid).raised
  · have hlt := Nat.lt_of_not_le hindex
    obtain ⟨a', hstore, hbecomes⟩ := exists_store h hlt value
    refine ⟨a', (if_neg hindex).trans hstore, hbecomes.toSafe, ?_, fun _ => hbecomes, fun hle => absurd hle hindex⟩
    rw [hbecomes.numElements_eq, List.length_set, h.length_contents]

lemma exists_setFrom (h : a.Valid) {n : ℕ} (hn : n < a.numElements) (index : ℕ) :
    ∃ a', a.setFrom index n = some a' ∧ Safe a a' ∧ a'.numElements = a.numElements ∧
      (index < a.numElements → Becomes a (a.contents.set index (a.contents.getD n default)) a') := by
  have hvalue : a.data[n]? = some (a.contents.getD n default) := by
    have hlt : n < a.contents.length := by rw [h.length_contents]; exact hn
    have hget : a.contents[n]? = a.data[n]? := by
      unfold contents
      rw [List.getElem?_take, if_pos hn]
    rw [← hget, List.getD_eq_getElem?_getD, List.getElem?_eq_getElem hlt, Option.getD_some]
  obtain ⟨a', hset, hsafe, hsize, hbecomes, -⟩ := exists_setValue h index (a.contents.getD n default)
  unfold setFrom
  rw [if_neg (Nat.not_le_of_lt hn), hvalue]
  exact ⟨a', hset, hsafe, hsize, hbecomes⟩

/-- Elements have been replaced, none has been added or taken away, and nothing else has happened. -/
def Rewritten (a a' : ScriptArray α) : Prop := Becomes a a'.contents a' ∧ a'.numElements = a.numElements

lemma Rewritten.next (h : Rewritten a a') (h' : Becomes a' l a'') (hsize : a''.numElements = a'.numElements) :
    Rewritten a a'' := by
  refine ⟨?_, hsize.trans h.2⟩
  rw [h'.contents_eq]
  exact h.1.trans h'

/-- Values that are stored one after the other, all of them at elements. -/
lemma exists_setValues (h : a.Valid) {i : ℕ} {vs : List α} (hfits : i + vs.length ≤ a.numElements) :
    ∃ a', vs.zipIdx.foldlM (fun a p => a.setValue (asUInt (i + p.2)) p.1) a = some a' ∧
      Becomes a (splice a.contents i vs) a' := by
  have hlength := h.length_contents
  have hround : ∀ s : ScriptArray α, ∀ p ∈ vs.zipIdx, Rewritten a s →
      ∃ s', s.setValue (asUInt (i + p.2)) p.1 = some s' ∧ Rewritten a s' ∧ s'.contents = s.contents.set (i + p.2) p.1 := by
    intro s p hp hs
    have hlt : p.2 < vs.length := by
      obtain ⟨-, hlt, -⟩ := List.mem_zipIdx hp
      omega
    have hsmall := h.size.trans_lt h.small
    have hindex : asUInt (i + p.2) = i + p.2 := by
      rw [← Nat.cast_add]
      exact asUInt_of_lt (by omega)
    obtain ⟨s', hset, -, hsize, hbecomes, -⟩ := exists_setValue hs.1.valid (i + p.2) p.1
    have hbecomes := hbecomes (by rw [hs.2]; omega)
    exact ⟨s', by rw [hindex]; exact hset, hs.next hbecomes hsize, hbecomes.contents_eq⟩
  have hstart : Rewritten a a := ⟨⟨Safe.refl h, rfl, rfl⟩, rfl⟩
  obtain ⟨a', hfold, ⟨hbecomes, -⟩, hcontents⟩ :=
    exists_foldlM (v := contents) (g := fun l (p : α × ℕ) => l.set (i + p.2) p.1) hround hstart
  rw [foldl_set_zipIdx _ _ (by omega)] at hcontents
  rw [hcontents] at hbecomes
  exact ⟨a', hfold, hbecomes⟩

/-- Values that are stored wherever it may be. -/
lemma exists_setValues_safe (h : a.Valid) (f : ℕ → ℕ) (vs : List α) :
    ∃ a', vs.zipIdx.foldlM (fun a p => a.setValue (f p.2) p.1) a = some a' ∧ Safe a a' := by
  refine exists_foldlM_inv (fun s p _ hs => ?_) (Safe.refl h)
  obtain ⟨s', hset, hsafe, -⟩ := exists_setValue (Safe.valid hs) (f p.2) p.1
  exact ⟨s', hset, Safe.trans hs hsafe⟩

lemma exists_fill (h : a.Valid) (value : α) :
    ∃ a', (List.range a.numElements).foldlM (fun a (n : ℕ) => a.setValue n value) a = some a' ∧
      Becomes a (List.replicate a.numElements value) a' := by
  have hlength := h.length_contents
  have hround : ∀ s : ScriptArray α, ∀ k ∈ List.range a.numElements, Rewritten a s →
      ∃ s', s.setValue k value = some s' ∧ Rewritten a s' ∧ s'.contents = s.contents.set k value := by
    intro s k hk hs
    obtain ⟨s', hset, -, hsize, hbecomes, -⟩ := exists_setValue hs.1.valid k value
    have hbecomes := hbecomes (by rw [hs.2]; exact List.mem_range.1 hk)
    exact ⟨s', hset, hs.next hbecomes hsize, hbecomes.contents_eq⟩
  have hstart : Rewritten a a := ⟨⟨Safe.refl h, rfl, rfl⟩, rfl⟩
  obtain ⟨a', hfold, ⟨hbecomes, -⟩, hcontents⟩ :=
    exists_foldlM (v := contents) (g := fun l (k : ℕ) => l.set k value) hround hstart
  rw [foldl_set_range _ _ hlength.ge, List.drop_eq_nil_of_le hlength.le, List.append_nil] at hcontents
  rw [hcontents] at hbecomes
  exact ⟨a', hfold, hbecomes⟩

/-- Elements that are copied to other places of the array, apart from those that they come from. -/
lemma exists_copies (h : a.Valid) (dst src len : ℕ) (hdst : dst + len ≤ a.numElements)
    (hsrc : src + len ≤ a.numElements) (hapart : src + len ≤ dst ∨ dst + len ≤ src) :
    ∃ a', (List.range len).foldlM (fun a (k : ℕ) => a.setFrom (asUInt (dst + k)) (src + k)) a = some a' ∧
      Becomes a (splice a.contents dst ((a.contents.drop src).take len)) a' := by
  have hlength := h.length_contents
  have hround : ∀ s : ScriptArray α, ∀ k ∈ List.range len, Rewritten a s →
      ∃ s', s.setFrom (asUInt (dst + k)) (src + k) = some s' ∧ Rewritten a s' ∧
        s'.contents = s.contents.set (dst + k) (s.contents.getD (src + k) default) := by
    intro s k hk hs
    have hlt := List.mem_range.1 hk
    have hsmall := h.size.trans_lt h.small
    have hindex : asUInt (dst + k) = dst + k := by
      rw [← Nat.cast_add]
      exact asUInt_of_lt (by omega)
    have hread : src + k < s.numElements := by
      rw [hs.2]
      omega
    obtain ⟨s', hset, -, hsize, hbecomes⟩ := exists_setFrom hs.1.valid hread (dst + k)
    have hbecomes := hbecomes (by rw [hs.2]; omega)
    exact ⟨s', by rw [hindex]; exact hset, hs.next hbecomes hsize, hbecomes.contents_eq⟩
  have hstart : Rewritten a a := ⟨⟨Safe.refl h, rfl, rfl⟩, rfl⟩
  obtain ⟨a', hfold, ⟨hbecomes, -⟩, hcontents⟩ :=
    exists_foldlM (v := contents) (g := fun l (k : ℕ) => l.set (dst + k) (l.getD (src + k) default)) hround hstart
  rw [foldl_set_copy _ (by omega) (by omega) hapart] at hcontents
  rw [hcontents] at hbecomes
  exact ⟨a', hfold, hbecomes⟩

end

end ScriptArray

end ScriptArrays

end NovusHeadless
