import NovusHeadless.Scripting.ArrayOperations

/-!
# Runs of operations on an array

* `step_meets` — an operation does to the elements what its counterpart does to a list, and it sets an
  exception exactly when it is not `Accepted`;
* `run_meets` — the same of any number of operations one after the other, with whatever `userAlloc` does in each;
* `removeRange_iff` — a range is removed exactly when its start and its length do not wrap around;
* `insertAt_full` — an element that there is no room for replaces another one.

The operations are `Tame`: numbers of elements are below `2^31`, as they always are when an element is not just
a byte, offsets of elements are so where the code calculates them as `int`, and no range wraps around.
-/

namespace NovusHeadless

open Lib

namespace ScriptArrays

/-- The methods of arrays that change them. -/
inductive ArrayOp (α : Type) where
  | reserve (maxElements : UInt32)
  | resize (numElements : UInt32)
  | setValue (index : UInt32) (value : α)
  | insertAt (index : UInt32) (value : α)
  | insertArrayAt (index : UInt32) (arr : List α)
  | insertSelfAt (index : UInt32)
  | insertLast (value : α)
  | removeAt (index : UInt32)
  | removeLast
  | removeRange (start count : UInt32)
  | assign (other : List α)
  | reverse
  deriving DecidableEq, Repr

namespace ArrayOp

variable {α : Type} [Inhabited α]

/-- What a method is for, on lists. -/
def apply : ArrayOp α → List α → List α
  | reserve _, l => l
  | resize numElements, l => l.take numElements.toNat ++ List.replicate (numElements.toNat - l.length) default
  | setValue index value, l => l.set index.toNat value
  | insertAt index value, l => l.take index.toNat ++ value :: l.drop index.toNat
  | insertArrayAt index arr, l => l.take index.toNat ++ (arr ++ l.drop index.toNat)
  | insertSelfAt index, l => l.take index.toNat ++ (l ++ l.drop index.toNat)
  | insertLast value, l => l ++ [value]
  | removeAt index, l => l.eraseIdx index.toNat
  | removeLast, l => l.dropLast
  | removeRange start count, l => l.take start.toNat ++ l.drop (start.toNat + count.toNat)
  | assign other, _ => other
  | reverse, l => l.reverse

/-- The method is called with an index of the array, and there is memory for what it makes of the array. -/
def Accepted (m : Allocator α) (a : ScriptArray α) : ArrayOp α → Prop
  | reserve maxElements => a.CanHold m maxElements.toNat
  | resize numElements => a.CanHold m numElements.toNat
  | setValue index _ => index.toNat < a.numElements
  | insertAt index _ => index.toNat ≤ a.numElements ∧ a.CanHold m (a.numElements + 1)
  | insertArrayAt index arr => index.toNat ≤ a.numElements ∧ a.CanHold m (a.numElements + arr.length)
  | insertSelfAt index => index.toNat ≤ a.numElements ∧ a.CanHold m (a.numElements + a.numElements)
  | insertLast _ => a.CanHold m (a.numElements + 1)
  | removeAt index => index.toNat < a.numElements
  | removeLast => 0 < a.numElements
  | removeRange start count => count.toNat = 0 ∨ start.toNat ≤ a.numElements
  | assign other => a.CanHold m other.length
  | reverse => True

/-- No number that the method calculates wraps around. -/
def Tame (a : ScriptArray α) : ArrayOp α → Prop
  | reserve maxElements => a.Checked maxElements.toNat
  | resize numElements => a.Checked numElements.toNat
  | insertAt _ _ => a.Checked (a.numElements + 1)
  | insertArrayAt _ arr => arr.length < 2147483648 ∧ a.Checked (a.numElements + arr.length)
  | insertSelfAt _ => a.Checked (a.numElements + a.numElements)
  | insertLast _ => a.Checked (a.numElements + 1)
  | removeRange start count => a.numElements < start.toNat ∨ start.toNat + count.toNat < 4294967296
  | assign other => other.length < 2147483648
  | reverse => a.numElements * a.elementSize ≤ 2147483648
  | setValue _ _ | removeAt _ | removeLast => True

instance decidableTame (a : ScriptArray α) : (op : ArrayOp α) → Decidable (op.Tame a)
  | reserve maxElements => inferInstanceAs (Decidable (a.Checked maxElements.toNat))
  | resize numElements => inferInstanceAs (Decidable (a.Checked numElements.toNat))
  | insertAt _ _ | insertLast _ => inferInstanceAs (Decidable (a.Checked (a.numElements + 1)))
  | insertArrayAt _ arr => inferInstanceAs (Decidable (arr.length < 2147483648 ∧ a.Checked (a.numElements + arr.length)))
  | insertSelfAt _ => inferInstanceAs (Decidable (a.Checked (a.numElements + a.numElements)))
  | removeRange start count =>
    inferInstanceAs (Decidable (a.numElements < start.toNat ∨ start.toNat + count.toNat < 4294967296))
  | assign other => inferInstanceAs (Decidable (other.length < 2147483648))
  | reverse => inferInstanceAs (Decidable (a.numElements * a.elementSize ≤ 2147483648))
  | setValue _ _ | removeAt _ | removeLast => .isTrue trivial

end ArrayOp

variable {α : Type} [DecidableEq α] [Inhabited α]

namespace ScriptArray

def step (m : Allocator α) (a : ScriptArray α) : ArrayOp α → Option (ScriptArray α)
  | .reserve maxElements => a.reserve m maxElements.toNat
  | .resize numElements => a.resize m numElements.toNat
  | .setValue index value => a.setValue index.toNat value
  | .insertAt index value => a.insertAt m index.toNat value
  | .insertArrayAt index arr => a.insertArrayAt m index.toNat arr
  | .insertSelfAt index => a.insertSelfAt m index.toNat
  | .insertLast value => a.insertLast m value
  | .removeAt index => a.removeAt m index.toNat
  | .removeLast => a.removeLast m
  | .removeRange start count => a.removeRange start.toNat count.toNat
  | .assign other => a.assign m other
  | .reverse => a.reverse

/-- The result is an array that can be used, and it has the elements when the method is accepted, and a new
exception when it is not. -/
def Meets (a : ScriptArray α) (accepted : Prop) (l : List α) (result : Option (ScriptArray α)) : Prop :=
  ∃ a', result = some a' ∧ Safe a a' ∧ (accepted → Becomes a l a') ∧ (¬accepted → a'.exceptions ≠ a.exceptions)

section

variable {a a' : ScriptArray α} {accepted : Prop} {l : List α} {m : Allocator α}

lemma meets_of_becomes {result : Option (ScriptArray α)} (haccepted : accepted) (hresult : result = some a')
    (h : Becomes a l a') : Meets a accepted l result :=
  ⟨a', hresult, h.toSafe, fun _ => h, fun hnot => absurd haccepted hnot⟩

lemma meets_of_raised {result : Option (ScriptArray α)} {e : ArrayException} (hrejected : ¬accepted) (h : a.Valid)
    (hresult : result = some a') (hsafe : Safe (a.setException e) a') : Meets a accepted l result :=
  ⟨a', hresult, (setException_safe h e).trans hsafe, fun haccepted => absurd haccepted hrejected, fun _ => hsafe.raised⟩

lemma meets_setException (hrejected : ¬accepted) (h : a.Valid) (e : ArrayException) :
    Meets a accepted l (some (a.setException e)) :=
  meets_of_raised hrejected h rfl (Safe.refl (setException_safe h e).valid)

lemma CanHold.of_le {n : ℕ} (h : a.Valid) (hn : n ≤ a.numElements) : a.CanHold m n := Or.inl (hn.trans h.size)

/-- Without the memory for more elements, what follows is done to the array as it was. -/
lemma meets_grow (h : a.Valid) {d pos : ℕ} (hpos : pos ≤ a.numElements) (hchecked : a.Checked (a.numElements + d))
    (hwrap : a.numElements + d < 4294967296) (rest : ScriptArray α → Option (ScriptArray α))
    (hrejected : ∀ e, ∃ a', rest (a.setException e) = some a' ∧ Safe (a.setException e) a')
    (haccepted : ∀ a₁, Becomes a (a.contents.take pos ++ (List.replicate d default ++ a.contents.drop pos)) a₁ →
      ∃ a', rest a₁ = some a' ∧ Becomes a₁ l a') :
    Meets a (a.CanHold m (a.numElements + d)) l ((a.resizeBy m d pos).bind rest) := by
  rcases Nat.eq_zero_or_pos d with rfl | hd
  · have hsame : a.resizeBy m (0 : ℕ) pos = some a := by
      unfold resizeBy clamp
      simp
    have hkept : Becomes a (a.contents.take pos ++ (List.replicate 0 default ++ a.contents.drop pos)) a := by
      rw [List.replicate_zero, List.nil_append, List.take_append_drop]
      exact ⟨Safe.refl h, rfl, rfl⟩
    obtain ⟨a', ha', hbecomes⟩ := haccepted a hkept
    rw [hsame, Option.bind_some]
    exact meets_of_becomes (CanHold.of_le h le_rfl) ha' hbecomes
  · rcases resizeBy_grow m h hd pos hchecked hwrap with ⟨hnot, e, hresize⟩ | ⟨hhold, a₁, hresize, hgrown⟩
    · obtain ⟨a', ha', hsafe⟩ := hrejected e
      rw [hresize, Option.bind_some]
      exact meets_of_raised hnot h ha' hsafe
    · rw [Nat.min_eq_left hpos] at hgrown
      obtain ⟨a', ha', hbecomes⟩ := haccepted a₁ hgrown
      rw [hresize, Option.bind_some]
      exact meets_of_becomes hhold ha' (hgrown.trans hbecomes)

end

/-! ### The methods -/

section

variable {a : ScriptArray α} (m : Allocator α)

lemma meets_resize (h : a.Valid) {numElements : ℕ} (hchecked : a.Checked numElements)
    (hwrap : numElements < 4294967296) :
    Meets a (a.CanHold m numElements)
      (a.contents.take numElements ++ List.replicate (numElements - a.contents.length) default)
      (a.resize m numElements) := by
  have hlength := h.length_contents
  have hsmall := h.size.trans_lt h.small
  have hallowed := h.allowed
  have hsize := h.size
  unfold resize
  by_cases hlarge : maxSize a.elementSize < numElements
  · rw [if_pos hlarge]
    refine meets_setException (fun hhold => ?_) h _
    rcases hhold with hhold | ⟨hhold, -⟩ <;> omega
  rw [if_neg hlarge, asInt_of_lt (hchecked.resolve_right hlarge), asInt_of_lt hsmall]
  rcases Nat.lt_trichotomy numElements a.numElements with hlt | heq | hgt
  · obtain ⟨k, hk⟩ := Nat.exists_eq_add_of_lt hlt
    obtain ⟨a', hresize, hbecomes⟩ := resizeBy_shrink m h (Nat.succ_pos k) (by omega) 4294967295
    have hmin : min 4294967295 (a.numElements - (k + 1)) = numElements := by omega
    have hdelta : (numElements : ℤ) - a.numElements = -((k + 1 : ℕ) : ℤ) := by omega
    rw [hmin, List.drop_eq_nil_of_le (by omega)] at hbecomes
    rw [hdelta, Nat.sub_eq_zero_of_le (by omega), List.replicate_zero]
    exact meets_of_becomes (CanHold.of_le h hlt.le) hresize hbecomes
  · subst heq
    have hsame : a.resizeBy m 0 4294967295 = some a := by
      unfold resizeBy clamp
      simp
    rw [sub_self, ← hlength, Nat.sub_self, List.take_length, List.replicate_zero, List.append_nil, hlength]
    exact meets_of_becomes (CanHold.of_le h le_rfl) hsame ⟨Safe.refl h, rfl, rfl⟩
  · obtain ⟨k, hk⟩ := Nat.exists_eq_add_of_lt hgt
    have hdelta : (numElements : ℤ) - a.numElements = ((k + 1 : ℕ) : ℤ) := by omega
    have hsum : numElements = a.numElements + (k + 1) := by omega
    rw [hdelta, hlength, hsum, Nat.add_sub_cancel_left]
    rw [hsum] at hchecked hwrap
    rcases resizeBy_grow m h (Nat.succ_pos k) 4294967295 hchecked hwrap with
      ⟨hnot, e, hresize⟩ | ⟨hhold, a', hresize, hbecomes⟩
    · rw [hresize]
      exact meets_setException hnot h e
    · have hmin : min 4294967295 a.numElements = a.numElements := by omega
      rw [hmin, ← hlength, List.take_length, List.drop_length, List.append_nil] at hbecomes
      rw [List.take_of_length_le (by omega)]
      exact meets_of_becomes hhold hresize hbecomes

lemma meets_reserve (h : a.Valid) {maxElements : ℕ} (hchecked : a.Checked maxElements) :
    Meets a (a.CanHold m maxElements) a.contents (a.reserve m maxElements) := by
  obtain ⟨spare, hdata, hspare⟩ := h.exists_spare
  have hlength := h.length_contents
  have hallowed := h.allowed
  unfold reserve
  by_cases hroom : maxElements ≤ a.data.length
  · rw [if_pos hroom]
    exact meets_of_becomes (Or.inl hroom) rfl ⟨Safe.refl h, rfl, rfl⟩
  rw [if_neg hroom]
  by_cases hlarge : maxSize a.elementSize < maxElements
  · rw [if_pos hlarge]
    refine meets_setException (fun hhold => ?_) h _
    rcases hhold with hhold | ⟨hhold, -⟩ <;> omega
  rw [if_neg hlarge]
  cases halloc : m.alloc maxElements with
  | none =>
    refine meets_setException (fun hhold => ?_) h _
    rcases hhold with hhold | ⟨-, hhold⟩
    · exact hroom hhold
    · rw [halloc] at hhold
      cases hhold
  | some cells =>
    have hcells := m.length_alloc halloc
    obtain ⟨old, rest, hsplit, hold⟩ : ∃ old rest, cells = old ++ rest ∧ old.length = a.contents.length := by
      refine ⟨_, _, (List.take_append_drop a.contents.length cells).symm, ?_⟩
      rw [List.length_take]
      omega
    have hcopy := copyCells_middle [] old rest [] a.contents spare hold
    rw [List.nil_append, List.nil_append, List.nil_append, ← hsplit, ← hdata, hlength, List.length_nil] at hcopy
    have hkept : (a.contents ++ rest).length = maxElements := by
      rw [List.length_append, ← hold, ← List.length_append, ← hsplit, hcells]
    have hbecomes : Becomes a a.contents { a with data := a.contents ++ rest } := by
      refine becomes_of_data rfl hlength.symm ?_ ?_ rfl rfl rfl h.held
      · rw [hkept]
        exact hchecked.resolve_right hlarge
      · rw [hkept]
        exact Nat.le_of_not_lt hlarge
    refine meets_of_becomes (Or.inr ⟨Nat.le_of_not_lt hlarge, by rw [halloc]; rfl⟩) ?_ hbecomes
    simp only [hcopy, Option.bind_eq_bind, Option.bind_some]

lemma meets_insertAt (h : a.Valid) (hchecked : a.Checked (a.numElements + 1)) (index : ℕ) (value : α) :
    Meets a (index ≤ a.numElements ∧ a.CanHold m (a.numElements + 1))
      (a.contents.take index ++ value :: a.contents.drop index) (a.insertAt m index value) := by
  have hlength := h.length_contents
  have hsmall := h.size.trans_lt h.small
  unfold insertAt
  by_cases hindex : a.numElements < index
  · rw [if_pos hindex]
    exact meets_setException (fun hand => absurd hand.1 (Nat.not_le_of_lt hindex)) h _
  have hindex := Nat.le_of_not_lt hindex
  rw [if_neg (Nat.not_lt_of_le hindex)]
  have hgrow : Meets a (a.CanHold m (a.numElements + 1)) (a.contents.take index ++ value :: a.contents.drop index)
      ((a.resizeBy m (1 : ℕ) index).bind fun a => a.setValue index value) :=
    meets_grow h hindex hchecked (by omega) _ (fun e => ?_) fun a₁ hgrown => ?_
  · obtain ⟨a', ha', hsafe, haccepted, hrejected⟩ := hgrow
    exact ⟨a', ha', hsafe, fun hand => haccepted hand.2, fun hnot => hrejected fun hhold => hnot ⟨hindex, hhold⟩⟩
  · obtain ⟨a', hset, hsafe, -⟩ := exists_setValue (setException_safe h e).valid index value
    exact ⟨a', hset, hsafe⟩
  · have hsize := hgrown.numElements_eq
    simp only [List.length_append, List.length_take, List.length_drop, List.length_replicate, hlength] at hsize
    obtain ⟨a', hset, -, -, hbecomes, -⟩ := exists_setValue hgrown.valid index value
    have hbecomes := hbecomes (by omega)
    have hfront : (a.contents.take index).length = index := by
      rw [List.length_take]
      omega
    rw [hgrown.contents_eq, List.set_append_right _ _ hfront.le, hfront, Nat.sub_self] at hbecomes
    exact ⟨a', hset, hbecomes⟩

lemma meets_insertArrayAt (h : a.Valid) {arr : List α} (harr : arr.length < 2147483648)
    (hchecked : a.Checked (a.numElements + arr.length)) (index : ℕ) :
    Meets a (index ≤ a.numElements ∧ a.CanHold m (a.numElements + arr.length))
      (a.contents.take index ++ (arr ++ a.contents.drop index)) (a.insertArrayAt m index arr) := by
  have hlength := h.length_contents
  have hsmall := h.size.trans_lt h.small
  unfold insertArrayAt
  by_cases hindex : a.numElements < index
  · rw [if_pos hindex]
    exact meets_setException (fun hand => absurd hand.1 (Nat.not_le_of_lt hindex)) h _
  have hindex := Nat.le_of_not_lt hindex
  have hfront : (a.contents.take index).length = index := by
    rw [List.length_take]
    omega
  rw [if_neg (Nat.not_lt_of_le hindex), asInt_of_lt harr]
  have hgrow : Meets a (a.CanHold m (a.numElements + arr.length))
      (a.contents.take index ++ (arr ++ a.contents.drop index))
      ((a.resizeBy m arr.length index).bind fun a =>
        arr.zipIdx.foldlM (fun a p => a.setValue (asUInt (index + p.2)) p.1) a) :=
    meets_grow h hindex hchecked (by omega) _ (fun e => ?_) fun a₁ hgrown => ?_
  · obtain ⟨a', ha', hsafe, haccepted, hrejected⟩ := hgrow
    exact ⟨a', ha', hsafe, fun hand => haccepted hand.2, fun hnot => hrejected fun hhold => hnot ⟨hindex, hhold⟩⟩
  · exact exists_setValues_safe (setException_safe h e).valid (fun k => asUInt (index + k)) arr
  · have hsize := hgrown.numElements_eq
    simp only [List.length_append, List.length_take, List.length_drop, List.length_replicate, hlength] at hsize
    have hfits : index + arr.length ≤ a₁.numElements := by omega
    obtain ⟨a', hset, hbecomes⟩ := exists_setValues hgrown.valid hfits
    have hsplice := splice_middle (a.contents.take index) (List.replicate arr.length default) arr
      (a.contents.drop index) List.length_replicate
    rw [hgrown.contents_eq] at hbecomes
    rw [hfront] at hsplice
    rw [hsplice] at hbecomes
    exact ⟨a', hset, hbecomes⟩

/-- Both loops of the insertion of an array into itself are copies of elements. -/
lemma exists_insertSelf {a₁ : ScriptArray α} {front back : List α}
    (h : Becomes a (front ++ (List.replicate (front ++ back).length default ++ back)) a₁)
    (hsmall : (front ++ back).length + (front ++ back).length < 4294967296) :
    ∃ a', (do
        let a ← (List.range front.length).foldlM (fun a (n : ℕ) => a.setFrom (asUInt (front.length + n)) n) a₁
        (List.range (a.numElements - asUInt (front.length + (front ++ back).length))).foldlM
          (fun a (k : ℕ) => a.setFrom (asUInt (front.length + front.length + k))
            (asUInt (front.length + (front ++ back).length) + k)) a) = some a' ∧
      Becomes a₁ (front ++ ((front ++ back) ++ back)) a' := by
  have hsize := h.numElements_eq
  simp only [List.length_append, List.length_replicate] at hsize hsmall ⊢
  have hbehind : asUInt ((front.length : ℤ) + ((front.length + back.length : ℕ) : ℤ)) =
      front.length + (front.length + back.length) := by
    rw [← Nat.cast_add]
    exact asUInt_of_lt (by omega)
  rw [hbehind]
  -- the front is copied behind itself
  have hroom : List.replicate (front.length + back.length) (default : α) =
      List.replicate front.length default ++ List.replicate back.length default :=
    List.replicate_add _ _ _
  obtain ⟨a₂, hfirst, hbecomes₁⟩ := exists_copies h.valid front.length 0 front.length
    (by omega) (by omega) (by omega)
  have hafter₁ : splice a₁.contents front.length ((a₁.contents.drop 0).take front.length) =
      (front ++ front) ++ (List.replicate back.length default ++ back) := by
    have hsplice := splice_middle front (List.replicate front.length default) front
      (List.replicate back.length default ++ back) List.length_replicate
    rw [h.contents_eq, List.drop_zero, List.take_left, List.length_append, hroom, List.append_assoc, hsplice,
      List.append_assoc]
  rw [hafter₁] at hbecomes₁
  have hsize₂ := hbecomes₁.numElements_eq
  simp only [List.length_append, List.length_replicate] at hsize₂
  -- and the back behind that
  obtain ⟨a₃, hsecond, hbecomes₂⟩ := exists_copies hbecomes₁.valid (front.length + front.length)
    (front.length + (front.length + back.length)) back.length (by omega) (by omega) (by omega)
  have hafter₂ : splice a₂.contents (front.length + front.length)
      ((a₂.contents.drop (front.length + (front.length + back.length))).take back.length) =
      front ++ ((front ++ back) ++ back) := by
    have hsplice := splice_middle (front ++ front) (List.replicate back.length default) back back
      List.length_replicate
    have hdrop : ((front ++ front) ++ (List.replicate back.length default ++ back)).drop
        (front.length + (front.length + back.length)) = back := by
      have hassoc : (front ++ front) ++ (List.replicate back.length default ++ back) =
          (front ++ front ++ List.replicate back.length default) ++ back := by
        simp only [List.append_assoc]
      have hlen : front.length + (front.length + back.length) =
          (front ++ front ++ List.replicate back.length (default : α)).length := by
        simp only [List.length_append, List.length_replicate]
        omega
      rw [hassoc, hlen, List.drop_left]
    rw [List.length_append] at hsplice
    rw [hbecomes₁.contents_eq, hdrop, List.take_length, hsplice]
    simp only [List.append_assoc]
  rw [hafter₂] at hbecomes₂
  refine ⟨a₃, ?_, hbecomes₁.trans hbecomes₂⟩
  have hrest : a₂.numElements - (front.length + (front.length + back.length)) = back.length := by omega
  simp only [Nat.zero_add] at hfirst
  rw [hfirst]
  simp only [Option.bind_eq_bind, Option.bind_some, hrest]
  exact hsecond

lemma meets_insertSelfAt (h : a.Valid) (hchecked : a.Checked (a.numElements + a.numElements)) (index : ℕ) :
    Meets a (index ≤ a.numElements ∧ a.CanHold m (a.numElements + a.numElements))
      (a.contents.take index ++ (a.contents ++ a.contents.drop index)) (a.insertSelfAt m index) := by
  have hlength := h.length_contents
  have hsmall := h.size.trans_lt h.small
  unfold insertSelfAt
  by_cases hindex : a.numElements < index
  · rw [if_pos hindex]
    exact meets_setException (fun hand => absurd hand.1 (Nat.not_le_of_lt hindex)) h _
  have hindex := Nat.le_of_not_lt hindex
  have hfront : (a.contents.take index).length = index := by
    rw [List.length_take]
    omega
  have hwhole := List.take_append_drop index a.contents
  rw [if_neg (Nat.not_lt_of_le hindex)]
  dsimp only
  rw [asInt_of_lt hsmall]
  have hgrow : Meets a (a.CanHold m (a.numElements + a.numElements))
      (a.contents.take index ++ (a.contents ++ a.contents.drop index))
      ((a.resizeBy m a.numElements index).bind fun a₁ => do
        let a₁ ← (List.range index).foldlM (fun a (n : ℕ) => a.setFrom (asUInt (index + n)) n) a₁
        (List.range (a₁.numElements - asUInt (index + a.numElements))).foldlM
          (fun a₁ (k : ℕ) => a₁.setFrom (asUInt (index + index + k)) (asUInt (index + a.numElements) + k)) a₁) :=
    meets_grow h hindex hchecked (by omega) _ (fun e => ?_) fun a₁ hgrown => ?_
  · obtain ⟨a', ha', hsafe, haccepted, hrejected⟩ := hgrow
    exact ⟨a', ha', hsafe, fun hand => haccepted hand.2, fun hnot => hrejected fun hhold => hnot ⟨hindex, hhold⟩⟩
  · -- the array is still its own front and back, and the second loop has nothing to copy
    have hfailed := setException_safe h e
    obtain ⟨a₂, hfirst, hsafe, hsize⟩ :
        ∃ a₂, (List.range index).foldlM (fun a (n : ℕ) => a.setFrom (asUInt (index + n)) n) (a.setException e) =
          some a₂ ∧ Safe (a.setException e) a₂ ∧ a₂.numElements = a.numElements := by
      refine exists_foldlM_inv (I := fun s => Safe (a.setException e) s ∧ s.numElements = a.numElements)
        (fun s n hn hs => ?_) ⟨Safe.refl hfailed.valid, rfl⟩
      have hlt := List.mem_range.1 hn
      have hread : n < s.numElements := by
        rw [hs.2]
        omega
      obtain ⟨s', hset, hsafe, hsize, -⟩ := exists_setFrom hs.1.valid hread (asUInt (index + n))
      exact ⟨s', hset, hs.1.trans hsafe, hsize.trans hs.2⟩
    have hnothing : a₂.numElements - asUInt (index + a.numElements) = 0 := by
      rw [← Nat.cast_add, asUInt_of_lt (by omega)]
      omega
    refine ⟨a₂, ?_, hsafe⟩
    simp only [hfirst, Option.bind_eq_bind, Option.bind_some, hnothing]
    rfl
  · have hroom : List.replicate a.numElements (default : α) =
        List.replicate (a.contents.take index ++ a.contents.drop index).length default := by
      rw [hwhole, hlength]
    rw [hroom] at hgrown
    obtain ⟨a', hcopies, hbecomes⟩ := exists_insertSelf hgrown (by rw [hwhole, hlength]; omega)
    rw [hwhole, hlength, hfront] at hcopies
    rw [hwhole] at hbecomes
    exact ⟨a', hcopies, hbecomes⟩

lemma meets_removeAt (h : a.Valid) (index : ℕ) :
    Meets a (index < a.numElements) (a.contents.eraseIdx index) (a.removeAt m index) := by
  unfold removeAt
  by_cases hindex : a.numElements ≤ index
  · rw [if_pos hindex]
    exact meets_setException (Nat.not_lt_of_le hindex) h _
  have hlt := Nat.lt_of_not_le hindex
  obtain ⟨a', hresize, hbecomes⟩ := resizeBy_shrink m h Nat.one_pos (by omega) index
  have hmin : min index (a.numElements - 1) = index := by omega
  rw [hmin, ← List.eraseIdx_eq_take_drop_succ] at hbecomes
  rw [if_neg hindex]
  exact meets_of_becomes hlt hresize hbecomes

lemma meets_removeLast (h : a.Valid) : Meets a (0 < a.numElements) a.contents.dropLast (a.removeLast m) := by
  have hsmall := h.size.trans_lt h.small
  unfold removeLast
  rcases Nat.eq_zero_or_pos a.numElements with hzero | hpos
  · -- the last index wraps around
    have hwrap : asUInt (a.numElements - 1) = 4294967295 := by
      rw [hzero]
      rfl
    unfold removeAt
    rw [hwrap, if_pos (by omega)]
    exact meets_setException (by omega) h _
  · have hlast : asUInt (a.numElements - 1) = a.numElements - 1 := by
      have hcast : (a.numElements : ℤ) - 1 = ((a.numElements - 1 : ℕ) : ℤ) := by omega
      rw [hcast]
      exact asUInt_of_lt (by omega)
    obtain ⟨a', hremove, hsafe, haccepted, hrejected⟩ := meets_removeAt m h (a.numElements - 1)
    have hdrop : a.contents.eraseIdx (a.numElements - 1) = a.contents.dropLast := by
      rw [← h.length_contents]
      exact List.eraseIdx_length_sub_one
    rw [hlast, hremove]
    rw [hdrop] at haccepted
    exact ⟨a', rfl, hsafe, fun _ => haccepted (by omega), fun hnot => absurd hpos hnot⟩

lemma meets_removeRange (h : a.Valid) {start count : ℕ}
    (htame : a.numElements < start ∨ start + count < 4294967296) :
    Meets a (count = 0 ∨ start ≤ a.numElements) (a.contents.take start ++ a.contents.drop (start + count))
      (a.removeRange start count) := by
  have hlength := h.length_contents
  have hsmall := h.size.trans_lt h.small
  unfold removeRange
  by_cases hzero : count = 0
  · rw [if_pos hzero, hzero, Nat.add_zero, List.take_append_drop]
    exact meets_of_becomes (Or.inl rfl) rfl ⟨Safe.refl h, rfl, rfl⟩
  rw [if_neg hzero]
  by_cases hstart : a.numElements < start
  · rw [if_pos hstart]
    exact meets_setException (by omega) h _
  rw [if_neg hstart]
  have hsum : asUInt (start + count) = start + count := by
    rw [← Nat.cast_add]
    exact asUInt_of_lt (htame.resolve_left hstart)
  -- a range that reaches over the end is cut off there
  obtain ⟨k, hk, hend, hdrop⟩ : ∃ k, (if a.numElements < start + count then a.numElements - start else count) = k ∧
      start + k ≤ a.numElements ∧ a.contents.drop (start + count) = a.contents.drop (start + k) := by
    by_cases hover : a.numElements < start + count
    · refine ⟨_, if_pos hover, by omega, ?_⟩
      rw [List.drop_eq_nil_of_le (by omega), List.drop_eq_nil_of_le (by omega)]
    · exact ⟨_, if_neg hover, by omega, rfl⟩
  obtain ⟨front, gap, back, hcontents, hfront, hgap⟩ :
      ∃ front gap back, a.contents = front ++ (gap ++ back) ∧ front.length = start ∧ gap.length = k := by
    refine ⟨a.contents.take start, (a.contents.drop start).take k, (a.contents.drop start).drop k, ?_, ?_, ?_⟩
    · rw [List.take_append_drop, List.take_append_drop]
    · rw [List.length_take]
      omega
    · rw [List.length_take, List.length_drop]
      omega
  have hbacklen : back.length = a.numElements - (start + k) := by
    have := congrArg List.length hcontents
    simp only [List.length_append] at this
    omega
  obtain ⟨spare, hdata, hspare⟩ := h.exists_spare
  obtain ⟨references, hdestruct, hheld⟩ := exists_destruct h hcontents
  obtain ⟨spare', hcopy, hspare'⟩ := closeGap front gap back spare
  have hblock : front ++ (gap ++ (back ++ spare)) = a.data := by
    rw [hdata, hcontents, List.append_assoc, List.append_assoc]
  have hkept : a.contents.take start ++ a.contents.drop (start + k) = front ++ back := by
    rw [hcontents, ← hfront, List.take_left, ← hgap, ← List.drop_drop, List.drop_left, List.drop_left]
  have hkeptlen : (front ++ back).length = a.numElements - k := by
    rw [List.length_append]
    omega
  have hbehind : asUInt (start + k) = start + k := by
    rw [← Nat.cast_add]
    exact asUInt_of_lt (by omega)
  have hmoved : asUInt (a.numElements - start - k) = back.length := by
    have hcast : (a.numElements : ℤ) - start - k = ((back.length : ℕ) : ℤ) := by omega
    rw [hcast]
    exact asUInt_of_lt (by omega)
  have hsize : asUInt (a.numElements - k) = a.numElements - k := by
    rw [← Nat.cast_sub (by omega)]
    exact asUInt_of_lt (by omega)
  rw [hblock, hfront, hgap] at hcopy
  rw [hfront, hgap] at hdestruct
  have hbecomes : Becomes a (front ++ back) { a with
      data := front ++ (back ++ spare')
      numElements := a.numElements - k
      references := references } := by
    have hlen : (front ++ (back ++ spare')).length = a.data.length := by
      rw [← hblock]
      simp only [List.length_append]
      omega
    refine becomes_of_data (List.append_assoc front back spare').symm hkeptlen.symm ?_ ?_ rfl rfl rfl hheld
    · rw [hlen]
      exact h.small
    · rw [hlen]
      exact h.allowed
  rw [hdrop, hkept]
  refine meets_of_becomes (Or.inr (Nat.le_of_not_lt hstart)) ?_ hbecomes
  simp only [hsum, hk, hbehind, hdestruct, hmoved, hcopy, hsize, Option.bind_eq_bind, Option.bind_some]

lemma meets_assign (h : a.Valid) {other : List α} (hother : other.length < 2147483648) :
    Meets a (a.CanHold m other.length) other (a.assign m other) := by
  obtain ⟨a₁, hresize, hsafe, haccepted, hrejected⟩ := meets_resize m h (Or.inl hother) (by omega)
  have hstores : ∀ s : ScriptArray α, s.Valid → ∀ vs : List α, vs.length ≤ s.numElements →
      ∃ s', vs.zipIdx.foldlM (fun a p => a.store p.2 p.1) s = some s' ∧ Becomes s (splice s.contents 0 vs) s' := by
    intro s hs vs hfits
    have hround : ∀ t : ScriptArray α, ∀ p ∈ vs.zipIdx, Rewritten s t →
        ∃ t', t.store p.2 p.1 = some t' ∧ Rewritten s t' ∧ t'.contents = t.contents.set (0 + p.2) p.1 := by
      intro t p hp ht
      obtain ⟨-, hlt, -⟩ := List.mem_zipIdx hp
      have hindex : p.2 < t.numElements := by
        rw [ht.2]
        omega
      obtain ⟨t', hstore, hbecomes⟩ := exists_store ht.1.valid hindex p.1
      rw [Nat.zero_add]
      refine ⟨t', hstore, ht.next hbecomes ?_, hbecomes.contents_eq⟩
      rw [hbecomes.numElements_eq, List.length_set, ht.1.valid.length_contents]
    have hstart : Rewritten s s := ⟨⟨Safe.refl hs, rfl, rfl⟩, rfl⟩
    obtain ⟨s', hfold, ⟨hbecomes, -⟩, hcontents⟩ :=
      exists_foldlM (v := contents) (g := fun l (p : α × ℕ) => l.set (0 + p.2) p.1) hround hstart
    rw [foldl_set_zipIdx _ _ (by rw [hs.length_contents]; omega)] at hcontents
    rw [hcontents] at hbecomes
    exact ⟨s', hfold, hbecomes⟩
  have htaken : (other.take a₁.numElements).length ≤ a₁.numElements := by
    rw [List.length_take]
    exact Nat.min_le_left _ _
  obtain ⟨a', hfold, hbecomes⟩ := hstores a₁ hsafe.valid _ htaken
  refine ⟨a', ?_, hsafe.trans hbecomes.toSafe, fun hhold => ?_, fun hnot => ?_⟩
  · unfold assign
    rw [hresize]
    exact hfold
  · have hresized := haccepted hhold
    have hsize : a₁.numElements = other.length := by
      rw [hresized.numElements_eq, List.length_append, List.length_take, List.length_replicate]
      omega
    have hlength := hsafe.valid.length_contents
    rw [hsize, List.take_length, splice_zero, List.drop_eq_nil_of_le (by omega), List.append_nil] at hbecomes
    exact hresized.trans hbecomes
  · rw [hbecomes.noException]
    exact hrejected hnot

lemma exists_exchange (h : a.Valid) {i j : ℕ} (hij : i < j) (hj : j < a.numElements)
    (hoffset : j * a.elementSize < 2147483648) :
    ∃ a', a.exchange i j = some a' ∧ Becomes a (swapped a.contents i j) a' := by
  obtain ⟨spare, hdata, hspare⟩ := h.exists_spare
  have hlength := h.length_contents
  obtain ⟨front, x, between, y, back, hcontents, hfront, hbetween⟩ :
      ∃ front x between y back, a.contents = front ++ x :: (between ++ y :: back) ∧ front.length = i ∧
        front.length + 1 + between.length = j := by
    have hi : i < a.contents.length := by omega
    have hj' : j - (i + 1) < (a.contents.drop (i + 1)).length := by
      rw [List.length_drop]
      omega
    refine ⟨a.contents.take i, a.contents[i], (a.contents.drop (i + 1)).take (j - (i + 1)),
      (a.contents.drop (i + 1))[j - (i + 1)], (a.contents.drop (i + 1)).drop (j - (i + 1) + 1), ?_, ?_, ?_⟩
    · rw [← List.drop_eq_getElem_cons hj', List.take_append_drop, ← List.drop_eq_getElem_cons hi,
        List.take_append_drop]
    · rw [List.length_take]
      omega
    · rw [List.length_take, List.length_take, List.length_drop]
      omega
  have hblock : a.data = front ++ x :: (between ++ y :: (back ++ spare)) := by
    rw [hdata, hcontents]
    simp only [List.append_assoc, List.cons_append]
  have hpointer : ∀ k ≤ j, a.itemPointer k = some k := fun k hk =>
    itemPointer_eq (by omega) ((Nat.mul_le_mul_right a.elementSize hk).trans_lt hoffset)
  have hread : a.data[i]? = some x ∧ a.data[j]? = some y := by
    refine ⟨?_, ?_⟩
    · rw [hblock, ← hfront]
      simp
    · have hassoc : a.data = (front ++ x :: between) ++ y :: (back ++ spare) := by
        rw [hblock]
        simp only [List.append_assoc, List.cons_append]
      have hlen : j = (front ++ x :: between).length := by
        simp only [List.length_append, List.length_cons]
        omega
      rw [hassoc, hlen]
      simp
  have hswap := swapped_middle front between (back ++ spare) x y
  have hswap' := swapped_middle front between back x y
  rw [← hblock, hfront, ← hfront, hbetween] at hswap
  rw [← hcontents, hfront, ← hfront, hbetween] at hswap'
  have hcells : (a.data.set i y).set j x = front ++ y :: (between ++ x :: (back ++ spare)) := by
    rw [← hswap, hfront]
    unfold swapped
    rw [List.getD_eq_getElem?_getD, List.getD_eq_getElem?_getD, hread.1, hread.2]
    rfl
  have hnew : Becomes a (swapped a.contents i j) { a with data := (a.data.set i y).set j x } := by
    rw [hfront] at hswap'
    rw [hswap']
    have hassoc : (a.data.set i y).set j x = (front ++ y :: (between ++ x :: back)) ++ spare := by
      rw [hcells]
      simp only [List.append_assoc, List.cons_append]
    have hlen : ((a.data.set i y).set j x).length = a.data.length := by
      rw [List.length_set, List.length_set]
    have hsize : a.numElements = (front ++ y :: (between ++ x :: back)).length := by
      rw [← hlength, hcontents]
      simp only [List.length_append, List.length_cons]
    refine becomes_of_data hassoc hsize ?_ ?_ rfl rfl rfl ?_
    · rw [hlen]
      exact h.small
    · rw [hlen]
      exact h.allowed
    · -- the same elements, in another order
      refine h.held.trans (List.perm_iff_count.2 fun z => ?_)
      have hold : a.contents = front ++ ([x] ++ (between ++ ([y] ++ back))) := hcontents
      have hswapped : front ++ y :: (between ++ x :: back) = front ++ ([y] ++ (between ++ ([x] ++ back))) := rfl
      rw [hold, hswapped]
      simp only [owned_append, List.count_append]
      omega
  refine ⟨_, ?_, hnew⟩
  unfold exchange
  simp only [hpointer i hij.le, hpointer j le_rfl, hread.1, hread.2, Option.bind_eq_bind, Option.bind_some]

lemma meets_reverse (h : a.Valid) (hoffset : a.numElements * a.elementSize ≤ 2147483648) :
    Meets a True a.contents.reverse a.reverse := by
  have hlength := h.length_contents
  unfold reverse
  by_cases htwo : 2 ≤ a.numElements
  · rw [if_pos htwo]
    have hround : ∀ s : ScriptArray α, ∀ i ∈ List.range (a.numElements / 2), Rewritten a s →
        ∃ s', s.exchange i (s.numElements - i - 1) = some s' ∧ Rewritten a s' ∧
          s'.contents = swapped s.contents i (a.contents.length - i - 1) := by
      intro s i hi hs
      have hlt := List.mem_range.1 hi
      have hsmaller : (s.numElements - i - 1) * s.elementSize < 2147483648 := by
        rw [hs.2, hs.1.elementSize]
        exact offset_lt (by omega) hoffset
      have hij : i < s.numElements - i - 1 := by
        rw [hs.2]
        omega
      obtain ⟨s', hexchange, hbecomes⟩ := exists_exchange hs.1.valid hij (by omega) hsmaller
      have hsize : s'.numElements = s.numElements := by
        rw [hbecomes.numElements_eq]
        unfold swapped
        rw [List.length_set, List.length_set, hs.1.valid.length_contents]
      refine ⟨s', hexchange, hs.next hbecomes hsize, ?_⟩
      rw [hbecomes.contents_eq, hs.2, hlength]
    have hstart : Rewritten a a := ⟨⟨Safe.refl h, rfl, rfl⟩, rfl⟩
    obtain ⟨a', hfold, ⟨hbecomes, -⟩, hcontents⟩ :=
      exists_foldlM (v := contents) (g := fun l i => swapped l i (a.contents.length - i - 1)) hround hstart
    rw [← hlength, foldl_swap_reverse] at hcontents
    rw [hcontents] at hbecomes
    exact meets_of_becomes trivial hfold hbecomes
  · -- an array with at most one element is its own reverse
    have hsame : a.contents.reverse = a.contents := by
      rcases hcontents : a.contents with _ | ⟨x, l⟩
      · rfl
      · rw [hcontents, List.length_cons] at hlength
        obtain rfl := List.length_eq_zero_iff.1 (show l.length = 0 by omega)
        rfl
    rw [if_neg htwo, hsame]
    exact meets_of_becomes trivial rfl ⟨Safe.refl h, rfl, rfl⟩

/-- **What a method does**: the array is one that can be used, its elements are what they should be when the
method is accepted, and there is a new exception when it is not. -/
theorem step_meets (h : a.Valid) {op : ArrayOp α} (htame : op.Tame a) :
    Meets a (op.Accepted m a) (op.apply a.contents) (a.step m op) := by
  have hlength := h.length_contents
  cases op with
  | reserve maxElements => exact meets_reserve m h htame
  | resize numElements => exact meets_resize m h htame numElements.toNat_lt
  | setValue index value =>
    obtain ⟨a', hset, hsafe, -, haccepted, hrejected⟩ := exists_setValue h index.toNat value
    exact ⟨a', hset, hsafe, haccepted, fun hnot => hrejected (Nat.le_of_not_lt hnot)⟩
  | insertAt index value => exact meets_insertAt m h htame index.toNat value
  | insertArrayAt index arr => exact meets_insertArrayAt m h htame.1 htame.2 index.toNat
  | insertSelfAt index => exact meets_insertSelfAt m h htame index.toNat
  | insertLast value =>
    obtain ⟨a', hinsert, hsafe, haccepted, hrejected⟩ := meets_insertAt m h htame a.numElements value
    rw [List.take_of_length_le hlength.le, List.drop_eq_nil_of_le hlength.le] at haccepted
    exact ⟨a', hinsert, hsafe, fun hhold => haccepted ⟨le_rfl, hhold⟩, fun hnot => hrejected fun hand => hnot hand.2⟩
  | removeAt index => exact meets_removeAt m h index.toNat
  | removeLast => exact meets_removeLast m h
  | removeRange start count => exact meets_removeRange h htame
  | assign other => exact meets_assign m h htame
  | reverse => exact meets_reverse h htame

/-- A call of a method, with what `userAlloc` does during the call. -/
def call (a : ScriptArray α) (c : Allocator α × ArrayOp α) : Option (ScriptArray α) := a.step c.1 c.2

/-- **Runs of methods.**  In a tame run nothing is accessed outside of the block, the array stays one that can
be used, a new exception is set exactly when a method is not accepted, and as long as all of them are the
elements are what the methods make of them. -/
theorem run_meets (h : a.Valid) {calls : List (Allocator α × ArrayOp α)}
    (htame : Before call (fun a c => c.2.Tame a) a calls) :
    ∃ a', run call a calls = some a' ∧ Safe a a' ∧
      (a'.exceptions = a.exceptions ↔ Before call (fun a c => c.2.Accepted c.1 a) a calls) ∧
      (a'.exceptions = a.exceptions → a'.contents = calls.foldl (fun l c => c.2.apply l) a.contents) := by
  induction calls generalizing a with
  | nil => exact ⟨a, rfl, Safe.refl h, iff_of_true rfl trivial, fun _ => rfl⟩
  | cons c calls ih =>
    obtain ⟨hc, hcalls⟩ := htame
    obtain ⟨a₁, hstep, hsafe, haccepted, hrejected⟩ := step_meets c.1 h hc
    obtain ⟨a', hrun, hsafe', hiff, hcontents⟩ := ih hsafe.valid (hcalls a₁ hstep)
    -- no later method takes an exception away
    have hsplit : a'.exceptions = a.exceptions ↔ a₁.exceptions = a.exceptions ∧ a'.exceptions = a₁.exceptions := by
      constructor
      · intro heq
        have hback : a₁.exceptions <+: a.exceptions := heq ▸ hsafe'.exceptions
        have hfirst := hback.eq_of_length_le hsafe.exceptions.length_le
        exact ⟨hfirst, heq.trans hfirst.symm⟩
      · rintro ⟨hfirst, hsecond⟩
        exact hsecond.trans hfirst
    have hone : a₁.exceptions = a.exceptions ↔ c.2.Accepted c.1 a :=
      ⟨fun heq => by_contra fun hnot => hrejected hnot heq, fun hacc => (haccepted hacc).noException⟩
    refine ⟨a', run_cons_eq_some.2 ⟨a₁, hstep, hrun⟩, hsafe.trans hsafe', ?_, fun heq => ?_⟩
    · rw [hsplit, hone, hiff]
      refine and_congr_right fun _ => ⟨fun hbefore t ht => ?_, fun hbefore => hbefore a₁ hstep⟩
      obtain rfl := Option.some.inj (hstep.symm.trans ht)
      exact hbefore
    · obtain ⟨hfirst, hsecond⟩ := hsplit.1 heq
      rw [hcontents hsecond, (haccepted (hone.1 hfirst)).contents_eq, List.foldl_cons]

/-- Blocks of up to eight cells, with some number in them. -/
def eightCells : Allocator ℕ where
  alloc n := if n ≤ 8 then some (List.replicate n 77) else none
  length_alloc h := by
    split at h
    · rw [← Option.some.inj h, List.length_replicate]
    · cases h

/-- No memory is left. -/
def noCells : Allocator ℕ := ⟨fun _ => none, fun h => nomatch h⟩

end

/-! ### What goes wrong -/

section

variable {a : ScriptArray α}

/-- A range whose end wraps around is not removed: the elements from there on are moved, over elements that the array
does not have. -/
lemma removeRange_wraps (h : a.Valid) {start count : ℕ} (hstart : start ≤ a.numElements)
    (hcount : count < 4294967296) (hwrap : 4294967296 ≤ start + count) :
    a.removeRange start count = none ∨
      ∃ a', a.removeRange start count = some a' ∧ a.numElements < a'.contents.length := by
  have hsmall := h.size.trans_lt h.small
  obtain ⟨stop, hstop⟩ := Nat.exists_eq_add_of_le hwrap
  have hsum : asUInt (start + count) = stop := by
    unfold asUInt
    omega
  have hgrown : asUInt (a.numElements - count) = a.numElements + (start - stop) := by
    unfold asUInt
    omega
  have hmoved : asUInt (a.numElements - start - count) = a.numElements - stop := by
    unfold asUInt
    omega
  have hnothing : a.destruct start stop = some a := if_neg fun hand => by omega
  unfold removeRange
  rw [if_neg (by omega), if_neg (Nat.not_lt_of_le hstart)]
  simp only [hsum, if_neg (show ¬a.numElements < stop by omega), hnothing, hgrown, hmoved, Option.bind_eq_bind,
    Option.bind_some]
  -- the block is as large as the copy needs, or the copy leaves it
  unfold copyCells
  split
  case isTrue hcopy =>
    have hcopied : ((a.data.drop stop).take (a.numElements - stop)).length = a.numElements - stop := by
      rw [List.length_take, List.length_drop]
      omega
    have hlength := length_splice (show start + ((a.data.drop stop).take (a.numElements - stop)).length ≤ a.data.length
      from hcopied.symm ▸ hcopy.1)
    refine Or.inr ⟨_, rfl, ?_⟩
    unfold contents
    rw [List.length_take]
    dsimp only
    omega
  case isFalse => exact Or.inl rfl

/-- **When a range is removed**: exactly when its end is not beyond the numbers that `start + count` can be. -/
theorem removeRange_iff (h : a.Valid) {start : ℕ} (hstart : start ≤ a.numElements) (count : UInt32) :
    (∃ a', a.removeRange start count.toNat = some a' ∧
        a'.contents = a.contents.take start ++ a.contents.drop (start + count.toNat)) ↔
      start + count.toNat < 4294967296 := by
  constructor
  · rintro ⟨a', hremove, hcontents⟩
    by_contra hwrap
    rcases removeRange_wraps h hstart count.toNat_lt (Nat.le_of_not_lt hwrap) with hnone | ⟨a'', hremove', hgrown⟩
    · rw [hnone] at hremove
      cases hremove
    · obtain rfl := Option.some.inj (hremove'.symm.trans hremove)
      have hlength := h.length_contents
      have hshort := congrArg List.length hcontents
      rw [List.length_append, List.length_take, List.length_drop] at hshort
      omega
  · intro hsum
    obtain ⟨a', hremove, -, haccepted, -⟩ := meets_removeRange h (Or.inr hsum)
    exact ⟨a', hremove, (haccepted (Or.inr hstart)).contents_eq⟩

/-- `RemoveRange(1, uint(-1))` leaves the block. -/
theorem removeRange_iff_all :
    (∃ a', ScriptArray.removeRange ⟨4, false, [1, 2, 3], 3, [], []⟩ 1 4294967295 = some a' ∧
        a'.contents = [1] ++ ([] : List ℕ)) ↔ 1 + 4294967295 < 4294967296 :=
  removeRange_iff (a := ⟨4, false, [1, 2, 3], 3, [], []⟩) ⟨by decide, by decide, by decide, by decide⟩
    (show 1 ≤ 3 by decide) 4294967295

/-- **An element that is inserted without room for it** takes the place of the one that is there. -/
theorem insertAt_full (m : Allocator α) (h : a.Valid) {index : ℕ} (hindex : index ≤ a.numElements)
    (hchecked : a.Checked (a.numElements + 1)) (hfull : ¬a.CanHold m (a.numElements + 1)) (value : α) :
    ∃ a' e, a.insertAt m index value = some a' ∧ a'.Valid ∧ a'.contents = a.contents.set index value ∧
      a'.exceptions = a.exceptions ++ e :: (if index = a.numElements then [.indexOutOfBounds] else []) := by
  have hsmall := h.size.trans_lt h.small
  rcases resizeBy_grow m h Nat.one_pos index hchecked (by omega) with ⟨-, e, hresize⟩ | ⟨hhold, -⟩
  swap
  · exact absurd hhold hfull
  have hsafe := setException_safe h e
  have hset : a.insertAt m index value = (a.setException e).setValue index value := by
    unfold insertAt
    rw [if_neg (Nat.not_lt_of_le hindex)]
    exact congrArg (fun r => Option.bind r _) hresize
  rw [hset]
  by_cases hend : index = a.numElements
  · have hnothing : a.contents.set index value = a.contents :=
      List.set_eq_of_length_le (by rw [h.length_contents]; exact hend.ge)
    refine ⟨_, e, if_pos hend.ge, (setException_safe hsafe.valid _).valid, hnothing.symm, ?_⟩
    rw [if_pos hend]
    exact List.append_assoc _ _ _
  · obtain ⟨a', ha', -, -, hbecomes, -⟩ := exists_setValue hsafe.valid index value
    have hbecomes := hbecomes (lt_of_le_of_ne hindex hend)
    refine ⟨a', e, ha', hbecomes.valid, hbecomes.contents_eq, ?_⟩
    rw [if_neg hend]
    exact hbecomes.noException

/-- Without memory, the second of three elements is lost. -/
theorem insertAt_full_three :
    ∃ a' e, ScriptArray.insertAt noCells ⟨8, true, [5, 0, 5], 3, [5, 5], []⟩ 1 9 = some a' ∧ a'.Valid ∧
      a'.contents = [5, 9, 5] ∧ a'.exceptions = e :: [] :=
  insertAt_full noCells (a := ⟨8, true, [5, 0, 5], 3, [5, 5], []⟩) ⟨by decide, by decide, by decide, by decide⟩
    (show 1 ≤ 3 by decide) (by decide) (by decide) 9

end

end ScriptArray

end ScriptArrays

end NovusHeadless
