import NovusHeadless.Cryptography.SHA1

/-!
# The arguments of `UpdateHashForBn` (`Cryptography/SHA1.cpp`)

The loop hashes the number at hand and then fetches the next one, also behind the last number.

* `VaList` has the arguments behind `bigNumber0` and the number of calls of `va_arg`; the pointer that a call
  gets when no argument is left is `none`.
* `updateLoop_eq` is the loop with the invariant: before each pass the number at hand is the one behind
  those that have been fetched.
* `hashArguments_never` — the bytes are those of all of the numbers, and one argument too many is fetched.
-/

namespace NovusHeadless

open Lib

/-- `va_list`. -/
structure VaList where
  arguments : List BigNumber
  fetched : ℕ

/-- `va_arg`. -/
def VaList.vaArg (v : VaList) : Option BigNumber × VaList :=
  (v.arguments[v.fetched]?, { v with fetched := v.fetched + 1 })

namespace SHA1Hasher

/-- The loop of `UpdateHashForBn`, with the number of passes that are left; `none` when a pass uses a
pointer that is no number. -/
def updateLoop : ℕ → SHA1Hasher → Option BigNumber → VaList → Option (SHA1Hasher × VaList)
  | 0, h, _, v => some (h, v)
  | _ + 1, _, none, _ => none
  | size + 1, h, some tempBn, v =>
    let h := h.updateHash ((tempBn.bn2BinArray 0 true).take tempBn.getBytes)
    let (tempBn, v) := v.vaArg
    updateLoop size h tempBn v

/-- `UpdateHashForBn(size, bigNumber0, ...)`. -/
def updateHashForBnVa (h : SHA1Hasher) (size : ℕ) (bigNumber0 : BigNumber)
    (arguments : List BigNumber) : Option (SHA1Hasher × VaList) :=
  updateLoop size h (some bigNumber0) ⟨arguments, 0⟩

/-- **The loop** in the middle of a call: `before` has been fetched and `tempBn` is at hand. -/
theorem updateLoop_eq (h : SHA1Hasher) (tempBn : BigNumber) (before after : List BigNumber) :
    updateLoop (after.length + 1) h (some tempBn) ⟨before ++ after, before.length⟩ =
      some (h.updateHashForBn (tempBn :: after),
        ⟨before ++ after, before.length + (after.length + 1)⟩) := by
  induction after generalizing h tempBn before with
  | nil => rfl
  | cons next after ih =>
    have hnext : (before ++ next :: after)[before.length]? = some next := by
      rw [List.getElem?_append_right le_rfl, Nat.sub_self]
      rfl
    have hsplit : before ++ next :: after = (before ++ [next]) ++ after := List.append_cons ..
    have hlen : (before ++ [next]).length = before.length + 1 := by
      rw [List.length_append, List.length_singleton]
    rw [List.length_cons, updateLoop]
    simp only [VaList.vaArg]
    rw [hnext, hsplit, ← hlen, ih]
    show some (_, VaList.mk _ _) = some (_, VaList.mk _ _)
    rw [hlen, Nat.add_assoc, Nat.add_comm 1]
    rfl

/-- **A call** is the hashing of the numbers in their order, with a fetch for each of them. -/
theorem updateHashForBnVa_eq (h : SHA1Hasher) (bigNumber0 : BigNumber)
    (arguments : List BigNumber) :
    h.updateHashForBnVa (arguments.length + 1) bigNumber0 arguments =
      some (h.updateHashForBn (bigNumber0 :: arguments), ⟨arguments, arguments.length + 1⟩) := by
  have hloop := updateLoop_eq h bigNumber0 [] arguments
  rw [List.nil_append, List.length_nil, Nat.zero_add] at hloop
  exact hloop

section

variable (h : SHA1Hasher) (bigNumber0 : BigNumber) (arguments : List BigNumber)

/-- The call feeds the shortest little-endian bytes of the numbers, one number after the other. -/
def FeedsNumbers : Prop :=
  ∃ h' v, h.updateHashForBnVa (arguments.length + 1) bigNumber0 arguments = some (h', v) ∧
    h'.data = h.data ∧
    h'.state = h.state ++
      ((bigNumber0 :: arguments).map fun v => leBytes v.bigNum.natAbs).flatten

/-- The call fetches no argument that was not passed. -/
def FetchesPassed : Prop :=
  ∀ h' v, h.updateHashForBnVa (arguments.length + 1) bigNumber0 arguments = some (h', v) →
    v.fetched ≤ arguments.length

end

lemma data_updateHashForBn (h : SHA1Hasher) (bns : List BigNumber) :
    (h.updateHashForBn bns).data = h.data := by
  unfold updateHashForBn
  induction bns generalizing h with
  | nil => rfl
  | cons v bns ih =>
    rw [List.foldl_cons, ih]
    rfl

/-- **Every call** feeds its numbers, and fetches one argument that was not passed. -/
theorem hashArguments_never (h : SHA1Hasher) (bigNumber0 : BigNumber)
    (arguments : List BigNumber) :
    FeedsNumbers h bigNumber0 arguments ∧ ¬ FetchesPassed h bigNumber0 arguments := by
  have hcall := updateHashForBnVa_eq h bigNumber0 arguments
  refine ⟨⟨_, _, hcall, data_updateHashForBn h _, state_updateHashForBn h _⟩, ?_⟩
  intro hpassed
  have hle := hpassed _ _ hcall
  exact absurd hle (Nat.not_succ_le_self _)

/-- With one number there is nothing to fetch, and one argument is fetched. -/
theorem argument_not_passed :
    ¬ ∀ (h : SHA1Hasher) (bigNumber0 : BigNumber) (arguments : List BigNumber),
      FeedsNumbers h bigNumber0 arguments ∧ FetchesPassed h bigNumber0 arguments := by
  intro hall
  obtain ⟨-, hpassed⟩ := hall .new ⟨1⟩ []
  have hle := hpassed _ _ rfl
  exact absurd hle (by decide)

end SHA1Hasher

end NovusHeadless
