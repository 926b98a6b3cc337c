import NovusHeadless.Lib.Delimited
import NovusHeadless.Lib.Terminated
import NovusHeadless.Scripting.ArrayOperations

/-!
# Splitting and joining strings (`scriptstdstring_utils.cpp`)

The loop of `StringSplit` need not end, so it is run for a number of rounds.

* `stringSplit_returns_iff` — it ends exactly with a delimiter that is not empty, and memory for the parts;
* `stringJoin_stringSplit_iff` — the parts are joined to the string exactly when no zero is in the last one, which is
  copied as a string with a terminator;
* `stringSplit_stringJoin_iff` — which arrays are the parts of what they are joined to.
-/

namespace NovusHeadless

open Lib ScriptArrays

namespace StdStringUtils

/-- `(int)str.find(delim, prev)`. -/
def findFrom (delim str : Bytes) (prev : ℤ) : ℤ :=
  let start := (prev % 18446744073709551616).toNat
  if start ≤ str.length then
    match findInfix delim (str.drop start) with
    | none => -1
    | some k => asInt (start + k)
  else -1

/-- The string from `prev` up to `pos`; `none` when these are not places of it, in this order. -/
def stretch (str : Bytes) (prev pos : ℤ) : Option Bytes :=
  if 0 ≤ prev ∧ prev ≤ pos ∧ pos ≤ str.length then some ((str.drop prev.toNat).take (pos - prev).toNat) else none

section

-- whether there is memory for an array of this size: `Resize` does nothing without, and there is no last element
variable (canHold : ℕ → Bool)

/-- One more element. -/
def addPart (array : List Bytes) (part : Bytes) : Option (List Bytes) :=
  if canHold (array.length + 1) then some (array ++ [part]) else none

/-- The loop over the delimiters, with `prev` and the array that it ends with. -/
def splitLoop (delim str : Bytes) : ℕ → ℤ → List Bytes → Option (ℤ × List Bytes)
  | 0, _, _ => none
  | n + 1, prev, array =>
    let pos := findFrom delim str prev
    if pos = -1 then some (prev, array)
    else do
      let part ← stretch str prev pos
      let array ← addPart canHold array part
      splitLoop delim str n (pos + asInt delim.length) array

/-- The remaining part, which is assigned from a pointer to it. -/
def addRest (str : Bytes) (prev : ℤ) (array : List Bytes) : Option (List Bytes) := do
  let rest ← stretch str prev str.length
  addPart canHold array (cString rest)

/-- `StringSplit`, whose loop ends within this number of rounds. -/
def stringSplit (rounds : ℕ) (delim str : Bytes) : Option (List Bytes) := do
  let (prev, array) ← splitLoop canHold delim str rounds 0 []
  addRest canHold str prev array

end

def stringJoin (array : List Bytes) (delim : Bytes) : Bytes :=
  match array.getLast? with
  | none => []
  | some last => array.dropLast.foldl (fun str part => str ++ part ++ delim) [] ++ last

example : stringSplit (fun _ => true) 9 (ascii "|") (ascii "A|B||D") = some [ascii "A", ascii "B", [], ascii "D"] := by
  decide

/-! ### The loop -/

/-- The parts as they are copied. -/
def clipLast : List Bytes → List Bytes
  | [] => []
  | [part] => [cString part]
  | part :: next :: parts => part :: clipLast (next :: parts)

lemma clipLast_cons {part : Bytes} {parts : List Bytes} (h : parts ≠ []) :
    clipLast (part :: parts) = part :: clipLast parts := by
  obtain ⟨next, parts, rfl⟩ := List.exists_cons_of_ne_nil h
  rfl

section

variable {canHold : ℕ → Bool} {delim str rest : Bytes} {parts r : List Bytes}

lemma findFrom_append {front : Bytes} (hlength : (front ++ rest).length < 2147483648) :
    findFrom delim (front ++ rest) front.length =
      match findInfix delim rest with
      | none => -1
      | some k => ((front.length + k : ℕ) : ℤ) := by
  rw [List.length_append] at hlength
  have hstart : ((front.length : ℤ) % 18446744073709551616).toNat = front.length := by omega
  unfold findFrom
  rw [hstart, if_pos (by rw [List.length_append]; exact Nat.le_add_right _ _), List.drop_left]
  cases hfind : findInfix delim rest with
  | none => rfl
  | some k =>
    have hle := (findInfix_eq_some_iff.1 hfind).1
    exact asInt_of_lt (by omega)

lemma stretch_append (front l behind : Bytes) :
    stretch (front ++ (l ++ behind)) front.length ((front.length + l.length : ℕ) : ℤ) = some l := by
  unfold stretch
  rw [if_pos ⟨by omega, by omega, by simp only [List.length_append]; omega⟩]
  have hcount : (((front.length + l.length : ℕ) : ℤ) - front.length).toNat = l.length := by omega
  rw [hcount, Int.toNat_natCast, List.drop_left, List.take_left]

lemma addPart_eq_some_iff {array : List Bytes} {part : Bytes} :
    addPart canHold array part = some r ↔ canHold (array.length + 1) = true ∧ r = array ++ [part] := by
  unfold addPart
  rw [Option.ite_none_right_eq_some, Option.some.injEq, eq_comm (a := r)]

/-- **The loop from a place on**, and what follows it, add the parts that are left. -/
lemma splitLoop_eq_some_iff (h : Parts delim rest parts) {front : Bytes} {array : List Bytes}
    (hlength : (front ++ rest).length < 2147483648) {n : ℕ} :
    ((splitLoop canHold delim (front ++ rest) n front.length array).bind fun p =>
        addRest canHold (front ++ rest) p.1 p.2) = some r ↔
      parts.length ≤ n ∧ (∀ k, array.length < k → k ≤ array.length + parts.length → canHold k = true) ∧
        r = array ++ clipLast parts := by
  induction h generalizing front array n with
  | @last l hnone =>
    cases n with
    | zero => simp [splitLoop]
    | succ n =>
      have hend : addRest canHold (front ++ l) front.length array = addPart canHold array (cString l) := by
        have hpart := stretch_append front l []
        rw [List.append_nil, ← List.length_append] at hpart
        unfold addRest
        rw [hpart]
        rfl
      unfold splitLoop
      rw [findFrom_append hlength, findInfix_eq_none_iff.2 hnone]
      dsimp only
      rw [if_pos rfl, Option.bind_some, hend, addPart_eq_some_iff]
      constructor
      · rintro ⟨hhold, rfl⟩
        refine ⟨Nat.succ_le_succ (Nat.zero_le n), fun k hlt hle => ?_, rfl⟩
        rwa [show k = array.length + 1 from le_antisymm hle hlt]
      · rintro ⟨-, hhold, rfl⟩
        exact ⟨hhold _ (Nat.lt_succ_self _) le_rfl, rfl⟩
  | @cons l rest parts hleads hparts ih =>
    cases n with
    | zero => simp [splitLoop]
    | succ n =>
      have hassoc : front ++ (l ++ (delim ++ rest)) = (front ++ l ++ delim) ++ rest := by
        simp only [List.append_assoc]
      have hnext : ((front.length + l.length : ℕ) : ℤ) + asInt delim.length = (front ++ l ++ delim).length := by
        simp only [List.length_append] at hlength ⊢
        rw [asInt_of_lt (by omega)]
        omega
      have hfound : ((front.length + l.length : ℕ) : ℤ) ≠ -1 := by omega
      unfold splitLoop
      rw [findFrom_append hlength, findInfix_of_leads hleads]
      dsimp only
      rw [if_neg hfound, stretch_append]
      simp only [Option.bind_eq_bind, Option.bind_some]
      rw [hnext, Option.bind_assoc]
      -- the part is added, and the loop goes on behind the delimiter
      have hcons : ∀ array', ((splitLoop canHold delim (front ++ (l ++ (delim ++ rest))) n (front ++ l ++ delim).length
          array').bind fun p => addRest canHold (front ++ (l ++ (delim ++ rest))) p.1 p.2) = some r ↔
            parts.length ≤ n ∧ (∀ k, array'.length < k → k ≤ array'.length + parts.length → canHold k = true) ∧
              r = array' ++ clipLast parts := by
        intro array'
        rw [hassoc]
        exact ih (by rwa [← hassoc])
      rw [Option.bind_eq_some_iff]
      simp only [hcons, addPart_eq_some_iff, clipLast_cons hparts.ne_nil, List.length_cons]
      constructor
      · rintro ⟨array', ⟨hhold, rfl⟩, hle, hmore, rfl⟩
        refine ⟨Nat.succ_le_succ hle, fun k hlt hle => ?_, ?_⟩
        · rcases Nat.eq_or_lt_of_le hlt with rfl | hlt
          · exact hhold
          · refine hmore k ?_ ?_
            · rw [List.length_append]
              exact hlt
            · rw [List.length_append, List.length_singleton]
              omega
        · rw [List.append_assoc, List.singleton_append]
      · rintro ⟨hle, hhold, rfl⟩
        refine ⟨_, ⟨hhold _ (Nat.lt_succ_self _) (by omega), rfl⟩, Nat.le_of_succ_le_succ hle, fun k hlt hle => ?_, ?_⟩
        · rw [List.length_append, List.length_singleton] at hlt hle
          exact hhold k (by omega) (by omega)
        · rw [List.append_assoc, List.singleton_append]

lemma splitLoop_nil (n : ℕ) (array : List Bytes) : splitLoop canHold [] str n 0 array = none := by
  have hzero : findInfix [] str = some 0 :=
    findInfix_eq_some_iff.2 ⟨Nat.zero_le _, List.nil_prefix, fun i hi => absurd hi (Nat.not_lt_zero i)⟩
  have hfind : findFrom [] str 0 = 0 := by
    unfold findFrom
    rw [Int.zero_emod, Int.toNat_zero, if_pos (Nat.zero_le _), List.drop_zero, hzero]
    rfl
  have hpart : stretch str 0 0 = some [] := by
    unfold stretch
    rw [if_pos ⟨le_rfl, le_rfl, Int.natCast_nonneg _⟩]
    rfl
  induction n generalizing array with
  | zero => rfl
  | succ n ih =>
    unfold splitLoop
    rw [hfind]
    dsimp only
    rw [if_neg (by decide), hpart]
    simp only [Option.bind_eq_bind, Option.bind_some]
    refine Option.bind_eq_none_iff.2 fun array' _ => ?_
    exact ih array'

lemma stringSplit_eq_some_iff (h : Parts delim str parts) (hlength : str.length < 2147483648) {n : ℕ} :
    stringSplit canHold n delim str = some r ↔
      parts.length ≤ n ∧ (∀ k, 0 < k → k ≤ parts.length → canHold k = true) ∧ r = clipLast parts := by
  have hloop : ((splitLoop canHold delim ([] ++ str) n ([] : Bytes).length []).bind fun p =>
      addRest canHold ([] ++ str) p.1 p.2) = some r ↔
        parts.length ≤ n ∧ (∀ k, ([] : List Bytes).length < k → k ≤ ([] : List Bytes).length + parts.length →
          canHold k = true) ∧ r = [] ++ clipLast parts :=
    splitLoop_eq_some_iff h (show ([] ++ str).length < 2147483648 from hlength)
  rw [List.nil_append, List.length_nil, List.length_nil, Nat.zero_add, List.nil_append] at hloop
  exact hloop

end

/-! ### Strings that are split -/

section

variable {canHold : ℕ → Bool} {delim str : Bytes} {parts r : List Bytes}

lemma delim_ne_nil {n : ℕ} (h : stringSplit canHold n delim str = some r) : delim ≠ [] := by
  rintro rfl
  unfold stringSplit at h
  rw [splitLoop_nil] at h
  cases h

/-- **When a string is split**: the delimiter is not empty, and there is memory for the parts. -/
theorem stringSplit_returns_iff (hlength : str.length < 2147483648) :
    (∃ n r, stringSplit canHold n delim str = some r) ↔
      delim ≠ [] ∧ ∃ parts, Parts delim str parts ∧ ∀ k, 0 < k → k ≤ parts.length → canHold k = true := by
  constructor
  · rintro ⟨n, r, hr⟩
    have hdelim := delim_ne_nil hr
    obtain ⟨parts, hparts⟩ := exists_parts hdelim str
    exact ⟨hdelim, parts, hparts, ((stringSplit_eq_some_iff hparts hlength).1 hr).2.1⟩
  · rintro ⟨-, parts, hparts, hhold⟩
    exact ⟨parts.length, _, (stringSplit_eq_some_iff hparts hlength).2 ⟨le_rfl, hhold, rfl⟩⟩

/-- A delimiter of two bytes, in a string with three of them that overlap. -/
theorem stringSplit_returns_iff_overlap :
    (∃ n r, stringSplit (fun _ => true) n (ascii "--") (ascii "a----b-") = some r) ↔
      ascii "--" ≠ [] ∧ ∃ parts, Parts (ascii "--") (ascii "a----b-") parts ∧
        ∀ k, 0 < k → k ≤ parts.length → (fun _ : ℕ => true) k = true :=
  stringSplit_returns_iff (by decide)

lemma stringJoin_concat (l : List Bytes) (last : Bytes) :
    stringJoin (l ++ [last]) delim = l.foldl (fun str part => str ++ part ++ delim) [] ++ last := by
  unfold stringJoin
  rw [List.getLast?_concat, List.dropLast_concat]

lemma stringJoin_eq (array : List Bytes) (delim : Bytes) : stringJoin array delim = delim.intercalate array := by
  have hfold : ∀ (l : List Bytes) (str last : Bytes),
      l.foldl (fun str part => str ++ part ++ delim) str ++ last = str ++ delim.intercalate (l ++ [last]) := by
    intro l
    induction l with
    | nil =>
      intro str last
      rw [List.nil_append, List.intercalate_singleton]
      rfl
    | cons part l ih =>
      intro str last
      rw [List.foldl_cons, ih, List.cons_append,
        List.intercalate_cons_of_ne_nil (List.append_ne_nil_of_right_ne_nil _ (List.cons_ne_nil _ _))]
      simp only [List.append_assoc]
  rcases List.eq_nil_or_concat' array with rfl | ⟨l, last, rfl⟩
  · rfl
  · rw [stringJoin_concat, hfold, List.nil_append]

lemma clipLast_concat (l : List Bytes) (last : Bytes) : clipLast (l ++ [last]) = l ++ [cString last] := by
  induction l with
  | nil => rfl
  | cons part l ih =>
    rw [List.cons_append, clipLast_cons (List.append_ne_nil_of_right_ne_nil _ (List.cons_ne_nil _ _)), ih]
    rfl

/-- **When the parts are joined to the string**: there is no zero behind its last delimiter. -/
theorem stringJoin_stringSplit_iff (hlength : str.length < 2147483648) {n : ℕ}
    (h : stringSplit canHold n delim str = some r) :
    stringJoin r delim = str ↔ ∃ l last, Parts delim str (l ++ [last]) ∧ 0 ∉ last := by
  constructor
  · intro hjoin
    obtain ⟨parts, hparts⟩ := exists_parts (delim_ne_nil h) str
    obtain ⟨-, -, rfl⟩ := (stringSplit_eq_some_iff hparts hlength).1 h
    obtain ⟨l, last, rfl⟩ := (List.eq_nil_or_concat' parts).resolve_left hparts.ne_nil
    have hwhole := hparts.intercalate_eq
    rw [← stringJoin_eq, stringJoin_concat] at hwhole
    rw [clipLast_concat, stringJoin_concat, ← hwhole, List.append_cancel_left_eq] at hjoin
    exact ⟨l, last, hparts, cString_eq_self_iff.1 hjoin⟩
  · rintro ⟨l, last, hparts, hzero⟩
    obtain ⟨-, -, rfl⟩ := (stringSplit_eq_some_iff hparts hlength).1 h
    rw [clipLast_concat, cString_eq_self_iff.2 hzero, stringJoin_eq]
    exact hparts.intercalate_eq

/-- What is behind the zero in the last part is lost. -/
theorem stringJoin_stringSplit_iff_zero :
    stringJoin [ascii "a", ascii "b"] (ascii "|") = [97, 124, 98, 0, 99] ↔
      ∃ l last, Parts (ascii "|") [97, 124, 98, 0, 99] (l ++ [last]) ∧ 0 ∉ last :=
  @stringJoin_stringSplit_iff (fun _ => true) (ascii "|") [97, 124, 98, 0, 99] [ascii "a", ascii "b"] (by decide) 2
    (by decide)

/-- **Which arrays are the parts of what they are joined to**: no delimiter begins in a part in front of the one
behind it, and there is neither a delimiter nor a zero in the last part. -/
theorem stringSplit_stringJoin_iff (hdelim : delim ≠ []) (hlength : (stringJoin parts delim).length < 2147483648)
    (hhold : ∀ k, 0 < k → k ≤ parts.length → canHold k = true) :
    (∃ n, stringSplit canHold n delim (stringJoin parts delim) = some parts) ↔
      ∃ l last, parts = l ++ [last] ∧ (∀ part ∈ l, Leads delim part) ∧ ¬delim <:+: last ∧ 0 ∉ last := by
  constructor
  · rintro ⟨n, hn⟩
    obtain ⟨qs, hqs⟩ := exists_parts hdelim (stringJoin parts delim)
    obtain ⟨-, -, hclip⟩ := (stringSplit_eq_some_iff hqs hlength).1 hn
    obtain ⟨l, last, rfl⟩ := (List.eq_nil_or_concat' qs).resolve_left hqs.ne_nil
    obtain ⟨-, hleads, last', hlast', hnone⟩ := parts_iff.1 hqs
    rw [List.getLast?_concat, Option.some.injEq] at hlast'
    subst hlast'
    rw [List.dropLast_concat] at hleads
    rw [clipLast_concat] at hclip
    refine ⟨l, cString last, hclip, hleads, fun hfound => hnone (hfound.trans (cString_isPrefix last).isInfix), ?_⟩
    -- the remaining part has lost its terminator already
    exact zero_notMem_cString last
  · rintro ⟨l, last, rfl, hleads, hnone, hzero⟩
    have hparts : Parts delim (stringJoin (l ++ [last]) delim) (l ++ [last]) := by
      refine parts_iff.2 ⟨(stringJoin_eq _ _).symm, ?_, last, List.getLast?_concat, hnone⟩
      rwa [List.dropLast_concat]
    refine ⟨_, (stringSplit_eq_some_iff hparts hlength).2 ⟨le_rfl, hhold, ?_⟩⟩
    rw [clipLast_concat, cString_eq_self_iff.2 hzero]

/-- `{"a-", "b"}` is not what is left of `"a---b"`. -/
theorem stringSplit_stringJoin_iff_overlap :
    (∃ n, stringSplit (fun _ => true) n (ascii "--") (ascii "a---b") = some [ascii "a-", ascii "b"]) ↔
      ∃ l last, [ascii "a-", ascii "b"] = l ++ [last] ∧ (∀ part ∈ l, Leads (ascii "--") part) ∧
        ¬ascii "--" <:+: last ∧ 0 ∉ last :=
  stringSplit_stringJoin_iff (show ascii "--" ≠ [] by decide)
    (show (stringJoin [ascii "a-", ascii "b"] (ascii "--")).length < 2147483648 by decide) fun _ _ _ => rfl

end

end StdStringUtils

end NovusHeadless
