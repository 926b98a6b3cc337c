import NovusHeadless.Lib.Components
import NovusHeadless.Scripting.Tokenizer

/-!
# Absolute paths (`scriptbuilder.cpp`, `GetAbsolutePath`)

The last loop of `GetAbsolutePath` need not end, so it is run for a number of rounds.

* `parentLoop_iff` — for a path that begins with a slash the loop ends exactly when no `..` leads above the
  root, and the path that it leaves is the one that the parts spell, each `..` taking the part in front of
  it away.
-/

namespace NovusHeadless

open Lib Tokenizer

namespace FilePaths

abbrev colon : UInt8 := 0x3A

/-- `str.find(pat, pos)`. -/
def find (pat str : Bytes) (pos : ℕ) : Option ℕ := (findInfix pat (str.drop pos)).map (· + pos)

/-- `str.rfind("/", pos - 1)`: the subtraction wraps around at zero, and then all of the text is searched. -/
def rfindSlash (str : Bytes) (pos : ℕ) : Option ℕ :=
  let searched := if pos = 0 then str else str.take pos
  (searched.reverse.findIdx? (· == slash)).map fun n => searched.length - 1 - n

/-- `str.erase(pos, behind - pos)`: the subtraction wraps around when `behind` is less, and then all that
follows is erased. -/
def erase (str : Bytes) (pos behind : ℕ) : Bytes :=
  if pos ≤ behind then str.take pos ++ str.drop behind else str.take pos

/-- The path is relative to the current directory. -/
def isRelative (str : Bytes) : Bool :=
  !(str.head? == some slash || str.head? == some backslash || str.contains colon)

/-- The path, complemented and with forward slashes only. -/
def complemented (currentDir file : Bytes) : Bytes :=
  let str := if isRelative file then currentDir ++ slash :: file else file
  str.map fun c => if c = backslash then slash else c

/-- The part that stands for its own directory. -/
def here : Bytes := [dot]

/-- The part that stands for the directory above. -/
def parent : Bytes := [dot, dot]

lemma findInfix_le {pat str : Bytes} {n : ℕ} (h : findInfix pat str = some n) : n + pat.length ≤ str.length := by
  induction str generalizing n with
  | nil =>
    rw [findInfix, Option.ite_none_right_eq_some] at h
    obtain ⟨rfl, h⟩ := h
    rw [← Option.some.inj h]
    rfl
  | cons a str ih =>
    rw [findInfix] at h
    split at h
    · rename_i hprefix
      rw [← Option.some.inj h, Nat.zero_add]
      exact hprefix.length_le
    · obtain ⟨m, hm, rfl⟩ := Option.map_eq_some_iff.1 h
      have := ih hm
      rw [List.length_cons]
      omega

/-- The loop that replaces `/./`. -/
def removeHere (str : Bytes) (pos : ℕ) : Bytes :=
  match h : find (slash :: (here ++ [slash])) str pos with
  | none => str
  | some pos => removeHere (erase str (pos + 1) (pos + 1 + 2)) pos
termination_by str.length
decreasing_by
  unfold find at h
  obtain ⟨n, hn, rfl⟩ := Option.map_eq_some_iff.1 h
  have hle := findInfix_le hn
  rw [List.length_drop] at hle
  have : (slash :: (here ++ [slash])).length = 3 := rfl
  unfold erase
  rw [if_pos (by omega), List.length_append, List.length_take, List.length_drop]
  omega

/-- A round of the loop that replaces `/../`. -/
def parentRound (str : Bytes) : Option Bytes :=
  match find (slash :: (parent ++ [slash])) str 0 with
  | none => none
  | some pos => (rfindSlash str pos).map fun pos2 => erase str pos2 (pos + 3)

/-- The loop, for at most as many rounds as given: `none` when it has not ended by then. -/
def parentLoop : ℕ → Bytes → Option Bytes
  | 0, _ => none
  | n + 1, str =>
    match parentRound str with
    | none => some str
    | some str => parentLoop n str

/-- `GetAbsolutePath(file)` in a current directory; `none` when the last loop does not end. -/
def getAbsolutePath (currentDir file : Bytes) : Option Bytes :=
  let str := removeHere (complemented currentDir file) 0
  parentLoop (str.length + 1) str

/-! ### The loop over `/./` -/

lemma slash_notMem_here : slash ∉ here := by decide

lemma slash_notMem_parent : slash ∉ parent := by decide

lemma find_append (pat front str : Bytes) :
    find pat (front ++ str) front.length = (findInfix pat str).map (· + front.length) := by
  unfold find
  rw [List.drop_left]

/-- The pattern is found at the first part of its kind, the last part left out of account. -/
lemma find_segments (front : Bytes) {u : Bytes} {pre rest : List Bytes} (hu : slash ∉ u) (hpre : Whole slash pre)
    (hne : u ∉ pre) (hrest : rest ≠ []) :
    find (slash :: (u ++ [slash])) (front ++ segments slash (pre ++ u :: rest)) front.length =
      some (front ++ segments slash pre).length := by
  rw [find_append, findInfix_segments _ hu hpre hne, findInfix_segments_self hrest, List.length_append]
  simp [Nat.add_comm]

lemma find_segments_eq_none (front : Bytes) {u : Bytes} {cs : List Bytes} (hu : slash ∉ u) (hcs : Whole slash cs)
    (h : u ∉ cs.dropLast) : find (slash :: (u ++ [slash])) (front ++ segments slash cs) front.length = none := by
  rw [find_append, findInfix_segments_eq_none hu hcs h]
  rfl

lemma removeHere_of_none {str : Bytes} {pos : ℕ} (h : find (slash :: (here ++ [slash])) str pos = none) :
    removeHere str pos = str := by
  rw [removeHere]
  split <;> simp_all

lemma removeHere_of_some {str : Bytes} {pos pos' : ℕ} (h : find (slash :: (here ++ [slash])) str pos = some pos') :
    removeHere str pos = removeHere (erase str (pos' + 1) (pos' + 1 + 2)) pos' := by
  rw [removeHere]
  split <;> simp_all

/-- **The loop over `/./`** leaves the parts out that stand for their own directory. -/
lemma removeHere_segments (front : Bytes) {cs : List Bytes} (hcs : Whole slash cs) :
    removeHere (front ++ segments slash cs) front.length = front ++ segments slash (dropInner here cs) := by
  induction hn : cs.length using Nat.strong_induction_on generalizing front cs with
  | _ n ih =>
    rcases exists_first_up here cs with hnone | ⟨pre, rest, rfl, hrest, hpre⟩
    · rw [removeHere_of_none (find_segments_eq_none front slash_notMem_here hcs hnone), dropInner_of_not_mem hnone]
    · have hwhole : Whole slash pre := fun c hc => hcs c (List.mem_append_left _ hc)
      have hwhole' : Whole slash rest := fun c hc =>
        hcs c (List.mem_append_right _ (List.mem_cons_of_mem _ hc))
      have hfilter : pre.filter (· ≠ here) = pre := by
        rw [List.filter_eq_self]
        intro d hd
        simp only [decide_eq_true_eq]
        rintro rfl
        exact hpre hd
      -- the pattern is cut out but for one slash
      have herase : erase (front ++ segments slash (pre ++ here :: rest))
          ((front ++ segments slash pre).length + 1) ((front ++ segments slash pre).length + 1 + 2) =
          (front ++ segments slash pre) ++ segments slash rest := by
        obtain ⟨c, rest, rfl⟩ := List.exists_cons_of_ne_nil hrest
        have hsplit : front ++ segments slash (pre ++ here :: c :: rest) =
            ((front ++ segments slash pre) ++ [slash]) ++ ([dot, slash] ++ (c ++ segments slash rest)) := by
          simp only [segments_append, segments_cons, here, List.append_assoc, List.cons_append, List.nil_append]
        have hlength : (front ++ segments slash pre).length + 1 =
            ((front ++ segments slash pre) ++ [slash]).length := by
          simp only [List.length_append, List.length_singleton]
        unfold erase
        rw [if_pos (Nat.le_add_right _ _), hsplit, hlength, List.take_left, ← List.drop_drop, List.drop_left]
        simp only [segments_cons, List.append_assoc, List.singleton_append]
        rfl
      rw [removeHere_of_some (find_segments front slash_notMem_here hwhole hpre hrest), herase,
        ih rest.length (by rw [← hn, List.length_append, List.length_cons]; omega) _ hwhole' rfl,
        dropInner_append (List.cons_ne_nil _ _), hfilter]
      have hdrop : dropInner here (here :: rest) = dropInner here rest := by
        have hone : dropInner here ([here] ++ rest) = [here].filter (· ≠ here) ++ dropInner here rest :=
          dropInner_append hrest
        simpa using hone
      rw [hdrop, segments_append, List.append_assoc]

/-! ### The loop over `/../` -/

lemma findIdx?_lastSlash (front : Bytes) {c : Bytes} (hc : slash ∉ c) :
    (front ++ slash :: c).reverse.findIdx? (· == slash) = some c.length := by
  have hnone : c.reverse.findIdx? (· == slash) = none := by
    rw [List.findIdx?_eq_none_iff]
    intro d hd
    rw [beq_eq_false_iff_ne]
    rintro rfl
    exact hc (List.mem_reverse.1 hd)
  rw [List.reverse_append, List.reverse_cons, List.append_assoc, List.findIdx?_append, hnone]
  simp [List.findIdx?_cons]

lemma rfindSlash_part (front rest : Bytes) {c : Bytes} (hc : slash ∉ c) :
    rfindSlash (front ++ slash :: (c ++ rest)) (front ++ slash :: c).length = some front.length := by
  have hsearched : (front ++ slash :: (c ++ rest)).take (front ++ slash :: c).length = front ++ slash :: c := by
    rw [← List.cons_append, ← List.append_assoc, List.take_left]
  unfold rfindSlash
  rw [if_neg (by simp), hsearched]
  simp only [findIdx?_lastSlash front hc, Option.map_some, List.length_append, List.length_cons]
  congr 1
  omega

lemma rfindSlash_zero (front : Bytes) {c : Bytes} (hc : slash ∉ c) :
    rfindSlash (front ++ slash :: c) 0 = some front.length := by
  unfold rfindSlash
  simp only [if_true, findIdx?_lastSlash front hc, Option.map_some, List.length_append, List.length_cons]
  congr 1
  omega

lemma parentRound_eq_none {cs : List Bytes} (hcs : Whole slash cs) (h : parent ∉ cs.dropLast) :
    parentRound (segments slash cs) = none := by
  have hfind := find_segments_eq_none [] slash_notMem_parent hcs h
  rw [List.nil_append, List.length_nil] at hfind
  unfold parentRound
  rw [hfind]

/-- **A round takes a directory and the `..` behind it away.** -/
lemma parentRound_cancel {pre rest : List Bytes} {c : Bytes} (hcs : Whole slash (pre ++ c :: parent :: rest))
    (hpre : parent ∉ pre) (hc : c ≠ parent) (hrest : rest ≠ []) :
    parentRound (segments slash (pre ++ c :: parent :: rest)) = some (segments slash (pre ++ rest)) := by
  have hwhole : Whole slash (pre ++ [c]) := fun d hd => hcs d (by
    rcases List.mem_append.1 hd with hd | hd
    · exact List.mem_append_left _ hd
    · rw [List.mem_singleton.1 hd]
      exact List.mem_append_right _ List.mem_cons_self)
  have hslash : slash ∉ c := hwhole c (List.mem_append_right _ List.mem_cons_self)
  have hnot : parent ∉ pre ++ [c] := by
    rw [List.mem_append, List.mem_singleton, not_or]
    exact ⟨hpre, Ne.symm hc⟩
  have hfind := find_segments [] slash_notMem_parent hwhole hnot hrest
  have hparts : pre ++ [c] ++ parent :: rest = pre ++ c :: parent :: rest := by
    rw [List.append_assoc, List.singleton_append]
  rw [List.nil_append, hparts, List.nil_append, List.length_nil] at hfind
  have hpiece : segments slash (pre ++ [c]) = segments slash pre ++ slash :: c := by
    rw [segments_append, segments_cons, segments_nil, List.append_nil]
  have htext : segments slash (pre ++ c :: parent :: rest) =
      segments slash pre ++ slash :: (c ++ segments slash (parent :: rest)) := by
    rw [segments_append, segments_cons]
  have hbehind : segments slash pre ++ slash :: (c ++ segments slash (parent :: rest)) =
      (segments slash pre ++ slash :: c ++ (slash :: parent)) ++ segments slash rest := by
    simp only [segments_cons, List.append_assoc, List.cons_append]
  have hlength : (segments slash pre ++ slash :: c).length + 3 =
      (segments slash pre ++ slash :: c ++ (slash :: parent)).length := by
    simp only [parent, List.length_append, List.length_cons, List.length_nil]
  unfold parentRound
  rw [hfind, hpiece, htext]
  simp only [rfindSlash_part _ _ hslash, Option.map_some]
  unfold erase
  rw [if_pos (by simp only [List.length_append, List.length_cons]; omega), List.take_left, hbehind, hlength,
    List.drop_left, segments_append]

/-- **Above the root** a round leaves a path that leads above the root. -/
lemma parentRound_root {rest : List Bytes} (hcs : Whole slash (parent :: rest)) (hrest : rest ≠ []) :
    ∃ rest', rest' ≠ [] ∧ Whole slash (parent :: rest') ∧
      parentRound (segments slash (parent :: rest)) = some (segments slash (parent :: rest')) := by
  obtain ⟨front, c, rfl⟩ := (List.eq_nil_or_concat' rest).resolve_left hrest
  have hslash : slash ∉ c := hcs c (by simp)
  have hfind : find (slash :: (parent ++ [slash])) (segments slash (parent :: (front ++ [c]))) 0 = some 0 := by
    unfold find
    rw [List.drop_zero, findInfix_segments_self hrest]
    rfl
  have htext : segments slash (parent :: (front ++ [c])) = segments slash (parent :: front) ++ slash :: c := by
    rw [← List.cons_append, segments_append, segments_cons c, segments_nil, List.append_nil]
  have hround : parentRound (segments slash (parent :: (front ++ [c]))) =
      some (erase (segments slash (parent :: (front ++ [c]))) (segments slash (parent :: front)).length 3) := by
    unfold parentRound
    rw [hfind]
    simp only [htext, rfindSlash_zero _ hslash, Option.map_some, Nat.zero_add]
  by_cases hfront : front = []
  · -- the last slash is the one behind the `..`, and nothing is erased
    subst hfront
    refine ⟨[c], List.cons_ne_nil _ _, hcs, ?_⟩
    rw [hround]
    congr 1
  · -- the last part is erased
    refine ⟨front, hfront, fun d hd => hcs d ?_, ?_⟩
    · rcases List.mem_cons.1 hd with rfl | hd
      · exact List.mem_cons_self
      · exact List.mem_cons_of_mem _ (List.mem_append_left _ hd)
    · have hlong : ¬(segments slash (parent :: front)).length ≤ 3 := by
        obtain ⟨d, front, rfl⟩ := List.exists_cons_of_ne_nil hfront
        simp only [segments_cons, parent, List.length_cons, List.length_append, List.length_nil]
        omega
      rw [hround]
      unfold erase
      rw [if_neg hlong, htext, List.take_left]

/-! ### When the loop ends -/

lemma parentLoop_succ (n : ℕ) (str : Bytes) :
    parentLoop (n + 1) str = (parentRound str).elim (some str) (parentLoop n) := by
  rw [parentLoop]
  cases parentRound str <;> rfl

lemma parentLoop_mono {n m : ℕ} {str r : Bytes} (h : parentLoop n str = some r) (hle : n ≤ m) :
    parentLoop m str = some r := by
  induction n generalizing m str with
  | zero => cases h
  | succ n ih =>
    obtain ⟨m, rfl⟩ := Nat.exists_eq_add_of_le' (Nat.one_le_of_lt hle)
    rw [parentLoop_succ] at h ⊢
    cases hround : parentRound str with
    | none =>
      rw [hround] at h
      exact h
    | some str' =>
      rw [hround] at h
      exact ih h (Nat.le_of_succ_le_succ hle)

lemma parentLoop_root (n : ℕ) {rest : List Bytes} (hcs : Whole slash (parent :: rest)) (hrest : rest ≠ []) :
    parentLoop n (segments slash (parent :: rest)) = none := by
  induction n generalizing rest with
  | zero => rfl
  | succ n ih =>
    obtain ⟨rest', hrest', hcs', hround⟩ := parentRound_root hcs hrest
    rw [parentLoop_succ, hround]
    exact ih hcs' hrest'

/-- **The loop computes what the stack machine computes**: in at most one round more than there are parts,
or in no number of rounds. -/
lemma parentLoop_segments {cs : List Bytes} (hcs : Whole slash cs) :
    (∀ ds, climb parent [] cs = some ds → parentLoop (cs.length + 1) (segments slash cs) = some (segments slash ds)) ∧
      (climb parent [] cs = none → ∀ n, parentLoop n (segments slash cs) = none) := by
  induction hn : cs.length using Nat.strong_induction_on generalizing cs with
  | _ n ih =>
    subst hn
    rcases exists_first_up parent cs with hnone | ⟨pre, rest, rfl, hrest, hpre⟩
    · rw [climb_of_not_mem hnone]
      refine ⟨fun ds hds => ?_, fun h => by cases h⟩
      obtain rfl := Option.some.inj hds
      rw [parentLoop_succ, parentRound_eq_none hcs hnone]
      rfl
    · rcases List.eq_nil_or_concat' pre with rfl | ⟨pre, c, rfl⟩
      · -- the first `..` is the first part
        rw [List.nil_append] at hcs ⊢
        rw [climb_up_nil hrest]
        exact ⟨fun ds hds => (by cases hds), fun _ n => parentLoop_root n hcs hrest⟩
      · rw [List.mem_append, List.mem_singleton, not_or] at hpre
        rw [List.append_assoc, List.singleton_append] at hcs ih ⊢
        have hc : c ≠ parent := Ne.symm hpre.2
        have hround := parentRound_cancel hcs hpre.1 hc hrest
        have hshort : (pre ++ rest).length + 1 + 1 = (pre ++ c :: parent :: rest).length := by
          simp only [List.length_append, List.length_cons]
          omega
        have hwhole : Whole slash (pre ++ rest) := fun d hd => hcs d (by
          rcases List.mem_append.1 hd with hd | hd
          · exact List.mem_append_left _ hd
          · exact List.mem_append_right _ (List.mem_cons_of_mem _ (List.mem_cons_of_mem _ hd)))
        obtain ⟨hends, hendless⟩ := ih (pre ++ rest).length (by omega) hwhole rfl
        rw [climb_cancel hpre.1 hc hrest]
        refine ⟨fun ds hds => ?_, fun h n => ?_⟩
        · rw [parentLoop_succ, hround]
          exact parentLoop_mono (hends ds hds) (by omega)
        · cases n with
          | zero => rfl
          | succ n =>
            rw [parentLoop_succ, hround]
            exact hendless h n

/-- The text before the last loop. -/
def prepared (currentDir file : Bytes) : Bytes := removeHere (complemented currentDir file) 0

/-- The parts of a path, without those that stand for their own directory. -/
def partsOf (currentDir file : Bytes) : List Bytes :=
  dropInner here (components slash (complemented currentDir file)).2

/-- What the path spells, when no `..` leads above the root. -/
def resolved (currentDir file : Bytes) : Option (List Bytes) := climb parent [] (partsOf currentDir file)

/-- The path is absolute once it has been complemented. -/
abbrev Rooted (currentDir file : Bytes) : Prop := (complemented currentDir file).head? = some slash

lemma complemented_eq {currentDir file : Bytes} (h : Rooted currentDir file) :
    complemented currentDir file = segments slash (components slash (complemented currentDir file)).2 := by
  obtain ⟨str, hstr⟩ := List.head?_eq_some_iff.1 h
  have hfront : (components slash (complemented currentDir file)).1 = [] := by
    rw [hstr, components, if_pos rfl]
  have hwhole : (components slash (complemented currentDir file)).1 ++
      segments slash (components slash (complemented currentDir file)).2 = complemented currentDir file :=
    components_append _
  rw [hfront, List.nil_append] at hwhole
  exact hwhole.symm

lemma whole_partsOf (currentDir file : Bytes) : Whole slash (partsOf currentDir file) :=
  fun _ hc => (whole_components (complemented currentDir file)).2 _ (mem_of_dropInner hc)

lemma prepared_eq {currentDir file : Bytes} (h : Rooted currentDir file) :
    prepared currentDir file = segments slash (partsOf currentDir file) := by
  have hwhole : Whole slash (components slash (complemented currentDir file)).2 := (whole_components _).2
  have hloop := removeHere_segments [] hwhole
  rw [List.nil_append, List.nil_append, List.length_nil, ← complemented_eq h] at hloop
  exact hloop

/-- **`GetAbsolutePath` on an absolute path**: the last loop ends if and only if no `..` leads above the root,
and what it leaves is the path that the parts spell. -/
theorem parentLoop_iff {currentDir file : Bytes} (h : Rooted currentDir file) (r : Bytes) :
    (∃ n, parentLoop n (prepared currentDir file) = some r) ↔
      ∃ cs, resolved currentDir file = some cs ∧ r = segments slash cs := by
  obtain ⟨hends, hendless⟩ := parentLoop_segments (whole_partsOf currentDir file)
  rw [prepared_eq h]
  constructor
  · rintro ⟨n, hn⟩
    cases hresolved : resolved currentDir file with
    | none =>
      rw [hendless hresolved n] at hn
      cases hn
    | some cs =>
      refine ⟨cs, rfl, ?_⟩
      -- both numbers of rounds give the result
      have hcs := parentLoop_mono (hends cs hresolved) (Nat.le_max_left _ n)
      rw [parentLoop_mono hn (Nat.le_max_right _ n)] at hcs
      exact Option.some.inj hcs
  · rintro ⟨cs, hresolved, rfl⟩
    exact ⟨_, hends cs hresolved⟩

theorem parentLoop_iff_sample :
    ∃ n, parentLoop n (prepared (ascii "/home/u") (ascii "a/./../../b.as")) = some (ascii "/home/b.as") :=
  (parentLoop_iff (by decide) _).2 ⟨[ascii "home", ascii "b.as"], by decide, by decide⟩

theorem getAbsolutePath_eq {currentDir file : Bytes} (h : Rooted currentDir file) :
    getAbsolutePath currentDir file = (resolved currentDir file).map (segments slash) := by
  obtain ⟨hends, hendless⟩ := parentLoop_segments (whole_partsOf currentDir file)
  have hrounds : (partsOf currentDir file).length + 1 ≤ (prepared currentDir file).length + 1 := by
    rw [prepared_eq h]
    exact Nat.succ_le_succ (length_le_segments _)
  unfold getAbsolutePath
  rw [← prepared, prepared_eq h]
  rw [prepared_eq h] at hrounds
  cases hresolved : resolved currentDir file with
  | none => exact hendless hresolved _
  | some cs => exact parentLoop_mono (hends cs hresolved) hrounds

/-- An absolute path in which nothing is left to resolve. -/
structure Canonical (path : Bytes) : Prop where
  rooted : path.head? = some slash
  noBackslash : backslash ∉ path
  noHere : here ∉ (components slash path).2.dropLast
  noParent : parent ∉ (components slash path).2.dropLast

lemma backslash_notMem_complemented (currentDir file : Bytes) : backslash ∉ complemented currentDir file := by
  unfold complemented
  rw [List.mem_map]
  rintro ⟨c, -, hc⟩
  split at hc
  · exact absurd hc (by decide)
  · rename_i hne
    exact hne hc

lemma canonical_of_resolved {currentDir file : Bytes} {cs : List Bytes} (h : Rooted currentDir file)
    (hcs : resolved currentDir file = some cs) : Canonical (segments slash cs) := by
  obtain ⟨hmem, hinner⟩ := mem_of_climb hcs
  have hparts : partsOf currentDir file ≠ [] := by
    refine dropInner_ne_nil here fun hnil => ?_
    have hempty := complemented_eq h
    rw [hnil, segments_nil] at hempty
    unfold Rooted at h
    rw [hempty] at h
    cases h
  have hne := climb_ne_nil hcs hparts
  have hin : ∀ c ∈ cs, c ∈ partsOf currentDir file := fun c hc =>
    (hmem c hc).resolve_left List.not_mem_nil
  have hcomponents : components slash (segments slash cs) = ([], cs) :=
    components_segments fun c hc => whole_partsOf currentDir file c (hin c hc)
  refine ⟨?_, fun hback => ?_, ?_, ?_⟩
  · obtain ⟨c, cs, rfl⟩ := List.exists_cons_of_ne_nil hne
    rfl
  · rcases mem_segments hback with heq | ⟨c, hc, hback⟩
    · exact absurd heq (by decide)
    · refine backslash_notMem_complemented currentDir file ?_
      rw [complemented_eq h]
      exact mem_segments_of_mem (mem_of_dropInner (hin c hc)) hback
  · rw [hcomponents]
    intro hhere
    exact not_mem_dropInner here _ ((hinner hparts here hhere).resolve_left List.not_mem_nil)
  · rw [hcomponents]
    exact climb_normal List.not_mem_nil hcs

/-- A canonical path is left alone, in every current directory. -/
lemma getAbsolutePath_of_canonical (currentDir : Bytes) {path : Bytes} (h : Canonical path) :
    getAbsolutePath currentDir path = some path := by
  obtain ⟨str, hstr⟩ := List.head?_eq_some_iff.1 h.rooted
  have hrelative : isRelative path = false := by
    unfold isRelative
    rw [hstr]
    rfl
  have hsame : complemented currentDir path = path := by
    unfold complemented
    rw [hrelative]
    refine (List.map_congr_left fun c hc => ?_).trans (List.map_id _)
    rw [if_neg]
    · rfl
    · rintro rfl
      exact h.noBackslash hc
  have hrooted : Rooted currentDir path := by
    unfold Rooted
    rw [hsame]
    exact h.rooted
  have hparts : partsOf currentDir path = (components slash path).2 := by
    unfold partsOf
    rw [hsame, dropInner_of_not_mem h.noHere]
  have hpath := complemented_eq hrooted
  rw [hsame] at hpath
  rw [getAbsolutePath_eq hrooted]
  unfold resolved
  rw [hparts, climb_of_not_mem h.noParent, Option.map_some, ← hpath]

/-- **A path that `GetAbsolutePath` returns** is canonical, and is returned again for itself. -/
theorem getAbsolutePath_canonical {currentDir file r : Bytes} (h : Rooted currentDir file)
    (hr : getAbsolutePath currentDir file = some r) :
    Canonical r ∧ ∀ dir, getAbsolutePath dir r = some r := by
  rw [getAbsolutePath_eq h] at hr
  obtain ⟨cs, hcs, rfl⟩ := Option.map_eq_some_iff.1 hr
  have hcanonical := canonical_of_resolved h hcs
  exact ⟨hcanonical, fun dir => getAbsolutePath_of_canonical dir hcanonical⟩

theorem getAbsolutePath_canonical_sample :
    Canonical (ascii "/home/b.as") ∧
      ∀ dir, getAbsolutePath dir (ascii "/home/b.as") = some (ascii "/home/b.as") :=
  getAbsolutePath_canonical
    (show Rooted (ascii "/home/u") (ascii "..\\b.as") by decide) (by decide +kernel)

end FilePaths

end NovusHeadless
