import NovusHeadless.Lib.Components

/-!
# Lists with delimiters

A list is cut at the delimiters that are found in it from the left (`Parts`), which do not overlap.

* `findInfix_eq_some_iff`, `findInfix_eq_none_iff` — what `findInfix` finds;
* `exists_parts` — every list has parts;
* `parts_iff` — which lists of parts these are: those that are joined to the list, when no delimiter begins in one
  of them but at its end, and the last one has no delimiter.
-/

namespace NovusHeadless.Lib

variable {α : Type*}

/-- In the part with a delimiter behind it, no delimiter begins before that one. -/
def Leads (delim part : List α) : Prop := ∀ i < part.length, ¬delim <+: (part ++ delim).drop i

instance decidableLeads [DecidableEq α] (delim part : List α) : Decidable (Leads delim part) :=
  inferInstanceAs (Decidable (∀ i < part.length, ¬delim <+: (part ++ delim).drop i))

/-- The parts of a list. -/
inductive Parts (delim : List α) : List α → List (List α) → Prop
  | last {l : List α} (h : ¬delim <:+: l) : Parts delim l [l]
  | cons {part rest : List α} {parts : List (List α)} (h : Leads delim part) (hparts : Parts delim rest parts) :
      Parts delim (part ++ (delim ++ rest)) (part :: parts)

variable {delim l part rest : List α} {parts : List (List α)}

/-- What follows the first delimiter has nothing to do with what is in front of it. -/
lemma leads_iff_append (rest : List α) :
    Leads delim part ↔ ∀ i < part.length, ¬delim <+: (part ++ (delim ++ rest)).drop i := by
  refine forall₂_congr fun i hi => not_congr ?_
  have hle : i ≤ (part ++ delim).length := by
    rw [List.length_append]
    omega
  rw [← List.append_assoc, List.drop_append_of_le_length hle]
  constructor
  · exact fun h => h.trans (List.prefix_append _ _)
  · intro h
    refine List.prefix_of_prefix_length_le h (List.prefix_append _ _) ?_
    rw [List.length_drop, List.length_append]
    omega

section

variable [DecidableEq α]

lemma findInfix_eq_none_iff : findInfix delim l = none ↔ ¬delim <:+: l := by
  induction l with
  | nil =>
    rw [findInfix, List.infix_nil]
    split <;> simp_all
  | cons a l ih =>
    rw [findInfix, List.infix_cons_iff]
    split
    · simp_all
    · rw [Option.map_eq_none_iff, ih]
      tauto

lemma findInfix_eq_some_iff {n : ℕ} :
    findInfix delim l = some n ↔ n ≤ l.length ∧ delim <+: l.drop n ∧ ∀ i < n, ¬delim <+: l.drop i := by
  induction l generalizing n with
  | nil =>
    rw [findInfix]
    by_cases hdelim : delim = []
    · rw [if_pos hdelim, Option.some.injEq]
      constructor
      · rintro rfl
        exact ⟨le_rfl, hdelim ▸ List.nil_prefix, fun i hi => absurd hi (Nat.not_lt_zero i)⟩
      · rintro ⟨hn, -⟩
        exact (Nat.le_zero.1 hn).symm
    · rw [if_neg hdelim]
      refine iff_of_false (by rintro ⟨⟩) fun h => hdelim ?_
      have hprefix := h.2.1
      rwa [List.drop_nil, List.prefix_nil] at hprefix
  | cons a l ih =>
    rw [findInfix]
    by_cases hprefix : delim <+: a :: l
    · rw [if_pos hprefix, Option.some.injEq]
      constructor
      · rintro rfl
        exact ⟨Nat.zero_le _, hprefix, fun i hi => absurd hi (Nat.not_lt_zero i)⟩
      · rintro ⟨-, -, hfirst⟩
        by_contra hne
        exact hfirst 0 (Nat.pos_of_ne_zero (Ne.symm hne)) hprefix
    · rw [if_neg hprefix, Option.map_eq_some_iff]
      constructor
      · rintro ⟨k, hk, rfl⟩
        obtain ⟨hle, hat, hfirst⟩ := ih.1 hk
        refine ⟨Nat.succ_le_succ hle, hat, fun i hi => ?_⟩
        cases i with
        | zero => exact hprefix
        | succ i => exact hfirst i (Nat.lt_of_succ_lt_succ hi)
      · rintro ⟨hle, hat, hfirst⟩
        cases n with
        | zero => exact absurd hat hprefix
        | succ n =>
          refine ⟨n, ih.2 ⟨Nat.le_of_succ_le_succ hle, hat, fun i hi => ?_⟩, rfl⟩
          exact hfirst (i + 1) (Nat.succ_lt_succ hi)

lemma findInfix_of_leads (h : Leads delim part) (rest : List α) :
    findInfix delim (part ++ (delim ++ rest)) = some part.length := by
  refine findInfix_eq_some_iff.2 ⟨?_, ?_, (leads_iff_append rest).1 h⟩
  · rw [List.length_append]
    exact Nat.le_add_right _ _
  · rw [List.drop_left]
    exact List.prefix_append _ _

/-- The first delimiter that is found, and what is on both sides of it. -/
lemma exists_of_findInfix {n : ℕ} (h : findInfix delim l = some n) :
    ∃ part rest, l = part ++ (delim ++ rest) ∧ part.length = n ∧ Leads delim part := by
  obtain ⟨hle, ⟨rest, hrest⟩, hfirst⟩ := findInfix_eq_some_iff.1 h
  have hsplit : l = l.take n ++ (delim ++ rest) := by rw [hrest, List.take_append_drop]
  have hlength : (l.take n).length = n := by rw [List.length_take, Nat.min_eq_left hle]
  refine ⟨_, _, hsplit, hlength, (leads_iff_append rest).2 fun i hi => ?_⟩
  rw [← hsplit]
  exact hfirst i (hlength ▸ hi)

lemma exists_parts (hdelim : delim ≠ []) (l : List α) : ∃ parts, Parts delim l parts := by
  induction hn : l.length using Nat.strong_induction_on generalizing l with
  | _ n ih =>
    cases hfind : findInfix delim l with
    | none => exact ⟨_, .last (findInfix_eq_none_iff.1 hfind)⟩
    | some k =>
      obtain ⟨part, rest, rfl, -, hleads⟩ := exists_of_findInfix hfind
      have hpos := List.length_pos_of_ne_nil hdelim
      simp only [List.length_append] at hn
      obtain ⟨parts, hparts⟩ := ih rest.length (by omega) rest rfl
      exact ⟨_, .cons hleads hparts⟩

end

/-! ### Parts that are joined -/

lemma Parts.ne_nil (h : Parts delim l parts) : parts ≠ [] := by
  cases h with
  | last => exact List.cons_ne_nil _ _
  | cons => exact List.cons_ne_nil _ _

/-- **The parts of a list are joined to the list.** -/
lemma Parts.intercalate_eq (h : Parts delim l parts) : delim.intercalate parts = l := by
  induction h with
  | last => exact List.intercalate_singleton
  | cons h hparts ih => rw [List.intercalate_cons_of_ne_nil hparts.ne_nil, ih, List.append_assoc]

/-- **Which lists of parts are those of a list.** -/
theorem parts_iff :
    Parts delim l parts ↔ delim.intercalate parts = l ∧ (∀ part ∈ parts.dropLast, Leads delim part) ∧
      ∃ part, parts.getLast? = some part ∧ ¬delim <:+: part := by
  constructor
  · intro h
    refine ⟨h.intercalate_eq, ?_⟩
    induction h with
    | @last l h => exact ⟨fun part hpart => absurd hpart List.not_mem_nil, l, rfl, h⟩
    | cons h hparts ih =>
      obtain ⟨hfront, hlast⟩ := ih
      rw [List.dropLast_cons_of_ne_nil hparts.ne_nil, List.getLast?_cons_of_ne_nil hparts.ne_nil]
      exact ⟨List.forall_mem_cons.2 ⟨h, hfront⟩, hlast⟩
  · rintro ⟨rfl, hfront, last, hlast, hnone⟩
    induction parts with
    | nil => cases hlast
    | cons part parts ih =>
      by_cases hne : parts = []
      · subst hne
        rw [List.intercalate_singleton]
        obtain rfl := Option.some.inj hlast
        exact .last hnone
      · rw [List.dropLast_cons_of_ne_nil hne] at hfront
        rw [List.getLast?_cons_of_ne_nil hne] at hlast
        obtain ⟨hpart, hfront⟩ := List.forall_mem_cons.1 hfront
        rw [List.intercalate_cons_of_ne_nil hne, List.append_assoc]
        exact .cons hpart (ih hfront hlast)

end NovusHeadless.Lib
