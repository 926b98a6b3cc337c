import Mathlib.Tactic

/-!
# Lists cut by a separator

* `segments sep cs` — the parts `cs`, each behind a separator; `components` takes a list apart again;
* `findInfix pat l` — the first place of `pat` in `l`.  A separator, a part and a separator are found where
  the part is the first of its kind that is not the last part (`findInfix_segments`);
* `climb up` — a stack machine over parts: the part `up` takes the part in front of it away.  Taking one
  such pair out anywhere does not change what the machine computes (`climb_cancel`).
-/

namespace NovusHeadless.Lib

section Segments

variable {α : Type*} {sep : α}

/-- The parts, each behind a separator. -/
def segments (sep : α) (cs : List (List α)) : List α := cs.flatMap (sep :: ·)

/-- What stands in front of the first separator, and the parts behind the separators. -/
def components [DecidableEq α] (sep : α) : List α → List α × List (List α)
  | [] => ([], [])
  | a :: l =>
    if a = sep then ([], (components sep l).1 :: (components sep l).2)
    else (a :: (components sep l).1, (components sep l).2)

/-- No part has a separator in it. -/
def Whole (sep : α) (cs : List (List α)) : Prop := ∀ c ∈ cs, sep ∉ c

@[simp] lemma segments_nil : segments sep ([] : List (List α)) = [] := rfl

lemma segments_cons (c : List α) (cs : List (List α)) :
    segments sep (c :: cs) = sep :: (c ++ segments sep cs) := rfl

lemma segments_append (cs ds : List (List α)) :
    segments sep (cs ++ ds) = segments sep cs ++ segments sep ds := List.flatMap_append

lemma mem_segments {a : α} {cs : List (List α)} (h : a ∈ segments sep cs) : a = sep ∨ ∃ c ∈ cs, a ∈ c := by
  obtain ⟨c, hc, ha⟩ := List.mem_flatMap.1 h
  rcases List.mem_cons.1 ha with rfl | ha
  · exact Or.inl rfl
  · exact Or.inr ⟨c, hc, ha⟩

lemma mem_segments_of_mem {a : α} {c : List α} {cs : List (List α)} (hc : c ∈ cs) (ha : a ∈ c) :
    a ∈ segments sep cs := List.mem_flatMap.2 ⟨c, hc, List.mem_cons_of_mem _ ha⟩

lemma length_le_segments (cs : List (List α)) : cs.length ≤ (segments sep cs).length := by
  induction cs with
  | nil => exact le_rfl
  | cons c cs ih =>
    simp only [segments_cons, List.length_cons, List.length_append]
    omega

variable [DecidableEq α]

lemma components_append (l : List α) : (components sep l).1 ++ segments sep (components sep l).2 = l := by
  induction l with
  | nil => rfl
  | cons a l ih =>
    unfold components
    split
    · rename_i ha
      rw [segments_cons, ih, ha, List.nil_append]
    · rw [List.cons_append, ih]

lemma whole_components (l : List α) :
    sep ∉ (components sep l).1 ∧ Whole sep (components sep l).2 := by
  induction l with
  | nil => exact ⟨List.not_mem_nil, fun c hc => absurd hc List.not_mem_nil⟩
  | cons a l ih =>
    unfold components
    split
    · exact ⟨List.not_mem_nil, List.forall_mem_cons.2 ih⟩
    · rename_i ha
      refine ⟨fun hmem => ?_, ih.2⟩
      rcases List.mem_cons.1 hmem with rfl | hmem
      · exact ha rfl
      · exact ih.1 hmem

lemma components_segments {cs : List (List α)} (h : Whole sep cs) : components sep (segments sep cs) = ([], cs) := by
  have hfront : ∀ (c : List α) (l : List α), sep ∉ c →
      components sep (c ++ l) = (c ++ (components sep l).1, (components sep l).2) := by
    intro c l hc
    induction c with
    | nil => rfl
    | cons a c ih =>
      rw [List.mem_cons, not_or] at hc
      rw [List.cons_append, components, if_neg (Ne.symm hc.1), ih hc.2]
      rfl
  induction cs with
  | nil => rfl
  | cons c cs ih =>
    obtain ⟨hc, hcs⟩ := List.forall_mem_cons.1 h
    rw [segments_cons, components, if_pos rfl, hfront c _ hc, ih hcs, List.append_nil]

/-! ### Looking for a part -/

/-- The first place of a list in another one. -/
def findInfix (pat : List α) : List α → Option ℕ
  | [] => if pat = [] then some 0 else none
  | a :: l => if pat <+: a :: l then some 0 else (findInfix pat l).map (· + 1)

lemma findInfix_append {pat c : List α} (l : List α) (hc : sep ∉ c) :
    findInfix (sep :: pat) (c ++ l) = (findInfix (sep :: pat) l).map (· + c.length) := by
  induction c with
  | nil => simp
  | cons a c ih =>
    rw [List.mem_cons, not_or] at hc
    rw [List.cons_append, findInfix, if_neg fun h => hc.1 (List.cons_prefix_cons.1 h).1, ih hc.2,
      Option.map_map]
    rfl

omit [DecidableEq α] in
/-- A part with a separator behind it is at the front only when it is the first part, and not the last. -/
lemma part_eq_of_front {u c : List α} {cs : List (List α)} (hu : sep ∉ u) (hc : sep ∉ c)
    (h : u ++ [sep] <+: c ++ segments sep cs) : c = u ∧ cs ≠ [] := by
  induction u generalizing c with
  | nil =>
    cases c with
    | nil => exact ⟨rfl, fun hcs => by simp [hcs] at h⟩
    | cons b c =>
      obtain ⟨rfl, -⟩ := List.cons_prefix_cons.1 h
      exact absurd List.mem_cons_self hc
  | cons a u ih =>
    rw [List.mem_cons, not_or] at hu
    cases c with
    | nil =>
      cases cs with
      | nil => exact absurd (List.prefix_nil.1 h) (List.cons_ne_nil _ _)
      | cons d ds =>
        obtain ⟨rfl, -⟩ := List.cons_prefix_cons.1 h
        exact absurd rfl hu.1
    | cons b c =>
      rw [List.mem_cons, not_or] at hc
      obtain ⟨rfl, htail⟩ := List.cons_prefix_cons.1 h
      obtain ⟨rfl, hcs⟩ := ih hu.2 hc.2 htail
      exact ⟨rfl, hcs⟩

/-- **A part between separators** is found behind the parts that are other ones. -/
theorem findInfix_segments {u : List α} {pre : List (List α)} (rest : List (List α)) (hu : sep ∉ u)
    (hpre : Whole sep pre) (hne : u ∉ pre) :
    findInfix (sep :: (u ++ [sep])) (segments sep (pre ++ rest)) =
      (findInfix (sep :: (u ++ [sep])) (segments sep rest)).map (· + (segments sep pre).length) := by
  induction pre with
  | nil => simp
  | cons c pre ih =>
    obtain ⟨hc, hpre⟩ := List.forall_mem_cons.1 hpre
    rw [List.mem_cons, not_or] at hne
    have hno : ¬sep :: (u ++ [sep]) <+: sep :: (c ++ segments sep (pre ++ rest)) := fun h =>
      hne.1 (part_eq_of_front hu hc (List.cons_prefix_cons.1 h).2).1.symm
    rw [List.cons_append, segments_cons, findInfix, if_neg hno, findInfix_append _ hc, ih hpre hne.2,
      Option.map_map, Option.map_map, segments_cons, List.length_cons, List.length_append]
    congr 1
    funext n
    simp only [Function.comp_apply]
    omega

lemma findInfix_segments_self {u : List α} {rest : List (List α)} (hrest : rest ≠ []) :
    findInfix (sep :: (u ++ [sep])) (segments sep (u :: rest)) = some 0 := by
  obtain ⟨c, rest, rfl⟩ := List.exists_cons_of_ne_nil hrest
  have hprefix : sep :: (u ++ [sep]) <+: sep :: (u ++ segments sep (c :: rest)) := by
    rw [segments_cons, List.cons_prefix_cons]
    exact ⟨rfl, by rw [List.prefix_append_right_inj, List.cons_prefix_cons]; exact ⟨rfl, List.nil_prefix⟩⟩
  rw [segments_cons, findInfix, if_pos hprefix]

/-- A part that is not among the others is not found, not even as the last part. -/
lemma findInfix_segments_eq_none {u : List α} {cs : List (List α)} (hu : sep ∉ u) (hcs : Whole sep cs)
    (h : u ∉ cs.dropLast) : findInfix (sep :: (u ++ [sep])) (segments sep cs) = none := by
  rcases List.eq_nil_or_concat' cs with rfl | ⟨pre, c, rfl⟩
  · exact if_neg (List.cons_ne_nil _ _)
  · rw [List.dropLast_concat] at h
    have hc : sep ∉ c := hcs c (List.mem_append_right _ List.mem_cons_self)
    have hno : ¬sep :: (u ++ [sep]) <+: sep :: (c ++ segments sep []) := fun h =>
      (part_eq_of_front hu hc (List.cons_prefix_cons.1 h).2).2 rfl
    rw [findInfix_segments _ hu (fun d hd => hcs d (List.mem_append_left _ hd)) h, segments_cons, findInfix,
      if_neg hno, findInfix_append _ hc]
    rfl

end Segments

section Climb

variable {κ : Type*} [DecidableEq κ] {up : κ}

/-- The parts that are left, when each `up` but for the last part takes the part in front of it away; `none`
when there is no part in front of it. -/
def climb (up : κ) : List κ → List κ → Option (List κ)
  | stack, [] => some stack.reverse
  | stack, [c] => some (stack.reverse ++ [c])
  | stack, c :: d :: cs =>
    if c = up then
      match stack with
      | [] => none
      | _ :: stack => climb up stack (d :: cs)
    else climb up (c :: stack) (d :: cs)

lemma climb_cons_of_ne {c : κ} {stack rest : List κ} (hc : c ≠ up) (hrest : rest ≠ []) :
    climb up stack (c :: rest) = climb up (c :: stack) rest := by
  obtain ⟨d, cs, rfl⟩ := List.exists_cons_of_ne_nil hrest
  cases stack <;> simp [climb, hc]

lemma climb_up {c : κ} {stack rest : List κ} (hrest : rest ≠ []) :
    climb up (c :: stack) (up :: rest) = climb up stack rest := by
  obtain ⟨d, cs, rfl⟩ := List.exists_cons_of_ne_nil hrest
  simp [climb]

lemma climb_up_nil {rest : List κ} (hrest : rest ≠ []) : climb up [] (up :: rest) = none := by
  obtain ⟨d, cs, rfl⟩ := List.exists_cons_of_ne_nil hrest
  simp [climb]

lemma climb_append {pre stack rest : List κ} (hpre : up ∉ pre) (hrest : rest ≠ []) :
    climb up stack (pre ++ rest) = climb up (pre.reverse ++ stack) rest := by
  induction pre generalizing stack with
  | nil => rfl
  | cons c pre ih =>
    rw [List.mem_cons, not_or] at hpre
    rw [List.cons_append, climb_cons_of_ne (Ne.symm hpre.1) (by simp [hrest]), ih hpre.2, List.reverse_cons,
      List.append_assoc, List.singleton_append]

/-- **A part and the `up` behind it cancel.** -/
theorem climb_cancel {pre rest : List κ} {c : κ} (hpre : up ∉ pre) (hc : c ≠ up) (hrest : rest ≠ []) :
    climb up [] (pre ++ c :: up :: rest) = climb up [] (pre ++ rest) := by
  rw [climb_append hpre (List.cons_ne_nil _ _), climb_append hpre hrest,
    climb_cons_of_ne hc (List.cons_ne_nil _ _), climb_up hrest]

lemma climb_of_not_mem {cs : List κ} (h : up ∉ cs.dropLast) : climb up [] cs = some cs := by
  rcases List.eq_nil_or_concat' cs with rfl | ⟨pre, c, rfl⟩
  · rfl
  · rw [List.dropLast_concat] at h
    rw [climb_append h (List.cons_ne_nil _ _), climb, List.append_nil, List.reverse_reverse]

omit [DecidableEq κ] in
/-- Either no part but for the last one is `up`, or there is a first one that is. -/
lemma exists_first_up (up : κ) (cs : List κ) :
    up ∉ cs.dropLast ∨ ∃ pre rest, cs = pre ++ up :: rest ∧ rest ≠ [] ∧ up ∉ pre := by
  rw [or_iff_not_imp_left, not_not]
  intro hmem
  obtain ⟨pre, post, hsplit, hpre⟩ := List.eq_append_cons_of_mem hmem
  have hne : cs ≠ [] := by
    rintro rfl
    cases hmem
  refine ⟨pre, post ++ [cs.getLast hne], ?_, by simp, hpre⟩
  conv_lhs => rw [← List.dropLast_append_getLast hne, hsplit, List.append_assoc, List.cons_append]

/-- What is left has no `up` but for the last part. -/
lemma climb_normal {stack cs r : List κ} (hstack : up ∉ stack) (h : climb up stack cs = some r) :
    up ∉ r.dropLast := by
  fun_induction climb up stack cs with
  | case1 stack =>
    obtain rfl := Option.some.inj h
    exact fun hmem => hstack (List.mem_reverse.1 (List.dropLast_subset _ hmem))
  | case2 stack c =>
    obtain rfl := Option.some.inj h
    rw [List.dropLast_concat, List.mem_reverse]
    exact hstack
  | case3 d cs => cases h
  | case4 d cs c stack ih => exact ih (fun hmem => hstack (List.mem_cons_of_mem _ hmem)) h
  | case5 stack c d cs hc ih =>
    refine ih (fun hmem => ?_) h
    rcases List.mem_cons.1 hmem with rfl | hmem
    · exact hc rfl
    · exact hstack hmem

lemma mem_of_climb {stack cs r : List κ} (h : climb up stack cs = some r) :
    (∀ c ∈ r, c ∈ stack ∨ c ∈ cs) ∧ (cs ≠ [] → ∀ c ∈ r.dropLast, c ∈ stack ∨ c ∈ cs.dropLast) := by
  fun_induction climb up stack cs with
  | case1 stack =>
    obtain rfl := Option.some.inj h
    exact ⟨fun c hc => Or.inl (List.mem_reverse.1 hc), fun h => absurd rfl h⟩
  | case2 stack c =>
    obtain rfl := Option.some.inj h
    simp
  | case3 d cs => cases h
  | case4 d cs c stack ih =>
    obtain ⟨hall, hinner⟩ := ih h
    refine ⟨fun e he => ?_, fun _ e he => ?_⟩
    · rcases hall e he with hmem | hmem
      · exact Or.inl (List.mem_cons_of_mem _ hmem)
      · exact Or.inr (List.mem_cons_of_mem _ hmem)
    · rcases hinner (List.cons_ne_nil _ _) e he with hmem | hmem
      · exact Or.inl (List.mem_cons_of_mem _ hmem)
      · exact Or.inr (List.mem_cons_of_mem _ hmem)
  | case5 stack c d cs hc ih =>
    obtain ⟨hall, hinner⟩ := ih h
    refine ⟨fun e he => ?_, fun _ e he => ?_⟩
    · rcases hall e he with hmem | hmem
      · rcases List.mem_cons.1 hmem with rfl | hmem
        · exact Or.inr List.mem_cons_self
        · exact Or.inl hmem
      · exact Or.inr (List.mem_cons_of_mem _ hmem)
    · rcases hinner (List.cons_ne_nil _ _) e he with hmem | hmem
      · rcases List.mem_cons.1 hmem with rfl | hmem
        · exact Or.inr List.mem_cons_self
        · exact Or.inl hmem
      · exact Or.inr (List.mem_cons_of_mem _ hmem)

lemma climb_ne_nil {stack cs r : List κ} (h : climb up stack cs = some r) (hne : cs ≠ []) : r ≠ [] := by
  fun_induction climb up stack cs with
  | case1 stack => exact absurd rfl hne
  | case2 stack c =>
    obtain rfl := Option.some.inj h
    simp
  | case3 d cs => cases h
  | case4 d cs c stack ih => exact ih h (List.cons_ne_nil _ _)
  | case5 stack c d cs hc ih => exact ih h (List.cons_ne_nil _ _)

/-! ### Leaving a part out -/

/-- The parts without those that are `u`, but for the last part. -/
def dropInner (u : κ) (cs : List κ) : List κ := cs.dropLast.filter (· ≠ u) ++ cs.getLast?.toList

lemma dropInner_append {u : κ} {pre rest : List κ} (hrest : rest ≠ []) :
    dropInner u (pre ++ rest) = pre.filter (· ≠ u) ++ dropInner u rest := by
  unfold dropInner
  rw [List.dropLast_append_of_ne_nil hrest, List.filter_append, List.append_assoc,
    List.getLast?_append_of_ne_nil _ hrest]

lemma dropInner_of_not_mem {u : κ} {cs : List κ} (h : u ∉ cs.dropLast) : dropInner u cs = cs := by
  rcases List.eq_nil_or_concat' cs with rfl | ⟨pre, c, rfl⟩
  · rfl
  · rw [List.dropLast_concat] at h
    have hfilter : pre.filter (· ≠ u) = pre := by
      rw [List.filter_eq_self]
      intro d hd
      simp only [decide_eq_true_eq]
      rintro rfl
      exact h hd
    unfold dropInner
    rw [List.dropLast_concat, List.getLast?_concat, hfilter]
    rfl

lemma dropInner_ne_nil (u : κ) {cs : List κ} (h : cs ≠ []) : dropInner u cs ≠ [] := by
  obtain ⟨pre, c, rfl⟩ := (List.eq_nil_or_concat' cs).resolve_left h
  unfold dropInner
  rw [List.getLast?_concat]
  simp

lemma not_mem_dropInner (u : κ) (cs : List κ) : u ∉ (dropInner u cs).dropLast := by
  rcases List.eq_nil_or_concat' cs with rfl | ⟨pre, c, rfl⟩
  · exact List.not_mem_nil
  · unfold dropInner
    rw [List.dropLast_concat, List.getLast?_concat]
    show u ∉ (pre.filter (· ≠ u) ++ [c]).dropLast
    rw [List.dropLast_concat, List.mem_filter]
    simp

lemma mem_of_dropInner {u c : κ} {cs : List κ} (h : c ∈ dropInner u cs) : c ∈ cs := by
  unfold dropInner at h
  rcases List.mem_append.1 h with hmem | hmem
  · exact List.dropLast_subset _ (List.mem_filter.1 hmem).1
  · exact List.mem_of_getLast? (Option.mem_toList.1 hmem)

end Climb

end NovusHeadless.Lib
