import Mathlib.Tactic

/-!
# Trees with keys

A tree in which every node has a list of items, each a key with a subtree, and a search goes into some
of the subtrees.

* `entries t` — every item below `t`, in pre-order;
* `searched t` — the items that a search comes across which, once it has gone into a subtree, does not come
  back: of every node the items up to the first subtree that it goes into;
* `entries_eq_append` — what is searched is the front of the pre-order, `skipped t` the rest;
* `reached es` — a search that goes into the items of a list one after the other;
* `WithinReach t i` — the item `i` below `t` and all that it lies in have nothing in front of them that the
  search goes into; `mem_searched_iff` and `mem_reached_iff` say that these are the items searched;
* `lookup_reached_iff` — when such a search finds the value that comes first in the pre-order.

The value that a key has first is `List.lookup`.
-/

namespace NovusHeadless.Lib

universe u v

/-- Nodes of the type `τ` with keys in `κ`. -/
structure KeyedTree (κ : Type u) (τ : Type v) where
  items : τ → List (κ × τ)
  /-- the search goes into the node -/
  descends : τ → Bool
  size : τ → ℕ
  size_lt : ∀ t, ∀ e ∈ items t, descends e.2 = true → size e.2 < size t

namespace KeyedTree

variable {κ : Type u} {τ : Type v} (T : KeyedTree κ τ)

/-- Every item below a node, in pre-order. -/
def entries (t : τ) : List (κ × τ) :=
  (T.items t).flatMap fun e => e :: if T.descends e.2 = true then entries e.2 else []
termination_by T.size t
decreasing_by exact T.size_lt t _ ‹_› ‹_›

/-- The items of a search that does not come back. -/
def searched (t : τ) : List (κ × τ) :=
  (T.items t).foldr (fun e rest => e :: if T.descends e.2 = true then searched e.2 else rest) []
termination_by T.size t
decreasing_by exact T.size_lt t _ ‹_› ‹_›

/-- The rest of the pre-order. -/
def skipped (t : τ) : List (κ × τ) := (T.entries t).drop (T.searched t).length

/-- The pre-order of a list of items. -/
def below (es : List (κ × τ)) : List (κ × τ) :=
  es.flatMap fun e => e :: if T.descends e.2 = true then T.entries e.2 else []

/-- The search through a list of items. -/
def path (es : List (κ × τ)) : List (κ × τ) :=
  es.foldr (fun e rest => e :: if T.descends e.2 = true then T.searched e.2 else rest) []

theorem entries_eq (t : τ) : T.entries t = T.below (T.items t) := by
  rw [entries]
  rfl

theorem searched_eq (t : τ) : T.searched t = T.path (T.items t) := by
  rw [searched]
  rfl

/-- **Induction on a tree**, along the subtrees that the search goes into. -/
theorem induct {P : τ → Prop}
    (h : ∀ t, (∀ e ∈ T.items t, T.descends e.2 = true → P e.2) → P t) (t : τ) : P t := by
  induction hn : T.size t using Nat.strong_induction_on generalizing t with
  | _ n ih =>
    apply h
    intro e he hd
    exact ih (T.size e.2) (hn ▸ T.size_lt t e he hd) e.2 rfl

section

variable {T} {e : κ × τ} {es : List (κ × τ)}

lemma below_singleton :
    T.below [e] = e :: if T.descends e.2 = true then T.entries e.2 else [] :=
  List.flatMap_singleton _ _

lemma below_cons : T.below (e :: es) = T.below [e] ++ T.below es := by
  rw [below_singleton]
  exact List.flatMap_cons

lemma path_cons :
    T.path (e :: es) = e :: if T.descends e.2 = true then T.searched e.2 else T.path es := rfl

lemma path_isPrefix (h : ∀ e ∈ es, T.descends e.2 = true → T.searched e.2 <+: T.entries e.2) :
    T.path es <+: T.below es := by
  induction es with
  | nil => exact List.nil_prefix
  | cons e es ih =>
    obtain ⟨hfirst, hothers⟩ := List.forall_mem_cons.1 h
    rw [path_cons, below_cons, below_singleton, List.cons_append, List.prefix_cons_inj]
    by_cases hd : T.descends e.2 = true
    · rw [if_pos hd, if_pos hd]
      exact (hfirst hd).trans (List.prefix_append _ _)
    · rw [if_neg hd, if_neg hd]
      exact ih hothers

end

theorem searched_isPrefix (t : τ) : T.searched t <+: T.entries t := by
  induction t using T.induct with
  | h t ih =>
    rw [searched_eq, entries_eq]
    exact path_isPrefix ih

theorem entries_eq_append (t : τ) : T.entries t = T.searched t ++ T.skipped t := by
  obtain ⟨rest, hrest⟩ := T.searched_isPrefix t
  unfold skipped
  rw [← hrest, List.drop_left]

/-! ### The first value of a key -/

section

variable {T} {t : τ} {es : List (κ × τ)}

lemma path_eq_self (h : ∀ e ∈ es, T.descends e.2 = false) : T.path es = es := by
  induction es with
  | nil => rfl
  | cons e es ih =>
    obtain ⟨he, hes⟩ := List.forall_mem_cons.1 h
    rw [path_cons, if_neg (Bool.eq_false_iff.1 he), ih hes]

lemma below_eq_self (h : ∀ e ∈ es, T.descends e.2 = false) : T.below es = es := by
  induction es with
  | nil => rfl
  | cons e es ih =>
    obtain ⟨he, hes⟩ := List.forall_mem_cons.1 h
    rw [below_cons, below_singleton, if_neg (Bool.eq_false_iff.1 he), ih hes]
    rfl

lemma entries_eq_items (h : ∀ e ∈ T.items t, T.descends e.2 = false) :
    T.entries t = T.items t := by
  rw [entries_eq, below_eq_self h]

lemma skipped_eq_nil (h : ∀ e ∈ T.items t, T.descends e.2 = false) : T.skipped t = [] := by
  unfold skipped
  rw [entries_eq_items h, searched_eq, path_eq_self h, List.drop_length]

end

/-- The search goes into every subtree of the list, one after the other. -/
def reached (es : List (κ × τ)) : List (κ × τ) :=
  es.flatMap fun e => e :: if T.descends e.2 = true then T.searched e.2 else []

lemma reached_cons (e : κ × τ) (es : List (κ × τ)) :
    T.reached (e :: es) =
      e :: ((if T.descends e.2 = true then T.searched e.2 else []) ++ T.reached es) := by
  unfold reached
  rw [List.flatMap_cons, List.cons_append]

lemma reached_subset (es : List (κ × τ)) : T.reached es ⊆ T.below es := by
  intro i hi
  obtain ⟨e, he, hi⟩ := List.mem_flatMap.1 hi
  refine List.mem_flatMap.2 ⟨e, he, ?_⟩
  rcases List.mem_cons.1 hi with rfl | hi
  · exact List.mem_cons_self
  · apply List.mem_cons_of_mem
    by_cases hd : T.descends e.2 = true
    · rw [if_pos hd] at hi ⊢
      exact (T.searched_isPrefix e.2).subset hi
    · rw [if_neg hd] at hi
      exact absurd hi List.not_mem_nil

/-! ### What is within reach -/

/-- An item below a node is within reach of the search: neither it nor an item that it lies in has an item
in front of it, in the list of their node, that the search goes into. -/
inductive WithinReach : τ → κ × τ → Prop
  | item {t : τ} {before after : List (κ × τ)} {e : κ × τ} : T.items t = before ++ e :: after →
      (∀ f ∈ before, T.descends f.2 = false) → WithinReach t e
  | inside {t : τ} {before after : List (κ × τ)} {e i : κ × τ} : T.items t = before ++ e :: after →
      (∀ f ∈ before, T.descends f.2 = false) → T.descends e.2 = true → WithinReach e.2 i →
      WithinReach t i

section

variable {T} {e i : κ × τ} {es : List (κ × τ)} {t : τ}

lemma mem_path_iff : i ∈ T.path es ↔
    ∃ before e after, es = before ++ e :: after ∧ (∀ f ∈ before, T.descends f.2 = false) ∧
      (i = e ∨ T.descends e.2 = true ∧ i ∈ T.searched e.2) := by
  induction es with
  | nil =>
    refine iff_of_false List.not_mem_nil ?_
    rintro ⟨before, e, after, heq, -⟩
    exact absurd heq.symm (by simp)
  | cons e es ih =>
    rw [path_cons, List.mem_cons]
    constructor
    · intro hi
      by_cases hd : T.descends e.2 = true
      · rw [if_pos hd] at hi
        exact ⟨[], e, es, rfl, fun f hf => absurd hf List.not_mem_nil, hi.imp_right (And.intro hd)⟩
      · rw [if_neg hd, ih] at hi
        rcases hi with rfl | ⟨before, e', after, rfl, hbefore, hi⟩
        · exact ⟨[], i, es, rfl, fun f hf => absurd hf List.not_mem_nil, Or.inl rfl⟩
        · exact ⟨e :: before, e', after, rfl,
            List.forall_mem_cons.2 ⟨Bool.eq_false_iff.2 hd, hbefore⟩, hi⟩
    · rintro ⟨before, e', after, heq, hbefore, hi⟩
      cases before with
      | nil =>
        obtain ⟨rfl, rfl⟩ := List.cons.inj heq
        rcases hi with rfl | ⟨hd, hi⟩
        · exact Or.inl rfl
        · rw [if_pos hd]
          exact Or.inr hi
      | cons f before =>
        obtain ⟨rfl, rfl⟩ := List.cons.inj heq
        obtain ⟨hf, hbefore⟩ := List.forall_mem_cons.1 hbefore
        right
        rw [if_neg (Bool.eq_false_iff.1 hf)]
        exact ih.2 ⟨before, e', after, rfl, hbefore, hi⟩

/-- **What is searched** is what is within reach. -/
theorem mem_searched_iff : i ∈ T.searched t ↔ T.WithinReach t i := by
  induction t using T.induct with
  | h t ih =>
    rw [searched_eq, mem_path_iff]
    constructor
    · rintro ⟨before, e, after, heq, hbefore, rfl | ⟨hd, hi⟩⟩
      · exact .item heq hbefore
      · have he : e ∈ T.items t := heq ▸ List.mem_append_cons_self
        exact .inside heq hbefore hd ((ih e he hd).1 hi)
    · intro h
      cases h with
      | @item _ before after _ heq hbefore => exact ⟨before, i, after, heq, hbefore, Or.inl rfl⟩
      | @inside _ before after e _ heq hbefore hd hi =>
        have he : e ∈ T.items t := heq ▸ List.mem_append_cons_self
        exact ⟨before, e, after, heq, hbefore, Or.inr ⟨hd, (ih e he hd).2 hi⟩⟩

/-- A search through a list comes across its items and what is within reach in them. -/
theorem mem_reached_iff : i ∈ T.reached es ↔
    i ∈ es ∨ ∃ e ∈ es, T.descends e.2 = true ∧ T.WithinReach e.2 i := by
  unfold reached
  rw [List.mem_flatMap]
  constructor
  · rintro ⟨e, he, hi⟩
    rcases List.mem_cons.1 hi with rfl | hi
    · exact Or.inl he
    · by_cases hd : T.descends e.2 = true
      · rw [if_pos hd] at hi
        exact Or.inr ⟨e, he, hd, mem_searched_iff.1 hi⟩
      · rw [if_neg hd] at hi
        exact absurd hi List.not_mem_nil
  · rintro (hi | ⟨e, he, hd, hi⟩)
    · exact ⟨i, hi, List.mem_cons_self⟩
    · refine ⟨e, he, List.mem_cons_of_mem _ ?_⟩
      rw [if_pos hd]
      exact mem_searched_iff.2 hi

end

/-! ### Hidden keys -/

section

variable [BEq κ]

/-- The key is below the node, but only where the search does not come. -/
structure Hidden (k : κ) (t : τ) : Prop where
  notSearched : (T.searched t).lookup k = none
  skipped : (T.skipped t).lookup k ≠ none

/-- Where the first item with the key is hidden in one of the items of the list, the search finds the
value of that item later. -/
def FoundAfter (k : κ) (es : List (κ × τ)) : Prop :=
  ∀ before e after, es = before ++ e :: after → (T.below before).lookup k = none →
    (k == e.1) = false → T.descends e.2 = true → T.Hidden k e.2 →
    (T.reached after).lookup k = (T.skipped e.2).lookup k

variable {T} {k : κ} {e : κ × τ} {es : List (κ × τ)} {t : τ}

lemma lookup_entries :
    (T.entries t).lookup k = ((T.searched t).lookup k).or ((T.skipped t).lookup k) := by
  rw [entries_eq_append, List.lookup_append]

theorem not_hidden_iff :
    ¬ T.Hidden k t ↔ ((T.searched t).lookup k = none → (T.entries t).lookup k = none) := by
  rw [lookup_entries]
  constructor
  · intro h hsearched
    rw [hsearched, Option.none_or]
    by_contra hskipped
    exact h ⟨hsearched, hskipped⟩
  · rintro h ⟨hsearched, hskipped⟩
    have hnone := h hsearched
    rw [hsearched, Option.none_or] at hnone
    exact hskipped hnone

lemma lookup_searched_eq_none :
    (T.searched t).lookup k = none ↔ ∀ i, T.WithinReach t i → (k == i.1) = false := by
  simp only [List.lookup_eq_none_iff, mem_searched_iff, bne, Bool.not_eq_true']

/-- **A key is hidden** when an item below the node has it and none within reach does. -/
theorem hidden_iff : T.Hidden k t ↔
    (T.entries t).lookup k ≠ none ∧ ∀ i, T.WithinReach t i → (k == i.1) = false := by
  rw [← lookup_searched_eq_none, lookup_entries]
  constructor
  · rintro ⟨hnone, hskipped⟩
    exact ⟨by rwa [hnone, Option.none_or], hnone⟩
  · rintro ⟨hentry, hnone⟩
    rw [hnone, Option.none_or] at hentry
    exact ⟨hnone, hentry⟩

lemma foundAfter_cons :
    T.FoundAfter k (e :: es) ↔
      ((k == e.1) = false → T.descends e.2 = true → T.Hidden k e.2 →
          (T.reached es).lookup k = (T.skipped e.2).lookup k) ∧
        ((T.below [e]).lookup k = none → T.FoundAfter k es) := by
  constructor
  · intro h
    refine ⟨h [] e es rfl rfl, ?_⟩
    rintro hnone before e' after rfl hbefore
    apply h (e :: before) e' after rfl
    rw [below_cons, List.lookup_append, hnone, hbefore, Option.none_or]
  · rintro ⟨hfirst, hothers⟩ before e' after heq hbefore
    cases before with
    | nil =>
      obtain ⟨rfl, rfl⟩ := List.cons.inj heq
      exact hfirst
    | cons e'' before =>
      obtain ⟨rfl, rfl⟩ := List.cons.inj heq
      rw [below_cons, List.lookup_append, Option.or_eq_none_iff] at hbefore
      exact hothers hbefore.1 before e' after rfl hbefore.2

lemma lookup_item (k : κ) (e : κ × τ) (es : List (κ × τ)) :
    (e :: es).lookup k = if k == e.1 then some e.2 else es.lookup k := by
  obtain ⟨key, t⟩ := e
  rw [List.lookup_cons]
  cases k == key <;> rfl

lemma lookup_below_singleton :
    (T.below [e]).lookup k =
      if k == e.1 then some e.2
      else if T.descends e.2 = true then
        ((T.searched e.2).lookup k).or ((T.skipped e.2).lookup k)
      else none := by
  rw [below_singleton, lookup_item]
  by_cases hd : T.descends e.2 = true
  · rw [if_pos hd, if_pos hd, lookup_entries]
  · rw [if_neg hd, if_neg hd, List.lookup_nil]

lemma lookup_reached_cons :
    (T.reached (e :: es)).lookup k =
      if k == e.1 then some e.2
      else if T.descends e.2 = true then
        ((T.searched e.2).lookup k).or ((T.reached es).lookup k)
      else (T.reached es).lookup k := by
  rw [reached_cons, lookup_item]
  by_cases hd : T.descends e.2 = true
  · rw [if_pos hd, if_pos hd, List.lookup_append]
  · rw [if_neg hd, if_neg hd, List.nil_append]

/-- **What the search finds** is what comes first in the pre-order. -/
theorem lookup_reached_iff :
    (T.reached es).lookup k = (T.below es).lookup k ↔ T.FoundAfter k es := by
  induction es with
  | nil =>
    apply iff_of_true rfl
    intro before e after heq
    exact absurd heq.symm (by simp)
  | cons e es ih =>
    rw [foundAfter_cons, below_cons, List.lookup_append, lookup_below_singleton,
      lookup_reached_cons]
    cases hk : k == e.1 with
    | true =>
      -- the item itself has the key
      rw [if_pos rfl, if_pos rfl, Option.some_or]
      exact iff_of_true rfl ⟨fun h => absurd h.symm Bool.false_ne_true,
        fun h => absurd h (Option.some_ne_none _)⟩
    | false =>
      rw [if_neg Bool.false_ne_true, if_neg Bool.false_ne_true]
      cases hd : T.descends e.2 with
      | false =>
        rw [if_neg Bool.false_ne_true, if_neg Bool.false_ne_true, Option.none_or, ih]
        exact ⟨fun h => ⟨fun _ hd => absurd hd Bool.false_ne_true, fun _ => h⟩, fun h => h.2 rfl⟩
      | true =>
        rw [if_pos rfl, if_pos rfl]
        cases hs : (T.searched e.2).lookup k with
        | some v =>
          have hnot : ¬ T.Hidden k e.2 := by
            rintro ⟨hnone, -⟩
            exact Option.some_ne_none v (hs.symm.trans hnone)
          rw [Option.some_or, Option.some_or, Option.some_or]
          exact iff_of_true rfl
            ⟨fun _ _ h => absurd h hnot, fun h => absurd h (Option.some_ne_none v)⟩
        | none =>
          rw [Option.none_or, Option.none_or]
          cases hskipped : (T.skipped e.2).lookup k with
          | none =>
            have hnot : ¬ T.Hidden k e.2 := fun h => h.skipped hskipped
            rw [Option.none_or, ih]
            exact ⟨fun h => ⟨fun _ _ h => absurd h hnot, fun _ => h⟩, fun h => h.2 rfl⟩
          | some v =>
            -- hidden: the search has to find the value among the items that follow
            have hhidden : T.Hidden k e.2 := ⟨hs, by rw [hskipped]; exact Option.some_ne_none v⟩
            rw [Option.some_or]
            exact ⟨fun h => ⟨fun _ _ _ => h, fun h => absurd h (Option.some_ne_none v)⟩,
              fun h => h.1 rfl rfl hhidden⟩

/-- Where the first item with the key lies in an item of the list and is not within reach there, the items
that follow have, in the order of the search, an equal value first. -/
theorem foundAfter_iff : T.FoundAfter k es ↔
    ∀ before e after v, es = before ++ e :: after → (T.below before).lookup k = none →
      (k == e.1) = false → T.descends e.2 = true → (T.entries e.2).lookup k = some v →
      (∀ i, T.WithinReach e.2 i → (k == i.1) = false) → (T.reached after).lookup k = some v := by
  constructor
  · intro h before e after v heq hbefore hk hd hv hreach
    have hhidden : T.Hidden k e.2 := hidden_iff.2 ⟨hv ▸ Option.some_ne_none v, hreach⟩
    rw [h before e after heq hbefore hk hd hhidden, ← hv, lookup_entries, hhidden.notSearched,
      Option.none_or]
  · intro h before e after heq hbefore hk hd hhidden
    obtain ⟨hentry, hreach⟩ := hidden_iff.1 hhidden
    obtain ⟨v, hv⟩ := Option.ne_none_iff_exists'.1 hentry
    rw [h before e after v heq hbefore hk hd hv hreach, ← hv, lookup_entries, hhidden.notSearched,
      Option.none_or]

end

end KeyedTree

end NovusHeadless.Lib
