import Mathlib.Data.Finset.Card
import Mathlib.Logic.Relation

/-!
# Explorations of a graph

An exploration keeps the set of the nodes that it has seen; it goes on from a node the first time that it
comes across it.

* `Explored edge seen roots seen'` — what an exploration from some roots makes of the nodes that have been
  seen;
* `Explored.enter` — the rule for a node that is new: the exploration goes on from its successors;
* `Explored.eq_reachable` — an exploration that starts with nothing seen ends with the nodes that can be
  reached;
* `card_unseen_lt` — what is left of a finite set of nodes gets less with each new node.
-/

namespace NovusHeadless.Lib

variable {κ : Type*}

/-- An exploration from the roots has led from the nodes `seen` to the nodes `seen'`. -/
structure Explored (edge : κ → κ → Prop) (seen roots seen' : Set κ) : Prop where
  keeps : seen ⊆ seen'
  roots_seen : roots ⊆ seen'
  closed : ∀ a ∈ seen', a ∉ seen → ∀ b, edge a b → b ∈ seen'
  reached : ∀ a ∈ seen', a ∈ seen ∨ ∃ r ∈ roots, Relation.ReflTransGen edge r a

namespace Explored

variable {edge : κ → κ → Prop} {s s' s'' roots roots' : Set κ} {a : κ}

protected lemma refl (s : Set κ) : Explored edge s ∅ s :=
  ⟨Set.Subset.rfl, Set.empty_subset s, fun _ ha hna => absurd ha hna, fun _ ha => Or.inl ha⟩

lemma of_mem (h : a ∈ s) : Explored edge s {a} s :=
  ⟨Set.Subset.rfl, Set.singleton_subset_iff.2 h, fun _ hb hnb => absurd hb hnb, fun _ hb => Or.inl hb⟩

protected lemma union (h : Explored edge s roots s') (h' : Explored edge s' roots' s'') :
    Explored edge s (roots ∪ roots') s'' := by
  refine ⟨h.keeps.trans h'.keeps, Set.union_subset (h.roots_seen.trans h'.keeps) h'.roots_seen, ?_, ?_⟩
  · intro a ha hna b hb
    by_cases has : a ∈ s'
    · exact h'.keeps (h.closed a has hna b hb)
    · exact h'.closed a ha has b hb
  · intro a ha
    rcases h'.reached a ha with has | ⟨r, hr, hra⟩
    · exact (h.reached a has).imp_right fun ⟨r, hr, hra⟩ => ⟨r, Or.inl hr, hra⟩
    · exact Or.inr ⟨r, Or.inr hr, hra⟩

/-- **From a new node** the exploration goes on from the successors of the node. -/
lemma enter (h : Explored edge (insert a s) {b | edge a b} s') : Explored edge s {a} s' := by
  have ha : a ∈ s' := h.keeps (Set.mem_insert a s)
  refine ⟨(Set.subset_insert a s).trans h.keeps, Set.singleton_subset_iff.2 ha, ?_, ?_⟩
  · intro c hc hnc b hb
    by_cases hca : c = a
    · subst hca
      exact h.roots_seen hb
    · exact h.closed c hc (fun hins => hnc (hins.resolve_left hca)) b hb
  · intro c hc
    rcases h.reached c hc with hins | ⟨b, hb, hbc⟩
    · refine hins.symm.imp_right fun hca => ⟨a, rfl, ?_⟩
      rw [hca]
    · exact Or.inr ⟨a, rfl, Relation.ReflTransGen.head hb hbc⟩

/-- **An exploration with nothing seen before** ends with the nodes that can be reached from a root. -/
theorem eq_reachable (h : Explored edge ∅ roots s) : s = {b | ∃ r ∈ roots, Relation.ReflTransGen edge r b} := by
  ext b
  constructor
  · intro hb
    exact (h.reached b hb).resolve_left (Set.notMem_empty b)
  · rintro ⟨r, hr, hrb⟩
    induction hrb with
    | refl => exact h.roots_seen hr
    | tail _ hbc ih => exact h.closed _ ih (Set.notMem_empty _) _ hbc

end Explored

/-! ### How long an exploration can go on -/

section

variable [DecidableEq κ] {nodes seen seen' : Finset κ} {a : κ}

lemma card_unseen_lt (ha : a ∈ nodes) (hnew : a ∉ seen) : (nodes \ insert a seen).card < (nodes \ seen).card := by
  refine Finset.card_lt_card ⟨Finset.sdiff_subset_sdiff Finset.Subset.rfl (Finset.subset_insert a seen), ?_⟩
  intro h
  have hmem := h (Finset.mem_sdiff.2 ⟨ha, hnew⟩)
  exact (Finset.mem_sdiff.1 hmem).2 (Finset.mem_insert_self a seen)

lemma card_unseen_le (h : seen ⊆ seen') : (nodes \ seen').card ≤ (nodes \ seen).card :=
  Finset.card_le_card (Finset.sdiff_subset_sdiff Finset.Subset.rfl h)

end

end NovusHeadless.Lib
