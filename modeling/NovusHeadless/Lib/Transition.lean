import Mathlib.Tactic

/-!
# Guarded transition systems

A system is a partial step function `step : σ → ι → Option σ`: `step s i = some s'` when the input `i`
is enabled in the state `s` and leads to `s'`.

* `Along step Q s is` — the property `Q` holds of every step of the run of `is` from `s` (the run ends
  at the first input that is not enabled);
* `along_of_inv` — an invariant that every step keeps holds of the states of every run;
* `along_of_inv_of` — the same of runs whose steps all meet a condition;
* `along_iff_of_inv` — the rule of the *exact condition*: when a condition on steps keeps an invariant
  and gives the property, and a step against the condition breaks the property, then the property holds
  along a run exactly when the condition does;
* `Before step C s is` — every input of the run meets `C` in the state before it, the first one that is not
  enabled included; `enabled_along_iff_of_inv` is the exact condition for a run without such an input;
* `run step s is` — the state behind all of the inputs, when every one of them is enabled (`run_append`,
  `along_append`, `along_of_append`);
* `run_inv_of`, `run_of_simulates` — invariants and forward simulations of whole runs;
* `exists_run_of_measure` — a goal that a step always brings nearer can be reached;
* `countP_le_of_run` — a measure bounds the number of inputs of a kind;
* `charge_le` — a measure bounds what the inputs cost in the states in which they come.
-/

namespace NovusHeadless.Lib

variable {σ τ ι : Type*} {step : σ → ι → Option σ}

/-- Every step of the run of the inputs from the state `s` satisfies `Q`. -/
def Along (step : σ → ι → Option σ) (Q : σ → ι → σ → Prop) : σ → List ι → Prop
  | _, [] => True
  | s, i :: is => ∀ s', step s i = some s' → Q s i s' ∧ Along step Q s' is

/-- **Invariants.**  What holds at the start and is kept by every step holds of every state of a run,
and with it whatever a step gives from it. -/
theorem along_of_inv {Inv : σ → Prop} {Q : σ → ι → σ → Prop}
    (hstep : ∀ s i s', Inv s → step s i = some s' → Inv s' ∧ Q s i s') {s : σ} (h0 : Inv s)
    (is : List ι) : Along step Q s is := by
  induction is generalizing s with
  | nil => trivial
  | cons i is ih =>
    intro s' hs'
    obtain ⟨hinv, hQ⟩ := hstep s i s' h0 hs'
    exact ⟨hQ, ih hinv⟩

lemma along_of_forall {Q : σ → ι → σ → Prop} {is : List ι} (h : ∀ i ∈ is, ∀ s s', Q s i s') (s : σ) :
    Along step Q s is := by
  induction is generalizing s with
  | nil => trivial
  | cons i is ih =>
    intro s' _
    exact ⟨h i List.mem_cons_self s s', ih (fun j hj => h j (List.mem_cons_of_mem i hj)) s'⟩

/-- **Invariants under a condition.**  The steps keep the invariant as long as the condition holds of
them. -/
theorem along_of_inv_of {Inv : σ → Prop} {C Q : σ → ι → σ → Prop}
    (hstep : ∀ s i s', Inv s → step s i = some s' → C s i s' → Inv s' ∧ Q s i s') {s : σ}
    (h0 : Inv s) {is : List ι} (hC : Along step C s is) : Along step Q s is := by
  induction is generalizing s with
  | nil => trivial
  | cons i is ih =>
    intro s' hs'
    obtain ⟨hCs, hCis⟩ := hC s' hs'
    obtain ⟨hinv, hQ⟩ := hstep s i s' h0 hs' hCs
    exact ⟨hQ, ih hinv hCis⟩

/-- **The exact condition of a run.**  `good`: under the condition a step keeps the invariant and has
the property; `bad`: a step against the condition does not have it. -/
theorem along_iff_of_inv {Inv : σ → Prop} {C Q : σ → ι → σ → Prop}
    (good : ∀ s i s', Inv s → step s i = some s' → C s i s' → Inv s' ∧ Q s i s')
    (bad : ∀ s i s', Inv s → step s i = some s' → ¬ C s i s' → ¬ Q s i s') {s : σ} (h0 : Inv s)
    (is : List ι) : Along step Q s is ↔ Along step C s is := by
  induction is generalizing s with
  | nil => exact Iff.rfl
  | cons i is ih =>
    apply forall_congr'
    intro s'
    apply forall_congr'
    intro hs'
    by_cases hC : C s i s'
    · obtain ⟨hinv, hQ⟩ := good s i s' h0 hs' hC
      exact and_congr (iff_of_true hQ hC) (ih hinv)
    · exact iff_of_false (fun h => bad s i s' h0 hs' hC h.1) (fun h => hC h.1)

/-! ### The state behind a run -/

/-- The state behind the inputs; `none` when one of them is not enabled. -/
def run (step : σ → ι → Option σ) : σ → List ι → Option σ
  | s, [] => some s
  | s, i :: is => (step s i).bind fun s' => run step s' is

lemma run_cons {s s' : σ} {i : ι} (h : step s i = some s') (is : List ι) :
    run step s (i :: is) = run step s' is := by simp only [run, h, Option.bind_some]

lemma run_cons_eq_some {s s' : σ} {i : ι} {is : List ι} :
    run step s (i :: is) = some s' ↔ ∃ t, step s i = some t ∧ run step t is = some s' := by
  simp only [run, Option.bind_eq_some_iff]

lemma run_append {s t : σ} {is : List ι} (h : run step s is = some t) (js : List ι) :
    run step s (is ++ js) = run step t js := by
  induction is generalizing s with
  | nil =>
    obtain rfl := Option.some.inj h
    rfl
  | cons i is ih =>
    obtain ⟨s₁, hs₁, h⟩ := run_cons_eq_some.1 h
    rw [List.cons_append, run_cons hs₁, ih h]

/-- Every input of the run meets `C` in the state before it. -/
def Before (step : σ → ι → Option σ) (C : σ → ι → Prop) : σ → List ι → Prop
  | _, [] => True
  | s, i :: is => C s i ∧ ∀ s', step s i = some s' → Before step C s' is

/-- A condition that can be decided in every state can be decided along a run on given inputs. -/
instance decidableBefore {C : σ → ι → Prop} [∀ s i, Decidable (C s i)] :
    (is : List ι) → (s : σ) → Decidable (Before step C s is)
  | [], _ => .isTrue trivial
  | i :: is, s =>
    have : Decidable (∀ s', step s i = some s' → Before step C s' is) :=
      match step s i with
      | none => .isTrue fun _ h => nomatch h
      | some t =>
        have : Decidable (Before step C t is) := decidableBefore is t
        decidable_of_iff (Before step C t is) ⟨fun h _ ht => Option.some.inj ht ▸ h, fun h => h t rfl⟩
    inferInstanceAs (Decidable (C s i ∧ ∀ s', step s i = some s' → Before step C s' is))

/-- **The exact condition of a run that is enabled throughout.**  `good`: under the condition a step is
enabled, keeps the invariant and has the property; `bad`: against it, it is not enabled or does not have
the property. -/
theorem enabled_along_iff_of_inv {Inv : σ → Prop} {C : σ → ι → Prop} {Q : σ → ι → σ → Prop}
    (good : ∀ s i, Inv s → C s i → ∃ s', step s i = some s' ∧ Inv s' ∧ Q s i s')
    (bad : ∀ s i s', Inv s → ¬ C s i → step s i = some s' → ¬ Q s i s') {s : σ} (h0 : Inv s)
    (is : List ι) :
    (∃ s', run step s is = some s') ∧ Along step Q s is ↔ Before step C s is := by
  induction is generalizing s with
  | nil => exact iff_of_true ⟨⟨s, rfl⟩, trivial⟩ trivial
  | cons i is ih =>
    constructor
    · rintro ⟨⟨s', hrun⟩, halong⟩
      obtain ⟨t, ht, hrun⟩ := run_cons_eq_some.1 hrun
      obtain ⟨hQ, halong⟩ := halong t ht
      have hC : C s i := by
        by_contra hC
        exact bad s i t h0 hC ht hQ
      refine ⟨hC, ?_⟩
      intro t' ht'
      obtain ⟨u, hu, hinv, -⟩ := good s i h0 hC
      obtain rfl := Option.some.inj (hu.symm.trans ht')
      obtain rfl := Option.some.inj (hu.symm.trans ht)
      exact (ih hinv).1 ⟨⟨s', hrun⟩, halong⟩
    · rintro ⟨hC, hbefore⟩
      obtain ⟨t, ht, hinv, hQ⟩ := good s i h0 hC
      obtain ⟨⟨s', hrun⟩, halong⟩ := (ih hinv).2 (hbefore t ht)
      refine ⟨⟨s', run_cons_eq_some.2 ⟨t, ht, hrun⟩⟩, ?_⟩
      intro t' ht'
      obtain rfl := Option.some.inj (ht.symm.trans ht')
      exact ⟨hQ, halong⟩

lemma along_of_append {Q : σ → ι → σ → Prop} {s t : σ} {is js : List ι}
    (h : Along step Q s (is ++ js)) (hrun : run step s is = some t) : Along step Q t js := by
  induction is generalizing s with
  | nil =>
    obtain rfl := Option.some.inj hrun
    exact h
  | cons i is ih =>
    obtain ⟨s₁, hs₁, hrun⟩ := run_cons_eq_some.1 hrun
    exact ih (h s₁ hs₁).2 hrun

lemma along_append {Q : σ → ι → σ → Prop} {s : σ} {is js : List ι} (h : Along step Q s is)
    (h' : ∀ t, run step s is = some t → Along step Q t js) : Along step Q s (is ++ js) := by
  induction is generalizing s with
  | nil => exact h' s rfl
  | cons i is ih =>
    intro s₁ hs₁
    obtain ⟨hQ, his⟩ := h s₁ hs₁
    exact ⟨hQ, ih his fun t ht => h' t (run_cons_eq_some.2 ⟨s₁, hs₁, ht⟩)⟩

/-- An invariant that the steps under some inputs keep holds behind every run of such inputs. -/
theorem run_inv_of {Inv : σ → Prop} {ok : ι → Prop}
    (hstep : ∀ s i s', ok i → Inv s → step s i = some s' → Inv s') {s s' : σ} (h0 : Inv s)
    {is : List ι} (hok : ∀ i ∈ is, ok i) (h : run step s is = some s') : Inv s' := by
  induction is generalizing s with
  | nil =>
    obtain rfl := Option.some.inj h
    exact h0
  | cons i is ih =>
    obtain ⟨t, ht, h⟩ := run_cons_eq_some.1 h
    have hinv := hstep s i t (hok i List.mem_cons_self) h0 ht
    exact ih hinv (fun j hj => hok j (List.mem_cons_of_mem i hj)) h

/-- **Reachable goals.**  When every state that has not reached the goal has a step that keeps the
invariant and makes a number smaller, some inputs lead to the goal. -/
theorem exists_run_of_measure {Inv Goal : σ → Prop} (μ : σ → ℕ)
    (hstep : ∀ s, Inv s → ¬ Goal s → ∃ i s', step s i = some s' ∧ Inv s' ∧ μ s' < μ s) {s : σ}
    (h0 : Inv s) : ∃ is s', run step s is = some s' ∧ Goal s' := by
  induction hn : μ s using Nat.strong_induction_on generalizing s with
  | _ n ih =>
    by_cases hgoal : Goal s
    · exact ⟨[], s, rfl, hgoal⟩
    · obtain ⟨i, t, ht, hinv, hlt⟩ := hstep s h0 hgoal
      rw [hn] at hlt
      obtain ⟨is, s', hrun, hs'⟩ := ih (μ t) hlt hinv rfl
      exact ⟨i :: is, s', run_cons_eq_some.2 ⟨t, ht, hrun⟩, hs'⟩

/-- **Bounded inputs.**  When the inputs `p` make a number smaller and the other inputs of the run do not
make it larger, there are no more of the inputs `p` than the number says. -/
theorem countP_le_of_run {p : ι → Bool} {ok : ι → Prop} {μ : σ → ℕ}
    (hstep : ∀ s i s', ok i → step s i = some s' → μ s' + (if p i then 1 else 0) ≤ μ s) {s s' : σ}
    {is : List ι} (hok : ∀ i ∈ is, ok i) (h : run step s is = some s') :
    μ s' + is.countP p ≤ μ s := by
  induction is generalizing s with
  | nil =>
    obtain rfl := Option.some.inj h
    exact le_rfl
  | cons i is ih =>
    obtain ⟨t, ht, h⟩ := run_cons_eq_some.1 h
    have hhead := hstep s i t (hok i List.mem_cons_self) ht
    have htail := ih (fun j hj => hok j (List.mem_cons_of_mem i hj)) h
    rw [List.countP_cons]
    omega

/-- What the inputs of a run cost together, up to the first one that is not enabled. -/
def charge (step : σ → ι → Option σ) (cost : σ → ι → ℕ) : σ → List ι → ℕ
  | _, [] => 0
  | s, i :: is => (step s i).elim 0 fun s' => cost s i + charge step cost s' is

/-- **Bounded costs.**  When every step under an invariant is paid for by a number that gets smaller, the run
costs no more than the number says. -/
theorem charge_le {Inv : σ → Prop} {ok : ι → Prop} {cost : σ → ι → ℕ} {μ : σ → ℕ}
    (hstep : ∀ s i s', ok i → Inv s → step s i = some s' → Inv s' ∧ cost s i + μ s' ≤ μ s) {s : σ}
    (h0 : Inv s) {is : List ι} (hok : ∀ i ∈ is, ok i) : charge step cost s is ≤ μ s := by
  induction is generalizing s with
  | nil => exact Nat.zero_le _
  | cons i is ih =>
    unfold charge
    cases hs : step s i with
    | none => exact Nat.zero_le _
    | some s' =>
      obtain ⟨hinv, hle⟩ := hstep s i s' (hok i List.mem_cons_self) h0 hs
      have htail := ih hinv (fun j hj => hok j (List.mem_cons_of_mem i hj))
      show cost s i + charge step cost s' is ≤ μ s
      omega

/-- **Forward simulation.**  When every step of the one system is matched by a step of the other under
the same input, every run is matched by a run. -/
theorem run_of_simulates {astep : τ → ι → Option τ} {R : σ → τ → Prop}
    (hstep : ∀ s t i s', R s t → step s i = some s' → ∃ t', astep t i = some t' ∧ R s' t')
    {s s' : σ} {t : τ} (h0 : R s t) {is : List ι} (h : run step s is = some s') :
    ∃ t', run astep t is = some t' ∧ R s' t' := by
  induction is generalizing s t with
  | nil =>
    obtain rfl := Option.some.inj h
    exact ⟨t, rfl, h0⟩
  | cons i is ih =>
    obtain ⟨s₁, hs₁, h⟩ := run_cons_eq_some.1 h
    obtain ⟨t₁, ht₁, hR⟩ := hstep s t i s₁ h0 hs₁
    obtain ⟨t', ht', hR'⟩ := ih hR h
    exact ⟨t', run_cons_eq_some.2 ⟨t₁, ht₁, ht'⟩, hR'⟩

end NovusHeadless.Lib
