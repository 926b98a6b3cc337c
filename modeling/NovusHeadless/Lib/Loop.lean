import Mathlib.Tactic

/-!
# Loops with undefined rounds

A round of a loop either goes on or ends it; it is `none` where it is undefined.  A loop whose rounds
decrease a measure is a function again.

* `loop_rel`, `loop_rel_of` — what every round does, a loop does;
* `exists_loop`, `exists_loop_of` — a loop is defined when every round keeps an invariant under which rounds are defined;
* `exists_foldlM` — the same of a loop over a list, with what its rounds compute as seen through a function of
  the state.
-/

namespace NovusHeadless.Lib

variable {σ : Type*}

/-- How a round of a loop ends. -/
inductive Round (σ : Type*) where
  | next (s : σ)
  | stop (s : σ)

namespace Round

/-- The state that a round ends in. -/
@[simp] def state : Round σ → σ
  | next s => s
  | stop s => s

end Round

/-- Every round that goes on decreases the measure. -/
def Decreases (μ : σ → ℕ) (body : σ → Option (Round σ)) : Prop :=
  ∀ s s', body s = some (.next s') → μ s' < μ s

/-- The loop from a state: its last state. -/
def loop (μ : σ → ℕ) (body : σ → Option (Round σ)) (hμ : Decreases μ body) (s : σ) : Option σ :=
  match _h : body s with
  | none => none
  | some (.stop s') => some s'
  | some (.next s') => loop μ body hμ s'
termination_by μ s
decreasing_by exact hμ s s' _h

variable {μ : σ → ℕ} {body : σ → Option (Round σ)} {hμ : Decreases μ body} {s s' : σ}

lemma loop_of_none (h : body s = none) : loop μ body hμ s = none := by
  rw [loop]
  split <;> simp_all

lemma loop_of_stop (h : body s = some (.stop s')) : loop μ body hμ s = some s' := by
  rw [loop]
  split <;> simp_all

lemma loop_of_next (h : body s = some (.next s')) : loop μ body hμ s = loop μ body hμ s' := by
  rw [loop]
  split <;> simp_all

/-- **What every round does, the loop does**, when the rounds that go on keep what the rounds need. -/
theorem loop_rel_of {R : σ → σ → Prop} {Inv : σ → Prop} (trans : ∀ a b c, R a b → R b c → R a c)
    (hround : ∀ s r, Inv s → body s = some r → R s r.state ∧ ∀ s', r = .next s' → Inv s') (hs : Inv s)
    (h : loop μ body hμ s = some s') : R s s' := by
  fun_induction loop μ body hμ s with
  | case1 s hbody => cases h
  | case2 s t hbody =>
    obtain rfl := Option.some.inj h
    exact (hround s _ hs hbody).1
  | case3 s t hbody ih =>
    obtain ⟨hrel, hinv⟩ := hround s _ hs hbody
    exact trans _ _ _ hrel (ih (hinv t rfl) h)

theorem loop_rel {R : σ → σ → Prop} (trans : ∀ a b c, R a b → R b c → R a c)
    (hround : ∀ s r, body s = some r → R s r.state) (h : loop μ body hμ s = some s') : R s s' :=
  loop_rel_of trans (fun s r (_ : True) hr => ⟨hround s r hr, fun _ _ => trivial⟩) trivial h

/-- **A loop is defined** when its rounds are, along an invariant of the rounds that go on. -/
theorem exists_loop_of {Inv Post : σ → Prop}
    (hround : ∀ s, Inv s →
      ∃ r, body s = some r ∧ (∀ s', r = .next s' → Inv s') ∧ ∀ s', r = .stop s' → Post s')
    (hs : Inv s) : ∃ s', loop μ body hμ s = some s' ∧ Post s' := by
  fun_induction loop μ body hμ s with
  | case1 s hbody =>
    obtain ⟨r, hr, -⟩ := hround s hs
    rw [hbody] at hr
    cases hr
  | case2 s t hbody =>
    obtain ⟨r, hr, -, hpost⟩ := hround s hs
    rw [hbody] at hr
    exact ⟨t, rfl, hpost t (Option.some.inj hr).symm⟩
  | case3 s t hbody ih =>
    obtain ⟨r, hr, hinv, -⟩ := hround s hs
    rw [hbody] at hr
    exact ih (hinv t (Option.some.inj hr).symm)

theorem exists_loop {Inv : σ → Prop} (hround : ∀ s, Inv s → ∃ r, body s = some r ∧ Inv r.state)
    (hs : Inv s) : ∃ s', loop μ body hμ s = some s' ∧ Inv s' := by
  refine exists_loop_of (fun s hs => ?_) hs
  obtain ⟨r, hr, hinv⟩ := hround s hs
  refine ⟨r, hr, fun s' hs' => ?_, fun s' hs' => ?_⟩
  · subst hs'
    exact hinv
  · subst hs'
    exact hinv

/-- **A loop over a list** is defined, and computes what its rounds compute, when each of them keeps an
invariant under which rounds are defined. -/
theorem exists_foldlM {β τ : Type*} {f : σ → β → Option σ} {Inv : σ → Prop} {v : σ → τ} {g : τ → β → τ} {l : List β}
    (hround : ∀ s, ∀ b ∈ l, Inv s → ∃ s', f s b = some s' ∧ Inv s' ∧ v s' = g (v s) b) {s : σ} (hs : Inv s) :
    ∃ s', l.foldlM f s = some s' ∧ Inv s' ∧ v s' = l.foldl g (v s) := by
  induction l generalizing s with
  | nil => exact ⟨s, rfl, hs, rfl⟩
  | cons b l ih =>
    obtain ⟨t, ht, hinv, hview⟩ := hround s b List.mem_cons_self hs
    obtain ⟨s', hs', hinv', hview'⟩ := ih (fun s b hb => hround s b (List.mem_cons_of_mem _ hb)) hinv
    refine ⟨s', ?_, hinv', ?_⟩
    · rw [List.foldlM_cons, ht]
      exact hs'
    · rw [hview', hview, List.foldl_cons]

theorem exists_foldlM_inv {β : Type*} {f : σ → β → Option σ} {I : σ → Prop} {l : List β}
    (hround : ∀ s, ∀ b ∈ l, I s → ∃ s', f s b = some s' ∧ I s') {s : σ} (hs : I s) :
    ∃ s', l.foldlM f s = some s' ∧ I s' := by
  have hunit : ∀ s, ∀ b ∈ l, I s → ∃ s', f s b = some s' ∧ I s' ∧ () = () := by
    intro s b hb hs
    obtain ⟨s', hs', hinv⟩ := hround s b hb hs
    exact ⟨s', hs', hinv, rfl⟩
  obtain ⟨s', hs', hinv, -⟩ := @exists_foldlM σ β Unit f I (fun _ => ()) (fun _ _ => ()) l hunit s hs
  exact ⟨s', hs', hinv⟩

end NovusHeadless.Lib
