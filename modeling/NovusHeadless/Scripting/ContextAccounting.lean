import NovusHeadless.Scripting.PacketHooks

/-!
# Contexts and their pool (`AngelBinder.cpp`, `PacketHooks.h`)

A context is held when the pool has made it and does not have it in its queue.

* `ContextPool.Sound` — the queue has every context at most once, and its count is its length; `get` and
  `ret` keep this, so a context that is handed out is not held (`get_fresh`);
* `Returned` — what is held, and how many are, is the same as before;
* `callHook_throws_iff` — which callback lets an exception out of `CallHook`;
* `returned_iff` — the contexts are given back, when the call returns or throws, exactly when no callback
  throws.

No callback registers callbacks while the hook runs, as everywhere in `PacketHooks`.
-/

namespace NovusHeadless

open Lib

namespace ContextPool

/-- The invariant of the pool. -/
structure Sound (p : ContextPool) : Prop where
  nodup : p.available.Nodup
  made : ∀ id ∈ p.available, id < p.contexts
  counted : p.availableCount = p.available.length

/-- The pool has made the context, and it is not in the queue. -/
def Held (p : ContextPool) (id : ℕ) : Prop := id < p.contexts ∧ id ∉ p.available

/-- The number of contexts outside of the pool. -/
def outside (p : ContextPool) : ℕ := p.contexts - p.availableCount

/-- The condition under which `wait` ends. -/
def WaitEnds (p : ContextPool) : Prop := p.availableCount = p.contexts

/-- The contexts taken from the pool `p` have been given back to it, which makes it `p'`. -/
structure Returned (p p' : ContextPool) : Prop where
  sound : p'.Sound
  held : ∀ id, p'.Held id ↔ p.Held id
  outside : p'.outside = p.outside
  waits : p.WaitEnds → p'.WaitEnds

lemma sound_new : new.Sound := ⟨List.nodup_nil, fun _ h => absurd h List.not_mem_nil, rfl⟩

section

variable {p p' : ContextPool} {id : ℕ}

lemma Sound.le_contexts (hp : p.Sound) : p.availableCount ≤ p.contexts := by
  rw [hp.counted]
  have hsub : p.available ⊆ List.range p.contexts := fun id hid => List.mem_range.2 (hp.made id hid)
  calc p.available.length ≤ (List.range p.contexts).length :=
        (List.subperm_of_subset hp.nodup hsub).length_le
    _ = p.contexts := List.length_range

/-- What `get` can do: nothing, make a context, or hand out the first one of the queue. -/
lemma get_cases (h : p.get = (some id, p')) :
    (p.available = [] ∧ id = p.contexts ∧ p' = { p with contexts := p.contexts + 1 }) ∨
      ∃ available, p.available = id :: available ∧
        p' = { p with available := available, availableCount := p.availableCount - 1 } := by
  unfold get at h
  split at h
  · simp at h
  · split at h
    · rename_i havailable
      simp only [Prod.mk.injEq, Option.some.injEq] at h
      exact Or.inl ⟨havailable, h.1.symm, h.2.symm⟩
    · rename_i id' available havailable
      simp only [Prod.mk.injEq, Option.some.injEq] at h
      obtain ⟨rfl, rfl⟩ := h
      exact Or.inr ⟨available, havailable, rfl⟩

/-- **What `get` hands out** was not held, and is held then. -/
theorem get_fresh (hp : p.Sound) (h : p.get = (some id, p')) : ¬ p.Held id ∧ p'.Held id := by
  rcases get_cases h with ⟨hnil, rfl, rfl⟩ | ⟨available, hcons, rfl⟩
  · refine ⟨fun hheld => Nat.lt_irrefl _ hheld.1, Nat.lt_succ_self _, ?_⟩
    show p.contexts ∉ p.available
    rw [hnil]
    exact List.not_mem_nil
  · have hnodup := hp.nodup
    rw [hcons, List.nodup_cons] at hnodup
    refine ⟨fun hheld => hheld.2 (hcons ▸ List.mem_cons_self), ?_, hnodup.1⟩
    exact hp.made id (hcons ▸ List.mem_cons_self)

/-- **`get`** keeps the invariant, and one more context is outside. -/
theorem sound_get (hp : p.Sound) (h : p.get = (some id, p')) :
    p'.Sound ∧ p'.outside = p.outside + 1 := by
  have hle := hp.le_contexts
  have hcount := hp.counted
  rcases get_cases h with ⟨hnil, rfl, rfl⟩ | ⟨available, hcons, rfl⟩
  · rw [hnil, List.length_nil] at hcount
    refine ⟨⟨hp.nodup, fun i hi => (hp.made i hi).trans (Nat.lt_succ_self _), hp.counted⟩, ?_⟩
    show p.contexts + 1 - p.availableCount = p.contexts - p.availableCount + 1
    omega
  · have hnodup := hp.nodup
    rw [hcons, List.nodup_cons] at hnodup
    rw [hcons, List.length_cons] at hcount
    refine ⟨⟨hnodup.2, fun i hi => hp.made i (hcons ▸ List.mem_cons_of_mem _ hi), ?_⟩, ?_⟩
    · show p.availableCount - 1 = available.length
      omega
    · show p.contexts - (p.availableCount - 1) = p.contexts - p.availableCount + 1
      omega

/-- **`ret`** of a context that is held keeps the invariant, and only this context is no longer held. -/
theorem sound_ret (hp : p.Sound) (hid : p.Held id) :
    (p.ret id).Sound ∧ (p.ret id).outside = p.outside - 1 ∧
      ∀ i, (p.ret id).Held i ↔ p.Held i ∧ i ≠ id := by
  refine ⟨⟨?_, ?_, ?_⟩, ?_, ?_⟩
  · show (p.available ++ [id]).Nodup
    rw [List.nodup_append]
    refine ⟨hp.nodup, List.nodup_singleton id, ?_⟩
    intro i hi j hj
    rw [List.mem_singleton.1 hj]
    rintro rfl
    exact hid.2 hi
  · intro i hi
    rcases List.mem_append.1 hi with hi | hi
    · exact hp.made i hi
    · rw [List.mem_singleton.1 hi]
      exact hid.1
  · show p.availableCount + 1 = (p.available ++ [id]).length
    rw [List.length_append, hp.counted]
    rfl
  · show p.contexts - (p.availableCount + 1) = p.contexts - p.availableCount - 1
    omega
  · intro i
    show i < p.contexts ∧ i ∉ p.available ++ [id] ↔ (i < p.contexts ∧ i ∉ p.available) ∧ i ≠ id
    rw [List.mem_append, List.mem_singleton, not_or, and_assoc]

lemma held_get (h : p.get = (some id, p')) {i : ℕ} (hi : i ≠ id) :
    p'.Held i ↔ p.Held i := by
  rcases get_cases h with ⟨hnil, rfl, rfl⟩ | ⟨available, hcons, rfl⟩
  · show i < p.contexts + 1 ∧ i ∉ p.available ↔ i < p.contexts ∧ i ∉ p.available
    have hlt : i < p.contexts + 1 ↔ i < p.contexts := by omega
    rw [hlt]
  · show i < p.contexts ∧ i ∉ available ↔ i < p.contexts ∧ i ∉ p.available
    rw [hcons, List.mem_cons, not_or, and_iff_right hi]

lemma Returned.refl (hp : p.Sound) : Returned p p := ⟨hp, fun _ => Iff.rfl, rfl, id⟩

lemma Returned.trans {p'' : ContextPool} (h : Returned p p') (h' : Returned p' p'') :
    Returned p p'' where
  sound := h'.sound
  held i := (h'.held i).trans (h.held i)
  outside := h'.outside.trans h.outside
  waits hw := h'.waits (h.waits hw)

/-- **A context that is taken and given back.** -/
theorem returned_cycle (hp : p.Sound) (hlive : p.releasing = false) : Returned p p.cycle := by
  obtain ⟨id, hid⟩ := exists_get hlive
  obtain ⟨hnot, hheld⟩ := get_fresh hp hid
  obtain ⟨hget, hout⟩ := sound_get hp hid
  obtain ⟨hret, hback, hothers⟩ := sound_ret hget hheld
  rw [cycle_eq hid]
  have houtside : (p.get.2.ret id).outside = p.outside := by omega
  refine ⟨hret, ?_, houtside, ?_⟩
  · intro i
    rw [hothers]
    by_cases hi : i = id
    · rw [hi]
      exact iff_of_false (fun h => h.2 rfl) hnot
    · rw [and_iff_left hi, held_get hid hi]
  · intro hwait
    have hle := hret.le_contexts
    unfold outside at houtside
    unfold WaitEnds at hwait ⊢
    omega

end

end ContextPool

namespace PacketHooks

open ContextPool

/-- The callback at the place `i` takes the arguments, and its execution does not finish. -/
structure Throws (scripts : Scripts) (args : List Any) (i : ℕ) (function : ScriptFunction) : Prop where
  takes : function.params = args.map Any.getType
  unfinished : scripts i ⟨function, args⟩ ≠ .finished

section

variable {scripts : Scripts} {args : List Any} {pool : ContextPool} {function : ScriptFunction}
  {functions : List ScriptFunction} {i : ℕ} {executions : List Execution}

lemma completes_or (scripts : Scripts) (args : List Any) (i : ℕ) (function : ScriptFunction) :
    Completes scripts args i function ∨ function.params ≠ args.map Any.getType ∨
      Throws scripts args i function := by
  by_cases htakes : function.params = args.map Any.getType
  · by_cases hfinishes : scripts i ⟨function, args⟩ = .finished
    · exact Or.inl ⟨htakes, hfinishes⟩
    · exact Or.inr (Or.inr ⟨htakes, hfinishes⟩)
  · exact Or.inr (Or.inl htakes)

/-- **The contexts of the loop**: they have been given back unless an exception leaves the loop, and then
one of them is held that was not held before. -/
theorem callFunctions_contexts (hlive : pool.releasing = false) (hp : pool.Sound) :
    (callFunctions scripts args functions i pool executions).pool.Sound ∧
      ((callFunctions scripts args functions i pool executions).exit = .returns →
        Returned pool (callFunctions scripts args functions i pool executions).pool) ∧
      ((callFunctions scripts args functions i pool executions).exit = .throws →
        (callFunctions scripts args functions i pool executions).pool.outside =
          pool.outside + 1) := by
  induction functions generalizing pool i executions with
  | nil => exact ⟨hp, fun _ => Returned.refl hp, fun h => absurd h (by simp [callFunctions])⟩
  | cons function functions ih =>
    obtain ⟨id, hid⟩ := exists_get hlive
    obtain ⟨hget, hout⟩ := sound_get hp hid
    rcases completes_or scripts args i function with hc | hmismatch | hthrows
    · rw [callFunctions_of_completes functions executions hlive hc]
      have hcycle := returned_cycle hp hlive
      obtain ⟨hsound, hreturns, hthrows⟩ := ih (cycle_releasing hlive) hcycle.sound
      refine ⟨hsound, fun h => hcycle.trans (hreturns h), fun h => ?_⟩
      rw [hthrows h, hcycle.outside]
    · rw [callFunctions_of_mismatch hlive hmismatch]
      exact ⟨hget, fun h => absurd h (by simp), fun h => absurd h (by simp)⟩
    · rw [callFunctions_of_unfinished hlive hthrows.takes hthrows.unfinished]
      exact ⟨hget, fun h => absurd h (by simp), fun _ => hout⟩

/-- **An exception** leaves the loop at the first callback that does not complete, if it takes the
arguments. -/
theorem callFunctions_throws_iff (hlive : pool.releasing = false) :
    (callFunctions scripts args functions i pool executions).exit = .throws ↔
      ∃ j function, functions[j]? = some function ∧ Throws scripts args (i + j) function ∧
        ∀ k g, k < j → functions[k]? = some g → Completes scripts args (i + k) g := by
  induction functions generalizing pool i executions with
  | nil =>
    apply iff_of_false
    · simp [callFunctions]
    · rintro ⟨j, function, hj, -⟩
      exact absurd hj (by simp)
  | cons function functions ih =>
    rcases completes_or scripts args i function with hc | hmismatch | hthrows
    · rw [callFunctions_of_completes functions executions hlive hc, ih (cycle_releasing hlive)]
      constructor
      · rintro ⟨j, f, hj, hf, hbefore⟩
        rw [Nat.add_right_comm] at hf
        refine ⟨j + 1, f, hj, hf, ?_⟩
        rintro (_ | k) g hk hg
        · obtain rfl := Option.some.inj hg
          exact hc
        · have hg := hbefore k g (Nat.lt_of_succ_lt_succ hk) hg
          rwa [Nat.add_right_comm] at hg
      · rintro ⟨_ | j, f, hj, hf, hbefore⟩
        · obtain rfl := Option.some.inj hj
          exact absurd hc.finishes hf.unfinished
        · refine ⟨j, f, hj, by rwa [Nat.add_right_comm], ?_⟩
          intro k g hk hg
          rw [Nat.add_right_comm]
          exact hbefore (k + 1) g (Nat.succ_lt_succ hk) hg
    · rw [callFunctions_of_mismatch hlive hmismatch]
      apply iff_of_false
      · simp
      · rintro ⟨_ | j, f, hj, hf, hbefore⟩
        · obtain rfl := Option.some.inj hj
          exact hmismatch hf.takes
        · exact hmismatch (hbefore 0 function (Nat.succ_pos j) rfl).takes
    · rw [callFunctions_of_unfinished hlive hthrows.takes hthrows.unfinished]
      refine iff_of_true rfl ⟨0, function, rfl, hthrows, ?_⟩
      intro k g hk
      exact absurd hk (Nat.not_lt_zero k)

lemma callFunctions_of_releasing (hreleasing : pool.releasing = true) :
    callFunctions scripts args functions i pool executions = ⟨.returns, pool, executions⟩ := by
  have hget : pool.get = (none, pool) := by
    unfold ContextPool.get
    rw [if_pos hreleasing]
  induction functions generalizing i with
  | nil => rfl
  | cons function functions ih =>
    rw [callFunctions, hget]
    exact ih

end

section

variable {scripts : Scripts} {args : List Any} {hooks : HookTable} {pool : ContextPool} {id : Hooks}

/-- Every hook call keeps the invariant of the pool, however it ends. -/
theorem callHook_sound (hp : pool.Sound) : (callHook scripts args hooks pool id).pool.Sound := by
  unfold callHook
  cases hreleasing : pool.releasing with
  | true =>
    rw [callFunctions_of_releasing hreleasing]
    exact hp
  | false => exact (callFunctions_contexts hreleasing hp).1

theorem callHook_throws_iff (hlive : pool.releasing = false) :
    (callHook scripts args hooks pool id).exit = .throws ↔
      ∃ j function, (hooks id)[j]? = some function ∧ Throws scripts args j function ∧
        ∀ k g, k < j → (hooks id)[k]? = some g → Completes scripts args k g := by
  unfold callHook
  rw [callFunctions_throws_iff hlive]
  simp only [Nat.zero_add]

/-- **When the contexts are given back.** -/
theorem returned_iff (scripts : Scripts) (args : List Any) (hooks : HookTable) (id : Hooks)
    (hp : pool.Sound) :
    ((callHook scripts args hooks pool id).exit ≠ .asserts →
        Returned pool (callHook scripts args hooks pool id).pool) ↔
      pool.releasing = true ∨
        ∀ j function, (hooks id)[j]? = some function →
          (∀ k g, k < j → (hooks id)[k]? = some g → Completes scripts args k g) →
          function.params = args.map Any.getType → scripts j ⟨function, args⟩ = .finished := by
  cases hreleasing : pool.releasing with
  | true =>
    unfold callHook
    rw [callFunctions_of_releasing hreleasing]
    exact iff_of_true (fun _ => Returned.refl hp) (Or.inl rfl)
  | false =>
    have hthrows := @callHook_throws_iff scripts args hooks pool id hreleasing
    obtain ⟨-, hreturned, houtside⟩ :=
      @callFunctions_contexts scripts args pool (hooks id) 0 [] hreleasing hp
    rw [or_iff_right Bool.false_ne_true]
    constructor
    · intro h j function hj hbefore htakes
      by_contra hunfinished
      have hexit := hthrows.2 ⟨j, function, hj, ⟨htakes, hunfinished⟩, hbefore⟩
      have hret := h (by rw [hexit]; decide)
      have hout := houtside hexit
      have hsame := hret.outside
      unfold callHook at hsame
      omega
    · intro h hexit
      cases hcase : (callHook scripts args hooks pool id).exit with
      | returns => exact hreturned hcase
      | asserts => exact absurd hcase hexit
      | throws =>
        obtain ⟨j, function, hj, ht, hbefore⟩ := hthrows.1 hcase
        exact absurd (h j function hj hbefore ht.takes) ht.unfinished

theorem returned_iff_new :
    ContextPool.new.Sound ∧
      ((callHook (fun _ _ => .finished) [] (fun _ => [⟨0, []⟩]) .new .onLoginChallenge).exit ≠
          .asserts →
        Returned .new
          (callHook (fun _ _ => .finished) [] (fun _ => [⟨0, []⟩]) .new .onLoginChallenge).pool) :=
  ⟨sound_new, (returned_iff _ _ _ _ sound_new).2 (Or.inr fun _ _ _ _ _ => rfl)⟩

/-- A callback that raises an exception keeps its context. -/
theorem exception_keeps_context :
    ¬ ∀ (scripts : Scripts) (args : List Any) (hooks : HookTable) (pool : ContextPool) (id : Hooks),
      pool.Sound → (callHook scripts args hooks pool id).exit ≠ .asserts →
        Returned pool (callHook scripts args hooks pool id).pool := by
  intro h
  have hreturned := h (fun _ _ => .exception) [] (fun _ => [⟨0, []⟩]) .new .onLoginChallenge
    sound_new (by decide)
  exact absurd hreturned.outside (by decide)

end

end PacketHooks

end NovusHeadless
