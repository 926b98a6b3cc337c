import Mathlib.Data.List.ReduceOption
import NovusHeadless.Lib.Custody
import NovusHeadless.Lib.Transition

/-!
# Pools of shared objects (`Utils/SharedPool.h`)

A pool keeps its objects in a stack of `std::unique_ptr`; `acquire` hands out the top one in a pointer whose
deleter adds the object to the pool again, if the pool still exists, and deletes it otherwise.

* The state has the pool, the pointers that are handed out, and a record of what was deleted and added.
* `custody` — who has which objects: the pool, a pointer, or nobody any more; `custody_step` is a step as a
  transfer from the one to the other.
* `conservation_iff` — along a run every object has one owner and is deleted at most once exactly when no push
  inside of a deleter throws.
-/

namespace NovusHeadless

open Lib

/-- What becomes of the push inside of `add`. -/
inductive Push where
  | success
  | exception
  deriving DecidableEq, Repr

structure SharedPool (α : Type*) where
  /-- `_thisPtr` exists, so that the deleters can lock their `_pool` -/
  thisPtr : Bool
  /-- `_pool`, from the top on; `none` is a null pointer -/
  pool : List (Option α)
  /-- the pointers that were acquired and not yet released -/
  acquired : List (Option α)
  /-- the objects for which `delete` was called -/
  deleted : List α
  /-- the objects that were handed to `add` -/
  added : List α

namespace SharedPool

variable {α : Type*}

def new : SharedPool α := ⟨true, [], [], [], []⟩

/-- `std::default_delete<T>`. -/
def defaultDelete (s : SharedPool α) (ptr : α) : SharedPool α :=
  { s with deleted := s.deleted ++ [ptr] }

/-- The destructor of a `std::unique_ptr<T>`. -/
def dropUnique (s : SharedPool α) (t : Option α) : SharedPool α := t.elim s s.defaultDelete

/-- `add`, and whether it returns.  The parameter still owns the object when the push throws. -/
def add (s : SharedPool α) (t : Option α) : Push → Bool × SharedPool α
  | .success => (true, { s with pool := t :: s.pool })
  | .exception => (false, s.dropUnique t)

/-- The call operator of `PoolDeleter`. -/
def poolDeleter (s : SharedPool α) (ptr : α) (push : Push) : SharedPool α :=
  if s.thisPtr then
    let (returns, s) := s.add (some ptr) push
    -- an exception is caught, and what follows is carried out
    if returns then s else s.defaultDelete ptr
  else s.defaultDelete ptr

/-- `acquire`; `none` is its assertion that fails. -/
def acquire (s : SharedPool α) : Option (Option α × SharedPool α) :=
  match s.pool with
  | [] => none
  | t :: pool => some (t, { s with pool := pool, acquired := t :: s.acquired })

/-- The destructor of an acquired pointer. -/
def release [DecidableEq α] (s : SharedPool α) (ptr : Option α) (push : Push) : SharedPool α :=
  let s := { s with acquired := s.acquired.erase ptr }
  ptr.elim s fun x => s.poolDeleter x push

/-- `~SharedPool`.  The destructors of the pooled objects do not release pointers into this pool: what they
do is not modelled. -/
def destroy (s : SharedPool α) : SharedPool α :=
  { s with thisPtr := false, pool := [], deleted := s.deleted ++ s.pool.reduceOption }

inductive Action (α : Type*) where
  | add (t : Option α) (push : Push)
  | acquire
  | release (ptr : Option α) (push : Push)
  | destroy
  deriving DecidableEq, Repr

/-- A `std::unique_ptr` that is handed to `add` is the only owner of its object, which is a new one. -/
def step [DecidableEq α] (s : SharedPool α) : Action α → Option (SharedPool α)
  | .add t push =>
    if s.thisPtr ∧ ∀ x ∈ t, x ∉ s.added then
      some { (s.add t push).2 with added := s.added ++ t.toList }
    else none
  | .acquire => if s.thisPtr then s.acquire.map Prod.snd else none
  | .release ptr push => if ptr ∈ s.acquired then some (s.release ptr push) else none
  | .destroy => if s.thisPtr then some s.destroy else none

/-! ### Who owns an object -/

inductive Owner where
  | pool
  | pointer
  /-- the object was deleted -/
  | nobody
  deriving DecidableEq, Repr

instance : Fintype Owner :=
  Fintype.ofList [.pool, .pointer, .nobody] (by intro o; cases o <;> decide)

def custody (s : SharedPool α) : Owner → Multiset α
  | .pool => s.pool.reduceOption
  | .pointer => s.acquired.reduceOption
  | .nobody => s.deleted

section

variable [DecidableEq α]

/-- How often a run hands out the object. -/
def handouts (x : α) : SharedPool α → List (Action α) → ℕ :=
  charge step fun s a => if a = .acquire ∧ s.pool.head? = some (some x) then 1 else 0

/-- The object is handed out next, and just once until it is released. -/
structure AvailableOnce (s : SharedPool α) (x : α) : Prop where
  next : handouts x s [.acquire] = 1
  atMost : ∀ actions, (∀ push, .release (some x) push ∉ actions) → handouts x s actions ≤ 1

/-- Every object has one owner that has it once, and what is released into the pool can be acquired
again. -/
structure Conserves (s : SharedPool α) (a : Action α) (s' : SharedPool α) : Prop where
  owned : ∀ x ∈ s'.added, HeldOnce s'.custody x
  available : ∀ x, a = .release (some x) .success → s.thisPtr = true → s'.AvailableOnce x

/-- No push in a deleter throws. -/
def PushReturns (s : SharedPool α) (a : Action α) (_ : SharedPool α) : Prop :=
  ∀ x, a = .release (some x) .exception → s.thisPtr = false

end

section

variable {s s' : SharedPool α} {t : Option α} {x : α}

lemma acquire_eq_some (h : s.acquire = some (t, s')) :
    ∃ pool, s.pool = t :: pool ∧ s' = { s with pool := pool, acquired := t :: s.acquired } := by
  unfold acquire at h
  split at h
  · exact absurd h.symm (Option.some_ne_none _)
  · next t' pool hpool =>
    obtain ⟨rfl, rfl⟩ := Prod.mk.inj (Option.some.inj h)
    exact ⟨pool, hpool, rfl⟩

lemma custody_defaultDelete (s : SharedPool α) (x : α) :
    (s.defaultDelete x).custody = Function.update s.custody .nobody (x ::ₘ s.custody .nobody) := by
  funext o
  cases o with
  | pool => rfl
  | pointer => rfl
  | nobody => exact Multiset.coe_eq_coe.2 (List.perm_append_singleton x s.deleted)

lemma custody_add_success (s : SharedPool α) (x : α) :
    (s.add (some x) .success).2.custody =
      Function.update s.custody .pool (x ::ₘ s.custody .pool) := by
  funext o
  cases o <;> rfl

lemma custody_destroy (s : SharedPool α) :
    s.destroy.custody = Function.update
      (Function.update s.custody .nobody (s.custody .nobody + s.custody .pool)) .pool 0 := by
  funext o
  cases o <;> rfl

lemma poolDeleter_of_destroyed (h : s.thisPtr = false) (push : Push) :
    s.poolDeleter x push = s.defaultDelete x := by
  unfold poolDeleter
  rw [if_neg (by rw [h]; exact Bool.false_ne_true)]

lemma poolDeleter_success (h : s.thisPtr = true) :
    s.poolDeleter x .success = (s.add (some x) .success).2 := by
  unfold poolDeleter
  rw [if_pos h]
  rfl

/-- The parameter of `add` deletes the object, and the deleter deletes it again. -/
lemma poolDeleter_exception (h : s.thisPtr = true) :
    s.poolDeleter x .exception = (s.defaultDelete x).defaultDelete x := by
  unfold poolDeleter
  rw [if_pos h]
  rfl

lemma mem_custody_pointer (h : some x ∈ s.acquired) : x ∈ s.custody .pointer :=
  Multiset.mem_coe.2 (List.reduceOption_mem_iff.2 h)

end

section

variable [DecidableEq α] {s s' : SharedPool α} {a : Action α} {t : Option α} {push : Push} {x : α}

/-! ### What a step can do -/

lemma acquire_of_step (hs : s.step .acquire = some s') :
    ∃ t pool, s.pool = t :: pool ∧ s' = { s with pool := pool, acquired := t :: s.acquired } := by
  unfold step at hs
  rw [Option.ite_none_right_eq_some] at hs
  obtain ⟨-, hs⟩ := hs
  obtain ⟨⟨t, s'⟩, hacquire, rfl⟩ := Option.map_eq_some_iff.1 hs
  exact ⟨t, acquire_eq_some hacquire⟩

lemma release_of_step (hs : s.step (.release t push) = some s') :
    t ∈ s.acquired ∧ s' = s.release t push := by
  unfold step at hs
  rw [Option.ite_none_right_eq_some, Option.some.injEq] at hs
  exact ⟨hs.1, hs.2.symm⟩

lemma destroy_of_step (hs : s.step .destroy = some s') : s' = s.destroy := by
  unfold step at hs
  rw [Option.ite_none_right_eq_some, Option.some.injEq] at hs
  exact hs.2.symm

/-! ### A step as a transfer -/

/-- Taking out a null pointer takes out no object. -/
lemma reduceOption_erase (l : List (Option α)) (t : Option α) :
    (l.erase t).reduceOption = t.elim l.reduceOption l.reduceOption.erase := by
  induction l with
  | nil => cases t <;> rfl
  | cons u l ih =>
    by_cases hu : u = t
    · subst hu
      rw [List.erase_cons_head]
      cases u with
      | none => rw [List.reduceOption_cons_of_none, Option.elim_none]
      | some y => rw [List.reduceOption_cons_of_some, Option.elim_some, List.erase_cons_head]
    · rw [List.erase_cons_tail (by simp [hu])]
      cases u with
      | none => rw [List.reduceOption_cons_of_none, List.reduceOption_cons_of_none, ih]
      | some y =>
        rw [List.reduceOption_cons_of_some, List.reduceOption_cons_of_some, ih]
        cases t with
        | none => rfl
        | some x =>
          have hne : y ≠ x := fun h => hu (congrArg some h)
          rw [Option.elim_some, Option.elim_some, List.erase_cons_tail (by simp [hne])]

lemma custody_erase (s : SharedPool α) (x : α) :
    custody { s with acquired := s.acquired.erase (some x) } =
      Function.update s.custody .pointer ((s.custody .pointer).erase x) := by
  funext o
  cases o with
  | pool => rfl
  | pointer => exact congrArg _ (reduceOption_erase s.acquired (some x))
  | nobody => rfl

/-- What a step does with the objects, when no push in a deleter throws. -/
def transfer (s : SharedPool α) : Action α → Transfer Owner α
  | .add none _ => .nothing
  | .add (some x) .success => .bring .pool x
  | .add (some x) .exception => .bring .nobody x
  | .acquire =>
    match s.pool with
    | some x :: _ => .move .pool .pointer x
    | _ => .nothing
  | .release none _ => .nothing
  | .release (some x) _ => .move .pointer (if s.thisPtr then .pool else .nobody) x
  | .destroy => .moveAll .pool .nobody

/-- The step carries out its transfer, and an object that it brings is a new one. -/
structure CarriesOut (s : SharedPool α) (a : Action α) (s' : SharedPool α) : Prop where
  fits : (s.transfer a).Fits s.custody
  custody : s'.custody = (s.transfer a).apply s.custody
  added : s'.added = s.added ++ (s.transfer a).brought.toList
  fresh : ∀ x ∈ (s.transfer a).brought, x ∉ s.added

lemma carriesOut_of_not_brought (hb : (s.transfer a).brought = none)
    (hfits : (s.transfer a).Fits s.custody) (hcustody : s'.custody = (s.transfer a).apply s.custody)
    (hadded : s'.added = s.added) : CarriesOut s a s' := by
  refine ⟨hfits, hcustody, ?_, ?_⟩
  · rw [hb, hadded]
    exact (List.append_nil _).symm
  · intro x hx
    rw [hb] at hx
    exact absurd hx.symm (Option.some_ne_none x)

lemma carriesOut_add (hs : s.step (.add t push) = some s') : CarriesOut s (.add t push) s' := by
  unfold step at hs
  rw [Option.ite_none_right_eq_some, Option.some.injEq] at hs
  obtain ⟨⟨-, hfresh⟩, rfl⟩ := hs
  cases t with
  | none =>
    refine carriesOut_of_not_brought rfl trivial ?_ (by cases push <;> exact List.append_nil _)
    funext o
    cases push <;> cases o <;> rfl
  | some x =>
    cases push with
    | success => exact ⟨trivial, custody_add_success s x, rfl, hfresh⟩
    | exception => exact ⟨trivial, custody_defaultDelete s x, rfl, hfresh⟩

lemma carriesOut_acquire (hs : s.step .acquire = some s') : CarriesOut s .acquire s' := by
  obtain ⟨t, pool, hpool, rfl⟩ := acquire_of_step hs
  have hcustody : s.custody .pool = ↑(t :: pool).reduceOption := by
    rw [← hpool]
    rfl
  cases t with
  | none =>
    have htransfer : s.transfer .acquire = .nothing := by
      unfold transfer
      rw [hpool]
    rw [List.reduceOption_cons_of_none] at hcustody
    refine carriesOut_of_not_brought (by rw [htransfer]; rfl) (by rw [htransfer]; trivial) ?_ rfl
    rw [htransfer]
    funext o
    cases o with
    | pool => exact hcustody.symm
    | pointer => rfl
    | nobody => rfl
  | some x =>
    have htransfer : s.transfer .acquire = .move .pool .pointer x := by
      unfold transfer
      rw [hpool]
    rw [List.reduceOption_cons_of_some] at hcustody
    have hfits : x ∈ s.custody .pool := by
      rw [hcustody]
      exact List.mem_cons_self
    refine carriesOut_of_not_brought (by rw [htransfer]; rfl) (by rw [htransfer]; exact hfits) ?_ rfl
    rw [htransfer]
    funext o
    cases o with
    | pool =>
      show _ = (s.custody .pool).erase x
      rw [hcustody, Multiset.coe_erase, List.erase_cons_head]
      rfl
    | pointer => rfl
    | nobody => rfl

lemma carriesOut_release (hs : s.step (.release t push) = some s')
    (hc : PushReturns s (.release t push) s') : CarriesOut s (.release t push) s' := by
  obtain ⟨hmem, rfl⟩ := release_of_step hs
  cases t with
  | none =>
    refine carriesOut_of_not_brought rfl trivial ?_ rfl
    funext o
    cases o with
    | pool => rfl
    | pointer => exact congrArg _ (reduceOption_erase s.acquired none)
    | nobody => rfl
  | some x =>
    have hfits : (s.transfer (.release (some x) push)).Fits s.custody := mem_custody_pointer hmem
    cases hlive : s.thisPtr with
    | true =>
      cases push with
      | exception => exact absurd (hlive.symm.trans (hc x rfl)) (by decide)
      | success =>
        have hrelease : s.release (some x) .success =
            (add { s with acquired := s.acquired.erase (some x) } (some x) .success).2 :=
          poolDeleter_success hlive
        refine carriesOut_of_not_brought rfl hfits ?_ (by rw [hrelease]; rfl)
        rw [hrelease, custody_add_success, custody_erase]
        simp only [transfer, Transfer.apply, hlive, if_true]
    | false =>
      have hrelease : s.release (some x) push =
          defaultDelete { s with acquired := s.acquired.erase (some x) } x :=
        poolDeleter_of_destroyed (s := { s with acquired := s.acquired.erase (some x) }) hlive push
      refine carriesOut_of_not_brought rfl hfits ?_ (by rw [hrelease]; rfl)
      rw [hrelease, custody_defaultDelete, custody_erase]
      simp only [transfer, Transfer.apply, hlive, Bool.false_eq_true, if_false]

/-- **A step is its transfer** as long as no push in a deleter throws. -/
theorem custody_step (hs : s.step a = some s') (hc : PushReturns s a s') : CarriesOut s a s' := by
  cases a with
  | add t push => exact carriesOut_add hs
  | acquire => exact carriesOut_acquire hs
  | release t push => exact carriesOut_release hs hc
  | destroy =>
    obtain rfl := destroy_of_step hs
    have hfits : Owner.pool ≠ Owner.nobody := by decide
    exact carriesOut_of_not_brought rfl hfits (custody_destroy s) rfl

/-- The invariant: what was added has one owner. -/
def Owned (s : SharedPool α) : Prop := Balanced s.custody s.added

lemma owned_new : (new : SharedPool α).Owned := by
  intro x
  show _ = if x ∈ [] then 1 else 0
  rw [if_neg List.not_mem_nil]
  rfl

theorem owned_step (h : s.Owned) (hs : s.step a = some s') (hc : PushReturns s a s') : s'.Owned := by
  obtain ⟨hfits, hcustody, hadded, hfresh⟩ := custody_step hs hc
  unfold Owned
  rw [hcustody, hadded]
  exact balanced_apply h hfits hfresh

/-- **An exception in a deleter** has the object deleted once more than it was there. -/
lemma occurrences_release_exception (hlive : s.thisPtr = true) (hmem : some x ∈ s.acquired) :
    occurrences (s.release (some x) .exception).custody x = occurrences s.custody x + 1 := by
  have hrelease : s.release (some x) .exception =
      (defaultDelete { s with acquired := s.acquired.erase (some x) } x).defaultDelete x :=
    poolDeleter_exception hlive
  have herase := occurrences_erase (mem_custody_pointer hmem) x
  rw [hrelease, custody_defaultDelete, occurrences_bring, custody_defaultDelete, occurrences_bring,
    custody_erase]
  simp only [if_true] at herase ⊢
  omega

/-! ### What is available -/

lemma pool_release (s : SharedPool α) (ptr : Option α) (push : Push) :
    (s.release ptr push).added = s.added ∧
      ((s.release ptr push).pool = s.pool ∨ (s.release ptr push).pool = ptr :: s.pool) := by
  cases ptr with
  | none => exact ⟨rfl, Or.inl rfl⟩
  | some x =>
    unfold release poolDeleter
    cases hlive : s.thisPtr with
    | false => exact ⟨rfl, Or.inl rfl⟩
    | true =>
      cases push with
      | success => exact ⟨rfl, Or.inr rfl⟩
      | exception => exact ⟨rfl, Or.inl rfl⟩

lemma custody_pool_of_cons {pool : List (Option α)} (h : s.pool = t :: pool) (x : α) :
    (s.custody .pool).count x =
      (pool.reduceOption : Multiset α).count x + if t = some x then 1 else 0 := by
  have hcustody : s.custody .pool = ↑(t :: pool).reduceOption := by
    rw [← h]
    rfl
  rw [hcustody]
  cases t with
  | none => rw [List.reduceOption_cons_of_none, if_neg (Option.some_ne_none x).symm, Nat.add_zero]
  | some y =>
    rw [List.reduceOption_cons_of_some, ← Multiset.cons_coe, Multiset.count_cons]
    simp only [Option.some.injEq, eq_comm]

/-- **Nothing but its release** puts an object into the pool again. -/
lemma handout_step (ha : ∀ push, a ≠ .release (some x) push) (hx : x ∈ s.added)
    (hs : s.step a = some s') :
    x ∈ s'.added ∧
      (if a = .acquire ∧ s.pool.head? = some (some x) then 1 else 0) + (s'.custody .pool).count x ≤
        (s.custody .pool).count x := by
  cases a with
  | add t push =>
    obtain ⟨-, hcustody, hadded, hfresh⟩ := carriesOut_add hs
    refine ⟨by rw [hadded]; exact List.mem_append_left _ hx, ?_⟩
    rw [if_neg (by simp), hcustody, Nat.zero_add]
    cases t with
    | none => exact le_rfl
    | some y =>
      cases push with
      | exception => exact le_rfl
      | success =>
        have hne : x ≠ y := by
          rintro rfl
          exact hfresh x rfl hx
        show (y ::ₘ s.custody .pool).count x ≤ _
        rw [Multiset.count_cons_of_ne hne]
  | acquire =>
    obtain ⟨t, pool, hpool, rfl⟩ := acquire_of_step hs
    refine ⟨hx, ?_⟩
    have hhead : s.pool.head? = some (some x) ↔ t = some x := by
      rw [hpool, List.head?_cons, Option.some.injEq]
    rw [custody_pool_of_cons hpool]
    simp only [hhead, true_and]
    rw [Nat.add_comm]
    exact le_rfl
  | release ptr push =>
    obtain ⟨-, rfl⟩ := release_of_step hs
    obtain ⟨hadded, hpool⟩ := pool_release s ptr push
    refine ⟨by rw [hadded]; exact hx, ?_⟩
    rw [if_neg (by simp), Nat.zero_add]
    rcases hpool with hpool | hpool
    · have hcustody : (s.release ptr push).custody .pool = s.custody .pool :=
        congrArg (fun l : List (Option α) => (l.reduceOption : Multiset α)) hpool
      rw [hcustody]
    · have hne : ptr ≠ some x := by
        rintro rfl
        exact ha push rfl
      rw [custody_pool_of_cons hpool, if_neg hne, Nat.add_zero]
      exact le_rfl
  | destroy =>
    obtain rfl := destroy_of_step hs
    refine ⟨hx, ?_⟩
    rw [if_neg (by simp), Nat.zero_add]
    exact Nat.zero_le _

/-- **Until it is released** an object is handed out as often as the pool has it. -/
theorem handouts_le (hx : x ∈ s.added) {actions : List (Action α)}
    (h : ∀ push, .release (some x) push ∉ actions) :
    handouts x s actions ≤ (s.custody .pool).count x := by
  have hok : ∀ a ∈ actions, ∀ push, a ≠ .release (some x) push := by
    rintro a hmem push rfl
    exact h push hmem
  have hstep : ∀ (s : SharedPool α) a s', (∀ push, a ≠ .release (some x) push) → x ∈ s.added →
      s.step a = some s' → x ∈ s'.added ∧ _ := fun s a s' ha hx hs => handout_step ha hx hs
  exact charge_le hstep hx hok

theorem availableOnce_of_top {pool : List (Option α)} (hlive : s.thisPtr = true)
    (hpool : s.pool = some x :: pool) (hx : x ∈ s.added) (hheld : HeldOnce s.custody x) :
    s.AvailableOnce x := by
  refine ⟨?_, ?_⟩
  · have hstep : s.step .acquire =
        some { s with pool := pool, acquired := some x :: s.acquired } := by
      unfold step acquire
      rw [if_pos hlive, hpool]
      rfl
    unfold handouts charge
    rw [hstep, hpool]
    simp [charge]
  · intro actions hactions
    exact (handouts_le hx hactions).trans (hheld.once .pool)

/-- **A step under the condition** keeps the owners. -/
theorem conserves_of_pushReturns (h : s.Owned) (hs : s.step a = some s')
    (hc : PushReturns s a s') : s'.Owned ∧ Conserves s a s' := by
  have h' := owned_step h hs hc
  refine ⟨h', fun x hx => h'.heldOnce hx, ?_⟩
  rintro x rfl hlive
  obtain ⟨hmem, rfl⟩ := release_of_step hs
  have hx := h.mem (mem_custody_pointer hmem)
  have hadded := (pool_release s (some x) .success).1
  have hrelease : s.release (some x) .success =
      (add { s with acquired := s.acquired.erase (some x) } (some x) .success).2 :=
    poolDeleter_success hlive
  have htop : (s.release (some x) .success).pool = some x :: s.pool := by
    rw [hrelease]
    rfl
  have hlive' : (s.release (some x) .success).thisPtr = true := by
    rw [hrelease]
    exact hlive
  rw [← hadded] at hx
  exact availableOnce_of_top hlive' htop hx (h'.heldOnce hx)

/-- **A step against the condition** leaves an object that was deleted twice. -/
lemma not_conserves (h : s.Owned) (hs : s.step a = some s') (hc : ¬ PushReturns s a s') :
    ¬ Conserves s a s' := by
  obtain ⟨x, hx⟩ := not_forall.1 hc
  obtain ⟨rfl, hlive⟩ := Classical.not_imp.1 hx
  obtain ⟨hmem, rfl⟩ := release_of_step hs
  have hx := h.mem (mem_custody_pointer hmem)
  intro hconserves
  have hadded := (pool_release s (some x) .exception).1
  have honce := heldOnce_iff.1 (hconserves.owned x (hadded ▸ hx))
  have htwice := occurrences_release_exception (Bool.eq_true_of_not_eq_false hlive) hmem
  rw [honce, h x, if_pos hx] at htwice
  omega

/-- **The exact condition** for the owners along a run. -/
theorem conservation_iff (actions : List (Action α)) :
    Along step Conserves new actions ↔ Along step PushReturns new actions := by
  apply along_iff_of_inv
  · exact fun s a s' h hs hc => conserves_of_pushReturns h hs hc
  · exact fun s a s' h hs hc => not_conserves h hs hc
  · exact owned_new

/-- When the push in its deleter throws, an object is deleted twice. -/
theorem deleted_twice :
    ¬ ∀ actions : List (Action ℕ), Along step Conserves new actions := by
  intro h
  obtain ⟨-, h⟩ := h [.add (some 0) .success, .acquire, .release (some 0) .exception] _ rfl
  obtain ⟨-, h⟩ := h _ rfl
  obtain ⟨hconserves, -⟩ := h _ rfl
  have hle := (hconserves.owned 0 List.mem_cons_self).once .nobody
  exact absurd hle (by decide)

end

end SharedPool

end NovusHeadless
