import Mathlib.Data.List.ReduceOption
import NovusHeadless.Lib.Transition
import NovusHeadless.Scripting.PacketHooks

/-!
# The registration of callbacks (`Scripting/GlobalFunctions.h`, `PacketHooks.h`)

A script hands `RegisterPacketCallback` any number and a handle, and the handle may be null.  The number is
cast twice and becomes the index of `_hooks`, which has `COUNT` lists and checks nothing; `ClearHooks`
calls `Release` through every handle.

* An access outside of `_hooks` and a call through a null handle are `none`.
* `registered` is on record only: the handles of the registrations since the last `ClearHooks`.
* `registration_iff` — the calls do what they are for, along a run, exactly when every number is below
  `COUNT` and no null handle is registered when `ClearHooks` is called.
-/

namespace NovusHeadless

open Lib

namespace Hooks

/-- The lists of `_hooks`, in their order. -/
def all : List Hooks := [.onLoginChallenge]

/-- `COUNT`. -/
def count : ℕ := all.length

/-- The list of `_hooks` with this index. -/
def ofId (id : UInt32) : Option Hooks := all[id.toNat]?

lemma exists_ofId {id : UInt32} : (∃ h, ofId id = some h) ↔ id.toNat < count := by
  unfold ofId count
  rw [← Option.isSome_iff_exists, isSome_getElem?]

lemma ofId_eq_none {id : UInt32} (h : ¬ id.toNat < count) : ofId id = none :=
  List.getElem?_eq_none (Nat.le_of_not_lt h)

end Hooks

/-- `_hooks`, with the handles as the scripts hand them over; `none` is a null handle. -/
abbrev HandleTable := Hooks → List (Option ScriptFunction)

structure HookRegistry where
  hooks : HandleTable
  registered : List (Option ScriptFunction)
  /-- the callbacks on which `Release` was called -/
  released : List ScriptFunction

namespace HookRegistry

def new : HookRegistry := ⟨fun _ => [], [], []⟩

/-- `PacketHooks::Register`. -/
def register (s : HookRegistry) (id : Hooks) (func : Option ScriptFunction) : HookRegistry :=
  { s with
    hooks := Function.update s.hooks id (s.hooks id ++ [func])
    registered := s.registered ++ [func] }

/-- `GlobalFunctions::RegisterPacketCallback`. -/
def registerPacketCallback (s : HookRegistry) (callbackId : UInt32)
    (callback : Option ScriptFunction) : Option HookRegistry :=
  (Hooks.ofId callbackId).map fun id => s.register id callback

/-- `function->Release()`. -/
def release (s : HookRegistry) (function : Option ScriptFunction) : Option HookRegistry :=
  function.map fun f => { s with released := s.released ++ [f] }

/-- The body of the loop of `ClearHooks`. -/
def clearHook (s : HookRegistry) (id : Hooks) : Option HookRegistry :=
  ((s.hooks id).foldlM release s).map fun s => { s with hooks := Function.update s.hooks id [] }

def clearHooks (s : HookRegistry) : Option HookRegistry :=
  (Hooks.all.foldlM clearHook s).map fun s => { s with registered := [] }

inductive Action where
  | register (callbackId : UInt32) (callback : Option ScriptFunction)
  | clear
  deriving DecidableEq, Repr

def step (s : HookRegistry) : Action → Option HookRegistry
  | .register callbackId callback => s.registerPacketCallback callbackId callback
  | .clear => s.clearHooks

/-- What the two calls are for.  A number from `COUNT` on is of no hook, so its registration leaves every
list alone. -/
structure Registers (s : HookRegistry) (a : Action) (s' : HookRegistry) : Prop where
  register : ∀ callbackId callback, a = .register callbackId callback →
    (∀ h, s'.hooks h = s.hooks h ++ if Hooks.ofId callbackId = some h then [callback] else []) ∧
      s'.released = s.released
  clear : a = .clear →
    (∀ h, s'.hooks h = []) ∧
      ∃ released, s'.released = s.released ++ released ∧ (released.map some).Perm s.registered

/-- The number is below `COUNT`, and what `ClearHooks` finds is not null. -/
def Registrable (s : HookRegistry) : Action → Prop
  | .register callbackId _ => callbackId.toNat < Hooks.count
  | .clear => ∀ h, none ∉ s.hooks h

/-- The lists hold what was registered since the last `ClearHooks`. -/
def Recorded (s : HookRegistry) : Prop := s.registered.Perm (Hooks.all.flatMap s.hooks)

section

variable {s s' : HookRegistry}

lemma hooks_register (s : HookRegistry) (id : Hooks) (func : Option ScriptFunction) (h : Hooks) :
    (s.register id func).hooks h = s.hooks h ++ if some id = some h then [func] else [] := by
  show Function.update s.hooks id (s.hooks id ++ [func]) h = _
  by_cases hid : id = h
  · subst hid
    rw [if_pos rfl, Function.update_self]
  · rw [if_neg (fun heq => hid (Option.some.inj heq)), List.append_nil,
      Function.update_of_ne (fun heq => hid heq.symm)]

lemma registerPacketCallback_eq_some {callbackId : UInt32} {callback : Option ScriptFunction}
    (h : s.registerPacketCallback callbackId callback = some s') :
    callbackId.toNat < Hooks.count ∧
      ∀ h, s'.hooks h = s.hooks h ++ if Hooks.ofId callbackId = some h then [callback] else [] := by
  obtain ⟨id, hid, rfl⟩ := Option.map_eq_some_iff.1 h
  refine ⟨Hooks.exists_ofId.1 ⟨id, hid⟩, ?_⟩
  intro h
  rw [hid]
  exact hooks_register s id callback h

/-- The handles of a list are released from the first to the last, up to a null handle. -/
lemma foldlM_release (l : List (Option ScriptFunction)) (s : HookRegistry) :
    l.foldlM release s =
      if none ∈ l then none else some { s with released := s.released ++ l.reduceOption } := by
  induction l generalizing s with
  | nil =>
    rw [if_neg List.not_mem_nil, List.reduceOption_nil, List.append_nil]
    rfl
  | cons function l ih =>
    rw [List.foldlM_cons]
    cases function with
    | none =>
      rw [if_pos List.mem_cons_self]
      rfl
    | some f =>
      show l.foldlM release { s with released := s.released ++ [f] } = _
      rw [ih]
      have hmem : none ∈ some f :: l ↔ none ∈ l := by simp
      simp only [hmem, List.reduceOption_cons_of_some, List.append_assoc, List.singleton_append]

lemma clearHooks_eq_foldlM (s : HookRegistry) :
    s.clearHooks = ((s.hooks .onLoginChallenge).foldlM release s).map fun s =>
      { s with hooks := Function.update s.hooks .onLoginChallenge [], registered := [] } := by
  unfold clearHooks Hooks.all
  rw [List.foldlM_cons, clearHook]
  cases (s.hooks .onLoginChallenge).foldlM release s with
  | none => rfl
  | some s => rfl

/-- **`ClearHooks`** releases every handle and empties every list. -/
theorem clearHooks_of_live (hlive : ∀ h, none ∉ s.hooks h) :
    s.clearHooks = some ⟨fun _ => [], [],
      s.released ++ Hooks.all.flatMap fun h => (s.hooks h).reduceOption⟩ := by
  have hempty : Function.update s.hooks .onLoginChallenge [] = fun _ => [] := by
    funext h
    cases h
    rfl
  rw [clearHooks_eq_foldlM, foldlM_release, if_neg (hlive _), Option.map_some, hempty]
  unfold Hooks.all
  rw [List.flatMap_singleton]

lemma clearHooks_of_null {h : Hooks} (hnull : none ∈ s.hooks h) : s.clearHooks = none := by
  cases h
  rw [clearHooks_eq_foldlM, foldlM_release, if_pos hnull, Option.map_none]

lemma map_some_reduceOption {l : List (Option ScriptFunction)} (h : none ∉ l) :
    l.reduceOption.map some = l := by
  induction l with
  | nil => rfl
  | cons function l ih =>
    cases function with
    | none => exact absurd List.mem_cons_self h
    | some f =>
      rw [List.reduceOption_cons_of_some, List.map_cons,
        ih (fun hmem => h (List.mem_cons_of_mem _ hmem))]

/-- **A step under the condition** is carried out as it is meant. -/
lemma registers_of_registrable {a : Action} (hinv : s.Recorded) (hc : s.Registrable a) :
    ∃ s', s.step a = some s' ∧ s'.Recorded ∧ Registers s a s' := by
  cases a with
  | register callbackId callback =>
    obtain ⟨id, hid⟩ := Hooks.exists_ofId.2 hc
    refine ⟨s.register id callback, ?_, ?_, ?_, fun h => absurd h (by simp)⟩
    · show (Hooks.ofId callbackId).map _ = _
      rw [hid]
      rfl
    · have hlists : Hooks.all.flatMap (s.register id callback).hooks =
          Hooks.all.flatMap s.hooks ++ [callback] := by
        cases id
        unfold Hooks.all
        rw [List.flatMap_singleton, List.flatMap_singleton, hooks_register, if_pos rfl]
      show (s.registered ++ [callback]).Perm _
      rw [hlists]
      exact hinv.append_right _
    · rintro _ _ heq
      obtain ⟨rfl, rfl⟩ := Action.register.inj heq
      refine ⟨fun h => ?_, rfl⟩
      rw [hid]
      exact hooks_register s id callback h
  | clear =>
    refine ⟨_, clearHooks_of_live hc, List.Perm.nil, ?_, fun _ => ⟨fun h => rfl, _, rfl, ?_⟩⟩
    · exact fun _ _ h => absurd h (by simp)
    · -- every handle of the lists is a callback, and the lists are what was registered
      have hmap : (Hooks.all.flatMap fun h => (s.hooks h).reduceOption).map some =
          Hooks.all.flatMap s.hooks := by
        unfold Hooks.all
        rw [List.flatMap_singleton, List.flatMap_singleton, map_some_reduceOption (hc _)]
      rw [hmap]
      exact hinv.symm

/-- **A step against the condition** is not carried out at all. -/
lemma step_eq_none {a : Action} (hc : ¬ s.Registrable a) : s.step a = none := by
  cases a with
  | register callbackId callback =>
    show (Hooks.ofId callbackId).map _ = none
    rw [Hooks.ofId_eq_none hc, Option.map_none]
  | clear =>
    obtain ⟨h, hnull⟩ := not_forall.1 hc
    exact clearHooks_of_null (not_not.1 hnull)

end

/-- **The exact condition** for the calls of a run. -/
theorem registration_iff (actions : List Action) :
    (∃ s, run step new actions = some s) ∧ Along step Registers new actions ↔
      Before step Registrable new actions := by
  apply enabled_along_iff_of_inv
  · exact fun s a hinv hc => registers_of_registrable hinv hc
  · intro s a s' _ hc hs
    rw [step_eq_none hc] at hs
    exact absurd hs.symm (Option.some_ne_none s')
  · exact List.Perm.nil

/-- The number 1 is no hook, and its registration is outside of `_hooks`. -/
theorem register_out_of_range :
    ¬ ∀ actions, (∃ s, run step new actions = some s) ∧ Along step Registers new actions := by
  intro h
  obtain ⟨⟨s, hrun⟩, -⟩ := h [.register 1 (some ⟨0, []⟩)]
  exact absurd hrun.symm (Option.some_ne_none s)

end HookRegistry

end NovusHeadless
