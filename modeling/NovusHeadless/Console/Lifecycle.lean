import NovusHeadless.Lib.Transition
import NovusHeadless.Console.Dispatch

/-!
# `Start` and `Stop` of the client (`ClientHandler.cpp`)

`_isRunning` guards both calls: `Start` returns when it is set, `Stop` when it is not.  No statement
behind the constructor writes it, so every `Start` makes a thread and no `Stop` passes a message.

* `Lifecycle` has the flag, the queues and one place for each thread that was started; its steps are the
  calls and the steps of the loops, in any order.
* `lifecycle_iff` — at most one loop is active and `Stop` reaches it along a run, exactly when neither of
  the two is called in the run while a loop is active.
* `client_runs` — the client thread of `Program` is such a loop.
-/

namespace NovusHeadless

open Lib

/-- `ClientHandler` with its flag and the threads that `Start` made. -/
structure Lifecycle where
  isRunning : Bool
  handler : ClientHandler
  loops : List RunPc

namespace Lifecycle

/-- `ClientHandler(targetTickRate)`. -/
def new : Lifecycle := ⟨false, .new, []⟩

def start (s : Lifecycle) : Lifecycle :=
  if s.isRunning then s else { s with loops := s.loops ++ [.loading] }

def stop (s : Lifecycle) : Lifecycle :=
  if !s.isRunning then s else { s with handler := s.handler.passMessage exitRequest }

/-- A step of the loop at the place `i`. -/
def runLoop (s : Lifecycle) (i : ℕ) : Option Lifecycle :=
  s.loops[i]?.bind fun pc => (s.handler.runStep pc).map fun r =>
    { s with loops := s.loops.set i r.1, handler := r.2 }

inductive Action where
  | start
  | stop
  | run (i : ℕ)
  | passMessage (message : Message)
  | tryGetMessage
  deriving DecidableEq, Repr

def step (s : Lifecycle) : Action → Option Lifecycle
  | .start => some s.start
  | .stop => some s.stop
  | .run i => s.runLoop i
  | .passMessage message => some { s with handler := s.handler.passMessage message }
  | .tryGetMessage =>
    some { s with handler := s.handler.tryGetMessage.elim s.handler Prod.snd }

/-- The number of loops that have not ended. -/
def active (s : Lifecycle) : ℕ := s.loops.countP fun pc => decide (pc ≠ .ended)

/-- At most one loop is active, and a `Stop` while one is active passes the exit message. -/
structure Controlled (s : Lifecycle) (a : Action) (s' : Lifecycle) : Prop where
  single : s'.active ≤ 1
  stops : a = .stop → 0 < s.active → s'.handler = s.handler.passMessage exitRequest

/-- `Start` and `Stop` are called only when no loop is active. -/
def CalledIdle (s : Lifecycle) (a : Action) (_ : Lifecycle) : Prop :=
  a = .start ∨ a = .stop → s.active = 0

/-- The flag is clear, and at most one loop is active. -/
structure Idle (s : Lifecycle) : Prop where
  flag : s.isRunning = false
  single : s.active ≤ 1

section

variable {s s' : Lifecycle} {a : Action}

lemma start_of_flag (h : s.isRunning = false) :
    s.start = { s with loops := s.loops ++ [.loading] } := by
  unfold start
  rw [h, if_neg Bool.false_ne_true]

lemma stop_of_flag (h : s.isRunning = false) : s.stop = s := by
  unfold stop
  rw [if_pos (by rw [h]; rfl)]

lemma active_start (h : s.isRunning = false) : s.start.active = s.active + 1 := by
  rw [start_of_flag h]
  unfold active
  rw [List.countP_append]
  rfl

lemma active_runLoop {i : ℕ} (h : s.runLoop i = some s') :
    s'.isRunning = s.isRunning ∧ s'.active ≤ s.active := by
  unfold runLoop at h
  obtain ⟨pc, hpc, h⟩ := Option.bind_eq_some_iff.1 h
  obtain ⟨r, hr, rfl⟩ := Option.map_eq_some_iff.1 h
  refine ⟨rfl, ?_⟩
  obtain ⟨hi, hpc⟩ := List.getElem?_eq_some_iff.1 hpc
  have hactive : decide (pc ≠ .ended) = true := by
    cases pc with
    | ended => exact absurd hr (by simp [ClientHandler.runStep])
    | loading | update | handle | reloading | wait | exiting => rfl
  show (s.loops.set i r.1).countP _ ≤ s.loops.countP _
  rw [List.countP_set hi, hpc, if_pos hactive]
  have hpos : 0 < s.loops.countP fun pc => decide (pc ≠ .ended) :=
    List.countP_pos_iff.2 ⟨pc, List.mem_of_getElem hpc, hactive⟩
  split <;> omega

/-- **A call on an idle client** is controlled. -/
lemma controlled_of_idle (hinv : s.Idle) (hs : s.step a = some s') (hc : CalledIdle s a s') :
    s'.Idle ∧ Controlled s a s' := by
  cases a with
  | start =>
    obtain rfl := Option.some.inj hs
    have hzero := hc (Or.inl rfl)
    have hone : s.start.active ≤ 1 := by rw [active_start hinv.flag, hzero]
    refine ⟨⟨?_, hone⟩, hone, fun h => absurd h (by decide)⟩
    rw [start_of_flag hinv.flag]
    exact hinv.flag
  | stop =>
    obtain rfl := Option.some.inj hs
    have hzero := hc (Or.inr rfl)
    rw [stop_of_flag hinv.flag]
    refine ⟨hinv, hinv.single, fun _ hpos => ?_⟩
    rw [hzero] at hpos
    exact absurd hpos (Nat.lt_irrefl 0)
  | run i =>
    obtain ⟨hflag, hle⟩ := active_runLoop hs
    have hone := hle.trans hinv.single
    exact ⟨⟨hflag.trans hinv.flag, hone⟩, hone, fun h => absurd h (by simp)⟩
  | passMessage message =>
    obtain rfl := Option.some.inj hs
    exact ⟨⟨hinv.flag, hinv.single⟩, hinv.single, fun h => absurd h (by simp)⟩
  | tryGetMessage =>
    obtain rfl := Option.some.inj hs
    exact ⟨⟨hinv.flag, hinv.single⟩, hinv.single, fun h => absurd h (by decide)⟩

/-- **A call while a loop is active** is not. -/
lemma not_controlled_of_active (hinv : s.Idle) (hs : s.step a = some s')
    (hc : ¬ CalledIdle s a s') : ¬ Controlled s a s' := by
  rintro ⟨hsingle, hstops⟩
  obtain ⟨hcall, hactive⟩ := Classical.not_imp.1 hc
  rcases hcall with rfl | rfl
  · obtain rfl := Option.some.inj hs
    rw [active_start hinv.flag] at hsingle
    omega
  · obtain rfl := Option.some.inj hs
    have hpasses := hstops rfl (Nat.pos_of_ne_zero hactive)
    rw [stop_of_flag hinv.flag] at hpasses
    exact passMessage_ne _ _ hpasses.symm

end

/-- **The exact condition** for the calls of a run. -/
theorem lifecycle_iff (actions : List Action) :
    Along step Controlled new actions ↔ Along step CalledIdle new actions := by
  apply along_iff_of_inv
  · exact fun s a s' => controlled_of_idle
  · exact fun s a s' => not_controlled_of_active
  · exact ⟨rfl, Nat.zero_le 1⟩

/-- Two starts make two loops. -/
theorem second_start_doubles : ¬ ∀ actions, Along step Controlled new actions := by
  intro h
  obtain ⟨-, hrest⟩ := h [.start, .start] new.start rfl
  obtain ⟨⟨hsingle, -⟩, -⟩ := hrest new.start.start rfl
  exact absurd hsingle (by decide)

/-- The client thread of the program is the one loop behind one `Start`. -/
theorem client_runs {p p' : Program} (h : p.step .client = some p') :
    step ⟨false, p.handler, [p.run]⟩ (.run 0) = some ⟨false, p'.handler, [p'.run]⟩ := by
  obtain ⟨r, hr, rfl⟩ := Option.map_eq_some_iff.1 h
  show (p.handler.runStep p.run).map _ = _
  rw [hr]
  rfl

end Lifecycle

end NovusHeadless
