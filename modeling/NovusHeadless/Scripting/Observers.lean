import NovusHeadless.Connection.Runs
import NovusHeadless.Scripting.PacketHooks

/-!
# Callbacks as observers

`HandleRead` calls the hook of a challenge in the middle of its work: behind the header of a failed reply,
and in `HandleCommandChallenge` between the change of the status and the proof.

* `OnlyObserve` — the property: the outcome of `HandleRead` is the one without callbacks, and every
  callback has been executed wherever the hook is called;
* `HookReached` — the states in which the hook is called;
* `onlyObserve_iff` — the callbacks only observe a call of `HandleRead` exactly when the hook is not
  reached or all of them complete.

No callback registers callbacks while the hook runs, as everywhere in `PacketHooks`.
-/

namespace NovusHeadless

open Lib PacketHooks

/-- The engine of a thread.  Nothing destroys it, so its pool is never being released. -/
structure ScriptEngine where
  pool : ContextPool
  live : pool.releasing = false

/-- The arguments `_username, result`. -/
def HookCall.arguments (call : HookCall) : List Any := [.string call.username, .u8 call.result]

/-- What a call of the hook leaves behind. -/
def HookCall.run (scripts : Scripts) (engine : ScriptEngine) (hooks : HookTable) (call : HookCall) :
    HookRun :=
  callHook scripts call.arguments hooks engine.pool call.id

/-- The surroundings of a connection with these callbacks in the table. -/
def Env.withHooks (env : Env) (scripts : Scripts) (engine : ScriptEngine) (hooks : HookTable) : Env :=
  { env with callHook := fun call => decide ((call.run scripts engine hooks).exit = .returns) }

/-- The table before any registration. -/
def noHooks : HookTable := fun _ => []

/-- What `HandleRead` decides. -/
structure ProtocolResult where
  status : NovusStatus
  key : BigNumber
  proofM2 : Digest
  sent : List Bytes
  isClosed : Bool
  reads : List ReadOp

namespace NovusConnection

def protocolResult (c : NovusConnection) : ProtocolResult :=
  ⟨c.status, c.key, c.proofM2, c.sent, c.isClosed, c.reads⟩

/-- The property of a call of `HandleRead`.  The calls of the hook are those that the run without
callbacks gets through. -/
structure OnlyObserve (env : Env) (scripts : Scripts) (engine : ScriptEngine) (hooks : HookTable)
    (c : NovusConnection) : Prop where
  result : (c.handleRead (env.withHooks scripts engine hooks)).map protocolResult =
    (c.handleRead (env.withHooks scripts engine noHooks)).map protocolResult
  executed : ∀ c', c.handleRead (env.withHooks scripts engine noHooks) = some c' →
    ∀ call ∈ c'.hookCalls.drop c.hookCalls.length,
      (call.run scripts engine hooks).executions =
        (hooks call.id).map fun function => ⟨function, call.arguments⟩

/-- The bytes received lead to a call of the hook. -/
def HookReached (c : NovusConnection) : Prop :=
  c.verdict = .challengeFailed ∨ c.verdict = .challenge

/-- Every callback of the hook completes.  That none changes the table while the hook runs is part of what
`Scripts` are. -/
def AllComplete (scripts : Scripts) (hooks : HookTable) (call : HookCall) : Prop :=
  ∀ i function, (hooks call.id)[i]? = some function → Completes scripts call.arguments i function

section

variable {env : Env} {scripts : Scripts} {engine : ScriptEngine} {hooks : HookTable}
  {c : NovusConnection}

lemma withHooks_callHook (call : HookCall) :
    (env.withHooks scripts engine hooks).callHook call = true ↔ AllComplete scripts hooks call := by
  show decide ((call.run scripts engine hooks).exit = .returns) = true ↔ _
  rw [decide_eq_true_iff]
  exact callHook_returns_iff engine.live

lemma noHooks_callHook (call : HookCall) :
    (env.withHooks scripts engine noHooks).callHook call = true := by
  apply (withHooks_callHook call).2
  intro i function hi
  exact absurd hi (by simp [noHooks])

lemma accepted_withHooks (hooks : HookTable) :
    c.accepted (env.withHooks scripts engine hooks) = c.accepted env := by
  have hlocals : c.locals (env.withHooks scripts engine hooks) = c.locals env := rfl
  unfold accepted
  rw [hlocals]

lemma handleRead_withHooks (hr : c.byteBuffer.readPos = 0)
    (h : HookReached c → AllComplete scripts hooks c.challengeCall) :
    c.handleRead (env.withHooks scripts engine hooks) =
      c.handleRead (env.withHooks scripts engine noHooks) := by
  rw [handleRead_eq _ _ hr, handleRead_eq _ _ hr]
  cases hv : c.verdict with
  | challengeFailed =>
    have hcall : (env.withHooks scripts engine hooks).callHook c.challengeCall = true :=
      (withHooks_callHook _).2 (h (.inl hv))
    simp only [if_pos hcall, if_pos (noHooks_callHook c.challengeCall)]
  | challenge =>
    have hcall : (env.withHooks scripts engine hooks).callHook c.challengeCall = true :=
      (withHooks_callHook _).2 (h (.inr hv))
    simp only [if_pos hcall, if_pos (noHooks_callHook c.challengeCall), accepted_withHooks]
  | _ => rfl

lemma exists_handleRead_noHooks (env : Env) (scripts : Scripts) (engine : ScriptEngine)
    (hr : c.byteBuffer.readPos = 0) :
    ∃ c', c.handleRead (env.withHooks scripts engine noHooks) = some c' := by
  rw [handleRead_eq _ _ hr]
  cases c.verdict with
  | challengeFailed | challenge =>
    simp only [if_pos (noHooks_callHook c.challengeCall)]
    exact ⟨_, rfl⟩
  | _ => exact ⟨_, rfl⟩

lemma handleRead_eq_none (hr : c.byteBuffer.readPos = 0) (hreach : HookReached c)
    (h : ¬ AllComplete scripts hooks c.challengeCall) :
    c.handleRead (env.withHooks scripts engine hooks) = none := by
  have hcall : ¬ (env.withHooks scripts engine hooks).callHook c.challengeCall = true := by
    intro hcall
    exact h ((withHooks_callHook _).1 hcall)
  rw [handleRead_eq _ _ hr]
  rcases hreach with hv | hv
  · simp only [hv, if_neg hcall]
  · simp only [hv, if_neg hcall]

lemma hookCalls_settle (c : NovusConnection) : c.settle.hookCalls = c.hookCalls := by
  unfold settle
  split <;> rfl

lemma hookCalls_handleRead {c' : NovusConnection} (hr : c.byteBuffer.readPos = 0)
    (h : c.handleRead env = some c') :
    c'.hookCalls = c.hookCalls ∨
      HookReached c ∧ c'.hookCalls = c.hookCalls ++ [c.challengeCall] := by
  rw [handleRead_eq env _ hr] at h
  cases hv : c.verdict with
  | wait | unknown | wrongStep | proofFailed =>
    simp only [hv, Option.some.injEq] at h
    subst h
    exact .inl rfl
  | challengeFailed =>
    simp only [hv, Option.ite_none_right_eq_some, Option.some.injEq] at h
    obtain ⟨-, rfl⟩ := h
    exact .inr ⟨.inl hv, rfl⟩
  | challenge =>
    simp only [hv, Option.ite_none_right_eq_some, Option.some.injEq] at h
    obtain ⟨-, rfl⟩ := h
    refine .inr ⟨.inr hv, ?_⟩
    split
    · rw [hookCalls_settle]
      rfl
    · rfl
  | proof =>
    simp only [hv, Option.some.injEq] at h
    subst h
    left
    split
    · rw [hookCalls_settle]
      rfl
    · rfl

end

/-- **Hooks observe.**  The callbacks only observe a call of `HandleRead` exactly when the bytes received
do not lead to the hook or every callback takes the arguments and finishes. -/
theorem onlyObserve_iff (env : Env) (scripts : Scripts) (engine : ScriptEngine) (hooks : HookTable)
    {c : NovusConnection} (hr : c.byteBuffer.readPos = 0) :
    OnlyObserve env scripts engine hooks c ↔
      (HookReached c → AllComplete scripts hooks c.challengeCall) := by
  constructor
  · intro h hreach
    by_contra hfails
    obtain ⟨c', hc'⟩ := exists_handleRead_noHooks env scripts engine hr
    have hresult := h.result
    rw [handleRead_eq_none hr hreach hfails, hc'] at hresult
    exact absurd hresult (by simp)
  · intro h
    refine ⟨?_, ?_⟩
    · rw [handleRead_withHooks hr h]
    · intro c' hc' call hcall
      rcases hookCalls_handleRead hr hc' with hcalls | ⟨hreach, hcalls⟩
      · rw [hcalls, List.drop_length] at hcall
        exact absurd hcall List.not_mem_nil
      · rw [hcalls, List.drop_left] at hcall
        obtain rfl := List.mem_singleton.1 hcall
        exact callHook_executed engine.live (h hreach)

end NovusConnection

open NovusConnection

/-! ### The callbacks of the examples -/

def sampleEngine : ScriptEngine := ⟨.new, rfl⟩

/-- One callback with the parameters of `PacketCallback`. -/
def sampleHooks : HookTable := fun _ => [⟨0, [.string, .u8]⟩]

/-- The connection of the examples when a server that knows no such account has replied. -/
def sampleRefusal : NovusConnection := sampleConnection.received ⟨0, 4096⟩ [0, 0, 4]

lemma sampleRefusal_eq :
    sampleRefusal = sampleConnection.landed 3 (splice (List.replicate 4096 0) 0 [0, 0, 4]) :=
  received_sampleConnection [0, 0, 4] (by norm_num)

theorem onlyObserve_iff_sample :
    OnlyObserve sampleEnv (fun _ _ => .finished) sampleEngine sampleHooks sampleRefusal := by
  have hr : sampleRefusal.byteBuffer.readPos = 0 := by rw [sampleRefusal_eq]; rfl
  apply (onlyObserve_iff _ _ _ _ hr).2
  intro _ i function hi
  unfold sampleHooks at hi
  rw [List.getElem?_singleton] at hi
  split_ifs at hi
  obtain rfl := Option.some.inj hi
  exact ⟨rfl, rfl⟩

/-- A callback that raises an exception: `HandleRead` does not get to `Close`. -/
theorem onlyObserve_counterexample :
    ¬ OnlyObserve sampleEnv (fun _ _ => .exception) sampleEngine sampleHooks sampleRefusal := by
  intro h
  have hr : sampleRefusal.byteBuffer.readPos = 0 := by rw [sampleRefusal_eq]; rfl
  have hreach : HookReached sampleRefusal := by
    left
    rw [sampleRefusal_eq, verdict_landed (by norm_num)]
    rfl
  have hfails : ¬ AllComplete (fun _ _ => .exception) sampleHooks sampleRefusal.challengeCall := by
    intro hall
    exact ExecutionState.noConfusion (hall 0 _ rfl).finishes
  obtain ⟨c', hc'⟩ := exists_handleRead_noHooks sampleEnv (fun _ _ => .exception) sampleEngine hr
  have hresult := h.result
  rw [handleRead_eq_none hr hreach hfails, hc'] at hresult
  exact absurd hresult (by simp)

end NovusHeadless
