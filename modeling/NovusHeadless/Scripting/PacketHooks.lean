import NovusHeadless.Connection.NovusConnection

/-!
# Script hooks (`Scripting/PacketHooks.h`, `AngelBinder.cpp`, `Utils/Any.h`)

`CallHook` takes a context from the pool of the engine for every callback of the hook, hands it the
arguments, executes it and gives it back.

* What a script does is a parameter (`Scripts`): how the execution of the callback at a place of the list
  ends.  A script does not register or clear callbacks while the hook runs: `CallHook` iterates over the
  vector in the table itself, which a registration may reallocate.
* `Exit` is how a call ends.  An exception leaves `CallHook` at the callback that raised it, with the
  context still out of the pool, and an assertion, which is enabled here, ends the program.
* `callHook_returns_iff` — the call returns exactly when every callback takes the arguments and finishes;
  `callHook_executed` — then every callback has been executed, in the order of registration.
-/

namespace NovusHeadless

open Lib

/-- `any::Type`; `String` stands for `0x400000D`, the type id of the script engine. -/
inductive AnyType where
  | void | bool | i8 | i16 | i32 | i64 | u8 | u16 | u32 | u64 | f32 | f64 | string
  deriving DecidableEq, Repr

/-- `any`; a floating-point number is given by its bits. -/
inductive Any where
  | u8 (e : UInt8)
  | u16 (e : UInt16)
  | u32 (e : UInt32)
  | u64 (e : UInt64)
  | i8 (e : Int8)
  | i16 (e : Int16)
  | i32 (e : Int32)
  | i64 (e : Int64)
  | f32 (e : UInt32)
  | f64 (e : UInt64)
  | bool (e : Bool)
  | string (e : Bytes)
  deriving DecidableEq, Repr

def Any.getType : Any → AnyType
  | .u8 _ => .u8
  | .u16 _ => .u16
  | .u32 _ => .u32
  | .u64 _ => .u64
  | .i8 _ => .i8
  | .i16 _ => .i16
  | .i32 _ => .i32
  | .i64 _ => .i64
  | .f32 _ => .f32
  | .f64 _ => .f64
  | .bool _ => .bool
  | .string _ => .string

/-- `asIScriptFunction`, with the types that `GetParam` tells. -/
structure ScriptFunction where
  id : ℕ
  params : List AnyType
  deriving DecidableEq, Repr

/-- The values of `asEContextState` that `Execute` returns. -/
inductive ExecutionState where
  | finished
  | suspended
  | aborted
  | exception
  deriving DecidableEq, Repr

/-- How a call ends: it returns, an exception leaves it, or an assertion fails in it. -/
inductive Exit where
  | returns
  | throws
  | asserts
  deriving DecidableEq, Repr

/-! ### The context pool -/

/-- The fields of `ContextPool`; a context of `_contexts` is its place there, since `prepare` leaves
nothing of what it was used for before. -/
structure ContextPool where
  contexts : ℕ
  available : List ℕ
  availableCount : ℕ
  releasing : Bool
  deriving DecidableEq, Repr

namespace ContextPool

def new : ContextPool := ⟨0, [], 0, false⟩

/-- `none` is the null pointer. -/
def get (p : ContextPool) : Option ℕ × ContextPool :=
  if p.releasing then (none, p)
  else
    match p.available with
    | [] => (some p.contexts, { p with contexts := p.contexts + 1 })
    | id :: available =>
      (some id, { p with available := available, availableCount := p.availableCount - 1 })

def ret (p : ContextPool) (id : ℕ) : ContextPool :=
  { p with available := p.available ++ [id], availableCount := p.availableCount + 1 }

@[simp] lemma ret_releasing (p : ContextPool) (id : ℕ) : (p.ret id).releasing = p.releasing := rfl

@[simp] lemma get_releasing (p : ContextPool) : p.get.2.releasing = p.releasing := by
  unfold get
  split
  · rfl
  · split <;> rfl

/-- Only a pool that is being destroyed has no context to give. -/
lemma exists_get {p : ContextPool} (hp : p.releasing = false) : ∃ id, p.get = (some id, p.get.2) := by
  unfold get
  rw [if_neg (by rw [hp]; exact Bool.false_ne_true)]
  cases p.available with
  | nil => exact ⟨p.contexts, rfl⟩
  | cons id available => exact ⟨id, rfl⟩

/-- A context is taken and given back. -/
def cycle (p : ContextPool) : ContextPool := p.get.1.elim p.get.2 p.get.2.ret

lemma cycle_eq {p : ContextPool} {id : ℕ} (h : p.get = (some id, p.get.2)) :
    p.cycle = p.get.2.ret id := by
  unfold cycle
  rw [h]
  rfl

lemma cycle_releasing {p : ContextPool} (hp : p.releasing = false) : p.cycle.releasing = false := by
  obtain ⟨id, hid⟩ := exists_get hp
  rw [cycle_eq hid, ret_releasing, get_releasing, hp]

end ContextPool

/-! ### `Context` -/

/-- A context that has been prepared. -/
structure Context where
  id : ℕ
  function : ScriptFunction
  arguments : List Any
  deriving DecidableEq, Repr

namespace Context

def prepare (id : ℕ) (function : ScriptFunction) : Context := ⟨id, function, []⟩

/-- `setByte`, `setWord`, …: the argument goes to the place `_params`. -/
def setArgument (ctx : Context) (argument : Any) : Context :=
  { ctx with arguments := ctx.arguments ++ [argument] }

/-- The loop over the arguments; `none` when an assertion on a type fails. -/
def setArguments (ctx : Context) : List AnyType → List Any → Option Context
  | paramTypeId :: params, argument :: arguments =>
    if paramTypeId = argument.getType then (ctx.setArgument argument).setArguments params arguments
    else none
  | _, _ => some ctx

/-- `execute`: the exception callback throws, and so does the check of the result. -/
def execute (state : ExecutionState) : Exit :=
  match state with
  | .finished => .returns
  | .exception => .throws
  | .suspended => .throws
  | .aborted => .throws

lemma execute_eq_throws {state : ExecutionState} : execute state = .throws ↔ state ≠ .finished := by
  cases state <;> decide

section

variable (args : List Any)

lemma setArguments_of_types (ctx : Context) :
    ctx.setArguments (args.map Any.getType) args =
      some { ctx with arguments := ctx.arguments ++ args } := by
  induction args generalizing ctx with
  | nil =>
    rw [List.append_nil]
    rfl
  | cons argument args ih =>
    rw [List.map_cons, setArguments, if_pos rfl, ih]
    unfold setArgument
    rw [List.append_assoc]
    rfl

lemma setArguments_eq_none {params : List AnyType} (hlen : args.length = params.length)
    (ctx : Context) (h : params ≠ args.map Any.getType) : ctx.setArguments params args = none := by
  induction args generalizing params ctx with
  | nil =>
    have hnil : params = [] := List.eq_nil_of_length_eq_zero hlen.symm
    exact absurd hnil h
  | cons argument args ih =>
    cases params with
    | nil => exact absurd hlen (Nat.succ_ne_zero _)
    | cons paramTypeId params =>
      rw [setArguments]
      by_cases ht : paramTypeId = argument.getType
      · rw [if_pos ht]
        apply ih (Nat.succ.inj hlen)
        intro htail
        apply h
        rw [ht, htail, List.map_cons]
      · rw [if_neg ht]

end

end Context

/-! ### `PacketHooks` -/

/-- One execution of a callback. -/
structure Execution where
  function : ScriptFunction
  arguments : List Any
  deriving DecidableEq, Repr

/-- How the execution of the callback at a place of the list ends.  It leaves the table as it was. -/
abbrev Scripts := ℕ → Execution → ExecutionState

/-- `_hooks`. -/
abbrev HookTable := Hooks → List ScriptFunction

/-- What a call of `CallHook` leaves behind. -/
structure HookRun where
  exit : Exit
  pool : ContextPool
  executions : List Execution
  deriving DecidableEq, Repr

namespace PacketHooks

variable (scripts : Scripts) (args : List Any)

/-- The loop over `_hooks[id]`, with the callbacks that are left and the place of the first of them. -/
def callFunctions : List ScriptFunction → ℕ → ContextPool → List Execution → HookRun
  | [], _, pool, executions => ⟨.returns, pool, executions⟩
  | function :: functions, i, pool, executions =>
    match pool.get with
    | (none, pool) => callFunctions functions (i + 1) pool executions
    | (some id, pool) =>
      if args.length ≠ function.params.length then ⟨.asserts, pool, executions⟩
      else
        match (Context.prepare id function).setArguments function.params args with
        | none => ⟨.asserts, pool, executions⟩
        | some context =>
          let execution : Execution := ⟨context.function, context.arguments⟩
          let executions := executions ++ [execution]
          match Context.execute (scripts i execution) with
          | .returns => callFunctions functions (i + 1) (pool.ret context.id) executions
          | exit => ⟨exit, pool, executions⟩

def callHook (hooks : HookTable) (pool : ContextPool) (id : Hooks) : HookRun :=
  callFunctions scripts args (hooks id) 0 pool []

/-- The callback at the place `i` takes the arguments, and its execution finishes. -/
structure Completes (i : ℕ) (function : ScriptFunction) : Prop where
  takes : function.params = args.map Any.getType
  finishes : scripts i ⟨function, args⟩ = .finished

section

variable {scripts : Scripts} {args : List Any} {pool : ContextPool} {function : ScriptFunction}
  {functions : List ScriptFunction} {i : ℕ} {executions : List Execution}

lemma callFunctions_of_completes (functions : List ScriptFunction) (executions : List Execution)
    (hpool : pool.releasing = false) (h : Completes scripts args i function) :
    callFunctions scripts args (function :: functions) i pool executions =
      callFunctions scripts args functions (i + 1) pool.cycle (executions ++ [⟨function, args⟩]) := by
  obtain ⟨id, hid⟩ := ContextPool.exists_get hpool
  have hlen : ¬ args.length ≠ function.params.length := by
    rw [h.takes, List.length_map]
    exact not_not.2 rfl
  have hargs := Context.setArguments_of_types args (Context.prepare id function)
  rw [← h.takes] at hargs
  rw [callFunctions, hid, ContextPool.cycle_eq hid]
  simp only [if_neg hlen, hargs]
  have hexec : scripts i ⟨(Context.prepare id function).function,
      (Context.prepare id function).arguments ++ args⟩ = .finished := h.finishes
  simp only [hexec, Context.execute]
  rfl

lemma callFunctions_of_mismatch (hpool : pool.releasing = false)
    (h : function.params ≠ args.map Any.getType) :
    callFunctions scripts args (function :: functions) i pool executions =
      ⟨.asserts, pool.get.2, executions⟩ := by
  obtain ⟨id, hid⟩ := ContextPool.exists_get hpool
  rw [callFunctions, hid]
  by_cases hlen : args.length ≠ function.params.length
  · simp only [if_pos hlen]
  · simp only [if_neg hlen, Context.setArguments_eq_none args (not_not.1 hlen) _ h]

/-- A callback that takes the arguments and does not finish throws, with its context out of the pool. -/
lemma callFunctions_of_unfinished (hpool : pool.releasing = false)
    (htakes : function.params = args.map Any.getType)
    (h : scripts i ⟨function, args⟩ ≠ .finished) :
    callFunctions scripts args (function :: functions) i pool executions =
      ⟨.throws, pool.get.2, executions ++ [⟨function, args⟩]⟩ := by
  obtain ⟨id, hid⟩ := ContextPool.exists_get hpool
  have hlen : ¬ args.length ≠ function.params.length := by
    rw [htakes, List.length_map]
    exact not_not.2 rfl
  have hargs := Context.setArguments_of_types args (Context.prepare id function)
  rw [← htakes] at hargs
  have hexec : Context.execute (scripts i ⟨(Context.prepare id function).function,
      (Context.prepare id function).arguments ++ args⟩) = .throws := Context.execute_eq_throws.2 h
  rw [callFunctions, hid]
  simp only [if_neg hlen, hargs, hexec]
  rfl

lemma callFunctions_of_not_completes (hpool : pool.releasing = false)
    (h : ¬ Completes scripts args i function) :
    (callFunctions scripts args (function :: functions) i pool executions).exit ≠ .returns := by
  by_cases htakes : function.params = args.map Any.getType
  · rw [callFunctions_of_unfinished hpool htakes (fun hfinished => h ⟨htakes, hfinished⟩)]
    show Exit.throws ≠ .returns
    decide
  · rw [callFunctions_of_mismatch hpool htakes]
    show Exit.asserts ≠ .returns
    decide

/-- **The loop** returns exactly when every callback completes. -/
theorem callFunctions_returns_iff (hpool : pool.releasing = false) :
    (callFunctions scripts args functions i pool executions).exit = .returns ↔
      ∀ j function, functions[j]? = some function → Completes scripts args (i + j) function := by
  induction functions generalizing i pool executions with
  | nil =>
    constructor
    · intro _ j function hj
      exact absurd hj (by simp)
    · intro _
      rfl
  | cons function functions ih =>
    by_cases h : Completes scripts args i function
    · rw [callFunctions_of_completes functions executions hpool h,
        ih (ContextPool.cycle_releasing hpool)]
      constructor
      · intro htail j f hj
        cases j with
        | zero =>
          obtain rfl := Option.some.inj hj
          exact h
        | succ j =>
          have hlater := htail j f hj
          rwa [Nat.add_right_comm] at hlater
      · intro hall j f hj
        rw [Nat.add_right_comm]
        exact hall (j + 1) f hj
    · constructor
      · intro hreturns
        exact absurd hreturns (callFunctions_of_not_completes hpool h)
      · intro hall
        exact absurd (hall 0 function rfl) h

/-- **The loop** executes every callback, in order, when all of them complete. -/
theorem callFunctions_executions (hpool : pool.releasing = false)
    (h : ∀ j function, functions[j]? = some function → Completes scripts args (i + j) function) :
    (callFunctions scripts args functions i pool executions).executions =
      executions ++ functions.map fun function => ⟨function, args⟩ := by
  induction functions generalizing i pool executions with
  | nil =>
    rw [List.map_nil, List.append_nil]
    rfl
  | cons function functions ih =>
    have hfirst : Completes scripts args i function := h 0 function rfl
    have htail : ∀ j f, functions[j]? = some f → Completes scripts args (i + 1 + j) f := by
      intro j f hj
      rw [Nat.add_right_comm]
      exact h (j + 1) f hj
    rw [callFunctions_of_completes functions executions hpool hfirst,
      ih (ContextPool.cycle_releasing hpool) htail, List.append_assoc, List.map_cons]
    rfl

end

section

variable {scripts : Scripts} {args : List Any} {hooks : HookTable} {pool : ContextPool} {id : Hooks}

theorem callHook_returns_iff (hpool : pool.releasing = false) :
    (callHook scripts args hooks pool id).exit = .returns ↔
      ∀ i function, (hooks id)[i]? = some function → Completes scripts args i function := by
  unfold callHook
  rw [callFunctions_returns_iff hpool]
  simp only [Nat.zero_add]

theorem callHook_executed (hpool : pool.releasing = false)
    (h : ∀ i function, (hooks id)[i]? = some function → Completes scripts args i function) :
    (callHook scripts args hooks pool id).executions =
      (hooks id).map fun function => ⟨function, args⟩ := by
  unfold callHook
  apply callFunctions_executions hpool
  intro j function hj
  rw [Nat.zero_add]
  exact h j function hj

end

end PacketHooks

end NovusHeadless
