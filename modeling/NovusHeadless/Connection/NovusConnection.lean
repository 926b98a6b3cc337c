import NovusHeadless.Networking.BaseSocket
import NovusHeadless.Connection.Srp6

/-!
# `NovusConnection` (`Connection/NovusConnection.h`, `NovusConnection.cpp`)

The fields of the connection behind those of its socket, `Start`, the two handlers, and `HandleRead`
with its loop.

* What the connection asks of its surroundings is the structure `Env`.
* A function returns `none` when the program does not go on behind the call: an exception left the
  script hook (nothing catches it on the way to the thread that runs the `io_service`), or the code ran
  into undefined behaviour.
* `assert` is enabled in the models of this project, and one that fails ends the program (`CallHook`,
  `WriteAt`, `acquire`).  The exception is the `NC_LOG_FATAL` in `Start`, whose message ends with
  `assert(false)`: `start` is the function of a build with `NDEBUG`, which returns false there.  With
  assertions the program ends at that place, where nothing has been sent.
* `hookCalls` and `handlersRun` record what has happened; no function reads them.
* The loop ends because a handler that returns true has raised the status (`rank_of_next`).
-/

namespace NovusHeadless

open Lib

/-- `PacketHooks::Hooks`. -/
inductive Hooks where
  | onLoginChallenge
  deriving DecidableEq, Repr

structure HookCall where
  id : Hooks
  username : Bytes
  result : UInt8
  deriving DecidableEq, Repr

/-- What lies outside of the connection. -/
structure Env where
  sha1 : Bytes → Digest
  /-- the outcome of `a.Rand(19 * 8)` -/
  a : PrivateKey
  /-- whether `_socket->connect` succeeds -/
  connects : Bool
  /-- whether `CallHook` returns -/
  callHook : HookCall → Bool

/-- One call of a handler. -/
structure HandlerRun where
  command : NovusCommand
  /-- the memory from the read pointer on -/
  memory : Bytes
  /-- how many bytes of it had been received -/
  received : ℕ
  before : NovusStatus
  after : NovusStatus
  returned : Bool
  deriving DecidableEq, Repr

structure NovusConnection extends BaseSocket where
  status : NovusStatus
  username : Bytes
  password : Bytes
  key : BigNumber
  passwordKey : BigNumber
  proofM2 : Digest
  hookCalls : List HookCall
  handlersRun : List HandlerRun

namespace NovusConnection

/-- The constructor; `_proofM2` is left uninitialised. -/
def new (proofM2 : Digest) : NovusConnection :=
  { BaseSocket.new with
    status := .challenge, username := [], password := [], key := .new, passwordKey := .new,
    proofM2 := proofM2, hookCalls := [], handlersRun := [] }

/-! ### The members of the base class -/

def close (c : NovusConnection) : NovusConnection := { c with toBaseSocket := c.toBaseSocket.close }

def send (c : NovusConnection) (buffer : ByteBuffer) : NovusConnection :=
  { c with toBaseSocket := c.toBaseSocket.send buffer }

def asyncRead (c : NovusConnection) : NovusConnection :=
  { c with toBaseSocket := c.toBaseSocket.asyncRead }

def received (c : NovusConnection) (op : ReadOp) (chunk : Bytes) : NovusConnection :=
  { c with toBaseSocket := c.toBaseSocket.received op chunk }

/-- `ByteBuffer packet(n); packet.Resize(n); memcpy(..); packet.WriteBytes(n)`. -/
def packet (data : Bytes) : ByteBuffer :=
  { (ByteBuffer.new.resize data.length).writeBytes data.length with bufferData := data }

/-! ### `Start` -/

/-- The Boolean is the result of the function. -/
def start (env : Env) (c : NovusConnection) (username password : Bytes) :
    Option (Bool × NovusConnection) := do
  if env.connects then
    let c := { c with toBaseSocket := c.toBaseSocket.connect }
    let challenge ← cAuthLogonChallenge username
    let c := c.asyncRead
    let c := c.send (packet challenge)
    let c := { c with username := username, password := password }
    let c := { c with passwordKey := passwordHash env.sha1 c.username c.password }
    return (true, c)
  else
    return (false, c)

/-! ### The handlers -/

/-- `PacketHooks::CallHook(id, _username, result)`. -/
def callHook (env : Env) (c : NovusConnection) (id : Hooks) (result : UInt8) :
    Option NovusConnection :=
  let call : HookCall := ⟨id, c.username, result⟩
  if env.callHook call then some { c with hookCalls := c.hookCalls ++ [call] } else none

def handleCommandChallenge (env : Env) (c : NovusConnection) : Option (Bool × NovusConnection) := do
  let c := { c with status := .proof }
  let logonChallenge := SAuthLogonChallengeData.ofBytes c.byteBuffer.getReadPointer
  let c ← c.callHook env .onLoginChallenge logonChallenge.result
  if logonChallenge.Accepted then
    let l := challengeLocals env.sha1 env.a c.username c.passwordKey logonChallenge
    let c := { c with key := l.key, proofM2 := l.proofM2 }
    return (true, c.send (packet l.logonProof.toBytes))
  else
    return (false, c)

def handleCommandProof (_ : Env) (c : NovusConnection) : Option (Bool × NovusConnection) := do
  let c := { c with status := .authed }
  let logonProof := SAuthLogonProofData.ofBytes c.byteBuffer.getReadPointer
  return (decide (c.proofM2 = logonProof.M2), c)

structure NovusMessageHandler where
  status : NovusStatus
  packetSize : ℕ
  command : NovusCommand
  handler : Env → NovusConnection → Option (Bool × NovusConnection)

/-- `MessageHandlers.find`, on the table of `InitMessageHandlers`. -/
def messageHandlers (command : UInt8) : Option NovusMessageHandler :=
  if command = NovusCommand.challenge.code then
    some ⟨.challenge, 3, .challenge, handleCommandChallenge⟩
  else if command = NovusCommand.proof.code then
    some ⟨.proof, 4, .proof, handleCommandProof⟩
  else none

/-! ### `HandleRead` -/

/-- How a pass through the body of the loop ends: with the next test of the loop condition, with
`break`, or with `return`. -/
inductive Flow where
  | next (c : NovusConnection)
  | leave (c : NovusConnection)
  | done (c : NovusConnection)

/-- "Challenge Failed". -/
def challengeFailed (env : Env) (c : NovusConnection) : Option Flow := do
  let (challengeHeader, byteBuffer) := SAuthLogonChallengeHeader.read c.byteBuffer
  let c := { c with byteBuffer := byteBuffer }
  let c ← c.callHook env .onLoginChallenge challengeHeader.result
  return .done c.close

/-- "Proof Failed". -/
def proofFailed (c : NovusConnection) : Option Flow :=
  let (_, byteBuffer) := SAuthLogonProofHeader.read c.byteBuffer
  let c := { c with byteBuffer := byteBuffer }
  some (.done c.close)

/-- The call of the handler and what follows it in the loop body. -/
def runHandler (env : Env) (itr : NovusMessageHandler) (c : NovusConnection) (size : UInt16) :
    Option Flow := do
  let (result, c') ← itr.handler env c
  let run : HandlerRun :=
    ⟨itr.command, c.byteBuffer.getReadPointer, c.byteBuffer.getActualSize, c.status, c'.status,
      result⟩
  let c' := { c' with handlersRun := c'.handlersRun ++ [run] }
  if !result then
    return .done c'.close
  else
    return .next { c' with byteBuffer := c'.byteBuffer.readBytes size.toNat }

/-- The body of the loop. -/
def loopBody (env : Env) (c : NovusConnection) : Option Flow :=
  let command := c.byteBuffer.getDataPointer.getD 0 0
  match messageHandlers command with
  | none => some (.leave { c with byteBuffer := c.byteBuffer.clean })
  | some itr =>
    if c.status ≠ itr.status then
      some (.done c.close)
    else
      let size := UInt16.ofNat itr.packetSize
      if c.byteBuffer.getActualSize < size.toNat then
        some (.leave c)
      else if command = NovusCommand.challenge.code then
        if c.byteBuffer.getActualSize = 3 then
          c.challengeFailed env
        else
          c.runHandler env itr (size + 116)
      else if command = NovusCommand.proof.code then
        if c.byteBuffer.getActualSize = 4 then
          c.proofFailed
        else
          c.runHandler env itr (size + 32)
      else
        c.runHandler env itr size

/-- The place of a status in the login. -/
def rank : NovusStatus → ℕ
  | .challenge => 0
  | .proof => 1
  | .authed => 2
  | .closed => 3

/-- The handler of a table entry that is called in the status of the entry raises the status by one. -/
lemma rank_of_handler {env : Env} {command : UInt8} {itr : NovusMessageHandler}
    (hi : messageHandlers command = some itr) {c c' : NovusConnection} {result : Bool}
    (h : itr.handler env c = some (result, c')) :
    rank c'.status = rank itr.status + 1 ∧ rank itr.status < 2 := by
  unfold messageHandlers at hi
  split at hi
  · obtain rfl := Option.some.inj hi
    simp only [handleCommandChallenge, callHook, Option.bind_eq_bind, Option.bind_eq_some_iff,
      Option.ite_none_right_eq_some] at h
    obtain ⟨c₁, ⟨-, h₁⟩, h⟩ := h
    obtain rfl := Option.some.inj h₁
    split at h <;> obtain ⟨-, rfl⟩ := Prod.mk.inj (Option.some.inj h) <;> exact ⟨rfl, by decide⟩
  · rw [Option.ite_none_right_eq_some] at hi
    obtain ⟨-, hi⟩ := hi
    obtain rfl := Option.some.inj hi
    obtain ⟨-, rfl⟩ := Prod.mk.inj (Option.some.inj h)
    exact ⟨rfl, by decide⟩

lemma handler_of_next {env : Env} {itr : NovusMessageHandler} {c c' : NovusConnection}
    {size : UInt16} (h : runHandler env itr c size = some (.next c')) :
    ∃ c₁, itr.handler env c = some (true, c₁) ∧ c'.status = c₁.status := by
  simp only [runHandler, Option.bind_eq_bind, Option.bind_eq_some_iff, Prod.exists] at h
  obtain ⟨result, c₁, hc₁, h⟩ := h
  cases result with
  | false => simp at h
  | true =>
    obtain rfl : _ = c' := by simpa using h
    exact ⟨c₁, hc₁, rfl⟩

/-- **A pass that goes on to the next test has raised the status.** -/
theorem rank_of_next {env : Env} {c c' : NovusConnection} (h : c.loopBody env = some (.next c')) :
    rank c.status < rank c'.status ∧ rank c'.status < 3 := by
  have hrun : ∀ {command itr size}, messageHandlers command = some itr → c.status = itr.status →
      runHandler env itr c size = some (.next c') →
      rank c.status < rank c'.status ∧ rank c'.status < 3 := by
    intro command itr size hitr hst hr
    obtain ⟨c₁, hc₁, hs⟩ := handler_of_next hr
    have := rank_of_handler hitr hc₁
    rw [hst, hs]
    omega
  simp only [loopBody] at h
  cases hitr : messageHandlers (c.byteBuffer.getDataPointer.getD 0 0) with
  | none => simp only [hitr, Option.some.injEq, reduceCtorEq] at h
  | some itr =>
    simp only [hitr] at h
    by_cases hst : c.status = itr.status
    · rw [if_neg (not_not.2 hst)] at h
      -- the two failure branches return, every other branch is the call of the handler
      split_ifs at h
      · simp at h
      · simp [challengeFailed, Option.bind_eq_some_iff] at h
      · exact hrun hitr hst h
      · simp [proofFailed] at h
      · exact hrun hitr hst h
      · exact hrun hitr hst h
    · rw [if_pos hst] at h
      simp at h

/-- The loop from a test of its condition on; the Boolean says whether `AsyncRead` follows. -/
def loop (env : Env) (c : NovusConnection) : Option (Bool × NovusConnection) :=
  if c.byteBuffer.getActualSize ≠ 0 then
    match _h : c.loopBody env with
    | none => none
    | some (.next c') => loop env c'
    | some (.leave c') => some (true, c')
    | some (.done c') => some (false, c')
  else
    some (true, c)
termination_by 3 - rank c.status
decreasing_by
  have := rank_of_next _h
  omega

def handleRead (env : Env) (c : NovusConnection) : Option NovusConnection :=
  if c.status = .closed then
    some c.asyncRead
  else do
    let (fallsThrough, c) ← c.loop env
    return if fallsThrough then c.asyncRead else c

/-- `HandleInternalRead` without an error, together with the store into the buffer. -/
def handleInternalRead (env : Env) (c : NovusConnection) (op : ReadOp) (chunk : Bytes) :
    Option NovusConnection :=
  (c.received op chunk).handleRead env

/-- `HandleInternalRead` with an error. -/
def handleReadError (c : NovusConnection) (op : ReadOp) : NovusConnection :=
  { c with reads := c.reads.erase op }.close

/-- `HandleInternalWrite`, for the write of `data`; writes may complete in any order. -/
def handleInternalWrite (c : NovusConnection) (data : Bytes) (error : Bool) : NovusConnection :=
  let c := { c with writes := c.writes.erase data }
  if error then c.close else c

/-- Where the oldest write completes, it is the socket's function. -/
lemma toBaseSocket_handleInternalWrite {c : NovusConnection} {data : Bytes} {writes : List Bytes}
    (h : c.writes = data :: writes) (error : Bool) (transferedBytes : ℕ) :
    (c.handleInternalWrite data error).toBaseSocket =
      c.toBaseSocket.handleInternalWrite error transferedBytes := by
  have herase : c.writes.erase data = c.writes.tail := by rw [h, List.erase_cons_head, List.tail_cons]
  unfold handleInternalWrite BaseSocket.handleInternalWrite
  rw [herase]
  cases error <;> rfl

/-- The states in which one call of `HandleRead` tests its loop condition, the call being made in the
state `c`. -/
inductive LoopTest (env : Env) (c : NovusConnection) : NovusConnection → Prop
  | first : c.status ≠ .closed → LoopTest env c c
  | next {c₁ c₂ : NovusConnection} : LoopTest env c c₁ → c₁.byteBuffer.getActualSize ≠ 0 →
      c₁.loopBody env = some (.next c₂) → LoopTest env c c₂

end NovusConnection

end NovusHeadless
