import NovusHeadless.Connection.Runs

/-!
# The two threads of a login

The client thread executes `Start`, and the thread of the `io_service` executes the completion handlers
of the same connection.  They share the fields of the connection without a lock, so every statement of
the one can fall between two statements of the other.

* `Threads` — the connection, the place of each thread in its code, and the locals that outlive a
  statement;
* `startStep`, `ioStep` — the next statement of the thread; an exception of the script hook ends the
  `io_service` thread, and with it the program (`IoPc.left`);
* `step` — one statement of either thread, or a completion that the idle `io_service` thread takes up;
* `client_refines`, `io_refines` — a thread that is not interrupted does what `start` and `handleRead`
  say.

The first statement of a handler, the new status, belongs to the step that calls the handler: the client
thread neither reads nor writes the status.
-/

namespace NovusHeadless

open Lib Relation

namespace NovusConnection

/-- The next statement of `AsyncRead`. -/
inductive ReadPc where
  | isOpen
  | cleanBuffer
  | recalculateSize
  | asyncReadSome
  deriving DecidableEq, Repr

/-- The next statement of `Start`. -/
inductive StartPc where
  | connect
  | packet
  | asyncRead (pc : ReadPc)
  | send
  | username
  | password
  | passwordKey
  | returned (result : Bool)
  deriving DecidableEq, Repr

/-- The next statement of the `io_service` thread. -/
inductive IoPc where
  /-- no completion handler is running -/
  | idle
  | handleRead
  | loopTest
  | body
  /-- "Challenge Failed", at the call of the hook -/
  | headerHook (result : UInt8)
  | clean
  /-- `HandleCommandChallenge`, up to the hook -/
  | challengeHook (size : UInt16)
  /-- up to `_key`; `_passwordKey` is read here -/
  | challengeKey (size : UInt16)
  /-- up to `_proofM2`; `_username` is read here -/
  | challengeProof (size : UInt16) (passwordKey : BigNumber)
  | challengeSend (size : UInt16) (packet : ByteBuffer)
  /-- `HandleCommandProof`, at the comparison -/
  | proofCompare (size : UInt16)
  | handlerReturned (command : NovusCommand) (size : UInt16) (result : Bool)
  | readBytes (size : UInt16)
  | asyncRead (pc : ReadPc)
  | close
  /-- an exception has left the completion handler -/
  | left
  deriving DecidableEq, Repr

end NovusConnection

/-- The arguments of `Start`. -/
structure Login where
  username : Bytes
  password : Bytes

structure Threads where
  connection : NovusConnection
  start : NovusConnection.StartPc
  /-- the local `packet` of `Start` -/
  packet : ByteBuffer
  io : NovusConnection.IoPc
  /-- the handlers that have been called, in this order -/
  handlersStarted : List NovusCommand

/-- What happens next. -/
inductive Action where
  /-- a statement of `Start` -/
  | start
  /-- the `io_service` takes up a completion -/
  | complete (i : Completion)
  /-- a statement of the running completion handler; `callHook` is how a call of the hook would end -/
  | io (callHook : HookCall → Bool)

namespace NovusConnection

/-- A statement of `AsyncRead`, with the place of the next one; `none` is behind the call. -/
def asyncReadStep (c : NovusConnection) : ReadPc → Option ReadPc × NovusConnection
  | .isOpen => (if c.isOpen then some .cleanBuffer else none, c)
  | .cleanBuffer => (some .recalculateSize, { c with byteBuffer := c.byteBuffer.cleanBuffer })
  | .recalculateSize => (some .asyncReadSome, { c with byteBuffer := c.byteBuffer.recalculateSize })
  | .asyncReadSome =>
    (none, { c with reads := c.reads ++ [⟨c.byteBuffer.writePos, c.byteBuffer.getSpaceLeft⟩] })

end NovusConnection

namespace Threads

open NovusConnection

/-- Before `Start`. -/
def initial (proofM2 : Digest) : Threads := ⟨.new proofM2, .connect, .new, .idle, []⟩

/-! ### `Start` -/

/-- The next statement of `Start`; `none` behind the call, or where it has no defined result. -/
def startStep (env : Env) (login : Login) (t : Threads) : Option Threads :=
  let c := t.connection
  match t.start with
  | .connect =>
    if env.connects then
      some { t with
        connection := { c with toBaseSocket := c.toBaseSocket.connect }, start := .packet }
    else
      some { t with start := .returned false }
  | .packet =>
    (cAuthLogonChallenge login.username).map fun challenge =>
      { t with packet := NovusConnection.packet challenge, start := .asyncRead .isOpen }
  | .asyncRead pc =>
    let (next, c) := c.asyncReadStep pc
    some { t with connection := c, start := next.elim .send .asyncRead }
  | .send => some { t with connection := c.send t.packet, start := .username }
  | .username =>
    some { t with connection := { c with username := login.username }, start := .password }
  | .password =>
    some { t with connection := { c with password := login.password }, start := .passwordKey }
  | .passwordKey =>
    some { t with
      connection := { c with passwordKey := passwordHash env.sha1 c.username c.password }
      start := .returned true }
  | .returned _ => none

/-! ### `HandleRead` -/

/-- The call of a handler, with its first statement. -/
def callHandler (t : Threads) (command : NovusCommand) (size : UInt16) : Threads :=
  match command with
  | .challenge =>
    { t with
      connection := { t.connection with status := .proof }
      io := .challengeHook size
      handlersStarted := t.handlersStarted ++ [.challenge] }
  | .proof =>
    { t with
      connection := { t.connection with status := .authed }
      io := .proofCompare size
      handlersStarted := t.handlersStarted ++ [.proof] }

/-- The loop body up to the call of the handler, or up to what takes its place. -/
def body (t : Threads) : Threads :=
  let c := t.connection
  let command := c.byteBuffer.getDataPointer.getD 0 0
  match messageHandlers command with
  | none => { t with io := .clean }
  | some itr =>
    if c.status ≠ itr.status then
      { t with io := .close }
    else
      let size := UInt16.ofNat itr.packetSize
      if c.byteBuffer.getActualSize < size.toNat then
        { t with io := .asyncRead .isOpen }
      else if command = NovusCommand.challenge.code then
        if c.byteBuffer.getActualSize = 3 then
          let (challengeHeader, byteBuffer) := SAuthLogonChallengeHeader.read c.byteBuffer
          { t with
            connection := { c with byteBuffer := byteBuffer }
            io := .headerHook challengeHeader.result }
        else
          t.callHandler itr.command (size + 116)
      else if command = NovusCommand.proof.code then
        if c.byteBuffer.getActualSize = 4 then
          let (_, byteBuffer) := SAuthLogonProofHeader.read c.byteBuffer
          { t with connection := { c with byteBuffer := byteBuffer }, io := .close }
        else
          t.callHandler itr.command (size + 32)
      else
        t.callHandler itr.command size

/-- The call of the hook; the program goes on at `next`. -/
def hook (env : Env) (t : Threads) (result : UInt8) (next : IoPc) : Threads :=
  match t.connection.callHook env .onLoginChallenge result with
  | some c => { t with connection := c, io := next }
  | none => { t with io := .left }

/-- The next statement of the `io_service` thread. -/
def ioStep (env : Env) (t : Threads) : Option Threads :=
  let c := t.connection
  match t.io with
  | .idle | .left => none
  | .handleRead =>
    some { t with io := if c.status = .closed then .asyncRead .isOpen else .loopTest }
  | .loopTest =>
    some { t with io := if c.byteBuffer.getActualSize ≠ 0 then .body else .asyncRead .isOpen }
  | .body => some t.body
  | .headerHook result => some (t.hook env result .close)
  | .clean =>
    some { t with
      connection := { c with byteBuffer := c.byteBuffer.clean }, io := .asyncRead .isOpen }
  | .challengeHook size => some (t.hook env c.logonChallenge.result (.challengeKey size))
  | .challengeKey size =>
    if c.logonChallenge.Accepted then
      let l := challengeLocals env.sha1 env.a c.username c.passwordKey c.logonChallenge
      some { t with
        connection := { c with key := l.key }, io := .challengeProof size c.passwordKey }
    else
      some { t with io := .handlerReturned .challenge size false }
  | .challengeProof size passwordKey =>
    let l := challengeLocals env.sha1 env.a c.username passwordKey c.logonChallenge
    some { t with
      connection := { c with proofM2 := l.proofM2 }
      io := .challengeSend size (NovusConnection.packet l.logonProof.toBytes) }
  | .challengeSend size packet =>
    some { t with connection := c.send packet, io := .handlerReturned .challenge size true }
  | .proofCompare size =>
    some { t with io := .handlerReturned .proof size (decide (c.proofM2 = c.logonProof.M2)) }
  | .handlerReturned command size result =>
    let run : HandlerRun :=
      ⟨command, c.byteBuffer.getReadPointer, c.byteBuffer.getActualSize, command.status, c.status,
        result⟩
    some { t with
      connection := { c with handlersRun := c.handlersRun ++ [run] }
      io := if !result then .close else .readBytes size }
  | .readBytes size =>
    some { t with
      connection := { c with byteBuffer := c.byteBuffer.readBytes size.toNat }, io := .loopTest }
  | .asyncRead pc =>
    let (next, c) := c.asyncReadStep pc
    some { t with connection := c, io := next.elim .idle .asyncRead }
  | .close => some { t with connection := c.close, io := .idle }

/-! ### The two threads together -/

/-- The `io_service` takes up a completion.  After an error nothing but `Close` is executed. -/
def complete (t : Threads) : Completion → Option Threads
  | .read op chunk =>
    if op ∈ t.connection.reads ∧ chunk.length ≤ op.len then
      some { t with connection := t.connection.received op chunk, io := .handleRead }
    else none
  | .readError op =>
    if op ∈ t.connection.reads then
      some { t with connection := t.connection.handleReadError op }
    else none
  | .write data error =>
    if data ∈ t.connection.writes then
      some { t with connection := t.connection.handleInternalWrite data error }
    else none

def step (env : Env) (login : Login) (t : Threads) : Action → Option Threads
  | .start => t.startStep env login
  | .complete i => if t.io = .idle then t.complete i else none
  | .io callHook => t.ioStep { env with callHook := callHook }

/-! ### A thread that is not interrupted -/

/-- Only this action is taken, any number of times. -/
def Alone (env : Env) (login : Login) (a : Action) : Threads → Threads → Prop :=
  ReflTransGen fun t t' => t.step env login a = some t'

/-- The connection is `c` and the `io_service` thread is at `pc`; the client thread is at `s`, with the
local `p`. -/
structure At (s : StartPc) (p : ByteBuffer) (c : NovusConnection) (pc : IoPc) (t : Threads) :
    Prop where
  connection : t.connection = c
  io : t.io = pc
  start : t.start = s
  packet : t.packet = p

section

variable (env : Env) (login : Login) (s : StartPc) (p : ByteBuffer)

/-- Where the thread is behind a pass through the loop body. -/
def AfterBody : Option Flow → Threads → Prop
  | none => fun t => t.io = .left
  | some (.next c) => At s p c .loopTest
  | some (.leave c) => At s p c (.asyncRead .isOpen)
  | some (.done c) => At s p c .idle

/-- Where the thread is behind the loop. -/
def AfterLoop : Option (Bool × NovusConnection) → Threads → Prop
  | none => fun t => t.io = .left
  | some (true, c) => At s p c (.asyncRead .isOpen)
  | some (false, c) => At s p c .idle

/-- Where the thread is behind `HandleRead`. -/
def AfterRead : Option NovusConnection → Threads → Prop
  | none => fun t => t.io = .left
  | some c => At s p c .idle

variable {env login s p}

lemma io_alone {t t₁ t₂ : Threads} (h : t.ioStep env = some t₁)
    (h' : Alone env login (.io env.callHook) t₁ t₂) :
    Alone env login (.io env.callHook) t t₂ := ReflTransGen.head h h'

lemma asyncReadStep_cleanBuffer (c : NovusConnection) :
    c.asyncReadStep .cleanBuffer =
      (some .recalculateSize, (c.asyncReadStep .cleanBuffer).2) := rfl

lemma asyncReadStep_recalculateSize (c : NovusConnection) :
    c.asyncReadStep .recalculateSize =
      (some .asyncReadSome, (c.asyncReadStep .recalculateSize).2) := rfl

lemma asyncReadStep_asyncReadSome (c : NovusConnection) :
    c.asyncReadStep .asyncReadSome = (none, (c.asyncReadStep .asyncReadSome).2) := rfl

/-- The four statements of `AsyncRead`. -/
lemma asyncRead_of_open {c : NovusConnection} (ho : c.isOpen = true) :
    c.asyncRead =
      ((((c.asyncReadStep .cleanBuffer).2.asyncReadStep .recalculateSize).2).asyncReadStep
        .asyncReadSome).2 := by
  unfold asyncRead BaseSocket.asyncRead
  simp only [ho, if_true, asyncReadStep]

lemma ioStep_asyncRead {c c' : NovusConnection} {pc : ReadPc} {next : Option ReadPc}
    (h : c.asyncReadStep pc = (next, c')) (s : StartPc) (p : ByteBuffer)
    (started : List NovusCommand) :
    ioStep env ⟨c, s, p, .asyncRead pc, started⟩ =
      some ⟨c', s, p, next.elim .idle .asyncRead, started⟩ := by
  simp only [ioStep, h]

lemma asyncRead_alone (c : NovusConnection) (s : StartPc) (p : ByteBuffer)
    (started : List NovusCommand) :
    Alone env login (.io env.callHook) ⟨c, s, p, .asyncRead .isOpen, started⟩
      ⟨c.asyncRead, s, p, .idle, started⟩ := by
  cases ho : c.isOpen with
  | false =>
    have h : c.asyncReadStep .isOpen = (none, c) := by simp [asyncReadStep, ho]
    rw [asyncRead_of_closed ho]
    exact io_alone (ioStep_asyncRead h s p started) .refl
  | true =>
    have h : c.asyncReadStep .isOpen = (some .cleanBuffer, c) := by simp [asyncReadStep, ho]
    rw [asyncRead_of_open ho]
    apply io_alone (ioStep_asyncRead h s p started)
    apply io_alone (ioStep_asyncRead (asyncReadStep_cleanBuffer c) s p started)
    apply io_alone (ioStep_asyncRead (asyncReadStep_recalculateSize _) s p started)
    exact io_alone (ioStep_asyncRead (asyncReadStep_asyncReadSome _) s p started) .refl

lemma handlerReturned_alone (login : Login) (s : StartPc) (p : ByteBuffer) {c c' : NovusConnection}
    {result : Bool} (itr : NovusMessageHandler)
    (h : itr.handler env c = some (result, c')) (hs : c.status = itr.command.status)
    (hb : c'.byteBuffer = c.byteBuffer) (size : UInt16) (started : List NovusCommand) :
    ∃ t, Alone env login (.io env.callHook)
        ⟨c', s, p, .handlerReturned itr.command size result, started⟩ t ∧
      AfterBody s p (c.runHandler env itr size) t := by
  unfold runHandler
  simp only [h]
  rw [← hb, hs]
  cases result with
  | false => exact ⟨_, io_alone rfl (io_alone rfl .refl), rfl, rfl, rfl, rfl⟩
  | true => exact ⟨_, io_alone rfl (io_alone rfl .refl), rfl, rfl, rfl, rfl⟩

lemma ioStep_challengeHook {c c' : NovusConnection}
    (h : callHook env c .onLoginChallenge c.logonChallenge.result = some c') (size : UInt16)
    (started : List NovusCommand) :
    ioStep env ⟨c, s, p, .challengeHook size, started⟩ =
      some ⟨c', s, p, .challengeKey size, started⟩ := by
  simp only [ioStep, hook, h]

lemma accepted_alone (env : Env) (login : Login) (s : StartPc) (p : ByteBuffer)
    {c : NovusConnection} (ha : c.logonChallenge.Accepted) (size : UInt16)
    (started : List NovusCommand) :
    Alone env login (.io env.callHook) ⟨c, s, p, .challengeKey size, started⟩
      ⟨{ c with key := (c.locals env).key, proofM2 := (c.locals env).proofM2 }.send
          (NovusConnection.packet (c.locals env).logonProof.toBytes),
        s, p, .handlerReturned .challenge size true, started⟩ := by
  unfold locals
  generalize hl : challengeLocals env.sha1 env.a c.username c.passwordKey c.logonChallenge = l
  have hkey : ioStep env ⟨c, s, p, .challengeKey size, started⟩ =
      some ⟨{ c with key := l.key }, s, p, .challengeProof size c.passwordKey, started⟩ := by
    simp only [ioStep, if_pos ha, hl]
  have hl' : challengeLocals env.sha1 env.a { c with key := l.key }.username c.passwordKey
      { c with key := l.key }.logonChallenge = l := hl
  have hproof : ioStep env
      ⟨{ c with key := l.key }, s, p, .challengeProof size c.passwordKey, started⟩ =
      some ⟨{ c with key := l.key, proofM2 := l.proofM2 }, s, p,
        .challengeSend size (NovusConnection.packet l.logonProof.toBytes), started⟩ := by
    simp only [ioStep, hl']
  apply io_alone hkey
  apply io_alone hproof
  exact io_alone rfl .refl

lemma send_byteBuffer (c : NovusConnection) (b : ByteBuffer) :
    (c.send b).byteBuffer = c.byteBuffer := by
  unfold send BaseSocket.send
  split <;> rfl

lemma send_socket (c : NovusConnection) (b : ByteBuffer) :
    (c.send b).isOpen = c.isOpen ∧ (c.send b).isClosed = c.isClosed ∧
      (c.send b).reads = c.reads := by
  unfold send BaseSocket.send
  split <;> exact ⟨rfl, rfl, rfl⟩

lemma challenge_alone {c : NovusConnection} (hs : c.status = .challenge) (size : UInt16)
    (started : List NovusCommand) :
    ∃ t, Alone env login (.io env.callHook)
        ⟨{ c with status := .proof }, s, p, .challengeHook size, started⟩ t ∧
      AfterBody s p (c.runHandler env ⟨.challenge, 3, .challenge, handleCommandChallenge⟩ size) t := by
  have hrun := handleCommandChallenge_eq env c
  by_cases hk : env.callHook c.challengeCall
  · rw [if_pos hk] at hrun
    generalize hc₁ : { c with status := .proof, hookCalls := c.hookCalls ++ [c.challengeCall] } = c₁
      at hrun
    have hhook : callHook env { c with status := .proof } .onLoginChallenge
        { c with status := .proof }.logonChallenge.result = some c₁ := by
      rw [← hc₁]
      exact if_pos hk
    have hm : c₁.logonChallenge = c.logonChallenge := by rw [← hc₁]; rfl
    have hb : c₁.byteBuffer = c.byteBuffer := by rw [← hc₁]
    by_cases ha : c.logonChallenge.Accepted
    · have hl : c₁.locals env = c.locals env := by rw [← hc₁]; rfl
      rw [if_pos ha] at hrun
      have hacc := accepted_alone env login s p
        (hm.symm ▸ ha : c₁.logonChallenge.Accepted) size started
      rw [hl, ← hc₁] at hacc
      obtain ⟨t, ht, hafter⟩ := handlerReturned_alone login s p
        ⟨.challenge, 3, .challenge, handleCommandChallenge⟩ hrun hs (send_byteBuffer _ _) size started
      rw [← hc₁] at hhook
      exact ⟨t, io_alone (ioStep_challengeHook hhook size started) (hacc.trans ht), hafter⟩
    · rw [if_neg ha] at hrun
      have hkey : ioStep env ⟨c₁, s, p, .challengeKey size, started⟩ =
          some ⟨c₁, s, p, .handlerReturned .challenge size false, started⟩ := by
        simp only [ioStep, hm, if_neg ha]
      obtain ⟨t, ht, hafter⟩ := handlerReturned_alone login s p
        ⟨.challenge, 3, .challenge, handleCommandChallenge⟩ hrun hs hb size started
      exact ⟨t, io_alone (ioStep_challengeHook hhook size started) (io_alone hkey ht), hafter⟩
  · rw [if_neg hk] at hrun
    have hhook : callHook env { c with status := .proof } .onLoginChallenge
        { c with status := .proof }.logonChallenge.result = none := if_neg hk
    have hleft : ioStep env ⟨{ c with status := .proof }, s, p, .challengeHook size, started⟩ =
        some ⟨{ c with status := .proof }, s, p, .left, started⟩ := by
      simp only [ioStep, hook, hhook]
    have hnone : c.runHandler env ⟨.challenge, 3, .challenge, handleCommandChallenge⟩ size = none := by
      unfold runHandler
      simp only [hrun]
      rfl
    rw [hnone]
    exact ⟨_, io_alone hleft .refl, rfl⟩

lemma proof_alone {c : NovusConnection} (hs : c.status = .proof) (size : UInt16)
    (started : List NovusCommand) :
    ∃ t, Alone env login (.io env.callHook)
        ⟨{ c with status := .authed }, s, p, .proofCompare size, started⟩ t ∧
      AfterBody s p (c.runHandler env ⟨.proof, 4, .proof, handleCommandProof⟩ size) t := by
  have hcompare : ioStep env
      ⟨{ c with status := .authed }, s, p, .proofCompare size, started⟩ =
      some ⟨{ c with status := .authed }, s, p,
        .handlerReturned .proof size (decide (c.proofM2 = c.logonProof.M2)), started⟩ := rfl
  obtain ⟨t, ht, hafter⟩ := handlerReturned_alone login s p
    ⟨.proof, 4, .proof, handleCommandProof⟩ (handleCommandProof_eq env c) hs rfl size started
  exact ⟨t, io_alone hcompare ht, hafter⟩

lemma callHandler_alone {c : NovusConnection} {command : UInt8} {itr : NovusMessageHandler}
    (hi : messageHandlers command = some itr) (hs : c.status = itr.status) (size : UInt16)
    (started : List NovusCommand) :
    ∃ t, Alone env login (.io env.callHook)
        (callHandler ⟨c, s, p, .body, started⟩ itr.command size) t ∧
      AfterBody s p (c.runHandler env itr size) t := by
  unfold messageHandlers at hi
  split at hi
  · obtain rfl := Option.some.inj hi
    exact challenge_alone hs size _
  · rw [Option.ite_none_right_eq_some] at hi
    obtain ⟨-, hi⟩ := hi
    obtain rfl := Option.some.inj hi
    exact proof_alone hs size _

lemma challengeFailed_alone (c : NovusConnection) (started : List NovusCommand) :
    ∃ t, Alone env login (.io env.callHook)
        ⟨{ c with byteBuffer := (SAuthLogonChallengeHeader.read c.byteBuffer).2 }, s, p,
          .headerHook (SAuthLogonChallengeHeader.read c.byteBuffer).1.result, started⟩ t ∧
      AfterBody s p (c.challengeFailed env) t := by
  unfold challengeFailed
  obtain ⟨challengeHeader, byteBuffer⟩ := SAuthLogonChallengeHeader.read c.byteBuffer
  simp only
  generalize { c with byteBuffer := byteBuffer } = d
  cases hk : d.callHook env .onLoginChallenge challengeHeader.result with
  | none =>
    have hleft : ioStep env ⟨d, s, p, .headerHook challengeHeader.result, started⟩ =
        some ⟨d, s, p, .left, started⟩ := by
      simp only [ioStep, hook, hk]
    exact ⟨_, io_alone hleft .refl, rfl⟩
  | some d' =>
    have hclose : ioStep env ⟨d, s, p, .headerHook challengeHeader.result, started⟩ =
        some ⟨d', s, p, .close, started⟩ := by
      simp only [ioStep, hook, hk]
    exact ⟨_, io_alone hclose (io_alone rfl .refl), rfl, rfl, rfl, rfl⟩

variable (env login s p) in
/-- **A pass through the loop body.** -/
theorem body_alone (c : NovusConnection) (started : List NovusCommand) :
    ∃ t, Alone env login (.io env.callHook) ⟨c, s, p, .body, started⟩ t ∧
      AfterBody s p (c.loopBody env) t := by
  have hbody : ioStep env ⟨c, s, p, .body, started⟩ =
      some (body ⟨c, s, p, .body, started⟩) := rfl
  have close_alone : ∀ d : NovusConnection, Alone env login (.io env.callHook)
      ⟨d, s, p, .close, started⟩ ⟨d.close, s, p, .idle, started⟩ := fun d => io_alone rfl .refl
  suffices h : ∃ t, Alone env login (.io env.callHook) (body ⟨c, s, p, .body, started⟩) t ∧
      AfterBody s p (c.loopBody env) t by
    obtain ⟨t, ht, hafter⟩ := h
    exact ⟨t, io_alone hbody ht, hafter⟩
  unfold body loopBody
  simp only
  generalize c.byteBuffer.getDataPointer.getD 0 0 = command
  cases hi : messageHandlers command with
  | none => exact ⟨_, io_alone rfl .refl, rfl, rfl, rfl, rfl⟩
  | some itr =>
    simp only
    by_cases hs : c.status = itr.status
    · rw [if_neg (not_not.2 hs), if_neg (not_not.2 hs)]
      by_cases hlt : c.byteBuffer.getActualSize < (UInt16.ofNat itr.packetSize).toNat
      · rw [if_pos hlt, if_pos hlt]
        exact ⟨_, .refl, rfl, rfl, rfl, rfl⟩
      rw [if_neg hlt, if_neg hlt]
      by_cases h0 : command = NovusCommand.challenge.code
      · rw [if_pos h0, if_pos h0]
        by_cases h3 : c.byteBuffer.getActualSize = 3
        · rw [if_pos h3, if_pos h3]
          exact challengeFailed_alone c started
        · rw [if_neg h3, if_neg h3]
          exact callHandler_alone hi hs _ started
      rw [if_neg h0, if_neg h0]
      by_cases h1 : command = NovusCommand.proof.code
      · rw [if_pos h1, if_pos h1]
        by_cases h4 : c.byteBuffer.getActualSize = 4
        · rw [if_pos h4, if_pos h4]
          exact ⟨_, close_alone _, rfl, rfl, rfl, rfl⟩
        · rw [if_neg h4, if_neg h4]
          exact callHandler_alone hi hs _ started
      · rw [if_neg h1, if_neg h1]
        exact callHandler_alone hi hs _ started
    · rw [if_pos hs, if_pos hs]
      exact ⟨_, close_alone c, rfl, rfl, rfl, rfl⟩

variable (env login s p) in
/-- **The loop.** -/
theorem loop_alone (c : NovusConnection) (started : List NovusCommand) :
    ∃ t, Alone env login (.io env.callHook) ⟨c, s, p, .loopTest, started⟩ t ∧
      AfterLoop s p (c.loop env) t := by
  -- a pass that goes on has raised the status
  induction hr : 3 - rank c.status using Nat.strong_induction_on generalizing c started with
  | _ r ih =>
    by_cases hn : c.byteBuffer.getActualSize = 0
    · have htest : ioStep env ⟨c, s, p, .loopTest, started⟩ =
          some ⟨c, s, p, .asyncRead .isOpen, started⟩ := by
        simp only [ioStep, if_neg (not_not.2 hn)]
      rw [loop_of_empty env hn]
      exact ⟨_, io_alone htest .refl, rfl, rfl, rfl, rfl⟩
    have htest : ioStep env ⟨c, s, p, .loopTest, started⟩ = some ⟨c, s, p, .body, started⟩ := by
      simp only [ioStep, if_pos hn]
    obtain ⟨t, ht, hafter⟩ := body_alone env login s p c started
    have ht' := io_alone htest ht
    cases hb : c.loopBody env with
    | none =>
      rw [hb] at hafter
      rw [loop_of_none env hn hb]
      exact ⟨t, ht', hafter⟩
    | some flow =>
      rw [hb] at hafter
      cases flow with
      | leave c' =>
        rw [loop_of_leave env hn hb]
        exact ⟨t, ht', hafter⟩
      | done c' =>
        rw [loop_of_done env hn hb]
        exact ⟨t, ht', hafter⟩
      | next c' =>
        have hrank := rank_of_next hb
        obtain ⟨c₁, s₁, p₁, io₁, started₁⟩ := t
        obtain ⟨rfl, rfl, rfl, rfl⟩ := hafter
        simp only at hrank
        obtain ⟨t₂, ht₂, hafter₂⟩ := ih (3 - rank c₁.status) (by omega) c₁ started₁ rfl
        rw [loop_of_next env hn hb]
        exact ⟨t₂, ht'.trans ht₂, hafter₂⟩

/-- **The thread of the `io_service` alone** does what `handleRead` says: it comes back with the
connection of the result, or an exception leaves it where there is no result. -/
theorem io_refines (env : Env) (login : Login) (c : NovusConnection) (s : StartPc) (p : ByteBuffer)
    (started : List NovusCommand) :
    ∃ t, Alone env login (.io env.callHook) ⟨c, s, p, .handleRead, started⟩ t ∧
      AfterRead s p (c.handleRead env) t := by
  unfold handleRead
  by_cases hs : c.status = .closed
  · have hread : ioStep env ⟨c, s, p, .handleRead, started⟩ =
        some ⟨c, s, p, .asyncRead .isOpen, started⟩ := by
      simp only [ioStep, if_pos hs]
    rw [if_pos hs]
    exact ⟨_, io_alone hread (asyncRead_alone c s p started), rfl, rfl, rfl, rfl⟩
  have hread : ioStep env ⟨c, s, p, .handleRead, started⟩ =
      some ⟨c, s, p, .loopTest, started⟩ := by
    simp only [ioStep, if_neg hs]
  obtain ⟨t, ht, hafter⟩ := loop_alone env login s p c started
  have ht' := io_alone hread ht
  rw [if_neg hs]
  cases hl : c.loop env with
  | none =>
    rw [hl] at hafter
    exact ⟨t, ht', hafter⟩
  | some result =>
    obtain ⟨fallsThrough, c'⟩ := result
    rw [hl] at hafter
    cases fallsThrough with
    | false => exact ⟨t, ht', hafter⟩
    | true =>
      obtain ⟨c₁, s₁, p₁, io₁, started₁⟩ := t
      obtain ⟨rfl, rfl, rfl, rfl⟩ := hafter
      exact ⟨_, ht'.trans (asyncRead_alone _ _ _ started₁), rfl, rfl, rfl, rfl⟩

lemma step_asyncRead (env : Env) (login : Login) {c c' : NovusConnection} {pc : ReadPc}
    {next : Option ReadPc} (h : c.asyncReadStep pc = (next, c')) (p : ByteBuffer) (io : IoPc)
    (started : List NovusCommand) :
    step env login ⟨c, .asyncRead pc, p, io, started⟩ .start =
      some ⟨c', next.elim .send .asyncRead, p, io, started⟩ := by
  simp only [step, startStep, h]

/-- `Start` up to its `Send`: seven statements. -/
lemma run_send {c : NovusConnection} (hc : env.connects = true) {challenge : Bytes}
    (hu : cAuthLogonChallenge login.username = some challenge) (p : ByteBuffer) (io : IoPc)
    (started : List NovusCommand) :
    run (step env login) ⟨c, .connect, p, io, started⟩ (List.replicate 7 .start) =
      some ⟨({ c with toBaseSocket := c.toBaseSocket.connect }.asyncRead).send
        (NovusConnection.packet challenge), .username, NovusConnection.packet challenge, io,
        started⟩ := by
  have hconnect : step env login ⟨c, .connect, p, io, started⟩ .start =
      some ⟨{ c with toBaseSocket := c.toBaseSocket.connect }, .packet, p, io, started⟩ := by
    simp only [step, startStep, if_pos hc]
  generalize hopen : { c with toBaseSocket := c.toBaseSocket.connect } = d at hconnect ⊢
  have ho : d.isOpen = true := by rw [← hopen]; rfl
  have hpacket : step env login ⟨d, .packet, p, io, started⟩ .start =
      some ⟨d, .asyncRead .isOpen, NovusConnection.packet challenge, io, started⟩ := by
    simp only [step, startStep, hu, Option.map_some]
  have hisOpen : d.asyncReadStep .isOpen = (some .cleanBuffer, d) := by simp [asyncReadStep, ho]
  have hlist : List.replicate 7 Action.start =
      [.start, .start, .start, .start, .start, .start, .start] := rfl
  generalize NovusConnection.packet challenge = q at hpacket ⊢
  have h₀ : step env login ⟨d, .asyncRead .isOpen, q, io, started⟩ .start =
      some ⟨d, .asyncRead .cleanBuffer, q, io, started⟩ :=
    step_asyncRead env login hisOpen q io started
  have h₁ : ∀ d, step env login ⟨d, .asyncRead .cleanBuffer, q, io, started⟩ .start =
      some ⟨(d.asyncReadStep .cleanBuffer).2, .asyncRead .recalculateSize, q, io, started⟩ :=
    fun d => step_asyncRead env login (asyncReadStep_cleanBuffer d) q io started
  have h₂ : ∀ d, step env login ⟨d, .asyncRead .recalculateSize, q, io, started⟩ .start =
      some ⟨(d.asyncReadStep .recalculateSize).2, .asyncRead .asyncReadSome, q, io, started⟩ :=
    fun d => step_asyncRead env login (asyncReadStep_recalculateSize d) q io started
  have h₃ : ∀ d, step env login ⟨d, .asyncRead .asyncReadSome, q, io, started⟩ .start =
      some ⟨(d.asyncReadStep .asyncReadSome).2, .send, q, io, started⟩ :=
    fun d => step_asyncRead env login (asyncReadStep_asyncReadSome d) q io started
  have h₄ : ∀ d, step env login ⟨d, .send, q, io, started⟩ .start =
      some ⟨d.send q, .username, q, io, started⟩ := fun d => rfl
  rw [asyncRead_of_open ho, hlist, run_cons hconnect, run_cons hpacket, run_cons h₀,
    run_cons (h₁ _), run_cons (h₂ _), run_cons (h₃ _), run_cons (h₄ _)]
  rfl

/-- `Start` behind its `Send`: three statements. -/
lemma run_credentials (d : NovusConnection) (q : ByteBuffer) (io : IoPc)
    (started : List NovusCommand) :
    run (step env login) ⟨d, .username, q, io, started⟩ (List.replicate 3 .start) =
      some ⟨{ d with
        username := login.username, password := login.password
        passwordKey := passwordHash env.sha1 login.username login.password },
        .returned true, q, io, started⟩ := by
  have h₁ : step env login ⟨d, .username, q, io, started⟩ .start =
      some ⟨{ d with username := login.username }, .password, q, io, started⟩ := rfl
  have h₂ : ∀ d, step env login ⟨d, .password, q, io, started⟩ .start =
      some ⟨{ d with password := login.password }, .passwordKey, q, io, started⟩ := fun _ => rfl
  have h₃ : ∀ d, step env login ⟨d, .passwordKey, q, io, started⟩ .start =
      some ⟨{ d with passwordKey := passwordHash env.sha1 d.username d.password },
        .returned true, q, io, started⟩ := fun _ => rfl
  have hlist : List.replicate 3 Action.start = [.start, .start, .start] := rfl
  rw [hlist, run_cons h₁, run_cons (h₂ _), run_cons (h₃ _)]
  rfl

/-- **The client thread alone** does what `start` says. -/
theorem client_refines (env : Env) (login : Login) (c : NovusConnection) (p : ByteBuffer) (io : IoPc)
    (started : List NovusCommand) {result : Bool} {c' : NovusConnection}
    (h : c.start env login.username login.password = some (result, c')) :
    ∃ p' n, run (step env login) ⟨c, .connect, p, io, started⟩ (List.replicate n .start) =
      some ⟨c', .returned result, p', io, started⟩ := by
  unfold NovusConnection.start at h
  by_cases hc : env.connects = true
  · rw [if_pos hc] at h
    cases hu : cAuthLogonChallenge login.username with
    | none => simp [hu] at h
    | some challenge =>
      simp only [hu, Option.bind_eq_bind, Option.bind_some, Option.pure_def, Option.some.injEq,
        Prod.mk.injEq] at h
      obtain ⟨rfl, rfl⟩ := h
      refine ⟨NovusConnection.packet challenge, 7 + 3, ?_⟩
      rw [List.replicate_add, run_append (run_send hc hu p io started)]
      generalize ({ c with toBaseSocket := c.toBaseSocket.connect }.asyncRead).send
        (NovusConnection.packet challenge) = d
      generalize NovusConnection.packet challenge = q
      exact run_credentials d q io started
  · have hconnect : step env login ⟨c, .connect, p, io, started⟩ .start =
        some ⟨c, .returned false, p, io, started⟩ := by
      simp only [step, startStep, if_neg hc]
    rw [if_neg hc] at h
    obtain ⟨rfl, rfl⟩ := Prod.mk.inj (Option.some.inj h)
    exact ⟨p, 1, run_cons hconnect []⟩

end

/-- The login of the user `A` with the password `B`. -/
theorem client_refines_sample :
    ∃ result c' p' n,
      (NovusConnection.new (Vector.replicate 20 0)).start sampleEnv [0x41] [0x42] =
        some (result, c') ∧
      run (step sampleEnv ⟨[0x41], [0x42]⟩) (initial (Vector.replicate 20 0))
        (List.replicate n .start) = some ⟨c', .returned result, p', .idle, []⟩ := by
  obtain ⟨r, hstart⟩ : ∃ r, (NovusConnection.new (Vector.replicate 20 0)).start sampleEnv [0x41]
      [0x42] = some r := Option.isSome_iff_exists.1 rfl
  obtain ⟨p', n, hrun⟩ := client_refines sampleEnv ⟨[0x41], [0x42]⟩
    (NovusConnection.new (Vector.replicate 20 0)) .new .idle [] hstart
  exact ⟨r.1, r.2, p', n, hstart, hrun⟩

end Threads

end NovusHeadless
