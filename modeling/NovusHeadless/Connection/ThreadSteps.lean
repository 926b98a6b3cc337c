import NovusHeadless.Connection.Threads

/-!
# What a statement of the two threads changes

* `Calls` — when the loop body calls a handler; `body_of_calls` and `body_of_not_calls` are the two kinds
  of a pass through the body;
* `core` — the connection without its buffer and its records;
* `ioStep_cases` — the statements of the `io_service` thread: those that leave the core alone (`Inner`),
  and the six others;
* `startStep_cases`, `complete_cases` — the same for `Start` and for the completions.
-/

namespace NovusHeadless

open Lib

namespace NovusConnection

/-- The connection without its buffer and its records. -/
def core (c : NovusConnection) : NovusConnection :=
  { c with byteBuffer := .new, hookCalls := [], handlersRun := [] }

/-- What two connections with the same core have in common. -/
structure SameCore (c d : NovusConnection) : Prop where
  status : c.status = d.status
  username : c.username = d.username
  password : c.password = d.password
  key : c.key = d.key
  passwordKey : c.passwordKey = d.passwordKey
  proofM2 : c.proofM2 = d.proofM2
  isClosed : c.isClosed = d.isClosed
  isOpen : c.isOpen = d.isOpen
  reads : c.reads = d.reads
  writes : c.writes = d.writes
  sent : c.sent = d.sent

lemma sameCore {c d : NovusConnection} (h : c.core = d.core) : SameCore c d := by
  obtain ⟨⟨⟩⟩ := c
  obtain ⟨⟨⟩⟩ := d
  simp only [core, NovusConnection.mk.injEq, BaseSocket.mk.injEq] at h
  constructor <;> tauto

lemma core_byteBuffer (c : NovusConnection) (b : ByteBuffer) :
    { c with byteBuffer := b }.core = c.core := rfl

/-- The loop body finds the handler of `command`, the status fits, and there is more than a header. -/
structure Calls (c : NovusConnection) (command : NovusCommand) : Prop where
  status : c.status = command.status
  front : c.byteBuffer.getDataPointer.getD 0 0 = command.code
  size : command.headerSize < c.byteBuffer.getActualSize

lemma messageHandlers_eq_some {command : UInt8} {itr : NovusMessageHandler}
    (h : messageHandlers command = some itr) :
    command = itr.command.code ∧ itr.status = itr.command.status ∧
      itr.packetSize = itr.command.headerSize := by
  unfold messageHandlers at h
  split at h
  · obtain rfl := Option.some.inj h
    exact ⟨‹_›, rfl, rfl⟩
  · rw [Option.ite_none_right_eq_some] at h
    obtain ⟨h1, h⟩ := h
    obtain rfl := Option.some.inj h
    exact ⟨h1, rfl, rfl⟩

lemma messageHandlers_code (command : NovusCommand) :
    ∃ itr, messageHandlers command.code = some itr ∧ itr.command = command := by
  cases command <;> exact ⟨_, rfl, rfl⟩

lemma challenge_headerSize : (UInt16.ofNat NovusCommand.challenge.headerSize).toNat = 3 := rfl

lemma proof_headerSize : (UInt16.ofNat NovusCommand.proof.headerSize).toNat = 4 := rfl

end NovusConnection

namespace Threads

open NovusConnection

/-- The places behind a pass through the loop body that does not call a handler. -/
inductive Exit : IoPc → Prop
  | clean : Exit .clean
  | close : Exit .close
  | wait : Exit (.asyncRead .isOpen)
  | headerHook (result : UInt8) : Exit (.headerHook result)

theorem body_of_calls {t : Threads} {command : NovusCommand} (h : t.connection.Calls command) :
    ∃ size, t.body = t.callHandler command size := by
  obtain ⟨itr, hi, rfl⟩ := messageHandlers_code command
  obtain ⟨-, hs, hp⟩ := messageHandlers_eq_some hi
  obtain ⟨hstatus, hfront, hsize⟩ := h
  unfold body
  simp only [hfront, hi, hs, hstatus, hp]
  generalize t.connection.byteBuffer.getActualSize = n at hsize
  cases hc : itr.command with
  | challenge =>
    have h3 : 3 < n := by rw [hc] at hsize; exact hsize
    rw [if_neg (by simp), challenge_headerSize, if_neg (by omega), if_pos rfl, if_neg (by omega)]
    exact ⟨_, rfl⟩
  | proof =>
    have h4 : 4 < n := by rw [hc] at hsize; exact hsize
    rw [if_neg (by simp), proof_headerSize, if_neg (by omega), if_neg (by decide), if_pos rfl,
      if_neg (by omega)]
    exact ⟨_, rfl⟩

theorem body_of_not_calls {t : Threads} (h : ∀ command, ¬ t.connection.Calls command) :
    ∃ readPos io, Exit io ∧ t.body = { t with
      connection := { t.connection with
        byteBuffer := { t.connection.byteBuffer with readPos := readPos } }
      io := io } := by
  unfold body
  cases hi : messageHandlers (t.connection.byteBuffer.getDataPointer.getD 0 0) with
  | none =>
    refine ⟨t.connection.byteBuffer.readPos, _, .clean, ?_⟩
    simp only [hi]
  | some itr =>
    obtain ⟨hf, hs, hp⟩ := messageHandlers_eq_some hi
    simp only [hi]
    rw [hs, hp, hf]
    by_cases hstatus : t.connection.status = itr.command.status
    · have hsize : t.connection.byteBuffer.getActualSize ≤ itr.command.headerSize :=
        not_lt.1 fun hsize => h itr.command ⟨hstatus, hf, hsize⟩
      rw [if_neg (not_not.2 hstatus)]
      generalize t.connection.byteBuffer.getActualSize = n at hsize
      cases hc : itr.command with
      | challenge =>
        have h3 : n ≤ 3 := by rw [hc] at hsize; exact hsize
        rw [challenge_headerSize]
        by_cases hlt : n < 3
        · refine ⟨t.connection.byteBuffer.readPos, _, .wait, ?_⟩
          rw [if_pos hlt]
        · rw [if_neg hlt, if_pos rfl, if_pos (by omega)]
          exact ⟨_, _, .headerHook _, rfl⟩
      | proof =>
        have h4 : n ≤ 4 := by rw [hc] at hsize; exact hsize
        rw [proof_headerSize]
        by_cases hlt : n < 4
        · refine ⟨t.connection.byteBuffer.readPos, _, .wait, ?_⟩
          rw [if_pos hlt]
        · rw [if_neg hlt, if_neg (by decide), if_pos rfl, if_pos (by omega)]
          exact ⟨_, _, .close, rfl⟩
    · refine ⟨t.connection.byteBuffer.readPos, _, .close, ?_⟩
      rw [if_pos hstatus]

/-! ### The statements of `HandleRead` -/

/-- The places before and behind a statement that changes nothing but the buffer and the records. -/
inductive Inner (returns isOpen : Bool) : IoPc → IoPc → Prop
  | closed : Inner returns isOpen .handleRead (.asyncRead .isOpen)
  | enter : Inner returns isOpen .handleRead .loopTest
  | test : Inner returns isOpen .loopTest .body
  | finish : Inner returns isOpen .loopTest (.asyncRead .isOpen)
  | exit {pc : IoPc} (h : Exit pc) : Inner returns isOpen .body pc
  | headerHook (result : UInt8) (h : returns = true) : Inner returns isOpen (.headerHook result) .close
  | headerLeft (result : UInt8) (h : returns = false) : Inner returns isOpen (.headerHook result) .left
  | clean : Inner returns isOpen .clean (.asyncRead .isOpen)
  | challengeHook (size : UInt16) (h : returns = true) :
    Inner returns isOpen (.challengeHook size) (.challengeKey size)
  | challengeLeft (size : UInt16) (h : returns = false) :
    Inner returns isOpen (.challengeHook size) .left
  | refused (size : UInt16) :
    Inner returns isOpen (.challengeKey size) (.handlerReturned .challenge size false)
  | compared (size : UInt16) (result : Bool) :
    Inner returns isOpen (.proofCompare size) (.handlerReturned .proof size result)
  | failed (command : NovusCommand) (size : UInt16) :
    Inner returns isOpen (.handlerReturned command size false) .close
  | handled (command : NovusCommand) (size : UInt16) :
    Inner returns isOpen (.handlerReturned command size true) (.readBytes size)
  | readBytes (size : UInt16) : Inner returns isOpen (.readBytes size) .loopTest
  | isOpen (h : isOpen = true) :
    Inner returns isOpen (.asyncRead .isOpen) (.asyncRead .cleanBuffer)
  | notOpen (h : isOpen = false) : Inner returns isOpen (.asyncRead .isOpen) .idle
  | cleanBuffer :
    Inner returns isOpen (.asyncRead .cleanBuffer) (.asyncRead .recalculateSize)
  | recalculateSize :
    Inner returns isOpen (.asyncRead .recalculateSize) (.asyncRead .asyncReadSome)

/-- What a statement of the `io_service` thread does. -/
inductive IoMove (env : Env) (t : Threads) : Threads → Prop
  | inner {c : NovusConnection} {pc : IoPc} {returns : Bool} (hcore : c.core = t.connection.core)
      (hreturns : (∀ call, env.callHook call = true) → returns = true)
      (hpc : Inner returns t.connection.isOpen t.io pc) : IoMove env t { t with connection := c, io := pc }
  | call {command : NovusCommand} {size : UInt16} (hio : t.io = .body)
      (hcalls : t.connection.Calls command) : IoMove env t (t.callHandler command size)
  | key {size : UInt16} (hio : t.io = .challengeKey size) (key : BigNumber) : IoMove env t { t with
      connection := { t.connection with key := key }
      io := .challengeProof size t.connection.passwordKey }
  | proof {size : UInt16} {passwordKey : BigNumber} {l : ChallengeLocals}
      (hio : t.io = .challengeProof size passwordKey)
      (hl : challengeLocals env.sha1 env.a t.connection.username passwordKey
        t.connection.logonChallenge = l) : IoMove env t { t with
      connection := { t.connection with proofM2 := l.proofM2 }
      io := .challengeSend size (NovusConnection.packet l.logonProof.toBytes) }
  | send {size : UInt16} {packet : ByteBuffer} (hio : t.io = .challengeSend size packet) :
      IoMove env t { t with
        connection := t.connection.send packet, io := .handlerReturned .challenge size true }
  | read (hio : t.io = .asyncRead .asyncReadSome) : IoMove env t { t with
      connection := { t.connection with reads := t.connection.reads ++
        [⟨t.connection.byteBuffer.writePos, t.connection.byteBuffer.getSpaceLeft⟩] }
      io := .idle }
  | close (hio : t.io = .close) : IoMove env t { t with connection := t.connection.close, io := .idle }

lemma hook_move {env : Env} {t : Threads} {result : UInt8} {next : IoPc}
    (hreturn : Inner true t.connection.isOpen t.io next)
    (hleft : Inner false t.connection.isOpen t.io .left) : IoMove env t (t.hook env result next) := by
  unfold hook callHook
  by_cases hk : env.callHook ⟨.onLoginChallenge, t.connection.username, result⟩ = true
  · simp only [hk, if_true]
    exact .inner rfl (fun _ => rfl) hreturn
  · simp only [hk]
    exact .inner rfl (fun h => absurd (h _) hk) hleft

/-- **Every statement of the `io_service` thread** is one of the seven kinds. -/
theorem ioStep_cases {env : Env} {t t' : Threads} (h : t.ioStep env = some t') : IoMove env t t' := by
  obtain ⟨c, s, p, io, started⟩ := t
  cases io with
  | idle | left => simp [ioStep] at h
  | handleRead =>
    simp only [ioStep, Option.some.injEq] at h
    subst h
    split
    · exact .inner rfl (fun _ => rfl) .closed
    · exact .inner rfl (fun _ => rfl) .enter
  | loopTest =>
    simp only [ioStep, Option.some.injEq] at h
    subst h
    split
    · exact .inner rfl (fun _ => rfl) .test
    · exact .inner rfl (fun _ => rfl) .finish
  | body =>
    simp only [ioStep, Option.some.injEq] at h
    subst h
    by_cases hcalls : ∃ command, c.Calls command
    · obtain ⟨command, hcalls⟩ := hcalls
      obtain ⟨size, hbody⟩ := body_of_calls (t := ⟨c, s, p, .body, started⟩) hcalls
      rw [hbody]
      exact .call rfl hcalls
    · obtain ⟨readPos, io, hexit, hbody⟩ := body_of_not_calls (t := ⟨c, s, p, .body, started⟩)
        (not_exists.1 hcalls)
      rw [hbody]
      exact .inner rfl (fun _ => rfl) (.exit hexit)
  | headerHook result =>
    simp only [ioStep, Option.some.injEq] at h
    subst h
    exact hook_move (.headerHook result rfl) (.headerLeft result rfl)
  | clean =>
    obtain rfl := Option.some.inj h
    exact .inner rfl (fun _ => rfl) .clean
  | challengeHook size =>
    simp only [ioStep, Option.some.injEq] at h
    subst h
    exact hook_move (.challengeHook size rfl) (.challengeLeft size rfl)
  | challengeKey size =>
    simp only [ioStep] at h
    split at h
    · simp only [Option.some.injEq] at h
      subst h
      exact .key rfl _
    · obtain rfl := Option.some.inj h
      exact .inner rfl (fun _ => rfl) (.refused size)
  | challengeProof size passwordKey =>
    generalize hl : challengeLocals env.sha1 env.a c.username passwordKey c.logonChallenge = l
    simp only [ioStep, hl, Option.some.injEq] at h
    subst h
    exact .proof rfl hl
  | challengeSend size packet =>
    obtain rfl := Option.some.inj h
    exact .send rfl
  | proofCompare size =>
    obtain rfl := Option.some.inj h
    exact .inner rfl (fun _ => rfl) (.compared size _)
  | handlerReturned command size result =>
    obtain rfl := Option.some.inj h
    cases result with
    | false => exact .inner rfl (fun _ => rfl) (.failed command size)
    | true => exact .inner rfl (fun _ => rfl) (.handled command size)
  | readBytes size =>
    obtain rfl := Option.some.inj h
    exact .inner (core_byteBuffer c _) (fun _ => rfl) (.readBytes size)
  | asyncRead pc =>
    cases pc with
    | isOpen =>
      cases ho : c.isOpen with
      | false =>
        simp only [ioStep, asyncReadStep, ho, Bool.false_eq_true, if_false, Option.elim,
          Option.some.injEq] at h
        subst h
        exact .inner rfl (fun _ => rfl) (.notOpen ho)
      | true =>
        simp only [ioStep, asyncReadStep, ho, if_true, Option.elim, Option.some.injEq] at h
        subst h
        exact .inner rfl (fun _ => rfl) (.isOpen ho)
    | cleanBuffer =>
      simp only [ioStep, asyncReadStep, Option.elim, Option.some.injEq] at h
      subst h
      exact .inner (core_byteBuffer c _) (fun _ => rfl) .cleanBuffer
    | recalculateSize =>
      simp only [ioStep, asyncReadStep, Option.elim, Option.some.injEq] at h
      subst h
      exact .inner (core_byteBuffer c _) (fun _ => rfl) .recalculateSize
    | asyncReadSome =>
      simp only [ioStep, asyncReadStep, Option.elim, Option.some.injEq] at h
      subst h
      exact .read rfl
  | close =>
    obtain rfl := Option.some.inj h
    exact .close rfl

/-! ### The statements of `Start` -/

/-- What a statement of `Start` does. -/
inductive StartMove (env : Env) (login : Login) (t : Threads) : Threads → Prop
  | connect (hs : t.start = .connect) : StartMove env login t { t with
      connection := { t.connection with toBaseSocket := t.connection.toBaseSocket.connect }
      start := .packet }
  | failed (hs : t.start = .connect) : StartMove env login t { t with start := .returned false }
  | packet {challenge : Bytes} (hs : t.start = .packet)
      (hu : cAuthLogonChallenge login.username = some challenge) :
      StartMove env login t { t with
        packet := NovusConnection.packet challenge, start := .asyncRead .isOpen }
  | inner {c : NovusConnection} {pc next : ReadPc} (hs : t.start = .asyncRead pc)
      (hcore : c.core = t.connection.core) :
      StartMove env login t { t with connection := c, start := .asyncRead next }
  | notOpen (hs : t.start = .asyncRead .isOpen) (ho : t.connection.isOpen = false) :
      StartMove env login t { t with start := .send }
  | read (hs : t.start = .asyncRead .asyncReadSome) : StartMove env login t { t with
      connection := { t.connection with reads := t.connection.reads ++
        [⟨t.connection.byteBuffer.writePos, t.connection.byteBuffer.getSpaceLeft⟩] }
      start := .send }
  | send (hs : t.start = .send) : StartMove env login t { t with
      connection := t.connection.send t.packet, start := .username }
  | username (hs : t.start = .username) : StartMove env login t { t with
      connection := { t.connection with username := login.username }, start := .password }
  | password (hs : t.start = .password) : StartMove env login t { t with
      connection := { t.connection with password := login.password }, start := .passwordKey }
  | passwordKey (hs : t.start = .passwordKey) : StartMove env login t { t with
      connection := { t.connection with
        passwordKey := passwordHash env.sha1 t.connection.username t.connection.password }
      start := .returned true }

/-- **Every statement of `Start`** is one of these. -/
theorem startStep_cases {env : Env} {login : Login} {t t' : Threads}
    (h : t.startStep env login = some t') : StartMove env login t t' := by
  obtain ⟨c, s, p, io, started⟩ := t
  cases s with
  | connect =>
    simp only [startStep] at h
    split at h
    · obtain rfl := Option.some.inj h
      exact .connect rfl
    · obtain rfl := Option.some.inj h
      exact .failed rfl
  | packet =>
    obtain ⟨challenge, hu, rfl⟩ := Option.map_eq_some_iff.1 h
    exact .packet rfl hu
  | asyncRead pc =>
    cases pc with
    | isOpen =>
      cases ho : c.isOpen with
      | false =>
        simp only [startStep, asyncReadStep, ho, Bool.false_eq_true, if_false, Option.elim,
          Option.some.injEq] at h
        subst h
        exact .notOpen rfl ho
      | true =>
        simp only [startStep, asyncReadStep, ho, if_true, Option.elim, Option.some.injEq] at h
        subst h
        exact .inner rfl rfl
    | cleanBuffer | recalculateSize =>
      simp only [startStep, asyncReadStep, Option.elim, Option.some.injEq] at h
      subst h
      exact .inner rfl (core_byteBuffer c _)
    | asyncReadSome =>
      simp only [startStep, asyncReadStep, Option.elim, Option.some.injEq] at h
      subst h
      exact .read rfl
  | send =>
    obtain rfl := Option.some.inj h
    exact .send rfl
  | username =>
    obtain rfl := Option.some.inj h
    exact .username rfl
  | password =>
    obtain rfl := Option.some.inj h
    exact .password rfl
  | passwordKey =>
    obtain rfl := Option.some.inj h
    exact .passwordKey rfl
  | returned result => simp [startStep] at h

/-! ### Completions -/

/-- **A completion** by itself touches the socket and its buffer, and it may start a `HandleRead`. -/
theorem complete_cases {t t' : Threads} {i : Completion} (h : t.complete i = some t') :
    t'.connection.login = t.connection.login ∧ t'.connection.password = t.connection.password ∧
      t'.start = t.start ∧ t'.packet = t.packet ∧ t'.handlersStarted = t.handlersStarted ∧
      (t'.io = t.io ∨ t'.io = .handleRead) := by
  cases i with
  | read op chunk =>
    simp only [complete, Option.ite_none_right_eq_some, Option.some.injEq] at h
    obtain ⟨-, rfl⟩ := h
    exact ⟨rfl, rfl, rfl, rfl, rfl, .inr rfl⟩
  | readError op =>
    simp only [complete, Option.ite_none_right_eq_some, Option.some.injEq] at h
    obtain ⟨-, rfl⟩ := h
    exact ⟨rfl, rfl, rfl, rfl, rfl, .inl rfl⟩
  | write data error =>
    simp only [complete, Option.ite_none_right_eq_some, Option.some.injEq] at h
    obtain ⟨-, rfl⟩ := h
    cases error <;> exact ⟨rfl, rfl, rfl, rfl, rfl, .inl rfl⟩

lemma step_complete {env : Env} {login : Login} {t t' : Threads} {i : Completion}
    (h : t.step env login (.complete i) = some t') : t.io = .idle ∧ t.complete i = some t' := by
  simpa only [step, Option.ite_none_right_eq_some] using h

/-! ### Runs up to a handler -/

lemma run_body (env : Env) (login : Login) {t : Threads} {op : ReadOp} {chunk : Bytes} (hidle : t.io = .idle)
    (hop : op ∈ t.connection.reads) (hlen : chunk.length ≤ op.len)
    (hs : t.connection.status ≠ .closed)
    (hn : (t.connection.received op chunk).byteBuffer.getActualSize ≠ 0)
    (callHook : HookCall → Bool) :
    run (step env login) t [.complete (.read op chunk), .io callHook, .io callHook] =
      some { t with connection := t.connection.received op chunk, io := .body } := by
  have h₁ : step env login t (.complete (.read op chunk)) =
      some { t with connection := t.connection.received op chunk, io := .handleRead } := by
    simp only [step, if_pos hidle, complete, if_pos (And.intro hop hlen)]
  generalize hd : t.connection.received op chunk = d at h₁ hn ⊢
  have hs' : d.status ≠ .closed := by rw [← hd]; exact hs
  have h₂ : step env login { t with connection := d, io := .handleRead } (.io callHook) =
      some { t with connection := d, io := .loopTest } := by
    simp only [step, ioStep, if_neg hs']
  have h₃ : step env login { t with connection := d, io := .loopTest } (.io callHook) =
      some { t with connection := d, io := .body } := by
    simp only [step, ioStep, if_pos hn]
  rw [run_cons h₁, run_cons h₂, run_cons h₃]
  rfl

lemma calls_received {c : NovusConnection} (hs : c.status = .challenge)
    (hb : c.byteBuffer = ⟨0, 0, List.replicate 4096 0⟩) {chunk : Bytes} (h4 : 3 < chunk.length)
    (hlen : chunk.length ≤ 4096) (hfront : chunk.getD 0 0 = NovusCommand.challenge.code) :
    (c.received ⟨0, 4096⟩ chunk).Calls .challenge := by
  have hbuf : (c.received ⟨0, 4096⟩ chunk).byteBuffer =
      ⟨0, chunk.length, splice (List.replicate 4096 0) 0 chunk⟩ := by
    have hw : (0 + chunk.length) % 2 ^ 64 = chunk.length := by omega
    unfold received BaseSocket.received ByteBuffer.writeBytes
    simp only [hb, hw]
  refine ⟨hs, ?_, ?_⟩
  · rw [hbuf]
    show (splice (List.replicate 4096 0) 0 chunk).getD 0 0 = _
    rw [getD_splice (by omega), hfront]
  · rw [hbuf, ByteBuffer.getActualSize_of_le (Nat.zero_le _) (show chunk.length < 2 ^ 32 by omega)]
    exact h4

/-- The challenge that the login of the examples sends. -/
def sampleGreeting : Bytes := (cAuthLogonChallenge [0x41]).getD []

lemma cAuthLogonChallenge_sample : cAuthLogonChallenge [0x41] = some sampleGreeting := rfl

lemma run_send_sample (proofM2 : Digest) :
    run (step sampleEnv ⟨[0x41], [0x42]⟩) (initial proofM2) (List.replicate 7 .start) =
      some ⟨{ new proofM2 with toBaseSocket := ⟨⟨0, 0, List.replicate 4096 0⟩, false, true,
        [⟨0, 4096⟩], [sampleGreeting], [sampleGreeting]⟩ }, .username,
        NovusConnection.packet sampleGreeting, .idle, []⟩ := by
  obtain ⟨hlen, -⟩ := cAuthLogonChallenge_length cAuthLogonChallenge_sample
  have hne : sampleGreeting ≠ [] := by
    intro h
    rw [h] at hlen
    simp at hlen
  rw [← greet_new proofM2 hne (by rw [hlen]; norm_num)]
  exact run_send rfl cAuthLogonChallenge_sample .new .idle []

end Threads

end NovusHeadless
