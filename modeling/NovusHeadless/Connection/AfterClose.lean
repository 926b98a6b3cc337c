import NovusHeadless.Connection.StatusOrder

/-!
# What still happens behind `Close`

`Close` does not take back the completions that are already queued, and `HandleRead` does not ask
whether the connection is closed: it tests a status that nothing ever sets.

* `Silent` — the property: from a closed connection on a step calls no handler, sends no packet and leaves
  the status, the key and the expected proof alone;
* `KeepsSilent` — the condition: a closed connection does not come to the call of a handler, and `Start` does
  not come to its `Send` behind a `Close`;
* `silent_iff` — a run has the property exactly when it meets the condition.
-/

namespace NovusHeadless

open Lib NovusConnection

namespace Threads

/-- Nothing is processed by the step. -/
structure Unprocessed (t t' : Threads) : Prop where
  handlersStarted : t'.handlersStarted = t.handlersStarted
  status : t'.connection.status = t.connection.status
  key : t'.connection.key = t.connection.key
  proofM2 : t'.connection.proofM2 = t.connection.proofM2
  sent : t'.connection.sent = t.connection.sent

/-- The property of a step. -/
def Silent (t : Threads) (_ : Action) (t' : Threads) : Prop :=
  t.connection.isClosed = true → Unprocessed t t'

/-- The condition on a step, in the state before it. -/
def KeepsSilent (t : Threads) (a : Action) (_ : Threads) : Prop :=
  t.connection.isClosed = true →
    match a with
    | .start => t.start ≠ .send
    | .complete _ => True
    | .io _ => t.io = .body → ∀ command, ¬ t.connection.Calls command

/-- The statements of the two handlers. -/
def IoPc.inHandler : IoPc → Bool
  | .challengeHook _ | .challengeKey _ | .challengeProof _ _ | .challengeSend _ _ | .proofCompare _ =>
    true
  | _ => false

/-- The local packet of `Start` when it comes to the `Send`. -/
def PacketReady (t : Threads) : Prop :=
  (∃ pc, t.start = .asyncRead pc) ∨ t.start = .send →
    ∃ challenge, challenge ≠ [] ∧ challenge.length < 2 ^ 32 ∧
      t.packet = NovusConnection.packet challenge

/-- No handler is running in a closed connection. -/
structure Quiet (t : Threads) : Prop where
  quiet : t.connection.isClosed = true → IoPc.inHandler t.io = false
  packet : PacketReady t

section

variable {env : Env} {login : Login} {t t' : Threads}

/-! ### Where the threads are -/

lemma inHandler_exit {pc : IoPc} (h : Exit pc) : IoPc.inHandler pc = false := by cases h <;> rfl

lemma inHandler_inner {returns isOpen : Bool} {pc pc' : IoPc} (h : Inner returns isOpen pc pc')
    (hpc : IoPc.inHandler pc = false) : IoPc.inHandler pc' = false := by
  cases h with
  | exit h => exact inHandler_exit h
  | challengeHook size => exact absurd hpc (by simp [IoPc.inHandler])
  | _ => rfl

lemma quiet_initial (proofM2 : Digest) : Quiet (initial proofM2) where
  quiet _ := rfl
  packet h := by rcases h with ⟨pc, h⟩ | h <;> exact StartPc.noConfusion h

lemma packetReady_start (h : PacketReady t) (hs : t.startStep env login = some t') :
    PacketReady t' := by
  cases startStep_cases hs with
  | packet _ hu =>
    intro _
    obtain ⟨hlen, hle⟩ := cAuthLogonChallenge_length hu
    refine ⟨_, ?_, by omega, rfl⟩
    rintro rfl
    simp at hlen
    omega
  | inner hstart => exact fun _ => h (.inl ⟨_, hstart⟩)
  | read hstart => exact fun _ => h (.inl ⟨_, hstart⟩)
  | notOpen hstart => exact fun _ => h (.inl ⟨_, hstart⟩)
  | _ =>
    intro hpc
    rcases hpc with ⟨pc, hpc⟩ | hpc <;> exact StartPc.noConfusion hpc

lemma packetReady_of_eq (h : PacketReady t) (hs : t'.start = t.start) (hp : t'.packet = t.packet) :
    PacketReady t' := by
  intro hpc
  rw [hs] at hpc
  rw [hp]
  exact h hpc

lemma quiet_start (h : Quiet t) (hs : t.startStep env login = some t') : Quiet t' := by
  refine ⟨?_, packetReady_start h.packet hs⟩
  cases startStep_cases hs with
  | inner _ hcore =>
    simp only [(sameCore hcore).isClosed]
    exact h.quiet
  | send =>
    intro hc
    obtain ⟨-, hclosed, -⟩ := send_socket t.connection t.packet
    apply h.quiet
    rw [← hclosed]
    exact hc
  | _ => exact h.quiet

lemma quiet_complete {i : Completion} (h : Quiet t) (hidle : t.io = .idle)
    (hs : t.complete i = some t') : Quiet t' := by
  obtain ⟨-, -, hstart, hpacket, -, hio⟩ := complete_cases hs
  refine ⟨?_, packetReady_of_eq h.packet hstart hpacket⟩
  intro _
  rcases hio with hio | hio
  · rw [hio, hidle]
    rfl
  · rw [hio]
    rfl

lemma quiet_io (h : Quiet t) (hs : t.ioStep env = some t')
    (hC : t.connection.isClosed = true → t.io = .body →
      ∀ command, ¬ t.connection.Calls command) : Quiet t' := by
  cases ioStep_cases hs with
  | inner hcore _ hpc =>
    refine ⟨?_, packetReady_of_eq h.packet rfl rfl⟩
    intro hc
    rw [(sameCore hcore).isClosed] at hc
    exact inHandler_inner hpc (h.quiet hc)
  | @call command size hio hcalls =>
    have hopen : t.connection.isClosed ≠ true := fun hc => hC hc hio command hcalls
    cases command with
    | challenge => exact ⟨fun hc => absurd hc hopen, packetReady_of_eq h.packet rfl rfl⟩
    | proof => exact ⟨fun hc => absurd hc hopen, packetReady_of_eq h.packet rfl rfl⟩
  | key hio | proof hio =>
    refine ⟨?_, packetReady_of_eq h.packet rfl rfl⟩
    intro hc
    have hq := h.quiet hc
    rw [hio] at hq
    exact absurd hq (by simp [IoPc.inHandler])
  | send hio => exact ⟨fun _ => rfl, packetReady_of_eq h.packet rfl rfl⟩
  | read hio => exact ⟨fun _ => rfl, packetReady_of_eq h.packet rfl rfl⟩
  | close hio => exact ⟨fun _ => rfl, packetReady_of_eq h.packet rfl rfl⟩

theorem quiet_step {a : Action} (h : Quiet t) (hs : t.step env login a = some t')
    (hC : KeepsSilent t a t') : Quiet t' := by
  cases a with
  | start => exact quiet_start h hs
  | complete i => exact quiet_complete h (step_complete hs).1 (step_complete hs).2
  | io callHook => exact quiet_io h hs hC

/-! ### The property of a step -/

lemma unprocessed_start (hs : t.startStep env login = some t') (hsend : t.start ≠ .send) :
    Unprocessed t t' := by
  cases startStep_cases hs with
  | inner _ hcore =>
    have hc := sameCore hcore
    exact ⟨rfl, hc.status, hc.key, hc.proofM2, hc.sent⟩
  | send hstart => exact absurd hstart hsend
  | _ => exact ⟨rfl, rfl, rfl, rfl, rfl⟩

lemma unprocessed_complete {i : Completion} (hs : t.complete i = some t') : Unprocessed t t' := by
  obtain ⟨hlogin, -, -, -, hstarted, -⟩ := complete_cases hs
  exact ⟨hstarted, congrArg LoginState.status hlogin, congrArg LoginState.key hlogin,
    congrArg LoginState.proofM2 hlogin, congrArg LoginState.sent hlogin⟩

lemma unprocessed_io (hs : t.ioStep env = some t') (hpc : IoPc.inHandler t.io = false)
    (hcalls : t.io = .body → ∀ command, ¬ t.connection.Calls command) : Unprocessed t t' := by
  cases ioStep_cases hs with
  | inner hcore =>
    have hc := sameCore hcore
    exact ⟨rfl, hc.status, hc.key, hc.proofM2, hc.sent⟩
  | call hio h => exact absurd h (hcalls hio _)
  | key hio | proof hio | send hio =>
    rw [hio] at hpc
    exact absurd hpc (by simp [IoPc.inHandler])
  | read | close => exact ⟨rfl, rfl, rfl, rfl, rfl⟩

theorem silent_of_keeps {a : Action} (h : Quiet t) (hs : t.step env login a = some t')
    (hC : KeepsSilent t a t') : Silent t a t' := by
  intro hc
  cases a with
  | start => exact unprocessed_start hs (hC hc)
  | complete i => exact unprocessed_complete (step_complete hs).2
  | io callHook => exact unprocessed_io hs (h.quiet hc) (hC hc)

lemma sent_of_send (h : PacketReady t) (hstart : t.start = .send)
    (hs : t.startStep env login = some t') : t'.connection.sent ≠ t.connection.sent := by
  obtain ⟨challenge, hne, hlen, hpacket⟩ := h (.inr hstart)
  have hstep : t.startStep env login =
      some { t with connection := t.connection.send t.packet, start := .username } := by
    unfold startStep
    rw [hstart]
  rw [hstep] at hs
  obtain rfl := Option.some.inj hs
  have hsent : (t.connection.send t.packet).sent = t.connection.sent ++ [challenge] := by
    rw [hpacket]
    exact congrArg BaseSocket.sent (send_packet hne hlen)
  intro heq
  have hlength := congrArg List.length (hsent.symm.trans heq)
  simp at hlength

lemma started_body {command : NovusCommand} (h : t.connection.Calls command) :
    t.body.handlersStarted ≠ t.handlersStarted := by
  obtain ⟨size, hbody⟩ := body_of_calls h
  intro heq
  rw [hbody] at heq
  have hlength := congrArg List.length heq
  cases command <;> simp [callHandler] at hlength

lemma ioStep_body (hio : t.io = .body) : t.ioStep env = some t.body := by
  unfold ioStep
  rw [hio]

/-- **A step against the condition** calls a handler or sends a packet. -/
theorem not_silent {a : Action} (h : Quiet t) (hs : t.step env login a = some t')
    (hC : ¬ KeepsSilent t a t') : ¬ Silent t a t' := by
  intro hsilent
  obtain ⟨hc, hC⟩ := Classical.not_imp.1 hC
  have hun := hsilent hc
  cases a with
  | start => exact sent_of_send h.packet (not_not.1 hC) hs hun.sent
  | complete i => exact hC trivial
  | io callHook =>
    obtain ⟨hio, hC⟩ := Classical.not_imp.1 hC
    obtain ⟨command, hcalls⟩ := not_forall.1 hC
    have hbody : some t.body = some t' := (ioStep_body hio).symm.trans hs
    obtain rfl := Option.some.inj hbody
    exact started_body (not_not.1 hcalls) hun.handlersStarted

end

end Threads

open Threads in
/-- **After `Close`.**  A run from the start of a login processes nothing behind a `Close`, in no order of
the completions, exactly when no completion that was already queued brings a closed connection to the
call of a handler and `Start` has executed its `Send` before. -/
theorem silent_iff (env : Env) (login : Login) (proofM2 : Digest) (is : List Action) :
    Along (step env login) Silent (initial proofM2) is ↔
      Along (step env login) KeepsSilent (initial proofM2) is := by
  apply along_iff_of_inv _ _ (quiet_initial proofM2) is
  · intro t a t' h hs hC
    exact ⟨quiet_step h hs hC, silent_of_keeps h hs hC⟩
  · intro t a t' h hs hC
    exact not_silent h hs hC

namespace Threads

/-- A write has failed, and a read that had completed before is delivered behind it. -/
lemma not_silent_of_write {env : Env} {login : Login} {t : Threads} (hidle : t.io = .idle)
    (hs : t.connection.status = .challenge)
    (hb : t.connection.byteBuffer = ⟨0, 0, List.replicate 4096 0⟩)
    (hr : ⟨0, 4096⟩ ∈ t.connection.reads) {data : Bytes} (hw : data ∈ t.connection.writes)
    {chunk : Bytes} (h4 : 3 < chunk.length) (hlen : chunk.length ≤ 4096)
    (hfront : chunk.getD 0 0 = NovusCommand.challenge.code) (callHook : HookCall → Bool) :
    ¬ Along (step env login) Silent t (.complete (.write data true) ::
      ([.complete (.read ⟨0, 4096⟩ chunk), .io callHook, .io callHook] ++ [.io callHook])) := by
  intro h
  have hwrite : step env login t (.complete (.write data true)) =
      some { t with connection := t.connection.handleInternalWrite data true } := by
    simp only [step, if_pos hidle, complete, if_pos hw]
  obtain ⟨d, hd⟩ : ∃ d, d = t.connection.handleInternalWrite data true := ⟨_, rfl⟩
  have hrest := (h _ hwrite).2
  rw [← hd] at hrest
  have hs' : d.status = .challenge := by rw [hd]; exact hs
  have hb' : d.byteBuffer = ⟨0, 0, List.replicate 4096 0⟩ := by rw [hd]; exact hb
  have hr' : ⟨0, 4096⟩ ∈ d.reads := by rw [hd]; exact hr
  have hclosed : (d.received ⟨0, 4096⟩ chunk).isClosed = true := by rw [hd]; rfl
  have hcalls := calls_received hs' hb' h4 hlen hfront
  have hn : (d.received ⟨0, 4096⟩ chunk).byteBuffer.getActualSize ≠ 0 :=
    Nat.ne_of_gt (Nat.zero_lt_of_lt hcalls.size)
  have hbody := run_body env login (t := { t with connection := d }) hidle hr' hlen
    (by rw [hs']; decide) hn callHook
  have hlast := along_of_append hrest hbody
  have hsilent := (hlast _ rfl).1 hclosed
  exact started_body (t := { t with connection := d.received ⟨0, 4096⟩ chunk, io := .body }) hcalls
    hsilent.handlersStarted

end Threads

open Threads in
/-- The write of the challenge fails while the read has already brought four bytes: the handler runs in
the closed connection. -/
theorem silent_counterexample :
    ¬ Along (step sampleEnv ⟨[0x41], [0x42]⟩) Silent (initial (Vector.replicate 20 0))
      ((List.replicate 7 .start ++ List.replicate 3 .start) ++
        (.complete (.write sampleGreeting true) ::
          ([.complete (.read ⟨0, 4096⟩ [0, 0, 0, 0]), .io fun _ => true, .io fun _ => true] ++
            [.io fun _ => true]))) := by
  intro h
  have hstart := (run_append (run_send_sample (Vector.replicate 20 0)) (List.replicate 3 .start)).trans
    (run_credentials _ _ _ _)
  have hrest := along_of_append h hstart
  refine not_silent_of_write rfl rfl rfl ?_ ?_ (by simp) (by simp) rfl (fun _ => true) hrest
  · exact List.mem_singleton.2 rfl
  · exact List.mem_singleton.2 rfl

end NovusHeadless
