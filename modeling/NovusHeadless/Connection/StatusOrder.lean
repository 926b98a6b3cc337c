import NovusHeadless.Connection.ThreadSteps

/-!
# The order of the statuses

* `Moves` — what one step of the two threads does to the status and to the sequence of handlers called;
* `fuel` — a number that every statement of a completion handler makes smaller, whatever the buffer
  holds; nothing else touches it while the handler runs;
* `statusOrder` — the status goes from `CHALLENGE` over `PROOF` to `AUTHED`, each handler is called once
  at most and in this order, and every call of `HandleRead` comes to its end.
-/

namespace NovusHeadless

open Lib NovusConnection

namespace Threads

/-- The handlers called on the way to a status. -/
def handledBefore : NovusStatus → List NovusCommand
  | .challenge => []
  | .proof => [.challenge]
  | .authed => [.challenge, .proof]
  | .closed => []

/-- Nothing happens to the status and no handler is called, or the handler of the present status is
called and the next status reached. -/
def Moves (t t' : Threads) : Prop :=
  t'.connection.status = t.connection.status ∧ t'.handlersStarted = t.handlersStarted ∨
  t.connection.status = .challenge ∧ t'.connection.status = .proof ∧
    t'.handlersStarted = t.handlersStarted ++ [.challenge] ∨
  t.connection.status = .proof ∧ t'.connection.status = .authed ∧
    t'.handlersStarted = t.handlersStarted ++ [.proof]

section

variable {env : Env} {login : Login} {t t' : Threads}

lemma moves_callHandler {command : NovusCommand} {size : UInt16}
    (h : t.connection.status = command.status) : Moves t (t.callHandler command size) := by
  cases command with
  | challenge => exact .inr (.inl ⟨h, rfl, rfl⟩)
  | proof => exact .inr (.inr ⟨h, rfl, rfl⟩)

/-- **One step**, from any state at all. -/
theorem moves_step {a : Action} (h : t.step env login a = some t') : Moves t t' := by
  cases a with
  | start =>
    cases startStep_cases h with
    | inner _ hcore => exact .inl ⟨(sameCore hcore).status, rfl⟩
    | _ => exact .inl ⟨rfl, rfl⟩
  | complete i =>
    obtain ⟨hlogin, -, -, -, hstarted, -⟩ := complete_cases (step_complete h).2
    exact .inl ⟨congrArg LoginState.status hlogin, hstarted⟩
  | io callHook =>
    cases ioStep_cases h with
    | inner hcore => exact .inl ⟨(sameCore hcore).status, rfl⟩
    | call _ hcalls => exact moves_callHandler hcalls.status
    | _ => exact .inl ⟨rfl, rfl⟩

/-! ### The end of a call of `HandleRead` -/

/-- The statements left to the next test of the loop condition, or to the end of the call. -/
def IoPc.remaining : IoPc → ℕ
  | .idle | .left => 0
  | .close => 1
  | .asyncRead .asyncReadSome => 1
  | .asyncRead .recalculateSize => 2
  | .asyncRead .cleanBuffer => 3
  | .asyncRead .isOpen => 4
  | .headerHook _ => 2
  | .clean => 5
  | .body => 6
  | .loopTest => 7
  | .handleRead => 8
  | .readBytes _ => 8
  | .handlerReturned _ _ _ => 9
  | .challengeSend _ _ => 10
  | .proofCompare _ => 10
  | .challengeProof _ _ => 11
  | .challengeKey _ => 12
  | .challengeHook _ => 13

/-- A pass through the loop is paid for by the status that its handler has raised. -/
def fuel (t : Threads) : ℕ := IoPc.remaining t.io + 12 * (3 - rank t.connection.status)

lemma fuel_callHandler {command : NovusCommand} {size : UInt16} (hio : t.io = .body)
    (h : t.connection.status = command.status) : fuel (t.callHandler command size) < fuel t := by
  unfold fuel
  rw [hio, h]
  cases command <;> simp [callHandler, IoPc.remaining, rank, NovusCommand.status]

lemma remaining_inner {returns isOpen : Bool} {pc pc' : IoPc} (h : Inner returns isOpen pc pc') :
    IoPc.remaining pc' < IoPc.remaining pc := by
  cases h with
  | exit h => cases h <;> simp [IoPc.remaining]
  | _ => simp [IoPc.remaining]

/-- **A statement of a completion handler**, from any state at all. -/
theorem fuel_ioStep (h : t.ioStep env = some t') : fuel t' < fuel t := by
  cases ioStep_cases h with
  | inner hcore _ hpc =>
    have := remaining_inner hpc
    unfold fuel
    simp only [(sameCore hcore).status]
    omega
  | call hio hcalls => exact fuel_callHandler hio hcalls.status
  | key hio | proof hio | send hio | read hio | close hio =>
    unfold fuel
    rw [hio]
    simp only [IoPc.remaining]
    exact Nat.add_lt_add_right (by norm_num) _

lemma fuel_startStep (h : t.startStep env login = some t') : fuel t' = fuel t := by
  unfold fuel
  cases startStep_cases h with
  | inner _ hcore => simp only [(sameCore hcore).status]
  | _ => rfl

lemma ioStep_isSome (hidle : t.io ≠ .idle) (hleft : t.io ≠ .left) : (t.ioStep env).isSome := by
  unfold ioStep
  cases hio : t.io with
  | idle => exact absurd hio hidle
  | left => exact absurd hio hleft
  | challengeKey size =>
    simp only
    split <;> rfl
  | _ => rfl

/-! ### Runs -/

/-- What the status says about the handlers called so far. -/
structure InOrder (t : Threads) : Prop where
  status_ne : t.connection.status ≠ .closed
  handlers : t.handlersStarted = handledBefore t.connection.status

lemma inOrder_initial (proofM2 : Digest) : InOrder (initial proofM2) :=
  ⟨fun h => NovusStatus.noConfusion h, rfl⟩

lemma inOrder_of_moves (h : InOrder t) (hm : Moves t t') : InOrder t' := by
  obtain ⟨hne, hhandlers⟩ := h
  rcases hm with ⟨hs, hh⟩ | ⟨hs, hs', hh⟩ | ⟨hs, hs', hh⟩
  · constructor
    · rw [hs]
      exact hne
    · rw [hs, hh]
      exact hhandlers
  · constructor
    · rw [hs']
      decide
    · rw [hh, hhandlers, hs, hs']
      rfl
  · constructor
    · rw [hs']
      decide
    · rw [hh, hhandlers, hs, hs']
      rfl

end

end Threads

/-- A statement of a completion handler. -/
def Action.isIo : Action → Bool
  | .io _ => true
  | _ => false

namespace Threads

variable {env : Env} {login : Login} {t t' : Threads}

/-- A run in which no other completion is taken up has no more statements than the fuel allows. -/
lemma countP_isIo_le {is : List Action} (hok : ∀ a ∈ is, ∀ i, a ≠ .complete i)
    (hrun : run (step env login) t is = some t') : fuel t' + is.countP Action.isIo ≤ fuel t := by
  refine countP_le_of_run ?_ hok hrun
  intro t a t' ha h
  cases a with
  | start => exact (fuel_startStep h).le
  | complete i => exact absurd rfl (ha i)
  | io callHook => exact fuel_ioStep h

lemma fuel_handleRead (hio : t.io = .handleRead) : fuel t ≤ 44 := by
  unfold fuel
  rw [hio]
  show 8 + 12 * (3 - rank t.connection.status) ≤ 44
  omega

end Threads

open Threads in
/-- **The status and the handlers over the life of a connection.**  For all completions in any order and
all outcomes of the hooks the status moves forward only, and `HandleCommandChallenge` and
`HandleCommandProof` are called once at most, in this order.  A call of `HandleRead`, made in any state at
all, makes no more than 44 steps, and it goes on until it has returned or has been left by an
exception. -/
theorem statusOrder (env : Env) (login : Login) :
    (∀ (proofM2 : Digest) (is : List Action),
      Along (step env login) (fun t _ t' => Moves t t' ∧ InOrder t') (initial proofM2) is) ∧
    ∀ t : Threads, t.io = .handleRead → ∀ (is : List Action) (t' : Threads),
      (∀ a ∈ is, ∀ i, a ≠ .complete i) → run (step env login) t is = some t' →
      is.countP Action.isIo ≤ 44 ∧
        (t'.io = .idle ∨ t'.io = .left ∨ ∀ callHook, (t'.step env login (.io callHook)).isSome) := by
  constructor
  · intro proofM2 is
    refine along_of_inv ?_ (inOrder_initial proofM2) is
    intro t a t' hinv h
    have hm := moves_step h
    have hinv' := inOrder_of_moves hinv hm
    exact ⟨hinv', hm, hinv'⟩
  · intro t hio is t' hok hrun
    constructor
    · have hbound := countP_isIo_le hok hrun
      have hfuel := fuel_handleRead hio
      omega
    · by_cases hidle : t'.io = .idle
      · exact .inl hidle
      by_cases hleft : t'.io = .left
      · exact .inr (.inl hleft)
      · right
        right
        intro callHook
        exact ioStep_isSome hidle hleft

/-- A `HandleRead` that begins with a read position behind the write position. -/
def wrappedThreads : Threads :=
  { Threads.initial (Vector.replicate 20 0) with
    connection := { NovusConnection.new (Vector.replicate 20 0) with
      byteBuffer := ⟨119, 36, [0]⟩, status := .proof }
    io := .handleRead }

theorem statusOrder_sample :
    wrappedThreads.connection.byteBuffer.getActualSize = 2 ^ 32 - 83 ∧
      [Action.start, .io fun _ => false].countP Action.isIo ≤ 44 :=
  ⟨by decide, ((statusOrder sampleEnv ⟨[0x41], [0x42]⟩).2 wrappedThreads rfl
    [.start, .io fun _ => false] _ (by simp) rfl).1⟩

end NovusHeadless
