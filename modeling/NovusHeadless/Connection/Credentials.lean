import NovusHeadless.Connection.ThreadSteps

/-!
# The credentials of a login and the thread that uses them

`Start` issues the read and sends the challenge before it stores the credentials, so the other thread can
be in `HandleCommandChallenge` while `Start` still has its last statements in front of it.

* `Determined` — the property: while `HandleCommandChallenge` runs, the connection holds the credentials
  of this login, and the proof is the one computed from them;
* `ReplyAfterStart` — the condition: the handler is called behind the last statement of `Start`;
* `determined_of_replyAfterStart` — the runs that meet the condition have the property.
-/

namespace NovusHeadless

open Lib NovusConnection

/-- What `Start` stores in `_passwordKey`. -/
def Login.passwordKey (env : Env) (login : Login) : BigNumber :=
  passwordHash env.sha1 login.username login.password

/-- What `HandleCommandChallenge` computes for this login from the reply in the buffer. -/
def Login.locals (env : Env) (login : Login) (c : NovusConnection) : ChallengeLocals :=
  challengeLocals env.sha1 env.a login.username (login.passwordKey env) c.logonChallenge

/-- The connection holds the credentials. -/
structure HasCredentials (env : Env) (login : Login) (c : NovusConnection) : Prop where
  username : c.username = login.username
  password : c.password = login.password
  passwordKey : c.passwordKey = login.passwordKey env

lemma HasCredentials.of_eq {env : Env} {login : Login} {c d : NovusConnection}
    (h : HasCredentials env login c)
    (hu : d.username = c.username) (hp : d.password = c.password)
    (hk : d.passwordKey = c.passwordKey) : HasCredentials env login d :=
  ⟨hu.trans h.username, hp.trans h.password, hk.trans h.passwordKey⟩

namespace Threads

/-- The statements of `HandleCommandChallenge`. -/
def IoPc.inChallenge : IoPc → Bool
  | .challengeHook _ | .challengeKey _ | .challengeProof _ _ | .challengeSend _ _ => true
  | _ => false

/-- The values that `HandleCommandChallenge` has taken from the connection and not yet used. -/
def Taken (env : Env) (login : Login) (c : NovusConnection) : IoPc → Prop
  | .challengeProof _ passwordKey => passwordKey = login.passwordKey env
  | .challengeSend _ packet =>
    packet = NovusConnection.packet (login.locals env c).logonProof.toBytes
  | _ => True

/-- The property of a state. -/
def Determined (env : Env) (login : Login) (t : Threads) : Prop :=
  IoPc.inChallenge t.io = true →
    HasCredentials env login t.connection ∧ Taken env login t.connection t.io

/-- The condition on a step, in the state before it. -/
def ReplyAfterStart (t : Threads) : Action → Prop
  | .io _ => t.io = .body → t.connection.Calls .challenge → t.start = .returned true
  | _ => True

/-- What `Start` has stored so far. -/
structure Stored (env : Env) (login : Login) (t : Threads) : Prop where
  username : t.start = .password ∨ t.start = .passwordKey →
    t.connection.username = login.username
  password : t.start = .passwordKey → t.connection.password = login.password
  returned : t.start = .returned true → HasCredentials env login t.connection
  taken : IoPc.inChallenge t.io = true →
    t.start = .returned true ∧ Taken env login t.connection t.io

section

variable {env : Env} {login : Login} {t t' : Threads}

lemma stored_initial (proofM2 : Digest) : Stored env login (initial proofM2) where
  username h := by rcases h with h | h <;> exact StartPc.noConfusion h
  password h := StartPc.noConfusion h
  returned h := StartPc.noConfusion h
  taken h := absurd h (by simp [initial, IoPc.inChallenge])

lemma determined_of_stored (h : Stored env login t) : Determined env login t := by
  intro hio
  obtain ⟨hstart, htaken⟩ := h.taken hio
  exact ⟨h.returned hstart, htaken⟩

/-- As long as `Start` has not returned, no handler of the reply is running. -/
lemma Stored.not_inChallenge (h : Stored env login t) (hstart : t.start ≠ .returned true) :
    IoPc.inChallenge t.io = false := by
  cases hio : IoPc.inChallenge t.io with
  | false => rfl
  | true => exact absurd (h.taken hio).1 hstart

lemma stored_start (h : Stored env login t) (hs : t.startStep env login = some t') :
    Stored env login t' := by
  have hnot : t.start ≠ .returned true := by
    intro hreturned
    unfold startStep at hs
    rw [hreturned] at hs
    simp at hs
  have hio := h.not_inChallenge hnot
  cases startStep_cases hs with
  | username =>
    exact ⟨fun _ => rfl, fun h => StartPc.noConfusion h, fun h => StartPc.noConfusion h,
      fun h => absurd h (by simp [hio])⟩
  | password hstart =>
    exact ⟨fun _ => h.username (.inl hstart), fun _ => rfl, fun h => StartPc.noConfusion h,
      fun h => absurd h (by simp [hio])⟩
  | passwordKey hstart =>
    have hu := h.username (.inr hstart)
    have hp := h.password hstart
    refine ⟨?_, fun h => StartPc.noConfusion h, fun _ => ⟨hu, hp, ?_⟩,
      fun h => absurd h (by simp [hio])⟩
    · rintro (h | h) <;> exact StartPc.noConfusion h
    · simp only [hu, hp]
      rfl
  | _ =>
    refine ⟨?_, ?_, ?_, fun h => absurd h (by simp [hio])⟩
    · rintro (h | h) <;> exact StartPc.noConfusion h
    · intro h
      exact StartPc.noConfusion h
    · intro h
      simp at h

lemma Stored.of_eq (h : Stored env login t) (hstart : t'.start = t.start)
    (hu : t'.connection.username = t.connection.username)
    (hp : t'.connection.password = t.connection.password)
    (hk : t'.connection.passwordKey = t.connection.passwordKey)
    (htaken : IoPc.inChallenge t'.io = true →
      t.start = .returned true ∧ Taken env login t'.connection t'.io) : Stored env login t' where
  username := by rw [hstart, hu]; exact h.username
  password := by rw [hstart, hp]; exact h.password
  returned := by rw [hstart]; exact fun hr => (h.returned hr).of_eq hu hp hk
  taken := by rw [hstart]; exact htaken

lemma stored_complete {i : Completion} (h : Stored env login t) (hidle : t.io = .idle)
    (hs : t.complete i = some t') : Stored env login t' := by
  obtain ⟨hlogin, hpassword, hstart, -, -, hio⟩ := complete_cases hs
  refine h.of_eq hstart (congrArg LoginState.username hlogin) hpassword
    (congrArg LoginState.passwordKey hlogin) fun hin => ?_
  rcases hio with hio | hio
  · rw [hio, hidle] at hin
    exact absurd hin (by simp [IoPc.inChallenge])
  · rw [hio] at hin
    exact absurd hin (by simp [IoPc.inChallenge])

lemma inChallenge_inner (env : Env) (login : Login) {returns isOpen : Bool} {pc pc' : IoPc}
    (h : Inner returns isOpen pc pc') (hpc : IoPc.inChallenge pc' = true) :
    IoPc.inChallenge pc = true ∧ ∀ c, Taken env login c pc' := by
  cases h with
  | exit h => cases h <;> simp [IoPc.inChallenge] at hpc
  | challengeHook size => exact ⟨rfl, fun _ => trivial⟩
  | _ => simp [IoPc.inChallenge] at hpc

lemma stored_io {callHook : HookCall → Bool} (h : Stored env login t)
    (hs : t.ioStep { env with callHook := callHook } = some t')
    (hC : t.io = .body → t.connection.Calls .challenge → t.start = .returned true) :
    Stored env login t' := by
  cases ioStep_cases hs with
  | inner hcore _ hpc =>
    have hc := sameCore hcore
    refine h.of_eq rfl hc.username hc.password hc.passwordKey ?_
    intro hin
    obtain ⟨hbefore, htaken⟩ := inChallenge_inner env login hpc hin
    exact ⟨(h.taken hbefore).1, htaken _⟩
  | @call command size hio hcalls =>
    cases command with
    | challenge => exact h.of_eq rfl rfl rfl rfl fun _ => ⟨hC hio hcalls, trivial⟩
    | proof =>
      exact h.of_eq rfl rfl rfl rfl fun hin => absurd hin (by simp [callHandler, IoPc.inChallenge])
  | key hio =>
    have hstart := (h.taken (by rw [hio]; rfl)).1
    exact h.of_eq rfl rfl rfl rfl fun _ => ⟨hstart, (h.returned hstart).passwordKey⟩
  | proof hio hl =>
    obtain ⟨hstart, htaken⟩ := h.taken (by rw [hio]; rfl)
    rw [hio] at htaken
    have hkey : _ = login.passwordKey env := htaken
    rw [hkey, (h.returned hstart).username] at hl
    refine h.of_eq rfl rfl rfl rfl fun _ => ⟨hstart, ?_⟩
    rw [← hl]
    rfl
  | send | read | close =>
    exact h.of_eq rfl rfl rfl rfl fun hin => absurd hin (by simp [IoPc.inChallenge])

theorem stored_step {a : Action} (h : Stored env login t) (hs : t.step env login a = some t')
    (hC : ReplyAfterStart t a) : Stored env login t' := by
  cases a with
  | start => exact stored_start h hs
  | complete i => exact stored_complete h (step_complete hs).1 (step_complete hs).2
  | io callHook => exact stored_io h hs hC

end

end Threads

open Threads in
/-- **The credentials are in place.**  In every interleaving of `Start` with the thread of the
`io_service` in which the reply reaches `HandleCommandChallenge` behind the last statement of `Start`, the
handler finds the credentials of this login, and what it sends is the proof computed from them. -/
theorem determined_of_replyAfterStart (env : Env) (login : Login) (proofM2 : Digest)
    (is : List Action)
    (h : Along (step env login) (fun t a _ => ReplyAfterStart t a) (initial proofM2) is) :
    Along (step env login) (fun _ _ t' => Determined env login t') (initial proofM2) is := by
  have hinit : Stored env login (initial proofM2) := stored_initial proofM2
  refine along_of_inv_of ?_ hinit h
  intro t a t' hstored hs hC
  have hstored' := stored_step hstored hs hC
  exact ⟨hstored', determined_of_stored hstored'⟩

namespace Threads

/-- Behind the last statement of `Start` every run meets the condition. -/
lemma replyAfterStart_of_returned {env : Env} {login : Login} {t : Threads}
    (h : t.start = .returned true) (is : List Action) :
    Along (step env login) (fun t a _ => ReplyAfterStart t a) t is := by
  have hstep : ∀ (t : Threads) (a : Action) (t' : Threads), t.start = .returned true →
      step env login t a = some t' → t'.start = .returned true ∧ ReplyAfterStart t a := by
    intro t a t' hinv hs
    cases a with
    | start =>
      simp only [step, startStep, hinv] at hs
      exact absurd hs (by simp)
    | complete i =>
      obtain ⟨-, -, hstart, -⟩ := complete_cases (step_complete hs).2
      exact ⟨hstart.trans hinv, trivial⟩
    | io callHook =>
      refine ⟨?_, fun _ _ => hinv⟩
      cases ioStep_cases hs with
      | @call command => cases command <;> exact hinv
      | _ => exact hinv
  exact along_of_inv hstep h is

lemma received_username (c : NovusConnection) (op : ReadOp) (chunk : Bytes) :
    (c.received op chunk).username = c.username := rfl

/-- A completed read brings these bytes, and the thread runs up to the call of a handler. -/
def replyRun (chunk : Bytes) : List Action :=
  [.complete (.read ⟨0, 4096⟩ chunk), .io fun _ => true, .io fun _ => true] ++ [.io fun _ => true]

end Threads

open Threads in
theorem determined_of_replyAfterStart_sample :
    Along (step sampleEnv ⟨[0x41], [0x42]⟩) (fun _ _ t' => Determined sampleEnv ⟨[0x41], [0x42]⟩ t')
      (initial (Vector.replicate 20 0))
      ((List.replicate 7 .start ++ List.replicate 3 .start) ++ replyRun sampleChallenge.toBytes) := by
  refine determined_of_replyAfterStart sampleEnv ⟨[0x41], [0x42]⟩ _ _ (along_append ?_ ?_)
  · apply along_of_forall
    intro a ha t _
    rw [← List.replicate_add, List.mem_replicate] at ha
    rw [ha.2]
    trivial
  · intro t ht
    have hstart := (run_append (run_send_sample (Vector.replicate 20 0))
      (List.replicate 3 .start)).trans (run_credentials _ _ _ _)
    obtain rfl := Option.some.inj (hstart.symm.trans ht)
    exact replyAfterStart_of_returned rfl _

open Threads in
/-- The reply arrives while `Start` is behind its `Send`: the handler finds an empty user name. -/
theorem determined_counterexample :
    ¬ Along (step sampleEnv ⟨[0x41], [0x42]⟩)
      (fun _ _ t' => Determined sampleEnv ⟨[0x41], [0x42]⟩ t') (initial (Vector.replicate 20 0))
      (List.replicate 7 .start ++ replyRun sampleChallenge.toBytes) := by
  intro h
  have hlen : sampleChallenge.toBytes.length = 119 := rfl
  have hfront : sampleChallenge.toBytes.getD 0 0 = NovusCommand.challenge.code := rfl
  have hrest := along_of_append h (run_send_sample (Vector.replicate 20 0))
  generalize hc : ({ new (Vector.replicate 20 0) with toBaseSocket := _ } : NovusConnection) = c
    at hrest
  have hstatus : c.status = .challenge := by rw [← hc]; rfl
  have hbuf : c.byteBuffer = ⟨0, 0, List.replicate 4096 0⟩ := by rw [← hc]
  have hreads : ⟨0, 4096⟩ ∈ c.reads := by rw [← hc]; exact List.mem_singleton.2 rfl
  have hname : c.username = [] := by rw [← hc]; rfl
  have hcalls := calls_received hstatus hbuf (by omega) (by omega) hfront
  have hbody := run_body sampleEnv ⟨[0x41], [0x42]⟩
    (t := ⟨c, .username, NovusConnection.packet sampleGreeting, .idle, []⟩) rfl hreads
    (show sampleChallenge.toBytes.length ≤ 4096 by omega) (by rw [hstatus]; decide)
    (Nat.ne_of_gt (Nat.zero_lt_of_lt hcalls.size)) fun _ => true
  have hlast := along_of_append hrest hbody
  have hname' : (c.received ⟨0, 4096⟩ sampleChallenge.toBytes).username = [] :=
    (received_username _ _ _).trans hname
  generalize c.received ⟨0, 4096⟩ sampleChallenge.toBytes = d at hlast hcalls hname'
  obtain ⟨size, hcall⟩ := body_of_calls
    (t := ⟨d, .username, NovusConnection.packet sampleGreeting, .body, []⟩) hcalls
  have hdet := (hlast _ rfl).1
  rw [hcall] at hdet
  have husername : d.username = [0x41] := (hdet rfl).1.username
  rw [hname'] at husername
  simp at husername

end NovusHeadless
