import NovusHeadless.Connection.NovusConnection

/-!
# One call of `HandleRead`

Every read that `AsyncRead` starts finds the read position at the front of the buffer.  From such a state
a call of `HandleRead` is decided by three things: the status, the byte at the front and the number of
bytes received (`verdict`).

* `loopBody_eq` — the first pass through the loop body, verdict by verdict;
* `handleRead_eq` — the whole call: at most two tests of the loop condition, since after a handler has
  returned true the front byte belongs to a status that is over, and whatever is left is answered by
  `Close` (`settle`);
* `loopTest_iff` — the states in which the loop condition is tested.
-/

namespace NovusHeadless

open Lib

/-- What the loop makes of the front of the buffer. -/
inductive Verdict where
  | wait
  | unknown
  | wrongStep
  | challengeFailed
  | challenge
  | proofFailed
  | proof
  deriving DecidableEq, Repr

/-- The verdict on `n` bytes of which the first is `front`. -/
def verdict (status : NovusStatus) (front : UInt8) (n : ℕ) : Verdict :=
  if status = .closed ∨ n = 0 then .wait
  else if front = NovusCommand.challenge.code then
    if status ≠ .challenge then .wrongStep
    else if n < 3 then .wait
    else if n = 3 then .challengeFailed
    else .challenge
  else if front = NovusCommand.proof.code then
    if status ≠ .proof then .wrongStep
    else if n < 4 then .wait
    else if n = 4 then .proofFailed
    else .proof
  else .unknown

lemma verdict_challenge_iff {status : NovusStatus} {front : UInt8} {n : ℕ} :
    verdict status front n = .challenge ↔
      status = .challenge ∧ front = NovusCommand.challenge.code ∧ 3 < n := by
  unfold verdict
  constructor
  · intro h
    split_ifs at h with h1 hf hs h4 h5
    exact ⟨not_not.1 hs, hf, by omega⟩
  · rintro ⟨rfl, rfl, hn⟩
    rw [if_neg (by simp; omega), if_pos rfl, if_neg (by simp), if_neg (by omega),
      if_neg (by omega)]

lemma verdict_proof_iff {status : NovusStatus} {front : UInt8} {n : ℕ} :
    verdict status front n = .proof ↔
      status = .proof ∧ front = NovusCommand.proof.code ∧ 4 < n := by
  unfold verdict
  constructor
  · intro h
    split_ifs at h with h1 h2 h3 h4 h5 hf hs h8
    exact ⟨not_not.1 hs, hf, by omega⟩
  · rintro ⟨rfl, rfl, hn⟩
    rw [if_neg (by simp; omega), if_neg (by decide), if_pos rfl, if_neg (by simp),
      if_neg (by omega), if_neg (by omega)]

lemma not_closed_or_empty {status : NovusStatus} {n : ℕ} (hs : status ≠ .closed) (hn : 0 < n) :
    ¬ (status = .closed ∨ n = 0) := by
  rintro (h | h)
  · exact hs h
  · omega

lemma verdict_challenge_header {status : NovusStatus} {n : ℕ} (hs : status ≠ .closed) (h3 : 3 ≤ n) :
    verdict status NovusCommand.challenge.code n =
      if status ≠ .challenge then .wrongStep else if n = 3 then .challengeFailed
      else .challenge := by
  unfold verdict
  rw [if_neg (not_closed_or_empty hs (by omega)), if_pos rfl, if_neg (by omega : ¬ n < 3)]

lemma verdict_proof_header {status : NovusStatus} {n : ℕ} (hs : status ≠ .closed) (h4 : 4 ≤ n) :
    verdict status NovusCommand.proof.code n =
      if status ≠ .proof then .wrongStep else if n = 4 then .proofFailed else .proof := by
  unfold verdict
  rw [if_neg (not_closed_or_empty hs (by omega)), if_neg (by decide), if_pos rfl, if_neg (by omega : ¬ n < 4)]

lemma verdict_of_lt {status : NovusStatus} {cmd : NovusCommand} {n : ℕ} (hs : status = cmd.status)
    (hn : n < cmd.headerSize) : verdict status cmd.code n = .wait := by
  subst hs
  unfold verdict
  cases cmd with
  | challenge =>
    have h3 : n < 3 := hn
    by_cases h0 : n = 0
    · rw [if_pos (.inr h0)]
    · rw [if_neg (by simp [h0, NovusCommand.status]), if_pos rfl,
        if_neg (by simp [NovusCommand.status]), if_pos h3]
  | proof =>
    have h4 : n < 4 := hn
    by_cases h0 : n = 0
    · rw [if_pos (.inr h0)]
    · rw [if_neg (by simp [h0, NovusCommand.status]), if_neg (by decide), if_pos rfl,
        if_neg (by simp [NovusCommand.status]), if_pos h4]

lemma eq_three_of_challengeFailed {status : NovusStatus} {front : UInt8} {n : ℕ}
    (h : verdict status front n = .challengeFailed) : n = 3 := by
  unfold verdict at h
  split_ifs at h
  assumption

lemma eq_four_of_proofFailed {status : NovusStatus} {front : UInt8} {n : ℕ}
    (h : verdict status front n = .proofFailed) : n = 4 := by
  unfold verdict at h
  split_ifs at h
  assumption

/-- No more than three bytes are ever kept for later. -/
lemma le_three_of_wait {status : NovusStatus} {front : UInt8} {n : ℕ}
    (h : verdict status front n = .wait) (hs : status ≠ .closed) : n ≤ 3 := by
  unfold verdict at h
  split_ifs at h with h1
  · rcases h1 with h1 | h1
    · exact absurd h1 hs
    · omega
  · omega
  · omega

namespace NovusConnection

variable (env : Env) (c : NovusConnection)

def verdict : Verdict :=
  NovusHeadless.verdict c.status (c.byteBuffer.getDataPointer.getD 0 0) c.byteBuffer.getActualSize

lemma verdict_eq_wait {c : NovusConnection}
    (h : c.status = .closed ∨ c.byteBuffer.getActualSize = 0) : c.verdict = .wait := if_pos h

/-- The reply as `HandleCommandChallenge` sees it. -/
def logonChallenge : SAuthLogonChallengeData := .ofBytes c.byteBuffer.getReadPointer

/-- The reply as `HandleCommandProof` sees it. -/
def logonProof : SAuthLogonProofData := .ofBytes c.byteBuffer.getReadPointer

/-- The call of the hook for the reply. -/
def challengeCall : HookCall := ⟨.onLoginChallenge, c.username, c.logonChallenge.result⟩

/-- What `HandleCommandChallenge` computes from the reply. -/
def locals : ChallengeLocals :=
  challengeLocals env.sha1 env.a c.username c.passwordKey c.logonChallenge

/-! ### The states a call can lead to -/

/-- The call of a handler in the state `c`, which has led to `c'`, put on record. -/
def recorded (c' : NovusConnection) (command : NovusCommand) (result : Bool) : NovusConnection :=
  { c' with handlersRun := c'.handlersRun ++
      [⟨command, c.byteBuffer.getReadPointer, c.byteBuffer.getActualSize, c.status, c'.status,
        result⟩] }

/-- The reply has been accepted and its bytes have been read. -/
def accepted : NovusConnection :=
  let c₁ := { c with
    status := .proof, hookCalls := c.hookCalls ++ [c.challengeCall],
    key := (c.locals env).key, proofM2 := (c.locals env).proofM2 }
  let c₂ := c.recorded (c₁.send (packet (c.locals env).logonProof.toBytes)) .challenge true
  { c₂ with byteBuffer := c₂.byteBuffer.readBytes 119 }

/-- The reply has not been accepted; the status has been raised all the same. -/
def rejected : NovusConnection :=
  (c.recorded { c with status := .proof, hookCalls := c.hookCalls ++ [c.challengeCall] }
    .challenge false).close

/-- The proof is the expected one and its bytes have been read: 36 of them. -/
def authenticated : NovusConnection :=
  let c₁ := c.recorded { c with status := .authed } .proof true
  { c₁ with byteBuffer := c₁.byteBuffer.readBytes 36 }

/-- The proof is not the expected one; the status has been raised all the same. -/
def mismatched : NovusConnection :=
  (c.recorded { c with status := .authed } .proof false).close

def challengeRefused : NovusConnection :=
  { c with
    byteBuffer := { c.byteBuffer with readPos := 3 }
    hookCalls := c.hookCalls ++ [c.challengeCall] }.close

def proofRefused : NovusConnection :=
  { c with byteBuffer := { c.byteBuffer with readPos := 4 } }.close

def cleaned : NovusConnection := { c with byteBuffer := c.byteBuffer.clean }

/-- The end of a call that goes on behind a handler: with nothing left the next read is started, and
anything left is taken for a message of a wrong step. -/
def settle : NovusConnection :=
  if c.byteBuffer.getActualSize = 0 then c.asyncRead else c.close

/-! ### The loop body -/

lemma handleCommandChallenge_eq :
    handleCommandChallenge env c =
      if env.callHook c.challengeCall then
        some (if c.logonChallenge.Accepted then
          (true, { c with
            status := .proof, hookCalls := c.hookCalls ++ [c.challengeCall],
            key := (c.locals env).key, proofM2 := (c.locals env).proofM2 }.send
              (packet (c.locals env).logonProof.toBytes))
        else (false, { c with status := .proof, hookCalls := c.hookCalls ++ [c.challengeCall] }))
      else none := by
  unfold handleCommandChallenge callHook
  by_cases hk : env.callHook c.challengeCall
  · by_cases ha : c.logonChallenge.Accepted
    · simp only [if_pos hk, if_pos ha]
      simp only [challengeCall, logonChallenge] at hk ha
      simp only [if_pos hk, if_pos ha, Option.bind_eq_bind, Option.bind_some]
      rfl
    · simp only [if_pos hk, if_neg ha]
      simp only [challengeCall, logonChallenge] at hk ha
      simp only [if_pos hk, if_neg ha, Option.bind_eq_bind, Option.bind_some]
      rfl
  · simp only [if_neg hk]
    simp only [challengeCall, logonChallenge] at hk
    simp only [if_neg hk, Option.bind_eq_bind, Option.bind_none]

lemma runHandler_challenge :
    c.runHandler env ⟨.challenge, 3, .challenge, handleCommandChallenge⟩ 119 =
      if env.callHook c.challengeCall then
        some (if c.logonChallenge.Accepted then .next (c.accepted env) else .done c.rejected)
      else none := by
  unfold runHandler
  simp only [handleCommandChallenge_eq]
  by_cases hk : env.callHook c.challengeCall
  · rw [if_pos hk, if_pos hk]
    by_cases ha : c.logonChallenge.Accepted
    · rw [if_pos ha, if_pos ha]
      rfl
    · rw [if_neg ha, if_neg ha]
      rfl
  · rw [if_neg hk, if_neg hk]
    rfl

lemma handleCommandProof_eq :
    handleCommandProof env c =
      some (decide (c.proofM2 = c.logonProof.M2), { c with status := .authed }) := rfl

lemma runHandler_proof :
    c.runHandler env ⟨.proof, 4, .proof, handleCommandProof⟩ 36 =
      some (if c.proofM2 = c.logonProof.M2 then .next c.authenticated else .done c.mismatched) := by
  unfold runHandler
  simp only [handleCommandProof_eq]
  by_cases hM : c.proofM2 = c.logonProof.M2
  · rw [if_pos hM, decide_eq_true hM]
    rfl
  · rw [if_neg hM, decide_eq_false hM]
    rfl

lemma challengeFailed_eq (hr : c.byteBuffer.readPos = 0) :
    c.challengeFailed env =
      if env.callHook c.challengeCall then some (.done c.challengeRefused) else none := by
  have hres : (SAuthLogonChallengeHeader.read c.byteBuffer).1.result = c.logonChallenge.result := by
    show ((c.byteBuffer.readBytes 1).readBytes 1).getReadPointer.getD 0 0 =
      c.byteBuffer.getReadPointer.getD 2 0
    unfold ByteBuffer.getReadPointer ByteBuffer.readBytes
    simp [hr, List.getD_eq_getElem?_getD]
  have hbuf : (SAuthLogonChallengeHeader.read c.byteBuffer).2 =
      { c.byteBuffer with readPos := 3 } := by
    show ((c.byteBuffer.readBytes 1).readBytes 1).readBytes 1 = _
    unfold ByteBuffer.readBytes
    simp [hr]
  unfold challengeFailed
  rw [← Prod.mk.eta (p := SAuthLogonChallengeHeader.read c.byteBuffer)]
  simp only [callHook, hres, hbuf, Option.bind_eq_bind]
  by_cases hk : env.callHook c.challengeCall
  · rw [if_pos hk]
    simp only [challengeCall] at hk
    simp only [if_pos hk, Option.bind_some]
    rfl
  · rw [if_neg hk]
    simp only [challengeCall] at hk
    simp only [if_neg hk, Option.bind_none]

lemma proofFailed_eq (hr : c.byteBuffer.readPos = 0) :
    c.proofFailed = some (.done c.proofRefused) := by
  have hbuf : (SAuthLogonProofHeader.read c.byteBuffer).2 =
      { c.byteBuffer with readPos := 4 } := by
    show ((c.byteBuffer.readBytes 1).readBytes 1).readBytes 2 = _
    unfold ByteBuffer.readBytes
    simp [hr]
  unfold proofFailed
  simp only [hbuf]
  rfl

/-- **The first pass through the loop body**, from a state whose read position is at the front. -/
theorem loopBody_eq (hr : c.byteBuffer.readPos = 0) (hs : c.status ≠ .closed)
    (hn : c.byteBuffer.getActualSize ≠ 0) :
    c.loopBody env =
      match c.verdict with
      | .wait => some (.leave c)
      | .unknown => some (.leave c.cleaned)
      | .wrongStep => some (.done c.close)
      | .challengeFailed =>
        if env.callHook c.challengeCall then some (.done c.challengeRefused) else none
      | .challenge =>
        if env.callHook c.challengeCall then
          some (if c.logonChallenge.Accepted then .next (c.accepted env) else .done c.rejected)
        else none
      | .proofFailed => some (.done c.proofRefused)
      | .proof =>
        some (if c.proofM2 = c.logonProof.M2 then .next c.authenticated else .done c.mismatched) := by
  unfold loopBody verdict NovusHeadless.verdict messageHandlers
  simp only [hs, hn, or_self, if_false]
  generalize c.byteBuffer.getDataPointer.getD 0 0 = front
  generalize hw : c.byteBuffer.getActualSize = n
  by_cases h0 : front = NovusCommand.challenge.code
  · simp only [if_pos h0]
    by_cases hst : c.status = .challenge
    · simp only [if_neg (not_not.2 hst)]
      rw [show (UInt16.ofNat 3).toNat = 3 from rfl, show UInt16.ofNat 3 + 116 = 119 from rfl]
      rcases lt_trichotomy n 3 with h3 | h3 | h3
      · rw [if_pos h3, if_pos h3]
      · rw [if_neg (by omega), if_pos h3, if_neg (by omega), if_pos h3]
        exact challengeFailed_eq env c hr
      · rw [if_neg (by omega), if_neg (by omega), if_neg (by omega), if_neg (by omega)]
        exact runHandler_challenge env c
    · simp only [if_pos hst]
  · by_cases h1 : front = NovusCommand.proof.code
    · simp only [if_neg h0, if_pos h1]
      by_cases hst : c.status = .proof
      · simp only [if_neg (not_not.2 hst)]
        rw [show (UInt16.ofNat 4).toNat = 4 from rfl, show UInt16.ofNat 4 + 32 = 36 from rfl]
        rcases lt_trichotomy n 4 with h4 | h4 | h4
        · rw [if_pos h4, if_pos h4]
        · rw [if_neg (by omega), if_pos h4, if_neg (by omega), if_pos h4]
          exact proofFailed_eq c hr
        · rw [if_neg (by omega), if_neg (by omega), if_neg (by omega), if_neg (by omega)]
          exact runHandler_proof env c
      · simp only [if_pos hst]
    · simp only [if_neg h0, if_neg h1]
      rfl

/-! ### The whole call -/

lemma loop_of_leave {c c' : NovusConnection} (hn : c.byteBuffer.getActualSize ≠ 0)
    (h : c.loopBody env = some (.leave c')) : c.loop env = some (true, c') := by
  rw [loop, if_pos hn]
  split <;> simp_all

lemma loop_of_done {c c' : NovusConnection} (hn : c.byteBuffer.getActualSize ≠ 0)
    (h : c.loopBody env = some (.done c')) : c.loop env = some (false, c') := by
  rw [loop, if_pos hn]
  split <;> simp_all

lemma loop_of_next {c c' : NovusConnection} (hn : c.byteBuffer.getActualSize ≠ 0)
    (h : c.loopBody env = some (.next c')) : c.loop env = c'.loop env := by
  rw [loop, if_pos hn]
  split <;> simp_all

lemma loop_of_none {c : NovusConnection} (hn : c.byteBuffer.getActualSize ≠ 0)
    (h : c.loopBody env = none) : c.loop env = none := by
  rw [loop, if_pos hn]
  split <;> simp_all

lemma loop_of_empty {c : NovusConnection} (hn : c.byteBuffer.getActualSize = 0) :
    c.loop env = some (true, c) := by
  rw [loop, if_neg (not_not.2 hn)]

/-- The front byte of the vector is the command of a handler whose status is not the present one. -/
def Stale : Prop :=
  ∃ itr, messageHandlers (c.byteBuffer.getDataPointer.getD 0 0) = some itr ∧ c.status ≠ itr.status

lemma loopBody_of_stale {c : NovusConnection} (h : c.Stale) :
    c.loopBody env = some (.done c.close) := by
  obtain ⟨itr, hi, hs⟩ := h
  unfold loopBody
  simp only [hi, if_pos hs]

/-- What follows a handler that has returned true. -/
lemma loop_of_stale {c : NovusConnection} (h : c.Stale) :
    (do let (fallsThrough, c') ← c.loop env
        return if fallsThrough then c'.asyncRead else c') = some c.settle := by
  unfold settle
  by_cases hn : c.byteBuffer.getActualSize = 0
  · rw [loop_of_empty env hn, if_pos hn]
    rfl
  · rw [loop_of_done env hn (loopBody_of_stale env h), if_neg hn]
    rfl

lemma stale_accepted {c : NovusConnection} (h : c.verdict = .challenge) : (c.accepted env).Stale := by
  obtain ⟨-, hf, -⟩ := NovusHeadless.verdict_challenge_iff.1 h
  refine ⟨⟨.challenge, 3, .challenge, handleCommandChallenge⟩, ?_,
    show NovusStatus.proof ≠ .challenge by decide⟩
  show messageHandlers (c.byteBuffer.getDataPointer.getD 0 0) = _
  rw [hf]
  rfl

lemma stale_authenticated {c : NovusConnection} (h : c.verdict = .proof) :
    c.authenticated.Stale := by
  obtain ⟨-, hf, -⟩ := NovusHeadless.verdict_proof_iff.1 h
  refine ⟨⟨.proof, 4, .proof, handleCommandProof⟩, ?_,
    show NovusStatus.authed ≠ .proof by decide⟩
  show messageHandlers (c.byteBuffer.getDataPointer.getD 0 0) = _
  rw [hf]
  rfl

/-- **The whole call.** -/
theorem handleRead_eq (hr : c.byteBuffer.readPos = 0) :
    c.handleRead env =
      match c.verdict with
      | .wait => some c.asyncRead
      | .unknown => some c.cleaned.asyncRead
      | .wrongStep => some c.close
      | .challengeFailed =>
        if env.callHook c.challengeCall then some c.challengeRefused else none
      | .challenge =>
        if env.callHook c.challengeCall then
          some (if c.logonChallenge.Accepted then (c.accepted env).settle else c.rejected)
        else none
      | .proofFailed => some c.proofRefused
      | .proof =>
        some (if c.proofM2 = c.logonProof.M2 then c.authenticated.settle else c.mismatched) := by
  unfold handleRead
  by_cases hs : c.status = .closed
  · rw [if_pos hs, verdict_eq_wait (.inl hs)]
  rw [if_neg hs]
  by_cases hn : c.byteBuffer.getActualSize = 0
  · rw [verdict_eq_wait (.inr hn), loop_of_empty env hn]
    rfl
  have hbody := loopBody_eq env c hr hs hn
  cases hv : c.verdict with
  | wait | unknown =>
    rw [hv] at hbody
    rw [loop_of_leave env hn hbody]
    rfl
  | wrongStep | proofFailed =>
    rw [hv] at hbody
    rw [loop_of_done env hn hbody]
    rfl
  | challengeFailed =>
    simp only [hv] at hbody ⊢
    by_cases hk : env.callHook c.challengeCall
    · rw [if_pos hk] at hbody ⊢
      rw [loop_of_done env hn hbody]
      rfl
    · rw [if_neg hk] at hbody ⊢
      rw [loop_of_none env hn hbody]
      rfl
  | challenge =>
    simp only [hv] at hbody ⊢
    by_cases hk : env.callHook c.challengeCall
    · rw [if_pos hk] at hbody ⊢
      by_cases ha : c.logonChallenge.Accepted
      · rw [if_pos ha] at hbody ⊢
        rw [loop_of_next env hn hbody]
        exact loop_of_stale env (stale_accepted env hv)
      · rw [if_neg ha] at hbody ⊢
        rw [loop_of_done env hn hbody]
        rfl
    · rw [if_neg hk] at hbody ⊢
      rw [loop_of_none env hn hbody]
      rfl
  | proof =>
    simp only [hv] at hbody ⊢
    by_cases hM : c.proofM2 = c.logonProof.M2
    · rw [if_pos hM] at hbody ⊢
      rw [loop_of_next env hn hbody]
      exact loop_of_stale env (stale_authenticated hv)
    · rw [if_neg hM] at hbody ⊢
      rw [loop_of_done env hn hbody]
      rfl

lemma LoopTest.status_ne {env : Env} {c t : NovusConnection} (h : LoopTest env c t) :
    c.status ≠ .closed := by
  induction h with
  | first hs => exact hs
  | next _ _ _ ih => exact ih

/-- **The tests of the loop condition**: the first, and one after a handler that has returned true. -/
theorem loopTest_iff {c : NovusConnection} (hr : c.byteBuffer.readPos = 0)
    (hs : c.status ≠ .closed) (t : NovusConnection) :
    LoopTest env c t ↔ t = c ∨
      (c.verdict = .challenge ∧ env.callHook c.challengeCall = true ∧ c.logonChallenge.Accepted ∧
        t = c.accepted env) ∨
      (c.verdict = .proof ∧ c.proofM2 = c.logonProof.M2 ∧ t = c.authenticated) := by
  constructor
  · intro h
    induction h with
    | first => exact .inl rfl
    | @next c₁ c₂ h₁ hn hb ih =>
      rcases ih with rfl | ⟨hv, -, -, rfl⟩ | ⟨hv, -, rfl⟩
      · rw [loopBody_eq env c₁ hr hs hn] at hb
        cases hv : c₁.verdict with
        | challenge =>
          simp only [hv, Option.ite_none_right_eq_some, Option.some.injEq] at hb
          obtain ⟨hk, hb⟩ := hb
          split_ifs at hb with ha
          obtain rfl := Flow.next.inj hb
          exact .inr (.inl ⟨rfl, hk, ha, rfl⟩)
        | proof =>
          simp only [hv, Option.some.injEq] at hb
          split_ifs at hb with hM
          obtain rfl := Flow.next.inj hb
          exact .inr (.inr ⟨rfl, hM, rfl⟩)
        | challengeFailed => simp [hv] at hb
        | _ => simp [hv] at hb
      · rw [loopBody_of_stale env (stale_accepted env hv)] at hb
        simp at hb
      · rw [loopBody_of_stale env (stale_authenticated hv)] at hb
        simp at hb
  · have hfirst : LoopTest env c c := .first hs
    rintro (rfl | ⟨hv, hk, ha, rfl⟩ | ⟨hv, hM, rfl⟩)
    · exact hfirst
    · have hn : c.byteBuffer.getActualSize ≠ 0 := by
        have := (NovusHeadless.verdict_challenge_iff.1 hv).2.2
        omega
      apply LoopTest.next hfirst hn
      rw [loopBody_eq env c hr hs hn, hv]
      simp only [if_pos hk, if_pos ha]
    · have hn : c.byteBuffer.getActualSize ≠ 0 := by
        have := (NovusHeadless.verdict_proof_iff.1 hv).2.2
        omega
      apply LoopTest.next hfirst hn
      rw [loopBody_eq env c hr hs hn, hv]
      simp only [if_pos hM]

end NovusConnection

end NovusHeadless
