import NovusHeadless.Connection.Runs

/-!
# Bytes of the buffer that have not been received

The handlers cast the read pointer to a struct and read its fields without asking how many bytes have been
received.  The loop has asked for more than a header only.

* `SameReceived` — two connections that agree on everything but the bytes outside of the two positions;
* `Independent` — the property: what can be seen behind a read is the same for both, and every field a
  handler has read lies within the bytes received;
* `WholeMessage` — the condition: the bytes unread cover the fields of the struct up to the last one that
  the handler reads;
* `independent_iff` — a read has the property exactly when it meets the condition.
-/

namespace NovusHeadless

open Lib

/-- Offset and length of the fields that a handler reads, in its order. -/
def NovusCommand.fieldsRead : NovusCommand → List (ℕ × ℕ)
  /- `result`, `g`, `b`, `n`, `salt`, `version_challenge` -/
  | .challenge => [(2, 1), (36, 1), (3, 32), (38, 32), (70, 32), (102, 16)]
  /- `M2` -/
  | .proof => [(2, 20)]

/-- The end of the last field that a handler reads. -/
def NovusCommand.extent : NovusCommand → ℕ
  | .challenge => 118
  | .proof => 22

/-- Everything the handler has read had been received. -/
def HandlerRun.Within (run : HandlerRun) : Prop :=
  ∀ field ∈ run.command.fieldsRead, field.1 + field.2 ≤ run.received

lemma HandlerRun.within_iff (run : HandlerRun) :
    run.Within ↔ run.command.extent ≤ run.received := by
  unfold HandlerRun.Within
  cases run.command with
  | challenge =>
    simp only [NovusCommand.fieldsRead, NovusCommand.extent, List.forall_mem_cons]
    constructor
    · intro h
      exact h.2.2.2.2.2.1
    · intro h
      exact ⟨by omega, by omega, by omega, by omega, by omega, by omega, by simp⟩
  | proof =>
    simp only [NovusCommand.fieldsRead, NovusCommand.extent, List.forall_mem_cons]
    constructor
    · intro h
      exact h.1
    · intro h
      exact ⟨by omega, by simp⟩

/-! ### What the handlers see -/

section

variable {x y : Bytes} {n : ℕ}

/-- Two memories agree on their first bytes. -/
def AgreeBelow (n : ℕ) (x y : Bytes) : Prop := ∀ i < n, y.getD i 0 = x.getD i 0

lemma AgreeBelow.field (h : AgreeBelow n x y) {off len : ℕ} (hlen : off + len ≤ n) :
    field y off len = field x off len := by
  unfold NovusHeadless.field
  congr 1
  funext i
  apply h
  omega

lemma challengeLocals_congr (sha1 : Bytes → Digest) (a : PrivateKey) (username : Bytes)
    (passwordKey : BigNumber) {m m' : SAuthLogonChallengeData} (hb : m'.b = m.b) (hg : m'.g = m.g)
    (hn : m'.n = m.n) (hs : m'.salt = m.salt) :
    challengeLocals sha1 a username passwordKey m' = challengeLocals sha1 a username passwordKey m := by
  unfold challengeLocals
  rw [hb, hg, hn, hs]

lemma accepted_congr {m m' : SAuthLogonChallengeData} (hb : m'.b = m.b) (hn : m'.n = m.n) :
    m'.Accepted ↔ m.Accepted := by
  unfold SAuthLogonChallengeData.Accepted
  rw [hb, hn]

end

namespace NovusConnection

/-- The same connection with other bytes in its vector. -/
def withData (c : NovusConnection) (data : Bytes) : NovusConnection :=
  { c with byteBuffer := { c.byteBuffer with bufferData := data } }

/-- Two connections that agree on everything but the bytes outside of the two positions. -/
def SameReceived (c d : NovusConnection) : Prop :=
  ∃ data : Bytes, d = c.withData data ∧ data.length = c.byteBuffer.bufferData.length ∧
    ∀ i, c.byteBuffer.readPos ≤ i → i < c.byteBuffer.writePos →
      data.getD i 0 = c.byteBuffer.bufferData.getD i 0

/-- What can be seen of a connection. -/
structure Observed where
  status : NovusStatus
  isClosed : Bool
  key : BigNumber
  proofM2 : Digest
  sent : List Bytes

def observed (c : NovusConnection) : Observed := ⟨c.status, c.isClosed, c.key, c.proofM2, c.sent⟩

/-- The bytes unread cover what the handler that is called will read. -/
structure WholeMessage (env : Env) (c : NovusConnection) : Prop where
  challenge : c.verdict = .challenge → env.callHook c.challengeCall = true →
    NovusCommand.challenge.extent ≤ c.byteBuffer.getActualSize
  proof : c.verdict = .proof → NovusCommand.proof.extent ≤ c.byteBuffer.getActualSize

/-- The connection waits in a read as `AsyncRead` issues it. -/
structure AwaitsRead (c : NovusConnection) (op : ReadOp) : Prop where
  readPos : c.byteBuffer.readPos = 0
  ordered : c.byteBuffer.Ordered
  region : op = ⟨c.byteBuffer.writePos, c.byteBuffer.getSpaceLeft⟩

lemma Tidy.awaitsRead {c : NovusConnection} (h : c.Tidy) {op : ReadOp} (hop : op ∈ c.reads) :
    AwaitsRead c op := by
  obtain ⟨n, data, hw, hn, hs, rfl⟩ := h.waiting_of_mem hop
  have hd := lt_of_size le_rfl hs
  have hspace : (⟨0, n, data⟩ : ByteBuffer).getSpaceLeft = data.length - n :=
    ByteBuffer.getSpaceLeft_of_le hn hd
  rw [hw, ← hspace]
  exact ⟨rfl, ⟨Nat.zero_le n, hn, hd⟩, rfl⟩

section

variable {env : Env} {c d : NovusConnection} {data : Bytes}

lemma observed_asyncRead (c : NovusConnection) : c.asyncRead.observed = c.observed := by
  have hclosed : c.asyncRead.isClosed = c.isClosed := BaseSocket.asyncRead_isClosed _
  have hsent : c.asyncRead.sent = c.sent := BaseSocket.asyncRead_sent _
  unfold observed
  rw [hclosed, hsent]
  rfl

lemma observed_settle (c : NovusConnection) :
    c.settle.observed =
      if c.byteBuffer.getActualSize = 0 then c.observed else c.close.observed := by
  unfold settle
  split
  · exact observed_asyncRead c
  · rfl

lemma sent_settle (c : NovusConnection) : c.settle.observed.sent = c.sent := by
  rw [observed_settle]
  split <;> rfl

lemma observed_close (h : d.observed = c.observed) : d.close.observed = c.close.observed :=
  congrArg (fun o : Observed => { o with isClosed := true }) h

lemma getReadPointer_of_readPos (hr : c.byteBuffer.readPos = 0) :
    c.byteBuffer.getReadPointer = c.byteBuffer.bufferData := by
  unfold ByteBuffer.getReadPointer
  rw [hr, List.drop_zero]

lemma getReadPointer_withData (hr : c.byteBuffer.readPos = 0) :
    (c.withData data).byteBuffer.getReadPointer = data := by
  unfold ByteBuffer.getReadPointer withData
  rw [hr, List.drop_zero]

lemma getActualSize_withData (c : NovusConnection) (data : Bytes) :
    (c.withData data).byteBuffer.getActualSize = c.byteBuffer.getActualSize := rfl

/-- The front byte decides only when something is unread. -/
lemma verdict_withData (h : AgreeBelow c.byteBuffer.getActualSize c.byteBuffer.bufferData data) :
    (c.withData data).verdict = c.verdict := by
  by_cases hn : c.byteBuffer.getActualSize = 0
  · rw [verdict_eq_wait (.inr hn), verdict_eq_wait (c := c.withData data) (.inr hn)]
  · have hfront : (c.withData data).byteBuffer.getDataPointer.getD 0 0 =
        c.byteBuffer.getDataPointer.getD 0 0 := h 0 (Nat.pos_of_ne_zero hn)
    unfold verdict
    rw [hfront, getActualSize_withData]
    rfl

lemma isClosed_accepted (c : NovusConnection) : (c.accepted env).isClosed = c.isClosed := by
  unfold accepted
  generalize (c.locals env) = l
  show (BaseSocket.send _ _).isClosed = _
  unfold BaseSocket.send
  split <;> rfl

lemma byteBuffer_accepted (c : NovusConnection) :
    (c.accepted env).byteBuffer = c.byteBuffer.readBytes 119 := by
  unfold accepted
  generalize (c.locals env) = l
  show ByteBuffer.readBytes (BaseSocket.send _ _).byteBuffer 119 = _
  unfold BaseSocket.send
  split <;> rfl

lemma status_accepted (c : NovusConnection) : (c.accepted env).status = .proof := rfl

section

variable (hr : c.byteBuffer.readPos = 0)
  (h : AgreeBelow c.byteBuffer.getActualSize c.byteBuffer.bufferData data)

include hr h

lemma challengeCall_withData (hn : 3 ≤ c.byteBuffer.getActualSize) :
    (c.withData data).challengeCall = c.challengeCall := by
  have hresult : (c.withData data).logonChallenge.result = c.logonChallenge.result := by
    unfold logonChallenge
    rw [getReadPointer_withData hr, getReadPointer_of_readPos hr]
    exact h 2 (by omega)
  unfold challengeCall
  rw [hresult]
  rfl

lemma logonChallenge_withData (hn : 118 ≤ c.byteBuffer.getActualSize) :
    (c.withData data).logonChallenge.b = c.logonChallenge.b ∧
      (c.withData data).logonChallenge.g = c.logonChallenge.g ∧
      (c.withData data).logonChallenge.n = c.logonChallenge.n ∧
      (c.withData data).logonChallenge.salt = c.logonChallenge.salt := by
  unfold logonChallenge
  rw [getReadPointer_withData hr, getReadPointer_of_readPos hr]
  refine ⟨h.field ?_, h 36 ?_, h.field ?_, h.field ?_⟩ <;> omega

lemma locals_withData (hn : 118 ≤ c.byteBuffer.getActualSize) :
    (c.withData data).locals env = c.locals env := by
  obtain ⟨hb, hg, hN, hs⟩ := logonChallenge_withData hr h hn
  unfold locals
  exact challengeLocals_congr _ _ _ _ hb hg hN hs

lemma proof_withData (hn : 22 ≤ c.byteBuffer.getActualSize) :
    (c.withData data).logonProof.M2 = c.logonProof.M2 := by
  unfold logonProof
  rw [getReadPointer_withData hr, getReadPointer_of_readPos hr]
  apply h.field
  omega

lemma observed_accepted (hn : 118 ≤ c.byteBuffer.getActualSize) :
    ((c.withData data).accepted env).observed = (c.accepted env).observed := by
  have hsent : ((c.withData data).accepted env).sent = (c.accepted env).sent := by
    rw [sent_accepted, sent_accepted, locals_withData hr h hn]
    rfl
  have hkey : ((c.withData data).accepted env).key = (c.accepted env).key :=
    congrArg ChallengeLocals.key (locals_withData hr h hn)
  have hM : ((c.withData data).accepted env).proofM2 = (c.accepted env).proofM2 :=
    congrArg ChallengeLocals.proofM2 (locals_withData hr h hn)
  have hclosed : ((c.withData data).accepted env).isClosed = (c.accepted env).isClosed := by
    rw [isClosed_accepted, isClosed_accepted]
    rfl
  have hstatus : ((c.withData data).accepted env).status = (c.accepted env).status := by
    rw [status_accepted, status_accepted]
  unfold observed
  rw [hsent, hkey, hM, hclosed, hstatus]

/-- **The call of `HandleRead`** shows the same for both connections. -/
theorem observed_handleRead (hw : WholeMessage env c) :
    ((c.withData data).handleRead env).map observed = (c.handleRead env).map observed := by
  have hr' : (c.withData data).byteBuffer.readPos = 0 := hr
  rw [handleRead_eq env _ hr', handleRead_eq env _ hr, verdict_withData h]
  cases hv : c.verdict with
  | wait =>
    simp only [Option.map_some, observed_asyncRead]
    rfl
  | unknown =>
    simp only [Option.map_some, observed_asyncRead]
    rfl
  | wrongStep | proofFailed => rfl
  | challengeFailed =>
    have hcall := challengeCall_withData hr h (eq_three_of_challengeFailed hv).ge
    simp only [hcall]
    split <;> rfl
  | challenge =>
    obtain ⟨-, -, h3⟩ := NovusHeadless.verdict_challenge_iff.1 hv
    have hcall := challengeCall_withData hr h (by omega)
    simp only [hcall]
    by_cases hk : env.callHook c.challengeCall = true
    · have hn : 118 ≤ c.byteBuffer.getActualSize := hw.challenge hv hk
      obtain ⟨hb, -, hN, -⟩ := logonChallenge_withData hr h hn
      have haccepted := accepted_congr hb hN
      have hobs : ((c.withData data).accepted env).observed = (c.accepted env).observed :=
        observed_accepted hr h hn
      simp only [if_pos hk, Option.map_some, Option.some.injEq]
      by_cases ha : c.logonChallenge.Accepted
      · rw [if_pos (haccepted.2 ha), if_pos ha, observed_settle, observed_settle,
          byteBuffer_accepted, byteBuffer_accepted, observed_close hobs, hobs]
        rfl
      · rw [if_neg (fun h' => ha (haccepted.1 h')), if_neg ha]
        rfl
    · simp only [if_neg hk]
  | proof =>
    have hn : 22 ≤ c.byteBuffer.getActualSize := hw.proof hv
    have hM := proof_withData hr h hn
    have hproof : (c.withData data).proofM2 = c.proofM2 := rfl
    simp only [hM, hproof, Option.map_some, Option.some.injEq]
    split
    · rw [observed_settle, observed_settle]
      rfl
    · rfl

end

/-! ### The handlers on record -/

lemma handlersRun_asyncRead (c : NovusConnection) : c.asyncRead.handlersRun = c.handlersRun := rfl

lemma handlersRun_settle (c : NovusConnection) : c.settle.handlersRun = c.handlersRun := by
  unfold settle
  split
  · exact handlersRun_asyncRead c
  · rfl

/-- The handler that a verdict calls. -/
def Verdict.handler : Verdict → Option NovusCommand
  | .challenge => some .challenge
  | .proof => some .proof
  | _ => none

/-- **The handlers of one call**: the one of the verdict, with the number of bytes unread. -/
theorem handlersRun_handleRead {c' : NovusConnection} (hr : c.byteBuffer.readPos = 0)
    (h : c.handleRead env = some c') :
    match Verdict.handler c.verdict with
    | none => c'.handlersRun = c.handlersRun
    | some command => ∃ run : HandlerRun, c'.handlersRun = c.handlersRun ++ [run] ∧
        run.command = command ∧ run.received = c.byteBuffer.getActualSize := by
  rw [handleRead_eq env _ hr] at h
  cases hv : c.verdict with
  | wait | unknown =>
    simp only [hv, Option.some.injEq] at h
    subst h
    exact handlersRun_asyncRead _
  | wrongStep | proofFailed =>
    simp only [hv, Option.some.injEq] at h
    subst h
    rfl
  | challengeFailed =>
    simp only [hv, Option.ite_none_right_eq_some, Option.some.injEq] at h
    obtain ⟨-, rfl⟩ := h
    rfl
  | challenge =>
    simp only [hv, Option.ite_none_right_eq_some, Option.some.injEq] at h
    obtain ⟨-, h⟩ := h
    simp only [Verdict.handler]
    by_cases ha : c.logonChallenge.Accepted
    · rw [if_pos ha] at h
      refine ⟨⟨.challenge, c.byteBuffer.getReadPointer, c.byteBuffer.getActualSize, c.status, .proof,
        true⟩, ?_, rfl, rfl⟩
      rw [← h, handlersRun_settle]
      rfl
    · rw [if_neg ha] at h
      refine ⟨⟨.challenge, c.byteBuffer.getReadPointer, c.byteBuffer.getActualSize, c.status, .proof,
        false⟩, ?_, rfl, rfl⟩
      rw [← h]
      rfl
  | proof =>
    simp only [hv, Option.some.injEq] at h
    simp only [Verdict.handler]
    by_cases hM : c.proofM2 = c.logonProof.M2
    · rw [if_pos hM] at h
      refine ⟨⟨.proof, c.byteBuffer.getReadPointer, c.byteBuffer.getActualSize, c.status, .authed,
        true⟩, ?_, rfl, rfl⟩
      rw [← h, handlersRun_settle]
      rfl
    · rw [if_neg hM] at h
      refine ⟨⟨.proof, c.byteBuffer.getReadPointer, c.byteBuffer.getActualSize, c.status, .authed,
        false⟩, ?_, rfl, rfl⟩
      rw [← h]
      rfl

/-- What a handler that has been called has read lies within the bytes received, or not. -/
lemma within_handleRead {c' : NovusConnection} (hr : c.byteBuffer.readPos = 0)
    (h : c.handleRead env = some c') :
    (∀ run ∈ c'.handlersRun.drop c.handlersRun.length, run.Within) ↔
      ∀ command, Verdict.handler c.verdict = some command →
        command.extent ≤ c.byteBuffer.getActualSize := by
  have hruns := handlersRun_handleRead hr h
  cases hcmd : Verdict.handler c.verdict with
  | none =>
    simp only [hcmd] at hruns
    rw [hruns, List.drop_length]
    simp
  | some command =>
    simp only [hcmd] at hruns
    obtain ⟨run, hrun, rfl, hreceived⟩ := hruns
    rw [hrun, List.drop_left, ← hreceived]
    constructor
    · intro hin command hcommand
      obtain rfl := Option.some.inj hcommand
      exact run.within_iff.1 (hin run List.mem_cons_self)
    · intro hextent run' hrun'
      obtain rfl := List.mem_singleton.1 hrun'
      exact run'.within_iff.2 (hextent _ rfl)

/-! ### A read -/

/-- The property of a read that completes with `chunk`. -/
structure Independent (env : Env) (c : NovusConnection) (op : ReadOp) (chunk : Bytes) : Prop where
  agree : ∀ d, SameReceived c d →
    (d.handleInternalRead env op chunk).map observed =
      (c.handleInternalRead env op chunk).map observed
  within : ∀ c', c.handleInternalRead env op chunk = some c' →
    ∀ run ∈ c'.handlersRun.drop c.handlersRun.length, run.Within

lemma agreeBelow_splice {x y : Bytes} {n : ℕ} (hlen : y.length = x.length) (hn : n ≤ x.length)
    (h : AgreeBelow n x y) (chunk : Bytes) :
    AgreeBelow (n + chunk.length) (splice x n chunk) (splice y n chunk) := by
  intro i hi
  have hx : (x.take n).length = n := by rw [List.length_take]; omega
  have hy : (y.take n).length = n := by rw [List.length_take]; omega
  unfold splice
  rw [List.append_assoc, List.append_assoc]
  by_cases hin : i < n
  · rw [List.getD_append _ _ _ _ (by omega), List.getD_append _ _ _ _ (by omega)]
    have hi' := h i hin
    simp only [List.getD_eq_getElem?_getD] at hi' ⊢
    rw [List.getElem?_take_of_lt hin, List.getElem?_take_of_lt hin, hi']
  · rw [List.getD_append_right (y.take n) _ _ _ (by omega),
      List.getD_append_right (x.take n) _ _ _ (by omega), hx, hy,
      List.getD_append chunk _ _ _ (by omega), List.getD_append chunk _ _ _ (by omega)]

section

variable {op : ReadOp} (h : AwaitsRead c op) {chunk : Bytes} (hlen : chunk.length ≤ op.len)

include h hlen

lemma getActualSize_received :
    (c.received op chunk).byteBuffer.getActualSize = c.byteBuffer.writePos + chunk.length := by
  have hspace := ByteBuffer.getSpaceLeft_of_ordered h.ordered
  have hw := h.ordered.write_le
  have hs := h.ordered.size_lt
  have hop : op.len = c.byteBuffer.bufferData.length - c.byteBuffer.writePos := by
    rw [h.region]
    exact hspace
  have hmod : (c.byteBuffer.writePos + chunk.length) % 2 ^ 64 =
      c.byteBuffer.writePos + chunk.length := Nat.mod_eq_of_lt (by omega)
  have hbuf : (c.received op chunk).byteBuffer = ⟨0, c.byteBuffer.writePos + chunk.length,
      splice c.byteBuffer.bufferData op.offset chunk⟩ := by
    unfold received BaseSocket.received ByteBuffer.writeBytes
    simp only [h.readPos, hmod]
  rw [hbuf]
  exact ByteBuffer.getActualSize_of_le (Nat.zero_le _) (by
    show c.byteBuffer.writePos + chunk.length < 2 ^ 32
    omega)

lemma received_of_sameReceived (hd : SameReceived c d) :
    ∃ data, d.received op chunk = (c.received op chunk).withData data ∧
      AgreeBelow (c.received op chunk).byteBuffer.getActualSize
        (c.received op chunk).byteBuffer.bufferData data := by
  obtain ⟨data, rfl, hlength, hagree⟩ := hd
  have hbelow : AgreeBelow c.byteBuffer.writePos c.byteBuffer.bufferData data := by
    intro i hi
    exact hagree i (by rw [h.readPos]; exact Nat.zero_le i) hi
  have hoff : op.offset = c.byteBuffer.writePos := by rw [h.region]
  refine ⟨splice data op.offset chunk, rfl, ?_⟩
  rw [getActualSize_received h hlen]
  show AgreeBelow _ (splice c.byteBuffer.bufferData op.offset chunk) _
  rw [hoff]
  exact agreeBelow_splice hlength h.ordered.write_le hbelow chunk

end

/-- **Stale bytes.**  A read that completes in any connection shows nothing of the bytes that have not
been received, and its handler reads none of them, exactly when the message that is handled is long
enough for the fields that its handler reads. -/
theorem independent_iff (env : Env) {op : ReadOp} (h : AwaitsRead c op) {chunk : Bytes}
    (hlen : chunk.length ≤ op.len) :
    Independent env c op chunk ↔ WholeMessage env (c.received op chunk) := by
  have hr : (c.received op chunk).byteBuffer.readPos = 0 := h.readPos
  have hruns : (c.received op chunk).handlersRun = c.handlersRun := rfl
  constructor
  · intro hind
    refine ⟨?_, ?_⟩
    · intro hv hk
      have hread := handleRead_eq env _ hr
      simp only [hv, if_pos hk] at hread
      have hin := hind.within _ hread
      rw [← hruns] at hin
      exact (within_handleRead hr hread).1 hin .challenge (by rw [hv]; rfl)
    · intro hv
      have hread := handleRead_eq env _ hr
      simp only [hv] at hread
      have hin := hind.within _ hread
      rw [← hruns] at hin
      exact (within_handleRead hr hread).1 hin .proof (by rw [hv]; rfl)
  · intro hw
    refine ⟨?_, ?_⟩
    · intro d hd
      obtain ⟨data, hdata, hagree⟩ := received_of_sameReceived h hlen hd
      unfold handleInternalRead
      rw [hdata]
      exact observed_handleRead hr hagree hw
    · intro c' hread
      rw [← hruns]
      apply (within_handleRead hr hread).2
      intro command hcommand
      cases hv : (c.received op chunk).verdict with
      | challenge =>
        have hk : env.callHook (c.received op chunk).challengeCall = true := by
          by_contra hk
          unfold handleInternalRead at hread
          rw [handleRead_eq env _ hr, hv] at hread
          simp only [if_neg hk] at hread
          exact absurd hread (by simp)
        rw [hv] at hcommand
        obtain rfl := Option.some.inj hcommand
        exact hw.challenge hv hk
      | proof =>
        rw [hv] at hcommand
        obtain rfl := Option.some.inj hcommand
        exact hw.proof hv
      | _ =>
        rw [hv] at hcommand
        simp [Verdict.handler] at hcommand

end

end NovusConnection

open NovusConnection

theorem independent_iff_sample :
    Independent sampleEnv sampleConnection ⟨0, 4096⟩ sampleChallenge.toBytes := by
  have hlen : sampleChallenge.toBytes.length = 119 := rfl
  have hreading : AwaitsRead sampleConnection ⟨0, 4096⟩ :=
    (tidy_started started_sampleConnection).awaitsRead (List.mem_singleton.2 rfl)
  have hfit : sampleChallenge.toBytes.length ≤ 4096 := by rw [hlen]; norm_num
  have hsize := getActualSize_received hreading hfit
  rw [hlen] at hsize
  refine (independent_iff sampleEnv hreading hfit).2 ⟨?_, ?_⟩
  · intro _ _
    rw [hsize]
    exact (by norm_num : 118 ≤ 0 + 119)
  · intro _
    rw [hsize]
    exact (by norm_num : 22 ≤ 0 + 119)

lemma received_waiting_sample {data : Bytes} (hd : data.length = 4096) :
    (sampleConnection.waiting 0 data).received ⟨0, 4096⟩ [0, 0, 0, 0] =
      sampleConnection.landed 4 ([0, 0, 0, 0] ++ data.drop 4) := by
  have hrec : (sampleConnection.waiting 0 data).received ⟨0, data.length - 0⟩ [0, 0, 0, 0] = _ :=
    received_waiting (by rw [hd]; norm_num) (by rw [hd]; simp)
  rw [hd] at hrec
  rw [hrec, splice_zero]
  rfl

lemma verdict_sample {data : Bytes} :
    (sampleConnection.landed 4 ([0, 0, 0, 0] ++ data)).verdict = .challenge := by
  rw [verdict_landed (by norm_num), verdict_challenge_iff]
  exact ⟨rfl, rfl, by norm_num⟩

lemma rejected_zeros :
    ¬ (SAuthLogonChallengeData.ofBytes ([0, 0, 0, 0] ++ List.replicate 4092 0)).Accepted := by
  have hsplit : ([0, 0, 0, 0] ++ List.replicate 4092 0 : Bytes) =
      ([0, 0, 0, 0] ++ List.replicate 115 0) ++ List.replicate 3977 0 := by
    rw [List.append_assoc, ← List.replicate_add]
  rw [hsplit, challengeData_append (by simp), accepted_iff]
  decide +kernel

lemma accepted_ones :
    (SAuthLogonChallengeData.ofBytes ([0, 0, 0, 0] ++ List.replicate 4092 1)).Accepted := by
  have hsplit : ([0, 0, 0, 0] ++ List.replicate 4092 1 : Bytes) =
      ([0, 0, 0, 0] ++ List.replicate 115 1) ++ List.replicate 3977 1 := by
    rw [List.append_assoc, ← List.replicate_add]
  rw [hsplit, challengeData_append (by simp), accepted_iff]
  decide +kernel

/-- The server sends four bytes of a challenge: over a buffer of zeros the reply is rejected, over a
buffer of ones a proof is sent. -/
theorem independent_counterexample :
    ¬ Independent sampleEnv (sampleConnection.waiting 0 (List.replicate 4096 0)) ⟨0, 4096⟩
      [0, 0, 0, 0] := by
  intro hind
  have hsame : SameReceived (sampleConnection.waiting 0 (List.replicate 4096 0))
      (sampleConnection.waiting 0 (List.replicate 4096 1)) := by
    refine ⟨List.replicate 4096 1, ?_, ?_, ?_⟩
    · unfold waiting withData
      simp only [List.length_replicate]
    · exact (List.length_replicate).trans (List.length_replicate).symm
    · intro i _ hi
      exact absurd hi (Nat.not_lt_zero i)
  have hagree := hind.agree _ hsame
  unfold handleInternalRead at hagree
  rw [received_waiting_sample List.length_replicate, received_waiting_sample List.length_replicate,
    List.drop_replicate, List.drop_replicate,
    handleRead_of_rejected (fun _ => rfl) verdict_sample rejected_zeros,
    handleRead_of_accepted (fun _ => rfl) verdict_sample accepted_ones] at hagree
  have hobs := Option.some.inj hagree
  have hsent := congrArg Observed.sent hobs
  rw [sent_settle, sent_accepted] at hsent
  have hlength := congrArg List.length hsent
  rw [List.length_append] at hlength
  exact absurd hlength (Nat.succ_ne_self _)

end NovusHeadless
