import NovusHeadless.Lib.Transition
import NovusHeadless.Connection.ReadStep

/-!
# Runs of a connection

What happens to a connection after `Start`: the operations it has handed to asio complete, in any order.
`step` is one completion, enabled while its operation is outstanding; operations of a closed socket stay
outstanding until they complete, with an error or, when they had completed before the close, without.

* `waiting n data` — a connection that waits in a read behind `n` unread bytes of its buffer;
  `landed n data` — the same connection when the read has brought the unread bytes to `n`;
* `Tidy` — what every state of a run satisfies (`tidy_started`, `tidy_step`);
* `handleRead_outcome` — where a call of `HandleRead` in a run leads;
* `deliver` — the run in which the server's data arrives in given pieces and nothing else completes.
-/

namespace NovusHeadless

open Lib

/-- A completion of an outstanding operation. -/
inductive Completion where
  | read (op : ReadOp) (chunk : Bytes)
  | readError (op : ReadOp)
  | write (data : Bytes) (error : Bool)

namespace NovusConnection

/-- One completion; `none` when it is not enabled, or when the program does not go on behind it. -/
def step (env : Env) (c : NovusConnection) : Completion → Option NovusConnection
  | .read op chunk =>
    if op ∈ c.reads ∧ chunk.length ≤ op.len then c.handleInternalRead env op chunk else none
  | .readError op => if op ∈ c.reads then some (c.handleReadError op) else none
  | .write data error => if data ∈ c.writes then some (c.handleInternalWrite data error) else none

/-- The server's data arrives in these pieces.  A piece is not delivered when no read is outstanding, or
when it does not fit into the region of the read. -/
def deliver (env : Env) (c : NovusConnection) : List Bytes → Option NovusConnection
  | [] => some c
  | chunk :: chunks =>
    match c.reads with
    | [] => some c
    | op :: _ =>
      if chunk.length ≤ op.len then
        (c.handleInternalRead env op chunk).bind fun c' => c'.deliver env chunks
      else some c

/-- The states in which a successful `Start` leaves a new connection. -/
def Started (env : Env) (c : NovusConnection) : Prop :=
  ∃ proofM2 username password, (new proofM2).start env username password = some (true, c)

/-! ### Between two calls -/

/-- A read is outstanding for the room behind the first `n` bytes of `data`, which are unread. -/
def waiting (c : NovusConnection) (n : ℕ) (data : Bytes) : NovusConnection :=
  { c with byteBuffer := ⟨0, n, data⟩, reads := [⟨n, data.length - n⟩] }

/-- The read has completed: no read is outstanding, and the first `n` bytes of `data` are unread. -/
def landed (c : NovusConnection) (n : ℕ) (data : Bytes) : NovusConnection :=
  { c with byteBuffer := ⟨0, n, data⟩, reads := [] }

section

variable {env : Env} {c : NovusConnection} {n : ℕ} {data : Bytes}

lemma received_waiting (hd : data.length < 2 ^ 32) {chunk : Bytes}
    (h : n + chunk.length ≤ data.length) :
    (c.waiting n data).received ⟨n, data.length - n⟩ chunk =
      c.landed (n + chunk.length) (splice data n chunk) := by
  have hw : (n + chunk.length) % 2 ^ 64 = n + chunk.length := Nat.mod_eq_of_lt (by omega)
  unfold received waiting landed BaseSocket.received ByteBuffer.writeBytes
  simp only [hw, List.erase_cons_head]

lemma getActualSize_landed (hn : n < 2 ^ 32) : (c.landed n data).byteBuffer.getActualSize = n :=
  ByteBuffer.getActualSize_of_le (Nat.zero_le _) hn

lemma asyncRead_eq {s : BaseSocket} (h : c.toBaseSocket.asyncRead = s) :
    c.asyncRead = { c with toBaseSocket := s } := by
  unfold asyncRead
  rw [h]

lemma asyncRead_landed (ho : c.isOpen = true) (hn : n < data.length) (hd : data.length < 2 ^ 32) :
    (c.landed n data).asyncRead = c.waiting n data := by
  have h := BaseSocket.asyncRead_of_room (s := (c.landed n data).toBaseSocket) ho rfl hn hd
  rw [asyncRead_eq h]
  rfl

/-- The vector emptied by `Clean` never gets any room again. -/
lemma asyncRead_cleaned (ho : c.isOpen = true) :
    (c.landed n data).cleaned.asyncRead = c.waiting 0 [] := by
  have h := BaseSocket.asyncRead_of_clean (s := (c.landed n data).cleaned.toBaseSocket) ho rfl
  rw [asyncRead_eq h]
  rfl

lemma asyncRead_landed_nil (ho : c.isOpen = true) :
    (c.landed 0 []).asyncRead = c.waiting 0 [] := by
  have h := BaseSocket.asyncRead_of_clean (s := (c.landed 0 []).toBaseSocket) ho rfl
  rw [asyncRead_eq h]
  rfl

lemma asyncRead_of_closed (ho : c.isOpen = false) : c.asyncRead = c := by
  rw [asyncRead_eq (BaseSocket.asyncRead_of_closed ho)]

@[simp] lemma logonChallenge_landed :
    (c.landed n data).logonChallenge = SAuthLogonChallengeData.ofBytes data := rfl

@[simp] lemma logonProof_landed :
    (c.landed n data).logonProof = SAuthLogonProofData.ofBytes data := rfl

lemma proofM2_waiting : (c.waiting n data).proofM2 = c.proofM2 := rfl

lemma proofM2_accepted :
    ((c.landed n data).accepted env).proofM2 = (challengeLocals env.sha1 env.a c.username
      c.passwordKey (SAuthLogonChallengeData.ofBytes data)).proofM2 := rfl

lemma verdict_landed (hn : n < 2 ^ 32) :
    (c.landed n data).verdict = NovusHeadless.verdict c.status (data.getD 0 0) n := by
  unfold verdict
  rw [getActualSize_landed hn]
  rfl

lemma loopTest_landed_iff (hs : c.status ≠ .closed) (t : NovusConnection) :
    LoopTest env (c.landed n data) t ↔ t = c.landed n data ∨
      ((c.landed n data).verdict = .challenge ∧
        env.callHook (c.landed n data).challengeCall = true ∧
        (c.landed n data).logonChallenge.Accepted ∧ t = (c.landed n data).accepted env) ∨
      ((c.landed n data).verdict = .proof ∧
        (c.landed n data).proofM2 = (c.landed n data).logonProof.M2 ∧
        t = (c.landed n data).authenticated) :=
  loopTest_iff env (c := c.landed n data) rfl hs t

/-- **Behind a handler.**  With everything read the connection waits again, if it is still open; in
every other case it is closed. -/
theorem settle_eq {r : ℕ} (hb : c.byteBuffer = ⟨r, n, data⟩) (hr : c.reads = [])
    (hr' : r < 2 ^ 32) (hn : n ≤ data.length) (hpos : 0 < data.length)
    (hd : data.length < 2 ^ 32) :
    c.settle =
      if n = r then (if c.isOpen then c.waiting 0 data else c) else c.close := by
  have hzero : c.byteBuffer.getActualSize = 0 ↔ n = r := by
    rw [ByteBuffer.getActualSize_eq_zero_iff (by rw [hb]; exact hr')
      (by rw [hb]; exact hn.trans_lt hd), hb]
    exact eq_comm
  unfold settle
  by_cases h : n = r
  · rw [if_pos (hzero.2 h), if_pos h]
    subst h
    cases ho : c.isOpen with
    | false => rw [asyncRead_of_closed ho]; rfl
    | true =>
      have := BaseSocket.asyncRead_of_consumed ho hb hpos hd
      rw [asyncRead_eq this, hr]
      rfl
  · rw [if_neg (fun h' => h (hzero.1 h')), if_neg h]

lemma settle_accepted (hn : n ≤ data.length) (hpos : 0 < data.length) (hd : data.length < 2 ^ 32) :
    ((c.landed n data).accepted env).settle =
      if n = 119 then
        if c.isOpen then ((c.landed n data).accepted env).waiting 0 data
        else (c.landed n data).accepted env
      else ((c.landed n data).accepted env).close :=
  settle_eq rfl rfl (by norm_num) hn hpos hd

lemma settle_authenticated (hn : n ≤ data.length) (hpos : 0 < data.length)
    (hd : data.length < 2 ^ 32) :
    (c.landed n data).authenticated.settle =
      if n = 36 then
        if c.isOpen then (c.landed n data).authenticated.waiting 0 data
        else (c.landed n data).authenticated
      else (c.landed n data).authenticated.close :=
  settle_eq rfl rfl (by norm_num) hn hpos hd

end

/-! ### Every state of a run -/

/-- What every state of a run satisfies. -/
structure Tidy (c : NovusConnection) : Prop where
  status_ne : c.status ≠ .closed
  shape : c.reads = [] ∨
    ∃ n data, c = c.waiting n data ∧ n ≤ data.length ∧ (data.length = 4096 ∧ n ≤ 3 ∨ data = [])

section

variable {env : Env} {c c' : NovusConnection}

lemma readError_of_step {op : ReadOp} (hs : c.step env (.readError op) = some c') :
    op ∈ c.reads ∧ c' = c.handleReadError op := by
  simp only [step, Option.ite_none_right_eq_some, Option.some.injEq] at hs
  exact ⟨hs.1, hs.2.symm⟩

lemma write_of_step {data : Bytes} {error : Bool} (hs : c.step env (.write data error) = some c') :
    data ∈ c.writes ∧ c' = c.handleInternalWrite data error := by
  simp only [step, Option.ite_none_right_eq_some, Option.some.injEq] at hs
  exact ⟨hs.1, hs.2.symm⟩

lemma lt_of_size {n : ℕ} {data : Bytes} (hn : n ≤ data.length)
    (hd : data.length = 4096 ∨ data = []) : n < 2 ^ 32 := by
  rcases hd with hl | rfl
  · omega
  · exact hn.trans_lt (by norm_num)

lemma Tidy.waiting_of_mem (h : c.Tidy) {op : ReadOp} (hop : op ∈ c.reads) :
    ∃ n data, c = c.waiting n data ∧ n ≤ data.length ∧ (data.length = 4096 ∨ data = []) ∧
      op = ⟨n, data.length - n⟩ := by
  rcases h.shape with h0 | ⟨n, data, hw, hn, hs⟩
  · rw [h0] at hop
    exact absurd hop List.not_mem_nil
  · rw [hw] at hop
    exact ⟨n, data, hw, hn, hs.imp_left And.left, List.mem_singleton.1 hop⟩

theorem Tidy.landed_of_mem (h : c.Tidy) {op : ReadOp} (hop : op ∈ c.reads) {chunk : Bytes}
    (hc : chunk.length ≤ op.len) :
    ∃ n data, c.received op chunk = c.landed n data ∧ n ≤ data.length ∧
      (data.length = 4096 ∨ data = []) := by
  obtain ⟨n, data, hw, hn, hs, rfl⟩ := h.waiting_of_mem hop
  have hd := lt_of_size le_rfl hs
  have hfit : n + chunk.length ≤ data.length := by
    have : chunk.length ≤ data.length - n := hc
    omega
  have hlen := length_splice hfit
  refine ⟨n + chunk.length, splice data n chunk, ?_, by omega, ?_⟩
  · conv_lhs => rw [hw]
    exact received_waiting hd hfit
  · rcases hs with hl | rfl
    · exact .inl (by omega)
    · exact .inr (List.eq_nil_of_length_eq_zero hlen)

theorem Tidy.read (h : c.Tidy) {op : ReadOp} {chunk : Bytes}
    (hs : c.step env (.read op chunk) = some c') :
    ∃ n data, c.received op chunk = c.landed n data ∧ n ≤ data.length ∧
      (data.length = 4096 ∨ data = []) ∧ (c.landed n data).handleRead env = some c' := by
  simp only [step, Option.ite_none_right_eq_some] at hs
  obtain ⟨⟨hop, hc⟩, hs⟩ := hs
  obtain ⟨n, data, hr, hn, hd⟩ := h.landed_of_mem hop hc
  refine ⟨n, data, hr, hn, hd, ?_⟩
  rw [← hr]
  exact hs

lemma tidy_of_reads (hs : c.status ≠ .closed) (hr : c.reads = []) : c.Tidy := ⟨hs, .inl hr⟩

lemma tidy_waiting {n : ℕ} {data : Bytes} (hs : c.status ≠ .closed) (hn : n ≤ data.length)
    (hd : data.length = 4096 ∧ n ≤ 3 ∨ data = []) : (c.waiting n data).Tidy :=
  ⟨hs, .inr ⟨n, data, rfl, hn, hd⟩⟩

/-- The next read behind bytes that are kept: of a closed connection there is none. -/
lemma asyncRead_kept {n : ℕ} {data : Bytes} (hn : n ≤ data.length)
    (hd : data.length = 4096 ∧ n ≤ 3 ∨ data = []) :
    (c.landed n data).asyncRead = if c.isOpen then c.waiting n data else c.landed n data := by
  cases ho : c.isOpen with
  | false => exact asyncRead_of_closed (c := c.landed n data) ho
  | true =>
    rcases hd with ⟨hl, h3⟩ | rfl
    · exact asyncRead_landed ho (by omega) (by omega)
    · obtain rfl : n = 0 := Nat.le_zero.1 hn
      exact asyncRead_landed_nil ho

lemma asyncRead_unknown {n : ℕ} {data : Bytes} :
    (c.landed n data).cleaned.asyncRead = if c.isOpen then c.waiting 0 [] else c.landed 0 [] := by
  cases ho : c.isOpen with
  | false => exact asyncRead_of_closed (c := (c.landed n data).cleaned) ho
  | true => exact asyncRead_cleaned ho

/-- **Where a call leads**, verdict by verdict. -/
theorem handleRead_outcome {n : ℕ} {data : Bytes} (hs : c.status ≠ .closed) (hn : n ≤ data.length)
    (hd : data.length = 4096 ∨ data = []) (h : (c.landed n data).handleRead env = some c') :
    c' = match (c.landed n data).verdict with
      | .wait => if c.isOpen then c.waiting n data else c.landed n data
      | .unknown => if c.isOpen then c.waiting 0 [] else c.landed 0 []
      | .wrongStep => (c.landed n data).close
      | .challengeFailed => (c.landed n data).challengeRefused
      | .challenge =>
        if (SAuthLogonChallengeData.ofBytes data).Accepted then
          if n = 119 then
            if c.isOpen then ((c.landed n data).accepted env).waiting 0 data
            else (c.landed n data).accepted env
          else ((c.landed n data).accepted env).close
        else (c.landed n data).rejected
      | .proofFailed => (c.landed n data).proofRefused
      | .proof =>
        if c.proofM2 = (SAuthLogonProofData.ofBytes data).M2 then
          if n = 36 then
            if c.isOpen then (c.landed n data).authenticated.waiting 0 data
            else (c.landed n data).authenticated
          else (c.landed n data).authenticated.close
        else (c.landed n data).mismatched := by
  have hv : (c.landed n data).verdict = NovusHeadless.verdict c.status (data.getD 0 0) n :=
    verdict_landed (lt_of_size hn hd)
  -- only an empty vector has no room for a whole header
  have hfull : 3 < n → data.length = 4096 := by
    intro h3
    rcases hd with hl | rfl
    · exact hl
    · exact absurd hn (by simp; omega)
  rw [handleRead_eq env _ rfl] at h
  cases hv' : (c.landed n data).verdict with
  | wait =>
    have h3 : n ≤ 3 := le_three_of_wait (hv.symm.trans hv') hs
    simp only [hv', Option.some.injEq] at h
    rw [← h]
    exact asyncRead_kept hn (hd.imp_left fun hl => ⟨hl, h3⟩)
  | unknown =>
    simp only [hv', Option.some.injEq] at h
    rw [← h]
    exact asyncRead_unknown
  | wrongStep | proofFailed =>
    simp only [hv', Option.some.injEq] at h
    exact h.symm
  | challengeFailed =>
    simp only [hv', Option.ite_none_right_eq_some, Option.some.injEq] at h
    exact h.2.symm
  | challenge =>
    obtain ⟨-, -, h3⟩ := NovusHeadless.verdict_challenge_iff.1 (hv.symm.trans hv')
    have hl := hfull h3
    simp only [hv', Option.ite_none_right_eq_some, Option.some.injEq] at h
    rw [← h.2, settle_accepted hn (by omega) (by omega)]
    rfl
  | proof =>
    obtain ⟨-, -, h4⟩ := NovusHeadless.verdict_proof_iff.1 (hv.symm.trans hv')
    have hl := hfull (by omega)
    simp only [hv', Option.some.injEq] at h
    rw [← h, settle_authenticated hn (by omega) (by omega)]
    rfl

theorem tidy_handleRead {n : ℕ} {data : Bytes} (hs : c.status ≠ .closed) (hn : n ≤ data.length)
    (hd : data.length = 4096 ∨ data = []) (h : (c.landed n data).handleRead env = some c') :
    c'.Tidy := by
  have hv : (c.landed n data).verdict = NovusHeadless.verdict c.status (data.getD 0 0) n :=
    verdict_landed (lt_of_size hn hd)
  have hfront : data.length = 4096 ∧ 0 ≤ 3 ∨ data = [] := hd.imp_left fun hl => ⟨hl, by norm_num⟩
  rw [handleRead_outcome hs hn hd h]
  cases hv' : (c.landed n data).verdict with
  | wait =>
    have h3 : n ≤ 3 := le_three_of_wait (hv.symm.trans hv') hs
    simp only
    split_ifs
    · exact tidy_waiting hs hn (hd.imp_left fun hl => ⟨hl, h3⟩)
    · exact tidy_of_reads hs rfl
  | unknown =>
    simp only
    split_ifs
    · exact tidy_waiting hs (Nat.zero_le _) (.inr rfl)
    · exact tidy_of_reads hs rfl
  | wrongStep => exact tidy_of_reads hs rfl
  | challengeFailed => exact tidy_of_reads hs rfl
  | proofFailed => exact tidy_of_reads hs rfl
  | challenge =>
    have hp : NovusStatus.proof ≠ .closed := NovusStatus.noConfusion
    simp only
    split_ifs
    · exact tidy_waiting hp (Nat.zero_le _) hfront
    · exact tidy_of_reads hp rfl
    · exact tidy_of_reads hp rfl
    · exact tidy_of_reads hp rfl
  | proof =>
    have ha : NovusStatus.authed ≠ .closed := NovusStatus.noConfusion
    simp only
    split_ifs
    · exact tidy_waiting ha (Nat.zero_le _) hfront
    · exact tidy_of_reads ha rfl
    · exact tidy_of_reads ha rfl
    · exact tidy_of_reads ha rfl

/-- **Every completion keeps the states of a run tidy.** -/
theorem tidy_step (h : c.Tidy) {i : Completion} (hs : c.step env i = some c') : c'.Tidy := by
  cases i with
  | read op chunk =>
    obtain ⟨n, data, -, hn, hd, hread⟩ := h.read hs
    exact tidy_handleRead h.status_ne hn hd hread
  | readError op =>
    obtain ⟨hop, rfl⟩ := readError_of_step hs
    refine tidy_of_reads h.status_ne ?_
    show c.reads.erase op = []
    rcases h.shape with h0 | ⟨n, data, hw, -, -⟩
    · rw [h0] at hop
      simp at hop
    · rw [hw] at hop ⊢
      obtain rfl := List.mem_singleton.1 hop
      simp [waiting]
  | write data error =>
    obtain ⟨-, rfl⟩ := write_of_step hs
    have hshape : ∀ d : NovusConnection, d.status = c.status → d.reads = c.reads →
        d.byteBuffer = c.byteBuffer → d.Tidy := by
      intro d hst hr hb
      refine ⟨hst ▸ h.status_ne, h.shape.imp (fun h0 => hr.trans h0) ?_⟩
      rintro ⟨n, b, hw, hn, hd⟩
      refine ⟨n, b, ?_, hn, hd⟩
      rw [hw] at hr hb
      obtain ⟨⟨⟩⟩ := d
      simp only [waiting] at hr hb ⊢
      rw [hr, hb]
    cases error <;> exact hshape _ rfl rfl rfl

/-! ### `Start` -/

/-- The connection behind a successful `Start` that has sent `challenge`. -/
def greeted (env : Env) (proofM2 : Digest) (username password challenge : Bytes) :
    NovusConnection where
  byteBuffer := ⟨0, 0, List.replicate 4096 0⟩
  isClosed := false
  isOpen := true
  reads := [⟨0, 4096⟩]
  writes := [challenge]
  sent := [challenge]
  status := .challenge
  username := username
  password := password
  key := .new
  passwordKey := passwordHash env.sha1 username password
  proofM2 := proofM2
  hookCalls := []
  handlersRun := []

lemma send_packet {data : Bytes} (h0 : data ≠ []) (hd : data.length < 2 ^ 32) :
    c.toBaseSocket.send (packet data) =
      { c.toBaseSocket with writes := c.writes ++ [data], sent := c.sent ++ [data] } := by
  have hsize : (packet data).getActualSize = data.length :=
    (ByteBuffer.getActualSize_of_le (Nat.zero_le _) (by
      show (0 + data.length) % 2 ^ 64 < 2 ^ 32
      omega)).trans (by
      show (0 + data.length) % 2 ^ 64 - 0 = data.length
      omega)
  have hread : (packet data).getReadPointer = data := rfl
  have hne : (packet data).empty = false := by
    show data.isEmpty = false
    cases data
    · exact absurd rfl h0
    · rfl
  unfold BaseSocket.send
  rw [hne, hsize, hread, List.take_length]
  rfl

lemma cAuthLogonChallenge_length {username challenge : Bytes}
    (h : cAuthLogonChallenge username = some challenge) :
    challenge.length = 34 + username.length ∧ username.length ≤ 16 := by
  unfold cAuthLogonChallenge at h
  split_ifs at h with hle
  obtain rfl := Option.some.inj h
  refine ⟨?_, hle⟩
  simp only [List.length_append, List.length_cons, List.length_nil]

lemma greet_new (proofM2 : Digest) {challenge : Bytes} (hne : challenge ≠ [])
    (hlen : challenge.length < 2 ^ 32) :
    ({ new proofM2 with toBaseSocket := BaseSocket.new.connect }.asyncRead).send
        (packet challenge) =
      { new proofM2 with toBaseSocket :=
        ⟨⟨0, 0, List.replicate 4096 0⟩, false, true, [⟨0, 4096⟩], [challenge], [challenge]⟩ } := by
  have hread := asyncRead_eq (c := { new proofM2 with toBaseSocket := BaseSocket.new.connect })
    BaseSocket.connect_asyncRead
  have hsend := send_packet (c := { new proofM2 with
    toBaseSocket := ⟨⟨0, 0, List.replicate 4096 0⟩, false, true, [⟨0, 4096⟩], [], []⟩ }) hne hlen
  rw [hread]
  unfold send
  rw [hsend]
  rfl

/-- **`Start`** fails to connect, or it has no defined result, or it leaves a connection that has sent
its challenge and waits for the reply. -/
theorem start_eq (env : Env) (proofM2 : Digest) (username password : Bytes) :
    (new proofM2).start env username password =
      if env.connects then
        (cAuthLogonChallenge username).map fun challenge =>
          (true, greeted env proofM2 username password challenge)
      else some (false, new proofM2) := by
  unfold start
  by_cases hc : env.connects = true
  · rw [if_pos hc, if_pos hc]
    cases hu : cAuthLogonChallenge username with
    | none => rfl
    | some challenge =>
      obtain ⟨hlen, hle⟩ := cAuthLogonChallenge_length hu
      have hne : challenge ≠ [] := by
        rintro rfl
        simp at hlen
        omega
      have hsent := greet_new proofM2 hne (by omega)
      exact congrArg (fun d : NovusConnection => some (true, { d with
        username := username, password := password,
        passwordKey := passwordHash env.sha1 username password })) hsent
  · rw [if_neg hc, if_neg hc]
    rfl

lemma greeted_eq (env : Env) (proofM2 : Digest) (username password challenge : Bytes) :
    greeted env proofM2 username password challenge =
      (greeted env proofM2 username password challenge).waiting 0 (List.replicate 4096 0) := by
  unfold waiting
  rw [List.length_replicate]
  rfl

theorem started_iff : Started env c ↔ env.connects = true ∧
    ∃ proofM2 username password challenge, cAuthLogonChallenge username = some challenge ∧
      c = greeted env proofM2 username password challenge := by
  unfold Started
  simp only [start_eq]
  by_cases hc : env.connects = true
  · simp only [hc, if_true, true_and, Option.map_eq_some_iff, Prod.mk.injEq]
    simp only [eq_comm (b := c)]
  · simp [hc]

theorem tidy_started (h : Started env c) : c.Tidy := by
  obtain ⟨-, proofM2, username, password, challenge, -, rfl⟩ := started_iff.1 h
  rw [greeted_eq]
  refine tidy_waiting (show NovusStatus.challenge ≠ .closed by decide) (Nat.zero_le _) (.inl ?_)
  exact ⟨List.length_replicate, Nat.zero_le _⟩

end

/-! ### Delivering pieces -/

section

variable {env : Env} {c : NovusConnection} {n : ℕ} {data : Bytes}

lemma deliver_of_reads (h : c.reads = []) (chunks : List Bytes) :
    c.deliver env chunks = some c := by
  cases chunks with
  | nil => rfl
  | cons chunk chunks => simp only [deliver, h]

lemma deliver_cons (hd : data.length < 2 ^ 32) {x : Bytes} (h : n + x.length ≤ data.length)
    (xs : List Bytes) :
    (c.waiting n data).deliver env (x :: xs) =
      ((c.landed (n + x.length) (splice data n x)).handleRead env).bind
        fun c' => c'.deliver env xs := by
  have hfit : x.length ≤ data.length - n := by omega
  rw [← received_waiting hd h]
  simp only [deliver, waiting, if_pos hfit, handleInternalRead]

lemma handleRead_of_wait (ho : c.isOpen = true) (hn : n < data.length) (hd : data.length < 2 ^ 32)
    (hv : NovusHeadless.verdict c.status (data.getD 0 0) n = .wait) :
    (c.landed n data).handleRead env = some (c.waiting n data) := by
  rw [handleRead_eq env _ rfl, verdict_landed (by omega), hv]
  exact congrArg some (asyncRead_landed ho hn hd)

/-- **Two pieces are as good as one** when the connection waits after the first. -/
theorem deliver_merge (ho : c.isOpen = true) (hd : data.length < 2 ^ 32) {x y : Bytes}
    (h : n + (x ++ y).length ≤ data.length) (hn : n + x.length < data.length)
    (hv : NovusHeadless.verdict c.status ((splice data n x).getD 0 0) (n + x.length) = .wait)
    (zs : List Bytes) :
    (c.waiting n data).deliver env (x :: y :: zs) =
      (c.waiting n data).deliver env ((x ++ y) :: zs) := by
  rw [List.length_append] at h
  have hlen : (splice data n x).length = data.length := length_splice (by omega)
  rw [deliver_cons hd (by omega), handleRead_of_wait ho (by omega) (by omega) hv, Option.bind_some,
    deliver_cons (by omega) (by omega), splice_append (by omega),
    deliver_cons hd (by rw [List.length_append]; omega), List.length_append, Nat.add_assoc]

lemma getD_splice {x : Bytes} {i : ℕ} (hi : i < x.length) (data : Bytes) :
    (splice data 0 x).getD i 0 = x.getD i 0 := by
  rw [splice_zero, List.getD_append _ _ _ _ hi]

/-- A connection that reads into the front of its buffer. -/
structure Idle (c : NovusConnection) (data : Bytes) : Prop where
  eq_waiting : c = c.waiting 0 data
  isOpen_eq : c.isOpen = true
  isClosed_eq : c.isClosed = false
  size_lt : data.length < 2 ^ 32

lemma deliver_idle (hi : Idle c data) {x : Bytes} (hx : x.length ≤ data.length)
    (xs : List Bytes) :
    c.deliver env (x :: xs) = ((c.landed x.length (splice data 0 x)).handleRead env).bind
      fun c' => c'.deliver env xs := by
  conv_lhs => rw [hi.eq_waiting]
  rw [deliver_cons hi.size_lt (by omega), Nat.zero_add]

end

/-! ### What a read leaves alone -/

/-- The part of a connection the login is about. -/
structure LoginState where
  status : NovusStatus
  username : Bytes
  passwordKey : BigNumber
  key : BigNumber
  proofM2 : Digest
  sent : List Bytes
  handlersRun : List HandlerRun

def login (c : NovusConnection) : LoginState :=
  ⟨c.status, c.username, c.passwordKey, c.key, c.proofM2, c.sent, c.handlersRun⟩

section

variable {env : Env} {c c' : NovusConnection}

lemma login_asyncRead (c : NovusConnection) : c.asyncRead.login = c.login := by
  have hsent : c.asyncRead.sent = c.sent := BaseSocket.asyncRead_sent _
  unfold login
  rw [hsent]
  rfl

lemma login_settle (c : NovusConnection) : c.settle.login = c.login := by
  unfold settle
  split
  · exact login_asyncRead c
  · rfl

/-- **Only the two handlers touch the login.** -/
theorem login_handleRead {n : ℕ} {data : Bytes}
    (h : (c.landed n data).handleRead env = some c')
    (hch : (c.landed n data).verdict ≠ .challenge) (hpr : (c.landed n data).verdict ≠ .proof) :
    c'.login = c.login := by
  rw [handleRead_eq env _ rfl] at h
  cases hv : (c.landed n data).verdict with
  | challenge => exact absurd hv hch
  | proof => exact absurd hv hpr
  | challengeFailed =>
    simp only [hv, Option.ite_none_right_eq_some, Option.some.injEq] at h
    obtain ⟨-, rfl⟩ := h
    rfl
  | wait | unknown =>
    simp only [hv, Option.some.injEq] at h
    subst h
    exact login_asyncRead _
  | wrongStep | proofFailed =>
    simp only [hv, Option.some.injEq] at h
    subst h
    rfl

lemma handleRead_challenge {n : ℕ} {data : Bytes}
    (h : (c.landed n data).handleRead env = some c')
    (hv : (c.landed n data).verdict = .challenge) :
    c' = if (SAuthLogonChallengeData.ofBytes data).Accepted
      then ((c.landed n data).accepted env).settle else (c.landed n data).rejected := by
  rw [handleRead_eq env _ rfl] at h
  simp only [hv, Option.ite_none_right_eq_some, Option.some.injEq] at h
  exact h.2.symm

lemma handleRead_proof {n : ℕ} {data : Bytes}
    (h : (c.landed n data).handleRead env = some c')
    (hv : (c.landed n data).verdict = .proof) :
    c' = if c.proofM2 = (SAuthLogonProofData.ofBytes data).M2
      then (c.landed n data).authenticated.settle else (c.landed n data).mismatched := by
  rw [handleRead_eq env _ rfl] at h
  simp only [hv, Option.some.injEq] at h
  exact h.symm

lemma handlersRun_accepted (env : Env) (c : NovusConnection) {n : ℕ} (data : Bytes)
    (hn : n < 2 ^ 32) :
    ((c.landed n data).accepted env).handlersRun =
      c.handlersRun ++ [⟨.challenge, data, n, c.status, .proof, true⟩] := by
  show c.handlersRun ++ [⟨.challenge, data, (c.landed n data).byteBuffer.getActualSize, c.status, .proof,
    true⟩] = _
  rw [getActualSize_landed hn]

lemma handlersRun_rejected (c : NovusConnection) {n : ℕ} (data : Bytes) (hn : n < 2 ^ 32) :
    (c.landed n data).rejected.handlersRun =
      c.handlersRun ++ [⟨.challenge, data, n, c.status, .proof, false⟩] := by
  show c.handlersRun ++ [⟨.challenge, data, (c.landed n data).byteBuffer.getActualSize, c.status, .proof,
    false⟩] = _
  rw [getActualSize_landed hn]

lemma handlersRun_authenticated (c : NovusConnection) {n : ℕ} (data : Bytes) (hn : n < 2 ^ 32) :
    (c.landed n data).authenticated.handlersRun =
      c.handlersRun ++ [⟨.proof, data, n, c.status, .authed, true⟩] := by
  show c.handlersRun ++ [⟨.proof, data, (c.landed n data).byteBuffer.getActualSize, c.status, .authed,
    true⟩] = _
  rw [getActualSize_landed hn]

lemma handlersRun_mismatched (c : NovusConnection) {n : ℕ} (data : Bytes) (hn : n < 2 ^ 32) :
    (c.landed n data).mismatched.handlersRun =
      c.handlersRun ++ [⟨.proof, data, n, c.status, .authed, false⟩] := by
  show c.handlersRun ++ [⟨.proof, data, (c.landed n data).byteBuffer.getActualSize, c.status, .authed,
    false⟩] = _
  rw [getActualSize_landed hn]

lemma handleRead_of_accepted {n : ℕ} {data : Bytes} (hk : ∀ call, env.callHook call = true)
    (hv : (c.landed n data).verdict = .challenge)
    (ha : (SAuthLogonChallengeData.ofBytes data).Accepted) :
    (c.landed n data).handleRead env = some ((c.landed n data).accepted env).settle := by
  have ha' : (c.landed n data).logonChallenge.Accepted := ha
  rw [handleRead_eq env _ rfl, hv]
  simp only [if_pos (hk _), if_pos ha']

lemma handleRead_of_rejected {n : ℕ} {data : Bytes} (hk : ∀ call, env.callHook call = true)
    (hv : (c.landed n data).verdict = .challenge)
    (ha : ¬ (SAuthLogonChallengeData.ofBytes data).Accepted) :
    (c.landed n data).handleRead env = some (c.landed n data).rejected := by
  have ha' : ¬ (c.landed n data).logonChallenge.Accepted := ha
  rw [handleRead_eq env _ rfl, hv]
  simp only [if_pos (hk _), if_neg ha']

/-- **A challenge with a whole header**, in the status that expects it. -/
theorem handleRead_challenge_header {n : ℕ} {data : Bytes} (hs : c.status = .challenge)
    (hf : data.getD 0 0 = NovusCommand.challenge.code) (h3 : 3 ≤ n) (hn : n < 2 ^ 32) :
    (c.landed n data).handleRead env =
      if env.callHook ⟨.onLoginChallenge, c.username, data.getD 2 0⟩ then
        some (if n = 3 then (c.landed n data).challengeRefused
          else if (SAuthLogonChallengeData.ofBytes data).Accepted then
            ((c.landed n data).accepted env).settle
          else (c.landed n data).rejected)
      else none := by
  have hv : (c.landed n data).verdict = _ := verdict_landed hn
  rw [hf, hs, verdict_challenge_header (by decide) h3, if_neg (by simp)] at hv
  have hcall : (c.landed n data).challengeCall =
      ⟨.onLoginChallenge, c.username, data.getD 2 0⟩ := rfl
  rw [handleRead_eq env _ rfl, hv, ← hcall]
  by_cases h : n = 3
  · simp only [if_pos h]
  · simp only [if_neg h]
    by_cases ha : (SAuthLogonChallengeData.ofBytes data).Accepted
    · rw [if_pos ha, if_pos (show (c.landed n data).logonChallenge.Accepted from ha)]
    · rw [if_neg ha, if_neg (show ¬ (c.landed n data).logonChallenge.Accepted from ha)]

/-- **A proof with a whole header**, in the status that expects it. -/
theorem handleRead_proof_header {n : ℕ} {data : Bytes} (hs : c.status = .proof)
    (hf : data.getD 0 0 = NovusCommand.proof.code) (h4 : 4 ≤ n) (hn : n < 2 ^ 32) :
    (c.landed n data).handleRead env =
      some (if n = 4 then (c.landed n data).proofRefused
        else if c.proofM2 = (SAuthLogonProofData.ofBytes data).M2 then
          (c.landed n data).authenticated.settle
        else (c.landed n data).mismatched) := by
  have hv : (c.landed n data).verdict = _ := verdict_landed hn
  rw [hf, hs, verdict_proof_header (by decide) h4, if_neg (by simp)] at hv
  rw [handleRead_eq env _ rfl, hv]
  by_cases h : n = 4
  · simp only [if_pos h]
  · simp only [if_neg h]
    rfl

lemma login_step_of_not_read {i : Completion} (hs : c.step env i = some c')
    (hi : ∀ op chunk, i ≠ .read op chunk) : c'.login = c.login := by
  cases i with
  | read op chunk => exact absurd rfl (hi op chunk)
  | readError op =>
    obtain ⟨-, rfl⟩ := readError_of_step hs
    rfl
  | write data error =>
    obtain ⟨-, rfl⟩ := write_of_step hs
    cases error <;> rfl

lemma sent_accepted (c : NovusConnection) :
    (c.accepted env).sent = c.sent ++ [(c.locals env).logonProof.toBytes] := by
  have hlen : (c.locals env).logonProof.toBytes.length = 75 := length_logonProof _ _ _ _
  generalize hb : (c.locals env).logonProof.toBytes = bytes at hlen
  have hne : bytes ≠ [] := by
    rintro rfl
    simp at hlen
  have h := send_packet (c := c) hne (by omega)
  show (c.toBaseSocket.send (packet (c.locals env).logonProof.toBytes)).sent = _
  rw [hb, h]

end

end NovusConnection

namespace Reply

lemma front_splice (m : Reply) (data : Bytes) :
    (splice data 0 m.bytes).getD 0 0 = m.kind.command.code := by
  rw [splice_zero]
  exact m.getD_zero _

lemma challengeData_splice {m : Reply} (hk : m.kind = .challenge) (data : Bytes) :
    SAuthLogonChallengeData.ofBytes (splice data 0 m.bytes) =
      SAuthLogonChallengeData.ofBytes m.bytes := by
  have hl := Reply.length_challenge hk
  rw [splice_zero]
  exact challengeData_append (by omega) _

lemma proofData_splice {m : Reply} (hk : m.kind = .proof) (data : Bytes) :
    SAuthLogonProofData.ofBytes (splice data 0 m.bytes) =
      SAuthLogonProofData.ofBytes m.bytes := by
  have hl := Reply.length_proof hk
  rw [splice_zero]
  exact proofData_append (by omega) _

end Reply

/-! ### A connection for the examples -/

open NovusConnection

/-- The environment of the examples: real digests, the smallest private value, hooks that return. -/
def sampleEnv : Env where
  sha1 := Sha1.hash
  a := .first
  connects := true
  callHook := fun _ => true

/-- A challenge that passes the test of `B`. -/
def sampleChallenge : SAuthLogonChallengeData where
  command := 0
  error := 0
  result := 0
  b := Vector.replicate 32 1
  gLength := 1
  g := 7
  nLength := 32
  n := Vector.replicate 32 0xFF
  salt := Vector.replicate 32 2
  versionChallenge := Vector.replicate 16 0
  securityFlags := 0

lemma accepted_sampleChallenge : sampleChallenge.Accepted := by
  rw [accepted_iff]
  decide +kernel

/-- A connection that has sent its challenge for the user `A` with the password `B`. -/
def sampleConnection : NovusConnection :=
  greeted sampleEnv (Vector.replicate 20 0) [0x41] [0x42] ((cAuthLogonChallenge [0x41]).getD [])

lemma started_sampleConnection : Started sampleEnv sampleConnection :=
  started_iff.2 ⟨rfl, _, _, _, _, rfl, rfl⟩

lemma idle_sampleConnection : Idle sampleConnection (List.replicate 4096 0) := by
  refine ⟨greeted_eq _ _ _ _ _, rfl, rfl, ?_⟩
  rw [List.length_replicate]
  norm_num

lemma received_sampleConnection (chunk : Bytes) (h : chunk.length ≤ 4096) :
    sampleConnection.received ⟨0, 4096⟩ chunk =
      sampleConnection.landed chunk.length (splice (List.replicate 4096 0) 0 chunk) := by
  have hlen : (List.replicate 4096 (0 : UInt8)).length = 4096 := List.length_replicate
  have hwait : sampleConnection = sampleConnection.waiting 0 (List.replicate 4096 0) :=
    greeted_eq _ _ _ _ _
  have hrec : (sampleConnection.waiting 0 (List.replicate 4096 0)).received
      ⟨0, (List.replicate 4096 (0 : UInt8)).length - 0⟩ chunk = _ :=
    received_waiting (by rw [hlen]; norm_num) (by rw [hlen]; omega)
  rw [← hwait, hlen, Nat.zero_add] at hrec
  exact hrec

lemma step_sampleConnection (chunk : Bytes) (h : chunk.length ≤ 4096) :
    sampleConnection.step sampleEnv (.read ⟨0, 4096⟩ chunk) =
      (sampleConnection.landed chunk.length
        (splice (List.replicate 4096 0) 0 chunk)).handleRead sampleEnv := by
  rw [← received_sampleConnection chunk h]
  exact if_pos ⟨List.mem_singleton.2 rfl, h⟩

end NovusHeadless
