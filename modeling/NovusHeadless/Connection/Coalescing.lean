import NovusHeadless.Connection.Runs

/-!
# Replies in one read

When several replies are buffered, the loop looks at the first byte of the buffer again in each pass,
while its handlers read from the read position.

* `CoalescesWell` — a list of replies in one read leads to the same as each reply in its own read, and
  every pass dispatches on the first byte that has not been consumed;
* `seen_challenge`, `seen_proof` — what a read leads to, as a function of the number of bytes;
* `coalescing_iff` — when a list of replies coalesces well.
-/

namespace NovusHeadless

open Lib NovusConnection

/-- What can be seen of a connection: the status, the closed flag, and the handlers that have run. -/
structure Seen where
  status : NovusStatus
  isClosed : Bool
  handlers : List NovusCommand
  deriving DecidableEq

def NovusConnection.seen (c : NovusConnection) : Seen :=
  ⟨c.status, c.isClosed, c.handlersRun.map HandlerRun.command⟩

/-- A test of the loop condition that leads to a pass, which then dispatches on the first byte that has
not been consumed. -/
def DispatchesUnread (t : NovusConnection) : Prop :=
  t.byteBuffer.getActualSize ≠ 0 →
    t.byteBuffer.unread.head? = some (t.byteBuffer.getDataPointer.getD 0 0)

/-- The replies, one behind the other. -/
def stream (ms : List Reply) : Bytes := (ms.map Reply.bytes).flatten

/-- The replies in one read lead to the same as each in its own read, and each pass of the loop dispatches
on the first unread byte. -/
structure CoalescesWell (env : Env) (c : NovusConnection) (ms : List Reply) : Prop where
  same : (c.deliver env [stream ms]).map seen = (c.deliver env (ms.map Reply.bytes)).map seen
  unread : ∀ op ∈ c.reads, ∀ t, LoopTest env (c.received op (stream ms)) t → DispatchesUnread t

/-- The lists of replies that coalesce well.  Only the first reply reaches a handler: a failure must then
be alone (or the hook does not return); behind an accepted challenge only another challenge may come;
and behind a matching proof the byte at the place 36, four bytes into what follows, must be there and be
the command of a proof. -/
def Coalescible (env : Env) (c : NovusConnection) : List Reply → Prop
  | [] => True
  | m :: ms =>
    match c.status, m.kind with
    | .challenge, .challenge =>
      env.callHook ⟨.onLoginChallenge, c.username, m.bytes.getD 2 0⟩ = false ∨
        ¬ (SAuthLogonChallengeData.ofBytes m.bytes).Accepted ∨
        ∀ m' ∈ ms.head?, m'.kind.command = .challenge
    | .challenge, .challengeFailed =>
      ms = [] ∨ env.callHook ⟨.onLoginChallenge, c.username, m.bytes.getD 2 0⟩ = false
    | .proof, .proof =>
      c.proofM2 ≠ (SAuthLogonProofData.ofBytes m.bytes).M2 ∨
        36 < (stream (m :: ms)).length ∧
          (stream (m :: ms)).getD 36 0 = NovusCommand.proof.code
    | .proof, .proofFailed => ms = []
    | _, _ => True

section

variable {env : Env} {c : NovusConnection} {n : ℕ} {data : Bytes}

/-! ### What a read leads to -/

lemma seen_asyncRead (c : NovusConnection) : c.asyncRead.seen = c.seen := by
  have hc : c.asyncRead.isClosed = c.isClosed := BaseSocket.asyncRead_isClosed _
  unfold seen
  rw [hc]
  rfl

theorem seen_challenge (ho : c.isOpen = true) (hcl : c.isClosed = false) (hs : c.status = .challenge)
    (hf : data.getD 0 0 = NovusCommand.challenge.code) (h3 : 3 ≤ n) (hn : n ≤ data.length)
    (hd : data.length < 2 ^ 32) :
    ((c.landed n data).handleRead env).map seen =
      if env.callHook ⟨.onLoginChallenge, c.username, data.getD 2 0⟩ then
        some (if n = 3 then ⟨.challenge, true, c.handlersRun.map HandlerRun.command⟩
          else ⟨.proof, !decide (n = 119 ∧ (SAuthLogonChallengeData.ofBytes data).Accepted),
            c.handlersRun.map HandlerRun.command ++ [.challenge]⟩)
      else none := by
  have hn32 : n < 2 ^ 32 := by omega
  rw [handleRead_challenge_header hs hf h3 hn32]
  split_ifs with hk h ha
  · rw [← hs]
    rfl
  · have hrun := congrArg (List.map HandlerRun.command) (handlersRun_accepted env c data hn32)
    rw [List.map_append] at hrun
    rw [settle_accepted hn (by omega) hd, if_pos ho]
    by_cases h119 : n = 119
    · rw [if_pos h119, decide_eq_true (⟨h119, ha⟩ : _ ∧ _)]
      show some (Seen.mk .proof c.isClosed _) = _
      rw [hcl]
      exact congrArg (fun l => some (Seen.mk .proof false l)) hrun
    · rw [if_neg h119, decide_eq_false (fun h => h119 h.1)]
      exact congrArg (fun l => some (Seen.mk .proof true l)) hrun
  · have hrun := congrArg (List.map HandlerRun.command) (handlersRun_rejected c data hn32)
    rw [List.map_append] at hrun
    rw [decide_eq_false (fun h => ha h.2)]
    exact congrArg (fun l => some (Seen.mk .proof true l)) hrun
  · rfl

theorem seen_proof (ho : c.isOpen = true) (hcl : c.isClosed = false) (hs : c.status = .proof)
    (hf : data.getD 0 0 = NovusCommand.proof.code) (h4 : 4 ≤ n) (hn : n ≤ data.length)
    (hd : data.length < 2 ^ 32) :
    ((c.landed n data).handleRead env).map seen =
      some (if n = 4 then ⟨.proof, true, c.handlersRun.map HandlerRun.command⟩
        else ⟨.authed, !decide (n = 36 ∧ c.proofM2 = (SAuthLogonProofData.ofBytes data).M2),
          c.handlersRun.map HandlerRun.command ++ [.proof]⟩) := by
  have hn32 : n < 2 ^ 32 := by omega
  rw [handleRead_proof_header hs hf h4 hn32]
  split_ifs with h hM
  · rw [← hs]
    rfl
  · have hrun := congrArg (List.map HandlerRun.command) (handlersRun_authenticated c data hn32)
    rw [List.map_append] at hrun
    rw [settle_authenticated hn (by omega) hd, if_pos ho]
    by_cases h36 : n = 36
    · rw [if_pos h36, decide_eq_true (⟨h36, hM⟩ : _ ∧ _)]
      show some (Seen.mk .authed c.isClosed _) = _
      rw [hcl]
      exact congrArg (fun l => some (Seen.mk .authed false l)) hrun
    · rw [if_neg h36, decide_eq_false (fun h => h36 h.1)]
      exact congrArg (fun l => some (Seen.mk .authed true l)) hrun
  · have hrun := congrArg (List.map HandlerRun.command) (handlersRun_mismatched c data hn32)
    rw [List.map_append] at hrun
    rw [decide_eq_false (fun h => hM h.2)]
    exact congrArg (fun l => some (Seen.mk .authed true l)) hrun

lemma handleRead_wrongStep {cmd : NovusCommand} (hcl : c.status ≠ .closed) (hs : c.status ≠ cmd.status)
    (hf : data.getD 0 0 = cmd.code) (h0 : n ≠ 0) (hn : n < 2 ^ 32) :
    (c.landed n data).handleRead env = some (c.landed n data).close := by
  have hv : (c.landed n data).verdict = .wrongStep := by
    rw [verdict_landed hn, hf]
    unfold NovusHeadless.verdict
    cases cmd with
    | challenge =>
      have hs' : c.status ≠ .challenge := hs
      rw [if_neg (by simp [hcl, h0]), if_pos rfl, if_pos hs']
    | proof =>
      have hs' : c.status ≠ .proof := hs
      rw [if_neg (by simp [hcl, h0]), if_neg (by decide), if_pos rfl, if_pos hs']
  rw [handleRead_eq env _ rfl, hv]

lemma deliver_of_closed (hs : c.status = .closed) (chunks : List Bytes) :
    (c.deliver env chunks).map seen = some c.seen := by
  induction chunks generalizing c with
  | nil => rfl
  | cons x xs ih =>
    cases hr : c.reads with
    | nil => rw [deliver_of_reads hr]; rfl
    | cons op ops =>
      simp only [deliver, hr]
      split_ifs
      · have hread : c.handleInternalRead env op x = some (c.received op x).asyncRead := by
          unfold handleInternalRead handleRead
          exact if_pos hs
        have hseen : (c.received op x).asyncRead.seen = c.seen := seen_asyncRead _
        rw [hread, Option.bind_some, ← hseen]
        exact ih hs
      · rfl

/-! ### The tests of the loop condition -/

lemma dispatchesUnread_iff {t : NovusConnection} {r : ℕ} (hb : t.byteBuffer = ⟨r, n, data⟩)
    (hr : r < 2 ^ 32) (hn : n ≤ data.length) (hd : data.length < 2 ^ 32) :
    DispatchesUnread t ↔ n = r ∨ r < n ∧ data.getD r 0 = data.getD 0 0 := by
  have hzero : t.byteBuffer.getActualSize = 0 ↔ r = n := by
    rw [ByteBuffer.getActualSize_eq_zero_iff (by rw [hb]; exact hr)
      (by rw [hb]; exact hn.trans_lt hd), hb]
  unfold DispatchesUnread
  rw [ne_eq, hzero, hb]
  show (¬ r = n → ((data.drop r).take (n - r)).head? = some (data.getD 0 0)) ↔ _
  rcases lt_trichotomy r n with h | h | h
  · have hget : (data.drop r).head? = some (data.getD r 0) := by
      rw [List.head?_drop, List.getD_eq_getElem _ _ (by omega), List.getElem?_eq_getElem (by omega)]
    rw [List.head?_take, if_neg (by omega), hget, Option.some.injEq]
    constructor
    · intro hq
      exact .inr ⟨h, hq (by omega)⟩
    · rintro (hq | hq) -
      · omega
      · exact hq.2
  · exact iff_of_true (fun hq => absurd h hq) (.inl h.symm)
  · -- the read position has passed the write position
    rw [show n - r = 0 by omega, List.take_zero, List.head?_nil]
    refine iff_of_false (fun hq => by simpa using hq (by omega)) ?_
    rintro (hq | hq) <;> omega

lemma dispatchesUnread_landed (hn : n ≤ data.length) (hd : data.length < 2 ^ 32) :
    DispatchesUnread (c.landed n data) := by
  refine (dispatchesUnread_iff (t := c.landed n data) rfl (by norm_num) hn hd).2 ?_
  rcases Nat.eq_zero_or_pos n with h | h
  · exact .inl h
  · exact .inr ⟨h, rfl⟩

/-- **All the tests of a call**: only the one behind a handler can go wrong. -/
theorem dispatches_iff (hcl : c.status ≠ .closed) (hn : n ≤ data.length)
    (hd : data.length < 2 ^ 32) :
    (∀ t, LoopTest env (c.landed n data) t → DispatchesUnread t) ↔
      ((c.landed n data).verdict = .challenge →
        env.callHook (c.landed n data).challengeCall = true →
        (c.landed n data).logonChallenge.Accepted →
          n = 119 ∨ 119 < n ∧ data.getD 119 0 = data.getD 0 0) ∧
      ((c.landed n data).verdict = .proof →
        (c.landed n data).proofM2 = (c.landed n data).logonProof.M2 →
          n = 36 ∨ 36 < n ∧ data.getD 36 0 = data.getD 0 0) := by
  have hacc : DispatchesUnread ((c.landed n data).accepted env) ↔ _ :=
    dispatchesUnread_iff (r := 119) rfl (by norm_num) hn hd
  have hauth : DispatchesUnread (c.landed n data).authenticated ↔ _ :=
    dispatchesUnread_iff (r := 36) rfl (by norm_num) hn hd
  constructor
  · intro h
    refine ⟨?_, ?_⟩
    · intro hv hk ha
      exact hacc.1 (h _ ((loopTest_landed_iff hcl _).2 (.inr (.inl ⟨hv, hk, ha, rfl⟩))))
    · intro hv hM
      exact hauth.1 (h _ ((loopTest_landed_iff hcl _).2 (.inr (.inr ⟨hv, hM, rfl⟩))))
  · rintro ⟨hch, hpr⟩ t ht
    rcases (loopTest_landed_iff hcl t).1 ht with rfl | ⟨hv, hk, ha, rfl⟩ | ⟨hv, hM, rfl⟩
    · exact dispatchesUnread_landed hn hd
    · exact hacc.2 (hch hv hk ha)
    · exact hauth.2 (hpr hv hM)

lemma dispatches_challenge_iff (hs : c.status = .challenge)
    (hf : data.getD 0 0 = NovusCommand.challenge.code) (hn : n ≤ data.length)
    (hd : data.length < 2 ^ 32) :
    (∀ t, LoopTest env (c.landed n data) t → DispatchesUnread t) ↔
      (3 < n → env.callHook ⟨.onLoginChallenge, c.username, data.getD 2 0⟩ = true →
        (SAuthLogonChallengeData.ofBytes data).Accepted →
          n = 119 ∨ 119 < n ∧ data.getD 119 0 = NovusCommand.challenge.code) := by
  have hcl : c.status ≠ .closed := by rw [hs]; decide
  have hv : (c.landed n data).verdict = .challenge ↔ 3 < n := by
    rw [verdict_landed (by omega), NovusHeadless.verdict_challenge_iff]
    exact ⟨fun h => h.2.2, fun h => ⟨hs, hf, h⟩⟩
  have hv' : (c.landed n data).verdict ≠ .proof := by
    rw [verdict_landed (by omega), ne_eq, NovusHeadless.verdict_proof_iff, hs]
    exact fun h => NovusStatus.noConfusion h.1
  have hcall : (c.landed n data).challengeCall =
      ⟨.onLoginChallenge, c.username, data.getD 2 0⟩ := rfl
  rw [dispatches_iff hcl hn hd, hv, hcall, logonChallenge_landed, hf]
  exact ⟨fun h => h.1, fun h => ⟨h, fun hp => absurd hp hv'⟩⟩

lemma dispatches_proof_iff (hs : c.status = .proof)
    (hf : data.getD 0 0 = NovusCommand.proof.code) (hn : n ≤ data.length)
    (hd : data.length < 2 ^ 32) :
    (∀ t, LoopTest env (c.landed n data) t → DispatchesUnread t) ↔
      (4 < n → c.proofM2 = (SAuthLogonProofData.ofBytes data).M2 →
        n = 36 ∨ 36 < n ∧ data.getD 36 0 = NovusCommand.proof.code) := by
  have hcl : c.status ≠ .closed := by rw [hs]; decide
  have hv : (c.landed n data).verdict = .proof ↔ 4 < n := by
    rw [verdict_landed (by omega), NovusHeadless.verdict_proof_iff]
    exact ⟨fun h => h.2.2, fun h => ⟨hs, hf, h⟩⟩
  have hv' : (c.landed n data).verdict ≠ .challenge := by
    rw [verdict_landed (by omega), ne_eq, NovusHeadless.verdict_challenge_iff, hs]
    exact fun h => NovusStatus.noConfusion h.1
  rw [dispatches_iff hcl hn hd, hv, logonProof_landed, hf]
  exact ⟨fun h => h.2, fun h => ⟨fun hp => absurd hp hv', h⟩⟩

end

/-! ### The replies of a list -/

section

variable {env : Env} {c : NovusConnection} {data : Bytes} {m : Reply} {ms : List Reply}

lemma stream_cons (m : Reply) (ms : List Reply) : stream (m :: ms) = m.bytes ++ stream ms := rfl

lemma length_stream_cons (m : Reply) (ms : List Reply) :
    (stream (m :: ms)).length = m.bytes.length + (stream ms).length := List.length_append

lemma splice_stream (data : Bytes) (m : Reply) (ms : List Reply) :
    ∃ rest, splice data 0 (stream (m :: ms)) = m.bytes ++ rest := by
  refine ⟨stream ms ++ data.drop (stream (m :: ms)).length, ?_⟩
  rw [splice_zero, stream_cons, List.append_assoc]

lemma front_stream (data : Bytes) (m : Reply) (ms : List Reply) :
    (splice data 0 (stream (m :: ms))).getD 0 0 = m.kind.command.code := by
  obtain ⟨rest, h⟩ := splice_stream data m ms
  rw [h]
  exact m.getD_zero rest

lemma front_of_stream (hfit : (stream (m :: ms)).length ≤ data.length) {cmd : NovusCommand}
    (hk : m.kind.command = cmd) :
    cmd.headerSize ≤ (stream (m :: ms)).length ∧
      (splice data 0 (stream (m :: ms))).length = data.length ∧
      (splice data 0 (stream (m :: ms))).getD 0 0 = cmd.code := by
  refine ⟨?_, length_splice (by omega), ?_⟩
  · have hm : cmd.headerSize ≤ m.bytes.length := m.headerSize_le_of hk
    rw [length_stream_cons]
    omega
  · rw [front_stream, hk]

lemma getD_two_stream (data : Bytes) (hm : 3 ≤ m.bytes.length) (ms : List Reply) :
    (splice data 0 (stream (m :: ms))).getD 2 0 = m.bytes.getD 2 0 := by
  obtain ⟨rest, h⟩ := splice_stream data m ms
  rw [h, List.getD_append _ _ _ _ (by omega)]

lemma stream_singleton (m : Reply) : stream [m] = m.bytes := by
  rw [stream_cons]
  exact List.append_nil _

lemma stream_length_pos (hms : ms ≠ []) : 0 < (stream ms).length := by
  cases ms with
  | nil => exact absurd rfl hms
  | cons m ms =>
    rw [length_stream_cons]
    have := m.length_pos
    omega

lemma deliver_one (hi : Idle c data) {x : Bytes} (hx : x.length ≤ data.length) :
    (c.deliver env [x]).map seen =
      ((c.landed x.length (splice data 0 x)).handleRead env).map seen := by
  rw [deliver_idle hi hx]
  simp only [deliver, Option.bind_fun_some]

/-- A reply after which no read is outstanding hides those behind it. -/
lemma deliver_of_stop (hi : Idle c data) {x : Bytes} (hx : x.length ≤ data.length)
    (h : ∀ c', (c.landed x.length (splice data 0 x)).handleRead env = some c' → c'.reads = [])
    (xs : List Bytes) : c.deliver env (x :: xs) = c.deliver env [x] := by
  rw [deliver_idle hi hx, deliver_idle hi hx]
  cases hr : (c.landed x.length (splice data 0 x)).handleRead env with
  | none => rfl
  | some c' => exact deliver_of_reads (h c' hr) xs

lemma unread_idle_iff (hi : Idle c data) {x : Bytes} (hx : x.length ≤ data.length) :
    (∀ op ∈ c.reads, ∀ t, LoopTest env (c.received op x) t → DispatchesUnread t) ↔
      ∀ t, LoopTest env (c.landed x.length (splice data 0 x)) t → DispatchesUnread t := by
  have hrec : c.received ⟨0, data.length - 0⟩ x = c.landed x.length (splice data 0 x) := by
    conv_lhs => rw [hi.eq_waiting]
    rw [received_waiting hi.size_lt (by omega), Nat.zero_add]
  have hreads : c.reads = [⟨0, data.length - 0⟩] := by
    rw [hi.eq_waiting]
    rfl
  rw [hreads]
  constructor
  · intro h t ht
    exact h _ (List.mem_singleton.2 rfl) t (hrec ▸ ht)
  · intro h op hop t ht
    obtain rfl := List.mem_singleton.1 hop
    exact h t (hrec ▸ ht)

/-- **A list of replies in one read**, when the first of them stops the connection. -/
lemma coalescesWell_iff_of_stop (hi : Idle c data) (hfit : (stream (m :: ms)).length ≤ data.length)
    (hstop : ∀ c', (c.landed m.bytes.length (splice data 0 m.bytes)).handleRead env = some c' →
      c'.reads = []) :
    CoalescesWell env c (m :: ms) ↔
      ((c.landed (stream (m :: ms)).length
          (splice data 0 (stream (m :: ms)))).handleRead env).map seen =
        ((c.landed m.bytes.length (splice data 0 m.bytes)).handleRead env).map seen ∧
      ∀ t, LoopTest env (c.landed (stream (m :: ms)).length
        (splice data 0 (stream (m :: ms)))) t → DispatchesUnread t := by
  have hm : m.bytes.length ≤ data.length := by
    rw [length_stream_cons] at hfit
    omega
  have hsep : (c.deliver env ((m :: ms).map Reply.bytes)).map seen =
      ((c.landed m.bytes.length (splice data 0 m.bytes)).handleRead env).map seen := by
    rw [List.map_cons, deliver_of_stop hi hm hstop, deliver_one hi hm]
  rw [← deliver_one hi hfit, ← hsep, ← unread_idle_iff hi hfit]
  exact ⟨fun h => ⟨h.same, h.unread⟩, fun h => ⟨h.1, h.2⟩⟩

lemma coalescesWell_of_wrongStep (hi : Idle c data)
    (hfit : (stream (m :: ms)).length ≤ data.length) (hcl : c.status ≠ .closed)
    (hs : c.status ≠ m.kind.status) : CoalescesWell env c (m :: ms) := by
  have hd := hi.size_lt
  have hpos := m.length_pos
  have hlen : (splice data 0 (stream (m :: ms))).length = data.length := length_splice (by omega)
  have hle : m.bytes.length ≤ (stream (m :: ms)).length := by
    rw [length_stream_cons]
    omega
  have hone : (c.landed m.bytes.length (splice data 0 m.bytes)).handleRead env = _ :=
    handleRead_wrongStep hcl hs (m.front_splice data) (by omega) (by omega)
  have hall : (c.landed (stream (m :: ms)).length
      (splice data 0 (stream (m :: ms)))).handleRead env = _ :=
    handleRead_wrongStep hcl hs (front_stream data m ms) (by omega) (by omega)
  refine (coalescesWell_iff_of_stop hi hfit ?_).2 ⟨?_, ?_⟩
  · intro c' h
    rw [hone] at h
    obtain rfl := Option.some.inj h
    rfl
  · rw [hone, hall]
    rfl
  · refine (dispatches_iff hcl (by omega) (by omega)).2 ⟨?_, ?_⟩
    · intro hv
      obtain ⟨hst, hf, -⟩ := NovusHeadless.verdict_challenge_iff.1 hv
      have hcmd := NovusCommand.code_inj ((front_stream data m ms).symm.trans hf)
      exact absurd (show c.status = m.kind.command.status by rw [hcmd]; exact hst) hs
    · intro hv
      obtain ⟨hst, hf, -⟩ := NovusHeadless.verdict_proof_iff.1 hv
      have hcmd := NovusCommand.code_inj ((front_stream data m ms).symm.trans hf)
      exact absurd (show c.status = m.kind.command.status by rw [hcmd]; exact hst) hs

lemma seen_stream_challenge (hi : Idle c data) (hfit : (stream (m :: ms)).length ≤ data.length)
    (hs : c.status = .challenge) (hk : m.kind.command = .challenge) :
    ((c.landed (stream (m :: ms)).length
        (splice data 0 (stream (m :: ms)))).handleRead env).map seen =
      if env.callHook ⟨.onLoginChallenge, c.username, m.bytes.getD 2 0⟩ then
        some (if (stream (m :: ms)).length = 3 then
            ⟨.challenge, true, c.handlersRun.map HandlerRun.command⟩
          else ⟨.proof, !decide ((stream (m :: ms)).length = 119 ∧
              (SAuthLogonChallengeData.ofBytes (splice data 0 (stream (m :: ms)))).Accepted),
            c.handlersRun.map HandlerRun.command ++ [.challenge]⟩)
      else none := by
  have hd := hi.size_lt
  have h3 : 3 ≤ m.bytes.length := m.headerSize_le_of hk
  obtain ⟨hle, hlen, hf⟩ := front_of_stream hfit hk
  have hle' : 3 ≤ (stream (m :: ms)).length := hle
  rw [seen_challenge hi.isOpen_eq hi.isClosed_eq hs hf (by omega) (by omega) (by omega),
    getD_two_stream data h3]

lemma seen_reply_challenge (hi : Idle c data) (hm : m.bytes.length ≤ data.length)
    (hs : c.status = .challenge) (hk : m.kind.command = .challenge) :
    ((c.landed m.bytes.length (splice data 0 m.bytes)).handleRead env).map seen =
      if env.callHook ⟨.onLoginChallenge, c.username, m.bytes.getD 2 0⟩ then
        some (if m.bytes.length = 3 then
            ⟨.challenge, true, c.handlersRun.map HandlerRun.command⟩
          else ⟨.proof, !decide (m.bytes.length = 119 ∧
              (SAuthLogonChallengeData.ofBytes (splice data 0 m.bytes)).Accepted),
            c.handlersRun.map HandlerRun.command ++ [.challenge]⟩)
      else none := by
  have h : ((c.landed (stream [m]).length
      (splice data 0 (stream [m]))).handleRead env).map seen = _ :=
    seen_stream_challenge hi (by rwa [stream_singleton]) hs hk
  rwa [stream_singleton] at h

lemma dispatches_stream_challenge (hi : Idle c data)
    (hfit : (stream (m :: ms)).length ≤ data.length) (hs : c.status = .challenge)
    (hk : m.kind.command = .challenge) :
    (∀ t, LoopTest env (c.landed (stream (m :: ms)).length
        (splice data 0 (stream (m :: ms)))) t → DispatchesUnread t) ↔
      (3 < (stream (m :: ms)).length →
        env.callHook ⟨.onLoginChallenge, c.username, m.bytes.getD 2 0⟩ = true →
        (SAuthLogonChallengeData.ofBytes (splice data 0 (stream (m :: ms)))).Accepted →
          (stream (m :: ms)).length = 119 ∨ 119 < (stream (m :: ms)).length ∧
            (splice data 0 (stream (m :: ms))).getD 119 0 = NovusCommand.challenge.code) := by
  have hd := hi.size_lt
  have h3 : 3 ≤ m.bytes.length := m.headerSize_le_of hk
  obtain ⟨-, hlen, hf⟩ := front_of_stream hfit hk
  rw [dispatches_challenge_iff hs hf (by omega) (by omega),
    getD_two_stream data h3]

lemma seen_stream_proof (hi : Idle c data) (hfit : (stream (m :: ms)).length ≤ data.length)
    (hs : c.status = .proof) (hk : m.kind.command = .proof) :
    ((c.landed (stream (m :: ms)).length
        (splice data 0 (stream (m :: ms)))).handleRead env).map seen =
      some (if (stream (m :: ms)).length = 4 then
          ⟨.proof, true, c.handlersRun.map HandlerRun.command⟩
        else ⟨.authed, !decide ((stream (m :: ms)).length = 36 ∧
            c.proofM2 = (SAuthLogonProofData.ofBytes (splice data 0 (stream (m :: ms)))).M2),
          c.handlersRun.map HandlerRun.command ++ [.proof]⟩) := by
  have hd := hi.size_lt
  obtain ⟨hle, hlen, hf⟩ := front_of_stream hfit hk
  have hle' : 4 ≤ (stream (m :: ms)).length := hle
  exact seen_proof hi.isOpen_eq hi.isClosed_eq hs hf (by omega) (by omega) (by omega)

lemma seen_reply_proof (hi : Idle c data) (hm : m.bytes.length ≤ data.length)
    (hs : c.status = .proof) (hk : m.kind.command = .proof) :
    ((c.landed m.bytes.length (splice data 0 m.bytes)).handleRead env).map seen =
      some (if m.bytes.length = 4 then
          ⟨.proof, true, c.handlersRun.map HandlerRun.command⟩
        else ⟨.authed, !decide (m.bytes.length = 36 ∧
            c.proofM2 = (SAuthLogonProofData.ofBytes (splice data 0 m.bytes)).M2),
          c.handlersRun.map HandlerRun.command ++ [.proof]⟩) := by
  have h : ((c.landed (stream [m]).length
      (splice data 0 (stream [m]))).handleRead env).map seen = _ :=
    seen_stream_proof hi (by rwa [stream_singleton]) hs hk
  rwa [stream_singleton] at h

/-- **A failed challenge first.** -/
lemma coalescesWell_challengeFailed (hi : Idle c data)
    (hfit : (stream (m :: ms)).length ≤ data.length) (hs : c.status = .challenge)
    (hk : m.kind = .challengeFailed) :
    CoalescesWell env c (m :: ms) ↔
      ms = [] ∨ env.callHook ⟨.onLoginChallenge, c.username, m.bytes.getD 2 0⟩ = false := by
  have hd := hi.size_lt
  have hl : m.bytes.length = 3 := by rw [m.length_eq, hk]; rfl
  have hcmd : m.kind.command = .challenge := by rw [hk]; rfl
  have hcons : (stream (m :: ms)).length = 3 + (stream ms).length := by
    rw [length_stream_cons, hl]
  have hone := @seen_reply_challenge env c data m hi (by omega) hs hcmd
  rw [hl, if_pos rfl] at hone
  have hstop : ∀ c', (c.landed m.bytes.length (splice data 0 m.bytes)).handleRead env = some c' →
      c'.reads = [] := by
    intro c' h
    have hf : (splice data 0 m.bytes).getD 0 0 = NovusCommand.challenge.code := by
      rw [m.front_splice, hcmd]
    rw [handleRead_challenge_header hs hf (by omega) (by omega), if_pos hl] at h
    simp only [Option.ite_none_right_eq_some, Option.some.injEq] at h
    rw [← h.2]
    rfl
  rw [coalescesWell_iff_of_stop hi hfit hstop, hl, hone, seen_stream_challenge hi hfit hs hcmd,
    dispatches_stream_challenge hi hfit hs hcmd]
  cases hcall : env.callHook ⟨.onLoginChallenge, c.username, m.bytes.getD 2 0⟩ with
  | false => exact iff_of_true ⟨rfl, fun _ h => Bool.noConfusion h⟩ (.inr rfl)
  | true =>
    rw [if_pos rfl, if_pos rfl]
    by_cases hms : ms = []
    · subst hms
      have h3 : (stream [m]).length = 3 := hcons
      rw [if_pos h3]
      exact iff_of_true ⟨rfl, fun h => by omega⟩ (.inl rfl)
    · have h3 : (stream (m :: ms)).length ≠ 3 := by
        have := stream_length_pos hms
        omega
      rw [if_neg h3]
      refine iff_of_false ?_ (by simp [hms])
      intro h
      exact NovusStatus.noConfusion (congrArg Seen.status (Option.some.inj h.1))

lemma getD_second_stream (data : Bytes) (m m' : Reply) (ms : List Reply) :
    (splice data 0 (stream (m :: m' :: ms))).getD m.bytes.length 0 = m'.kind.command.code := by
  rw [splice_zero, stream_cons, stream_cons, List.append_assoc, List.append_assoc,
    List.getD_append_right _ _ _ _ le_rfl, Nat.sub_self]
  exact m'.getD_zero _

/-- An accepted challenge in its own read leaves the connection waiting at the front of its buffer. -/
lemma handleRead_acceptedReply (hi : Idle c data) (hs : c.status = .challenge)
    (hk : m.kind = .challenge) (hm : m.bytes.length ≤ data.length)
    (hcall : env.callHook ⟨.onLoginChallenge, c.username, m.bytes.getD 2 0⟩ = true)
    (ha : (SAuthLogonChallengeData.ofBytes m.bytes).Accepted) :
    (c.landed m.bytes.length (splice data 0 m.bytes)).handleRead env =
      some (((c.landed m.bytes.length (splice data 0 m.bytes)).accepted env).waiting 0
        (splice data 0 m.bytes)) := by
  have hd := hi.size_lt
  have hl := Reply.length_challenge hk
  have hlen : (splice data 0 m.bytes).length = data.length := length_splice (by omega)
  have hf : (splice data 0 m.bytes).getD 0 0 = NovusCommand.challenge.code := by
    rw [m.front_splice, hk]
    rfl
  rw [handleRead_challenge_header hs hf (by omega) (by omega), getD_splice (by omega) data,
    if_pos hcall, if_neg (by omega), Reply.challengeData_splice hk, if_pos ha,
    settle_accepted (by omega) (by omega) (by omega), if_pos hl, if_pos hi.isOpen_eq]

lemma deliver_acceptedReply (hi : Idle c data) (hs : c.status = .challenge)
    (hk : m.kind = .challenge) {m' : Reply} (hk' : m'.kind.command = .challenge)
    (hm : m.bytes.length ≤ data.length) (hm' : m'.bytes.length ≤ data.length)
    (hcall : env.callHook ⟨.onLoginChallenge, c.username, m.bytes.getD 2 0⟩ = true)
    (ha : (SAuthLogonChallengeData.ofBytes m.bytes).Accepted) (xs : List Bytes) :
    (c.deliver env (m.bytes :: m'.bytes :: xs)).map seen =
      some ⟨.proof, true, c.handlersRun.map HandlerRun.command ++ [.challenge]⟩ := by
  have hd := hi.size_lt
  have hpos := m'.length_pos
  have hlen : (splice data 0 m.bytes).length = data.length := length_splice (by omega)
  have hrun := congrArg (List.map HandlerRun.command)
    (handlersRun_accepted env c (splice data 0 m.bytes) (by omega : m.bytes.length < 2 ^ 32))
  rw [List.map_append] at hrun
  rw [deliver_idle hi hm, handleRead_acceptedReply hi hs hk hm hcall ha, Option.bind_some]
  generalize hc₁ : (c.landed m.bytes.length (splice data 0 m.bytes)).accepted env = c₁ at hrun
  have hst : c₁.status = .proof := by rw [← hc₁]; rfl
  generalize splice data 0 m.bytes = data₁ at hlen
  have hne : c₁.status ≠ NovusCommand.challenge.status := by
    rw [hst]
    decide
  have hwrong : (c₁.landed (0 + m'.bytes.length) (splice data₁ 0 m'.bytes)).handleRead env = _ :=
    handleRead_wrongStep (by rw [hst]; decide) hne ((m'.front_splice _).trans (by rw [hk']))
      (by omega) (by omega)
  rw [deliver_cons (by omega) (by omega), hwrong, Option.bind_some, deliver_of_reads rfl]
  show some (Seen.mk c₁.status true (c₁.handlersRun.map HandlerRun.command)) = _
  rw [hst, hrun]
  rfl

/-- **A proof first**, failed or not. -/
lemma coalescesWell_proof (hi : Idle c data)
    (hfit : (stream (m :: ms)).length ≤ data.length) (hs : c.status = .proof)
    (hk : m.kind.command = .proof) :
    CoalescesWell env c (m :: ms) ↔
      (m.kind = .proof → c.proofM2 ≠ (SAuthLogonProofData.ofBytes m.bytes).M2 ∨
        36 < (stream (m :: ms)).length ∧
          (stream (m :: ms)).getD 36 0 = NovusCommand.proof.code) ∧
      (m.kind = .proofFailed → ms = []) := by
  have hd := hi.size_lt
  have hcons := length_stream_cons m ms
  have h4 : 4 ≤ m.bytes.length := m.headerSize_le_of hk
  have hlen : (splice data 0 (stream (m :: ms))).length = data.length := length_splice (by omega)
  have hlen' : (splice data 0 m.bytes).length = data.length := length_splice (by omega)
  have hf : (splice data 0 (stream (m :: ms))).getD 0 0 = NovusCommand.proof.code := by
    rw [front_stream, hk]
  have hf' : (splice data 0 m.bytes).getD 0 0 = NovusCommand.proof.code := by
    rw [m.front_splice, hk]
  have hone := @seen_reply_proof env c data m hi (by omega) hs hk
  have h36 : m.bytes.length ≠ 36 := by
    rw [m.length_eq]
    cases m.kind <;> decide
  have hstop : ∀ c', (c.landed m.bytes.length (splice data 0 m.bytes)).handleRead env = some c' →
      c'.reads = [] := by
    intro c' h
    rw [handleRead_proof_header hs hf' h4 (by omega)] at h
    obtain rfl := Option.some.inj h
    split_ifs
    · rfl
    · rw [settle_authenticated (by omega) (by omega) (by omega), if_neg h36]
      rfl
    · rfl
  rw [coalescesWell_iff_of_stop hi hfit hstop, hone, seen_stream_proof hi hfit hs hk,
    dispatches_proof_iff hs hf (by omega) (by omega)]
  cases hkind : m.kind with
  | challenge => rw [hkind] at hk; exact absurd hk (by decide)
  | challengeFailed => rw [hkind] at hk; exact absurd hk (by decide)
  | proofFailed =>
    have hl4 : m.bytes.length = 4 := by rw [m.length_eq, hkind]; rfl
    rw [if_pos hl4]
    by_cases hms : ms = []
    · subst hms
      have h4 : (stream [m]).length = 4 := by rw [stream_singleton, hl4]
      rw [if_pos h4]
      exact iff_of_true ⟨rfl, fun h => by omega⟩ ⟨fun h => ReplyKind.noConfusion h, fun _ => rfl⟩
    · have h4 : (stream (m :: ms)).length ≠ 4 := by
        have := stream_length_pos hms
        omega
      rw [if_neg h4]
      refine iff_of_false ?_ (fun h => hms (h.2 rfl))
      intro h
      exact NovusStatus.noConfusion (congrArg Seen.status (Option.some.inj h.1))
  | proof =>
    have hl32 := Reply.length_proof hkind
    have hM : (SAuthLogonProofData.ofBytes (splice data 0 (stream (m :: ms)))).M2 =
        (SAuthLogonProofData.ofBytes m.bytes).M2 := by
      obtain ⟨rest, h⟩ := splice_stream data m ms
      rw [h, proofData_append (by omega)]
    have hbyte : 36 < (stream (m :: ms)).length →
        (splice data 0 (stream (m :: ms))).getD 36 0 = (stream (m :: ms)).getD 36 0 :=
      fun h => getD_splice h data
    rw [hM, if_neg (by omega : ¬ (stream (m :: ms)).length = 4), if_neg (by omega),
      decide_eq_false (by omega : ¬ (m.bytes.length = 36 ∧ _))]
    have hsame : (some (Seen.mk .authed (!decide ((stream (m :: ms)).length = 36 ∧
          c.proofM2 = (SAuthLogonProofData.ofBytes m.bytes).M2))
        (c.handlersRun.map HandlerRun.command ++ [.proof])) =
        some (Seen.mk .authed (!false) (c.handlersRun.map HandlerRun.command ++ [.proof]))) ↔
        ¬ ((stream (m :: ms)).length = 36 ∧
          c.proofM2 = (SAuthLogonProofData.ofBytes m.bytes).M2) := by
      rw [Option.some.injEq, Seen.mk.injEq, Bool.not_inj_iff, decide_eq_false_iff_not]
      simp only [true_and, and_true]
    rw [hsame]
    constructor
    · rintro ⟨h1, h2⟩
      refine ⟨?_, fun h => ReplyKind.noConfusion h⟩
      intro _
      by_cases hm : c.proofM2 = (SAuthLogonProofData.ofBytes m.bytes).M2
      · rcases h2 (by omega) hm with h | h
        · exact absurd ⟨h, hm⟩ h1
        · exact .inr ⟨h.1, (hbyte h.1).symm.trans h.2⟩
      · exact .inl hm
    · rintro ⟨h, -⟩
      rcases h rfl with h | ⟨h1, h2⟩
      · exact ⟨fun h' => h h'.2, fun _ h' => absurd h' h⟩
      · exact ⟨fun h' => by omega, fun _ _ => .inr ⟨h1, (hbyte h1).trans h2⟩⟩

lemma challengeData_stream (hk : m.kind = .challenge) (data : Bytes) (ms : List Reply) :
    SAuthLogonChallengeData.ofBytes (splice data 0 (stream (m :: ms))) =
      SAuthLogonChallengeData.ofBytes m.bytes := by
  have hl := Reply.length_challenge hk
  obtain ⟨rest, h⟩ := splice_stream data m ms
  rw [h, challengeData_append (by omega)]

lemma coalescesWell_rejected (hi : Idle c data)
    (hfit : (stream (m :: ms)).length ≤ data.length) (hs : c.status = .challenge)
    (hk : m.kind = .challenge)
    (h : env.callHook ⟨.onLoginChallenge, c.username, m.bytes.getD 2 0⟩ = false ∨
      ¬ (SAuthLogonChallengeData.ofBytes m.bytes).Accepted) :
    CoalescesWell env c (m :: ms) := by
  have hd := hi.size_lt
  have hl := Reply.length_challenge hk
  have hcmd : m.kind.command = .challenge := by rw [hk]; rfl
  have hcons : (stream (m :: ms)).length = 119 + (stream ms).length := by
    rw [length_stream_cons, hl]
  have hone := @seen_reply_challenge env c data m hi (by omega) hs hcmd
  rw [Reply.challengeData_splice hk, if_neg (by omega : ¬ m.bytes.length = 3)] at hone
  have hall : ((c.landed (stream (m :: ms)).length
      (splice data 0 (stream (m :: ms)))).handleRead env).map seen = _ :=
    seen_stream_challenge hi hfit hs hcmd
  rw [challengeData_stream hk, if_neg (by omega : ¬ (stream (m :: ms)).length = 3)] at hall
  have hstop : ∀ c', (c.landed m.bytes.length (splice data 0 m.bytes)).handleRead env = some c' →
      c'.reads = [] := by
    intro c' hread
    have hf : (splice data 0 m.bytes).getD 0 0 = NovusCommand.challenge.code := by
      rw [m.front_splice, hcmd]
    rw [handleRead_challenge_header hs hf (by omega) (by omega), getD_splice (by omega) data,
      Reply.challengeData_splice hk, if_neg (by omega : ¬ m.bytes.length = 3)] at hread
    rcases h with h | h
    · rw [if_neg (by rw [h]; exact Bool.false_ne_true)] at hread
      simp at hread
    · rw [if_neg h, Option.ite_none_right_eq_some, Option.some.injEq] at hread
      rw [← hread.2]
      rfl
  rw [coalescesWell_iff_of_stop hi hfit hstop, hall, hone,
    dispatches_stream_challenge hi hfit hs hcmd, challengeData_stream hk]
  rcases h with h | h
  · rw [h]
    exact ⟨rfl, fun _ h => Bool.noConfusion h⟩
  · refine ⟨?_, fun _ _ ha => absurd ha h⟩
    rw [decide_eq_false (fun hq => h hq.2), decide_eq_false (fun hq => h hq.2)]

/-- An accepted challenge first: only a challenge may follow. -/
lemma coalescesWell_accepted (hi : Idle c data)
    (hfit : (stream (m :: ms)).length ≤ data.length) (hs : c.status = .challenge)
    (hk : m.kind = .challenge)
    (hcall : env.callHook ⟨.onLoginChallenge, c.username, m.bytes.getD 2 0⟩ = true)
    (ha : (SAuthLogonChallengeData.ofBytes m.bytes).Accepted) :
    CoalescesWell env c (m :: ms) ↔ ∀ m' ∈ ms.head?, m'.kind.command = .challenge := by
  have hd := hi.size_lt
  have hl := Reply.length_challenge hk
  have hcmd : m.kind.command = .challenge := by rw [hk]; rfl
  have hcons : (stream (m :: ms)).length = 119 + (stream ms).length := by
    rw [length_stream_cons, hl]
  have htests : (∀ t, LoopTest env (c.landed (stream (m :: ms)).length
      (splice data 0 (stream (m :: ms)))) t → DispatchesUnread t) ↔ _ :=
    dispatches_stream_challenge hi hfit hs hcmd
  rw [challengeData_stream hk, ← unread_idle_iff hi hfit] at htests
  cases ms with
  | nil =>
    -- one reply is its own coalescing
    refine iff_of_true ⟨by rw [stream_singleton]; rfl, ?_⟩ (by simp)
    exact htests.2 fun _ _ _ => .inl hcons
  | cons m' ms =>
    have hpos := m'.length_pos
    have hcons' := length_stream_cons m' ms
    have hsecond := getD_second_stream data m m' ms
    rw [hl] at hsecond
    constructor
    · intro h m₂ hm₂
      obtain rfl : m' = m₂ := Option.some.inj hm₂
      rcases htests.1 h.unread (by omega) hcall ha with h119 | ⟨-, hcode⟩
      · omega
      · exact NovusCommand.code_inj (hsecond.symm.trans hcode)
    · intro h
      have hk' : m'.kind.command = .challenge := h m' rfl
      refine ⟨?_, ?_⟩
      · rw [deliver_one hi hfit, seen_stream_challenge hi hfit hs hcmd, if_pos hcall,
          if_neg (by omega), decide_eq_false (fun h => by omega), List.map_cons, List.map_cons,
          deliver_acceptedReply hi hs hk hk' (by omega) (by omega) hcall ha]
        rfl
      · refine htests.2 fun _ _ _ => .inr ⟨by omega, ?_⟩
        rw [hsecond, hk']

/-- **A challenge first.** -/
lemma coalescesWell_challenge (hi : Idle c data)
    (hfit : (stream (m :: ms)).length ≤ data.length) (hs : c.status = .challenge)
    (hk : m.kind = .challenge) :
    CoalescesWell env c (m :: ms) ↔
      env.callHook ⟨.onLoginChallenge, c.username, m.bytes.getD 2 0⟩ = false ∨
        ¬ (SAuthLogonChallengeData.ofBytes m.bytes).Accepted ∨
        ∀ m' ∈ ms.head?, m'.kind.command = .challenge := by
  by_cases h : env.callHook ⟨.onLoginChallenge, c.username, m.bytes.getD 2 0⟩ = false ∨
      ¬ (SAuthLogonChallengeData.ofBytes m.bytes).Accepted
  · exact iff_of_true (coalescesWell_rejected hi hfit hs hk h) (or_assoc.1 (.inl h))
  · obtain ⟨hcall, ha⟩ := not_or.1 h
    rw [coalescesWell_accepted hi hfit hs hk (Bool.eq_true_of_not_eq_false hcall) (not_not.1 ha),
      ← or_assoc, or_iff_right h]

lemma coalescesWell_nil (hi : Idle c data) (hcl : c.status ≠ .closed) : CoalescesWell env c [] := by
  have hd := hi.size_lt
  have hfit : (stream []).length ≤ data.length := Nat.zero_le _
  have hlen : (splice data 0 (stream [])).length = data.length := length_splice (Nat.zero_le _)
  have hsize : (c.landed 0 (splice data 0 [])).byteBuffer.getActualSize = 0 :=
    getActualSize_landed (by norm_num)
  have hv : (c.landed (stream []).length (splice data 0 (stream []))).verdict = .wait :=
    verdict_eq_wait (.inr hsize)
  refine ⟨?_, ?_⟩
  · rw [deliver_one hi hfit, handleRead_eq env _ rfl, hv]
    exact congrArg some (seen_asyncRead _)
  · rw [unread_idle_iff hi hfit, dispatches_iff hcl (hfit.trans hlen.ge) (hlen.trans_lt hd), hv]
    exact ⟨fun h => Verdict.noConfusion h, fun h => Verdict.noConfusion h⟩

/-- In the status `CLOSED` a connection only reads on, and tests no condition. -/
lemma coalescesWell_of_closed (hcl : c.status = .closed) : CoalescesWell env c ms := by
  refine ⟨?_, ?_⟩
  · rw [deliver_of_closed hcl, deliver_of_closed hcl]
  · intro op _ t ht
    exact absurd hcl ht.status_ne

lemma coalescible_of_wrongStep (hs : c.status ≠ m.kind.status) : Coalescible env c (m :: ms) := by
  simp only [Coalescible]
  split
  case h_5 => trivial
  all_goals
    rename_i hst hk
    exact absurd (hst.trans (by rw [hk]; rfl)) hs

/-- **When a list of replies coalesces well.** -/
theorem coalescing_iff (hi : Idle c data) (hfit : (stream ms).length ≤ data.length) :
    CoalescesWell env c ms ↔ Coalescible env c ms := by
  cases ms with
  | nil =>
    refine iff_of_true ?_ trivial
    by_cases hcl : c.status = .closed
    · exact coalescesWell_of_closed hcl
    · exact coalescesWell_nil hi hcl
  | cons m ms =>
    by_cases hs : c.status = m.kind.status
    · cases hk : m.kind with
      | challenge =>
        have hs' : c.status = .challenge := hs.trans (by rw [hk]; rfl)
        rw [coalescesWell_challenge hi hfit hs' hk]
        simp only [Coalescible, hs', hk]
      | challengeFailed =>
        have hs' : c.status = .challenge := hs.trans (by rw [hk]; rfl)
        rw [coalescesWell_challengeFailed hi hfit hs' hk]
        simp only [Coalescible, hs', hk]
      | proof =>
        have hs' : c.status = .proof := hs.trans (by rw [hk]; rfl)
        rw [coalescesWell_proof hi hfit hs' (by rw [hk]; rfl), hk]
        simp only [Coalescible, hs', hk]
        exact ⟨fun h => h.1 trivial, fun h => ⟨fun _ => h, fun h' => ReplyKind.noConfusion h'⟩⟩
      | proofFailed =>
        have hs' : c.status = .proof := hs.trans (by rw [hk]; rfl)
        rw [coalescesWell_proof hi hfit hs' (by rw [hk]; rfl), hk]
        simp only [Coalescible, hs', hk]
        exact ⟨fun h => h.2 trivial, fun h => ⟨fun h' => ReplyKind.noConfusion h', fun _ => h⟩⟩
    · refine iff_of_true ?_ (coalescible_of_wrongStep hs)
      by_cases hcl : c.status = .closed
      · exact coalescesWell_of_closed hcl
      · exact coalescesWell_of_wrongStep hi hfit hcl hs

end

/-! ### Two replies in one read -/

/-- Two challenges behind each other: the second is answered by `Close` in either run. -/
theorem coalescing_iff_sample :
    CoalescesWell sampleEnv sampleConnection [sampleChallenge.toReply rfl, sampleChallenge.toReply rfl] :=
  (coalescing_iff idle_sampleConnection (by
    rw [stream_cons, stream_singleton, List.length_append, Reply.length_eq, List.length_replicate]
    decide)).2 (.inr (.inr fun m' h => by obtain rfl := Option.some.inj h; rfl))

/-- The refusal of a challenge. -/
def refusal : Reply := ⟨.challengeFailed, [0, 0, 4], rfl, rfl⟩

/-- A proof of zeros. -/
def zeroProof : Reply := ⟨.proof, 1 :: List.replicate 31 0, rfl, rfl⟩

/-- Two refusals in one read run the challenge handler, which neither of them does alone; and a proof
behind an accepted challenge is taken for a challenge. -/
theorem coalescing_counterexample :
    Started sampleEnv sampleConnection ∧
      ((sampleConnection.deliver sampleEnv [stream [refusal, refusal]]).map seen =
          some ⟨.proof, true, [.challenge]⟩ ∧
        (sampleConnection.deliver sampleEnv [refusal.bytes, refusal.bytes]).map seen =
          some ⟨.challenge, true, []⟩ ∧
        ¬ CoalescesWell sampleEnv sampleConnection [refusal, refusal]) ∧
      ¬ CoalescesWell sampleEnv sampleConnection [sampleChallenge.toReply rfl, zeroProof] := by
  have hi := idle_sampleConnection
  have hcall : ∀ call, sampleEnv.callHook call = true := fun _ => rfl
  have hlen : (List.replicate 4096 (0 : UInt8)).length = 4096 := List.length_replicate
  have hone : (sampleConnection.deliver sampleEnv [stream [refusal, refusal]]).map seen =
      some ⟨.proof, true, [.challenge]⟩ := by
    have h : ((sampleConnection.landed (stream [refusal, refusal]).length
        (splice (List.replicate 4096 0) 0 (stream [refusal, refusal]))).handleRead sampleEnv).map seen =
          _ :=
      seen_challenge rfl rfl rfl (front_stream _ refusal [refusal]) (by decide)
        (by rw [length_splice] <;> rw [hlen] <;> decide)
        (by rw [length_splice] <;> rw [hlen] <;> decide)
    rw [deliver_one hi (by rw [hlen]; decide), h, if_pos (hcall _), if_neg (by decide),
      decide_eq_false (fun h => absurd h.1 (by decide))]
    rfl
  have hsep : (sampleConnection.deliver sampleEnv [refusal.bytes, refusal.bytes]).map seen =
      some ⟨.challenge, true, []⟩ := by
    have h : ((sampleConnection.landed refusal.bytes.length
        (splice (List.replicate 4096 0) 0 refusal.bytes)).handleRead sampleEnv) = _ :=
      handleRead_challenge_header rfl (refusal.front_splice _) (by decide) (by decide)
    rw [if_pos (hcall _), if_pos (show refusal.bytes.length = 3 from rfl)] at h
    rw [deliver_idle hi (by rw [hlen]; decide), h, Option.bind_some, deliver_of_reads rfl]
    rfl
  refine ⟨started_sampleConnection, ⟨hone, hsep, ?_⟩, ?_⟩
  · intro h
    have hsame := h.same
    rw [hone] at hsame
    exact absurd (hsame.trans hsep) (by decide)
  · intro h
    have hfit : (stream [sampleChallenge.toReply rfl, zeroProof]).length ≤
        (List.replicate 4096 (0 : UInt8)).length := by
      rw [stream_cons, stream_singleton, List.length_append, Reply.length_eq, hlen]
      decide
    rw [coalescesWell_challenge hi hfit rfl rfl] at h
    rcases h with h | h | h
    · exact Bool.noConfusion h
    · apply h
      rw [show (sampleChallenge.toReply rfl).bytes = sampleChallenge.toBytes from rfl,
        challengeData_toBytes]
      exact accepted_sampleChallenge
    · exact absurd (h zeroProof rfl) (by decide)

end NovusHeadless
