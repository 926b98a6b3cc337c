import NovusHeadless.Connection.Runs

/-!
# Replies that report failure

A reply is taken for a failure when exactly three bytes of a challenge, or four of a proof, are buffered.
The fields `result` and `error` that say so are only logged.

* `FailedChallenge`, `FailedProof` — a reply that reports failure is at the front of the buffer;
* `failureReplies_iff` — along every run such replies are turned down exactly when none of them, in the
  status that expects it, comes with more bytes behind it.
-/

namespace NovusHeadless

open Lib NovusConnection

/-- A challenge reply whose result is not `AUTH_SUCCESS` is at the front of the buffer. -/
structure FailedChallenge (c : NovusConnection) : Prop where
  command : c.byteBuffer.getDataPointer.getD 0 0 = NovusCommand.challenge.code
  received : 3 ≤ c.byteBuffer.getActualSize
  result : c.logonChallenge.result ≠ authSuccess

/-- A proof reply whose error byte is not zero is at the front of the buffer. -/
structure FailedProof (c : NovusConnection) : Prop where
  command : c.byteBuffer.getDataPointer.getD 0 0 = NovusCommand.proof.code
  received : 4 ≤ c.byteBuffer.getActualSize
  error : c.logonProof.error ≠ 0

/-- A step turns down the failure reply that has come in with it. -/
def TurnsDown (c : NovusConnection) (i : Completion) (c' : NovusConnection) : Prop :=
  ∀ op chunk, i = .read op chunk →
    (FailedChallenge (c.received op chunk) →
      c'.sent = c.sent ∧ (c'.status = .proof → c.status = .proof) ∧ c'.isClosed = true) ∧
    (FailedProof (c.received op chunk) →
      (c'.status = .authed → c.status = .authed) ∧ c'.isClosed = true)

/-- The condition on a step of a run: a failure reply in the status that expects it is alone in the
buffer. -/
def ComesAlone (c : NovusConnection) (i : Completion) : Prop :=
  ∀ op chunk, i = .read op chunk →
    (FailedChallenge (c.received op chunk) → c.status = .challenge →
      (c.received op chunk).byteBuffer.getActualSize = 3) ∧
    (FailedProof (c.received op chunk) → c.status = .proof →
      (c.received op chunk).byteBuffer.getActualSize = 4)

section

variable {env : Env} {c c' : NovusConnection} {n : ℕ} {data : Bytes}

lemma status_settle (c : NovusConnection) : c.settle.status = c.status := by
  unfold settle
  split <;> rfl

lemma eq_close_of_wrongStep (h : (c.landed n data).handleRead env = some c')
    (hv : (c.landed n data).verdict = .wrongStep) : c' = (c.landed n data).close := by
  rw [handleRead_eq env _ rfl] at h
  simp only [hv, Option.some.injEq] at h
  exact h.symm

lemma status_of_challenge (h : (c.landed n data).handleRead env = some c')
    (hv : (c.landed n data).verdict = .challenge) : c'.status = .proof := by
  rw [handleRead_challenge h hv]
  split_ifs
  · exact status_settle _
  · rfl

lemma status_of_proof (h : (c.landed n data).handleRead env = some c')
    (hv : (c.landed n data).verdict = .proof) : c'.status = .authed := by
  rw [handleRead_proof h hv]
  split_ifs
  · exact status_settle _
  · rfl

/-- A whole header that reports a failed challenge: it is turned down exactly when the status does not
expect it or nothing comes behind it. -/
lemma failedChallenge_iff (hs : c.status ≠ .closed) (hn : n < 2 ^ 32)
    (hf : FailedChallenge (c.landed n data)) (h : (c.landed n data).handleRead env = some c') :
    (c'.sent = c.sent ∧ (c'.status = .proof → c.status = .proof) ∧ c'.isClosed = true) ↔
      (c.status = .challenge → n = 3) := by
  have h3 := hf.received
  rw [getActualSize_landed hn] at h3
  have hv : (c.landed n data).verdict = _ := verdict_landed hn
  rw [show data.getD 0 0 = NovusCommand.challenge.code from hf.command,
    verdict_challenge_header hs h3] at hv
  by_cases hst : c.status = .challenge
  · rw [if_neg (not_not.2 hst)] at hv
    by_cases hn3 : n = 3
    · rw [if_pos hn3] at hv
      rw [handleRead_eq env _ rfl] at h
      simp only [hv, Option.ite_none_right_eq_some, Option.some.injEq] at h
      rw [← h.2]
      exact iff_of_true ⟨rfl, fun hp => hp, rfl⟩ (fun _ => hn3)
    · rw [if_neg hn3] at hv
      refine iff_of_false ?_ (fun hq => hn3 (hq hst))
      intro hq
      have := hq.2.1 (status_of_challenge h hv)
      rw [hst] at this
      exact NovusStatus.noConfusion this
  · rw [if_pos hst] at hv
    rw [eq_close_of_wrongStep h hv]
    exact iff_of_true ⟨rfl, fun hp => hp, rfl⟩ (fun hq => absurd hq hst)

lemma failedProof_iff (hs : c.status ≠ .closed) (hn : n < 2 ^ 32)
    (hf : FailedProof (c.landed n data)) (h : (c.landed n data).handleRead env = some c') :
    ((c'.status = .authed → c.status = .authed) ∧ c'.isClosed = true) ↔
      (c.status = .proof → n = 4) := by
  have h4 := hf.received
  rw [getActualSize_landed hn] at h4
  have hv : (c.landed n data).verdict = _ := verdict_landed hn
  rw [show data.getD 0 0 = NovusCommand.proof.code from hf.command,
    verdict_proof_header hs h4] at hv
  by_cases hst : c.status = .proof
  · rw [if_neg (not_not.2 hst)] at hv
    by_cases hn4 : n = 4
    · rw [if_pos hn4] at hv
      rw [handleRead_eq env _ rfl] at h
      simp only [hv, Option.some.injEq] at h
      rw [← h]
      exact iff_of_true ⟨fun hp => hp, rfl⟩ (fun _ => hn4)
    · rw [if_neg hn4] at hv
      refine iff_of_false ?_ (fun hq => hn4 (hq hst))
      intro hq
      have := hq.1 (status_of_proof h hv)
      rw [hst] at this
      exact NovusStatus.noConfusion this
  · rw [if_pos hst] at hv
    rw [eq_close_of_wrongStep h hv]
    exact iff_of_true ⟨fun hp => hp, rfl⟩ (fun hq => absurd hq hst)

/-- **One step** turns failure replies down exactly when they come alone. -/
theorem turnsDown_iff {i : Completion} (ht : c.Tidy) (hs : c.step env i = some c') :
    TurnsDown c i c' ↔ ComesAlone c i := by
  unfold TurnsDown ComesAlone
  apply forall_congr'
  intro op
  apply forall_congr'
  intro chunk
  apply imp_congr_right
  intro hi
  subst hi
  obtain ⟨n, data, hr, hn, hd, hread⟩ := ht.read hs
  have hn32 : n < 2 ^ 32 := lt_of_size hn hd
  rw [hr, getActualSize_landed hn32]
  refine and_congr (imp_congr_right fun hf => ?_) (imp_congr_right fun hf => ?_)
  · exact failedChallenge_iff ht.status_ne hn32 hf hread
  · exact failedProof_iff ht.status_ne hn32 hf hread

/-- **When failure replies are turned down.**  Along a run they are, exactly when none of them comes with
more bytes behind it in the status that expects it. -/
theorem failureReplies_iff (h : Started env c) (is : List Completion) :
    Along (step env) TurnsDown c is ↔ Along (step env) (fun c i _ => ComesAlone c i) c is := by
  refine along_iff_of_inv ?_ ?_ (tidy_started h) is
  · intro c i c' ht hs hc
    exact ⟨tidy_step ht hs, (turnsDown_iff ht hs).2 hc⟩
  · intro c i c' ht hs hc hq
    exact hc ((turnsDown_iff ht hs).1 hq)

end

theorem failureReplies_iff_sample :
    Along (step sampleEnv) TurnsDown sampleConnection [.read ⟨0, 4096⟩ [0, 0, 4]] ↔
      Along (step sampleEnv) (fun c i _ => ComesAlone c i) sampleConnection
        [.read ⟨0, 4096⟩ [0, 0, 4]] :=
  failureReplies_iff started_sampleConnection _

/-- A whole challenge whose result is `AUTH_FAIL_UNKNOWN_ACCOUNT`. -/
def refusedChallenge : SAuthLogonChallengeData := { sampleChallenge with result := 0x04 }

lemma accepted_refusedChallenge : refusedChallenge.Accepted := accepted_sampleChallenge

/-- The proof is computed and sent in answer to a reply that reports an unknown account. -/
theorem failureReplies_counterexample :
    Started sampleEnv sampleConnection ∧
      ∃ c', sampleConnection.step sampleEnv (.read ⟨0, 4096⟩ refusedChallenge.toBytes) = some c' ∧
        c'.status = .proof ∧ c'.sent.length = 2 ∧ c'.isClosed = false ∧
        ¬ TurnsDown sampleConnection (.read ⟨0, 4096⟩ refusedChallenge.toBytes) c' := by
  refine ⟨started_sampleConnection, ?_⟩
  have hlen : refusedChallenge.toBytes.length = 119 := Reply.length_eq (refusedChallenge.toReply rfl)
  have hsize : (splice (List.replicate 4096 0) 0 refusedChallenge.toBytes).length = 4096 := by
    rw [length_splice (by rw [hlen, List.length_replicate]; norm_num), List.length_replicate]
  have hdata : SAuthLogonChallengeData.ofBytes
      (splice (List.replicate 4096 0) 0 refusedChallenge.toBytes) = refusedChallenge :=
    (Reply.challengeData_splice (m := refusedChallenge.toReply rfl) rfl _).trans
      (challengeData_toBytes _)
  have hfront : (splice (List.replicate 4096 0) 0 refusedChallenge.toBytes).getD 0 0 =
      NovusCommand.challenge.code := (refusedChallenge.toReply rfl).front_splice _
  have hrec := received_sampleConnection refusedChallenge.toBytes (by rw [hlen]; norm_num)
  have hstep := step_sampleConnection refusedChallenge.toBytes (by rw [hlen]; norm_num)
  rw [hlen] at hstep hrec
  generalize splice (List.replicate 4096 0) 0 refusedChallenge.toBytes = data
    at hsize hdata hfront hstep hrec
  have hv : (sampleConnection.landed 119 data).verdict = .challenge := by
    rw [verdict_landed (by norm_num), hfront]
    rfl
  rw [handleRead_of_accepted (fun _ => rfl) hv (by rw [hdata]; exact accepted_refusedChallenge),
    settle_accepted (by omega) (by omega) (by omega), if_pos rfl,
    if_pos (show sampleConnection.isOpen = true from rfl)] at hstep
  refine ⟨_, hstep, rfl, ?_, rfl, ?_⟩
  · rw [show (((sampleConnection.landed 119 data).accepted sampleEnv).waiting 0 data).sent =
      ((sampleConnection.landed 119 data).accepted sampleEnv).sent from rfl, sent_accepted]
    rfl
  · intro h
    have hf : FailedChallenge (sampleConnection.landed 119 data) := by
      refine ⟨hfront, ?_, ?_⟩
      · rw [getActualSize_landed (by norm_num)]
        norm_num
      · rw [logonChallenge_landed, hdata]
        decide
    have := (h _ _ rfl).1
    rw [hrec] at this
    exact NovusStatus.noConfusion ((this hf).2.1 rfl)

end NovusHeadless
