import NovusHeadless.Connection.Runs

/-!
# What the login status records

Each handler raises the status before it looks at the reply.  A reply that the handler then turns down
leaves the raised status behind, and a proof reply is compared over 20 bytes of memory no matter how many
of them have been received.

* `StatusRecords` — the status is the record of a completed step;
* `Sound` — what a reply has to satisfy for that;
* `statusRecords_iff` — along every run the status is a record exactly when every reply that reaches a
  handler is sound.
-/

namespace NovusHeadless

open Lib NovusConnection

/-- The status records completed steps only. -/
structure StatusRecords (env : Env) (c : NovusConnection) : Prop where
  /-- in `PROOF` a challenge has been accepted; the key and the expected `M2` are the ones computed from
  it, and the proof computed from it has been sent -/
  challenge : c.status = .proof → ∃ r ∈ c.handlersRun, r.command = .challenge ∧ r.returned = true ∧
    c.key = (challengeLocals env.sha1 env.a c.username c.passwordKey (.ofBytes r.memory)).key ∧
    c.proofM2 =
      (challengeLocals env.sha1 env.a c.username c.passwordKey (.ofBytes r.memory)).proofM2 ∧
    (challengeLocals env.sha1 env.a c.username c.passwordKey
      (.ofBytes r.memory)).logonProof.toBytes ∈ c.sent
  /-- in `AUTHED` a proof with the expected `M2` has been received -/
  proof : c.status = .authed → ∃ r ∈ c.handlersRun, r.command = .proof ∧ 22 ≤ r.received ∧
    (SAuthLogonProofData.ofBytes r.memory).M2 = c.proofM2
  /-- a handler that returned false left the status alone -/
  unchanged : ∀ r ∈ c.handlersRun, r.returned = false → r.after = r.before

/-- A reply that reaches a handler is sound: a challenge passes the test of `B`, and the `M2` of a proof
has been received and is the expected one. -/
structure Sound (c : NovusConnection) : Prop where
  challenge : c.verdict = .challenge → c.logonChallenge.Accepted
  proof : c.verdict = .proof → 22 ≤ c.byteBuffer.getActualSize ∧ c.proofM2 = c.logonProof.M2

/-- The condition on a step of a run: the reply that has come in is sound. -/
def StepSound (c : NovusConnection) : Completion → Prop
  | .read op chunk => Sound (c.received op chunk)
  | _ => True

/-- What a run keeps: a record, and no handler that could have run only later. -/
structure RecordInv (env : Env) (c : NovusConnection) : Prop where
  tidy : c.Tidy
  records : StatusRecords env c
  initial : c.status = .challenge → c.handlersRun = []
  challenged : c.status = .proof → ∀ r ∈ c.handlersRun, r.command = .challenge

section

variable {env : Env} {c c' d : NovusConnection} {n : ℕ} {data : Bytes}

lemma StatusRecords.of_login (h : StatusRecords env c) (hl : d.login = c.login) :
    StatusRecords env d := by
  simp only [login, LoginState.mk.injEq] at hl
  obtain ⟨hst, hu, hpk, hk, hm, hsent, hrun⟩ := hl
  obtain ⟨h₁, h₂, h₃⟩ := h
  refine ⟨?_, ?_, ?_⟩
  · rwa [hst, hu, hpk, hk, hm, hsent, hrun]
  · rwa [hst, hm, hrun]
  · rwa [hrun]

lemma RecordInv.of_login (h : RecordInv env c) (ht : d.Tidy) (hl : d.login = c.login) :
    RecordInv env d := by
  refine ⟨ht, h.records.of_login hl, ?_, ?_⟩
  · have := h.initial
    simp only [login, LoginState.mk.injEq] at hl
    rwa [hl.1, hl.2.2.2.2.2.2]
  · have := h.challenged
    simp only [login, LoginState.mk.injEq] at hl
    rwa [hl.1, hl.2.2.2.2.2.2]

lemma recordInv_accepted (h : RecordInv env c) (hs : c.status = .challenge) (hn : n < 2 ^ 32)
    (ht : ((c.landed n data).accepted env).settle.Tidy) :
    RecordInv env ((c.landed n data).accepted env).settle := by
  have hrun := handlersRun_accepted env c data hn
  rw [h.initial hs, List.nil_append] at hrun
  have hmem : ∀ r, r ∈ ((c.landed n data).accepted env).handlersRun ↔
      r = ⟨.challenge, data, n, c.status, .proof, true⟩ := by
    intro r
    rw [hrun, List.mem_singleton]
  have hrec : StatusRecords env ((c.landed n data).accepted env) := by
    refine ⟨fun _ => ⟨_, (hmem _).2 rfl, rfl, rfl, rfl, rfl, ?_⟩, ?_, ?_⟩
    · rw [sent_accepted]
      exact List.mem_append_right _ (List.mem_singleton.2 rfl)
    · intro h
      exact NovusStatus.noConfusion h
    · intro r hr h
      obtain rfl := (hmem r).1 hr
      exact Bool.noConfusion h
  have hl := login_settle ((c.landed n data).accepted env)
  refine ⟨ht, hrec.of_login hl, ?_, ?_⟩ <;>
    simp only [login, LoginState.mk.injEq] at hl <;> rw [hl.1]
  · exact fun h => NovusStatus.noConfusion h
  · rw [hl.2.2.2.2.2.2]
    intro _ r hr
    obtain rfl := (hmem r).1 hr
    rfl

lemma recordInv_authenticated (h : RecordInv env c) (hn : n < 2 ^ 32) (h22 : 22 ≤ n)
    (hM : c.proofM2 = (SAuthLogonProofData.ofBytes data).M2)
    (ht : (c.landed n data).authenticated.settle.Tidy) :
    RecordInv env (c.landed n data).authenticated.settle := by
  have hrun := handlersRun_authenticated c data hn
  have hrec : StatusRecords env (c.landed n data).authenticated := by
    refine ⟨fun h => NovusStatus.noConfusion h, ?_, ?_⟩
    · intro _
      refine ⟨⟨.proof, data, n, c.status, .authed, true⟩, ?_, rfl, h22, hM.symm⟩
      rw [hrun]
      exact List.mem_append_right _ (List.mem_singleton.2 rfl)
    · intro r hr h'
      rw [hrun, List.mem_append, List.mem_singleton] at hr
      rcases hr with hr | rfl
      · exact h.records.unchanged r hr h'
      · exact Bool.noConfusion h'
  have hl := login_settle (c.landed n data).authenticated
  refine ⟨ht, hrec.of_login hl, ?_, ?_⟩ <;>
    simp only [login, LoginState.mk.injEq] at hl <;> rw [hl.1]
  · exact fun h => NovusStatus.noConfusion h
  · exact fun h => NovusStatus.noConfusion h

/-- **A sound step** keeps the record. -/
theorem recordInv_step {i : Completion} (h : RecordInv env c) (hs : c.step env i = some c')
    (hc : StepSound c i) : RecordInv env c' := by
  have ht := tidy_step h.tidy hs
  cases i with
  | readError op => exact h.of_login ht (login_step_of_not_read hs (by simp))
  | write data error => exact h.of_login ht (login_step_of_not_read hs (by simp))
  | read op chunk =>
    obtain ⟨n, data, hr, hn, hd, hread⟩ := h.tidy.read hs
    have hn32 : n < 2 ^ 32 := lt_of_size hn hd
    have hsound : Sound (c.landed n data) := hr ▸ hc
    by_cases hch : (c.landed n data).verdict = .challenge
    · have hst : c.status = .challenge := (NovusHeadless.verdict_challenge_iff.1 hch).1
      have ha : (SAuthLogonChallengeData.ofBytes data).Accepted := hsound.challenge hch
      have hc' := handleRead_challenge hread hch
      rw [if_pos ha] at hc'
      rw [hc'] at ht ⊢
      exact recordInv_accepted h hst hn32 ht
    · by_cases hpr : (c.landed n data).verdict = .proof
      · obtain ⟨h22, hM⟩ := hsound.proof hpr
        have hc' := handleRead_proof hread hpr
        rw [if_pos (show c.proofM2 = (SAuthLogonProofData.ofBytes data).M2 from hM)] at hc'
        rw [hc'] at ht ⊢
        exact recordInv_authenticated h hn32 (by rwa [getActualSize_landed hn32] at h22) hM ht
      · exact h.of_login ht (login_handleRead hread hch hpr)

theorem not_statusRecords_of_step {i : Completion} (h : RecordInv env c)
    (hs : c.step env i = some c') (hc : ¬ StepSound c i) : ¬ StatusRecords env c' := by
  cases i with
  | readError op => exact absurd trivial hc
  | write data error => exact absurd trivial hc
  | read op chunk =>
    obtain ⟨n, data, hr, hn, hd, hread⟩ := h.tidy.read hs
    have hn32 : n < 2 ^ 32 := lt_of_size hn hd
    have hsound : ¬ Sound (c.landed n data) := hr ▸ hc
    intro hrec
    refine hsound ⟨?_, ?_⟩
    · intro hch
      -- a rejected challenge: the handler returned false and raised the status
      by_contra ha
      rw [logonChallenge_landed] at ha
      have hst : c.status = .challenge := (NovusHeadless.verdict_challenge_iff.1 hch).1
      have hc' := handleRead_challenge hread hch
      rw [if_neg ha] at hc'
      rw [hc'] at hrec
      have hmem := handlersRun_rejected c data hn32
      have := hrec.unchanged ⟨.challenge, data, n, c.status, .proof, false⟩
        (by rw [hmem]; exact List.mem_append_right _ (List.mem_singleton.2 rfl)) rfl
      rw [hst] at this
      exact NovusStatus.noConfusion this
    · intro hpr
      have hst : c.status = .proof := (NovusHeadless.verdict_proof_iff.1 hpr).1
      have hc' := handleRead_proof hread hpr
      rw [getActualSize_landed hn32]
      by_cases hM : c.proofM2 = (SAuthLogonProofData.ofBytes data).M2
      · -- a match over bytes that have not been received
        refine ⟨?_, hM⟩
        rw [if_pos hM] at hc'
        rw [hc'] at hrec
        have hrun := handlersRun_authenticated c data hn32
        have hauth := hrec.of_login (login_settle (c.landed n data).authenticated).symm
        obtain ⟨r, hr', hcmd, h22, -⟩ := hauth.proof rfl
        rw [hrun, List.mem_append, List.mem_singleton] at hr'
        rcases hr' with hr' | rfl
        · rw [h.challenged hst r hr'] at hcmd
          exact NovusCommand.noConfusion hcmd
        · exact h22
      · rw [if_neg hM] at hc'
        subst hc'
        have hmem := handlersRun_mismatched c data hn32
        have := hrec.unchanged ⟨.proof, data, n, c.status, .authed, false⟩
          (by rw [hmem]; exact List.mem_append_right _ (List.mem_singleton.2 rfl)) rfl
        rw [hst] at this
        exact NovusStatus.noConfusion this

lemma recordInv_started (h : Started env c) : RecordInv env c := by
  have ht := tidy_started h
  obtain ⟨-, proofM2, username, password, challenge, -, rfl⟩ := started_iff.1 h
  refine ⟨ht, ⟨fun h => NovusStatus.noConfusion h, fun h => NovusStatus.noConfusion h, ?_⟩,
    fun _ => rfl, fun h => NovusStatus.noConfusion h⟩
  intro r hr
  exact absurd hr (List.not_mem_nil)

/-- **When the status is a record.**  It is one at the start, and along a run exactly when every reply
that reaches a handler is sound. -/
theorem statusRecords_iff (h : Started env c) (is : List Completion) :
    StatusRecords env c ∧
      (Along (step env) (fun _ _ c' => StatusRecords env c') c is ↔
        Along (step env) (fun c i _ => StepSound c i) c is) := by
  refine ⟨(recordInv_started h).records, ?_⟩
  refine along_iff_of_inv ?_ ?_ (recordInv_started h) is
  · intro c i c' hinv hs hc
    have := recordInv_step hinv hs hc
    exact ⟨this, this.records⟩
  · intro c i c' hinv hs hc
    exact not_statusRecords_of_step hinv hs hc

end

theorem statusRecords_iff_sample :
    StatusRecords sampleEnv sampleConnection ∧
      (Along (step sampleEnv) (fun _ _ c' => StatusRecords sampleEnv c') sampleConnection
          [.read ⟨0, 4096⟩ sampleChallenge.toBytes] ↔
        Along (step sampleEnv) (fun c i _ => StepSound c i) sampleConnection
          [.read ⟨0, 4096⟩ sampleChallenge.toBytes]) :=
  statusRecords_iff started_sampleConnection _

/-- A challenge of 119 zeros: its `B` is zero. -/
def zeroChallenge : Bytes := List.replicate 119 0

lemma not_accepted_zeroChallenge (rest : Bytes) :
    ¬ (SAuthLogonChallengeData.ofBytes (zeroChallenge ++ rest)).Accepted := by
  rw [challengeData_append (by decide), accepted_iff]
  decide +kernel

/-- After a challenge of zeros the status is `PROOF`, though no challenge has been accepted. -/
theorem statusRecords_counterexample :
    Started sampleEnv sampleConnection ∧
      ∃ c', sampleConnection.step sampleEnv (.read ⟨0, 4096⟩ zeroChallenge) = some c' ∧
        c'.status = .proof ∧ ¬ StatusRecords sampleEnv c' := by
  refine ⟨started_sampleConnection, ?_⟩
  have hlen : zeroChallenge.length = 119 := List.length_replicate
  have hstep := step_sampleConnection zeroChallenge (by rw [hlen]; norm_num)
  rw [hlen, splice_zero] at hstep
  generalize (List.replicate 4096 (0 : UInt8)).drop zeroChallenge.length = rest at hstep
  have hna := not_accepted_zeroChallenge rest
  have hfront : (zeroChallenge ++ rest).getD 0 0 = NovusCommand.challenge.code := rfl
  generalize zeroChallenge ++ rest = data at hstep hna hfront
  have hv : (sampleConnection.landed 119 data).verdict = .challenge := by
    rw [verdict_landed (by norm_num), hfront]
    rfl
  rw [handleRead_of_rejected (fun _ => rfl) hv hna] at hstep
  refine ⟨_, hstep, rfl, ?_⟩
  intro hrec
  have hmem := handlersRun_rejected sampleConnection data (show 119 < 2 ^ 32 by norm_num)
  have := hrec.unchanged ⟨.challenge, data, 119, .challenge, .proof, false⟩
    (by rw [hmem]; exact List.mem_append_right _ (List.mem_singleton.2 rfl)) rfl
  exact NovusStatus.noConfusion this

end NovusHeadless
