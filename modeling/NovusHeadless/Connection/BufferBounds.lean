import NovusHeadless.Connection.Runs

/-!
# The positions of the receive buffer

The loop decides by the table size of a message whether it is complete, and moves the read position by a
larger number once its handler has returned true: 119 for a challenge, 36 for a proof.  Nothing compares
that number with the bytes that have been received.

* `Exact` — the positions are in order and the size getters are the exact differences;
* `Fits` — a reply whose handler returns true has as many bytes as the loop will skip;
* `bufferBounds_iff` — along every run, at every test of the loop condition and between calls, the buffer
  is exact precisely when every such reply fits.
-/

namespace NovusHeadless

open Lib NovusConnection

/-- The positions are in order and no conversion of the size getters wraps. -/
structure Exact (b : ByteBuffer) : Prop where
  ordered : b.Ordered
  actualSize_eq : (b.getActualSize : ℤ) = b.writePos - b.readPos
  spaceLeft_eq : (b.getSpaceLeft : ℤ) = b.bufferData.length - b.writePos

lemma exact_of_ordered {b : ByteBuffer} (h : b.Ordered) : Exact b := by
  have hr := h.read_le
  have hw := h.write_le
  refine ⟨h, ?_, ?_⟩
  · rw [ByteBuffer.getActualSize_of_ordered h]
    omega
  · rw [ByteBuffer.getSpaceLeft_of_ordered h]
    omega

/-- The states in which `HandleRead`, called for the completion, starts or tests its loop condition. -/
def Tested (env : Env) (c : NovusConnection) : Completion → NovusConnection → Prop
  | .read op chunk, t => t = c.received op chunk ∨ LoopTest env (c.received op chunk) t
  | _, _ => False

/-- The buffer is exact throughout a step and behind it. -/
def ExactStep (env : Env) (c : NovusConnection) (i : Completion) (c' : NovusConnection) : Prop :=
  (∀ t, Tested env c i t → Exact t.byteBuffer) ∧ Exact c'.byteBuffer

/-- A reply whose handler returns true has as many bytes as the loop skips. -/
structure Fits (c : NovusConnection) : Prop where
  challenge : c.verdict = .challenge → c.logonChallenge.Accepted →
    119 ≤ c.byteBuffer.getActualSize
  proof : c.verdict = .proof → c.proofM2 = c.logonProof.M2 → 36 ≤ c.byteBuffer.getActualSize

/-- The condition on a step of a run: the reply that has come in fits. -/
def StepFits (c : NovusConnection) : Completion → Prop
  | .read op chunk => Fits (c.received op chunk)
  | _ => True

section

variable {env : Env} {c c' : NovusConnection} {n : ℕ} {data : Bytes}

lemma ordered_landed (hn : n ≤ data.length) (hd : data.length < 2 ^ 32) :
    (c.landed n data).byteBuffer.Ordered := ⟨Nat.zero_le _, hn, hd⟩

lemma ordered_waiting (hn : n ≤ data.length) (hd : data.length < 2 ^ 32) :
    (c.waiting n data).byteBuffer.Ordered := ⟨Nat.zero_le _, hn, hd⟩

/-- A reply that fits leaves the positions in order. -/
lemma ordered_handleRead (hs : c.status ≠ .closed) (hn : n ≤ data.length)
    (hd : data.length = 4096 ∨ data = []) (hfits : Fits (c.landed n data))
    (h : (c.landed n data).handleRead env = some c') : c'.byteBuffer.Ordered := by
  have hn32 : n < 2 ^ 32 := lt_of_size hn hd
  have hd32 : data.length < 2 ^ 32 := lt_of_size le_rfl hd
  have hv : (c.landed n data).verdict = NovusHeadless.verdict c.status (data.getD 0 0) n :=
    verdict_landed hn32
  have hland : (c.landed n data).byteBuffer.Ordered := ordered_landed hn hd32
  rw [handleRead_outcome hs hn hd h]
  cases hv' : (c.landed n data).verdict with
  | challenge =>
    -- the read position is behind the 119 bytes of the reply
    have h119 : (SAuthLogonChallengeData.ofBytes data).Accepted → 119 ≤ n := by
      intro ha
      have := hfits.challenge hv' ha
      rwa [getActualSize_landed hn32] at this
    simp only
    split_ifs with ha
    · exact ordered_waiting (Nat.zero_le _) hd32
    · exact ⟨h119 ha, hn, hd32⟩
    · exact ⟨h119 ha, hn, hd32⟩
    · exact hland
  | proof =>
    have h36 : c.proofM2 = (SAuthLogonProofData.ofBytes data).M2 → 36 ≤ n := by
      intro hM
      have := hfits.proof hv' hM
      rwa [getActualSize_landed hn32] at this
    simp only
    split_ifs with hM
    · exact ordered_waiting (Nat.zero_le _) hd32
    · exact ⟨h36 hM, hn, hd32⟩
    · exact ⟨h36 hM, hn, hd32⟩
    · exact hland
  | wait =>
    simp only
    split_ifs
    · exact ordered_waiting hn hd32
    · exact hland
  | unknown =>
    simp only
    split_ifs
    · exact ordered_waiting (Nat.zero_le _) (by norm_num)
    · exact ordered_landed (Nat.zero_le _) (by norm_num)
  | wrongStep => exact hland
  | challengeFailed =>
    obtain rfl := eq_three_of_challengeFailed (hv.symm.trans hv')
    exact ⟨le_rfl, hn, hd32⟩
  | proofFailed =>
    obtain rfl := eq_four_of_proofFailed (hv.symm.trans hv')
    exact ⟨le_rfl, hn, hd32⟩

theorem exactStep_of_fits {i : Completion} (ht : c.Tidy) (ho : c.byteBuffer.Ordered)
    (hs : c.step env i = some c') (hc : StepFits c i) :
    c'.byteBuffer.Ordered ∧ ExactStep env c i c' := by
  cases i with
  | readError op =>
    obtain ⟨-, rfl⟩ := readError_of_step hs
    exact ⟨ho, fun t h => h.elim, exact_of_ordered ho⟩
  | write bytes error =>
    obtain ⟨-, rfl⟩ := write_of_step hs
    have ho' : (c.handleInternalWrite bytes error).byteBuffer.Ordered := by
      cases error <;> exact ho
    exact ⟨ho', fun t h => h.elim, exact_of_ordered ho'⟩
  | read op chunk =>
    obtain ⟨n, data, hr, hn, hd, hread⟩ := ht.read hs
    have hn32 : n < 2 ^ 32 := lt_of_size hn hd
    have hd32 : data.length < 2 ^ 32 := lt_of_size le_rfl hd
    have hfits : Fits (c.landed n data) := hr ▸ hc
    have hland : (c.landed n data).byteBuffer.Ordered := ordered_landed hn hd32
    have ho' := ordered_handleRead ht.status_ne hn hd hfits hread
    refine ⟨ho', ?_, exact_of_ordered ho'⟩
    intro t h
    -- behind a handler the read position is at the number of bytes the loop skips
    have htest : t = c.landed n data ∨ LoopTest env (c.landed n data) t := by
      rw [← hr]
      exact h
    apply exact_of_ordered
    rcases htest with rfl | htest
    · exact hland
    · rcases (loopTest_landed_iff ht.status_ne t).1 htest with
        rfl | ⟨hv, -, ha, rfl⟩ | ⟨hv, hM, rfl⟩
      · exact hland
      · have h119 := hfits.challenge hv ha
        rw [getActualSize_landed hn32] at h119
        exact ⟨h119, hn, hd32⟩
      · have h36 := hfits.proof hv hM
        rw [getActualSize_landed hn32] at h36
        exact ⟨h36, hn, hd32⟩

theorem not_exactStep_of_not_fits {i : Completion} (ht : c.Tidy) (hs : c.step env i = some c')
    (hc : ¬ StepFits c i) : ¬ ExactStep env c i c' := by
  cases i with
  | readError op => exact absurd trivial hc
  | write bytes error => exact absurd trivial hc
  | read op chunk =>
    obtain ⟨n, data, hr, hn, hd, hread⟩ := ht.read hs
    have hn32 : n < 2 ^ 32 := lt_of_size hn hd
    have hfits : ¬ Fits (c.landed n data) := hr ▸ hc
    rintro ⟨hex, -⟩
    have hex' : ∀ t, LoopTest env (c.landed n data) t → Exact t.byteBuffer := by
      intro t h
      refine hex t (.inr ?_)
      rw [hr]
      exact h
    refine hfits ⟨?_, ?_⟩
    · intro hv ha
      have hk : env.callHook (c.landed n data).challengeCall = true := by
        rw [handleRead_eq env _ rfl] at hread
        simp only [hv, Option.ite_none_right_eq_some] at hread
        exact hread.1
      have htest := (loopTest_landed_iff ht.status_ne _).2 (.inr (.inl ⟨hv, hk, ha, rfl⟩))
      rw [getActualSize_landed hn32]
      exact (hex' _ htest).ordered.read_le
    · intro hv hM
      have htest : LoopTest env (c.landed n data) _ :=
        (loopTest_landed_iff ht.status_ne _).2 (.inr (.inr ⟨hv, hM, rfl⟩))
      rw [getActualSize_landed hn32]
      exact (hex' _ htest).ordered.read_le

/-- What a run keeps as long as its replies fit. -/
structure BoundsInv (c : NovusConnection) : Prop where
  tidy : c.Tidy
  ordered : c.byteBuffer.Ordered

/-- **When the positions stay in order.**  The buffer is exact at the start, and throughout a run exactly
when every reply whose handler returns true has as many bytes as the loop skips. -/
theorem bufferBounds_iff (h : Started env c) (is : List Completion) :
    Exact c.byteBuffer ∧
      (Along (step env) (ExactStep env) c is ↔
        Along (step env) (fun c i _ => StepFits c i) c is) := by
  have ht := tidy_started h
  have hord : c.byteBuffer.Ordered := by
    obtain ⟨-, proofM2, username, password, challenge, -, rfl⟩ := started_iff.1 h
    rw [greeted_eq]
    exact ordered_waiting (Nat.zero_le _) (by rw [List.length_replicate]; norm_num)
  refine ⟨exact_of_ordered hord, along_iff_of_inv ?_ ?_ (BoundsInv.mk ht hord) is⟩
  · intro c i c' hinv hs hc
    obtain ⟨ho', hex⟩ := exactStep_of_fits hinv.tidy hinv.ordered hs hc
    exact ⟨⟨tidy_step hinv.tidy hs, ho'⟩, hex⟩
  · intro c i c' hinv hs hc
    exact not_exactStep_of_not_fits hinv.tidy hs hc

end

theorem bufferBounds_iff_sample :
    Exact sampleConnection.byteBuffer ∧
      (Along (step sampleEnv) (ExactStep sampleEnv) sampleConnection
          [.read ⟨0, 4096⟩ sampleChallenge.toBytes] ↔
        Along (step sampleEnv) (fun c i _ => StepFits c i) sampleConnection
          [.read ⟨0, 4096⟩ sampleChallenge.toBytes]) :=
  bufferBounds_iff started_sampleConnection _

/-- The first 70 bytes of a challenge: everything up to the modulus. -/
def shortChallenge : Bytes := sampleChallenge.toBytes.take 70

lemma accepted_shortChallenge (rest : Bytes) :
    (SAuthLogonChallengeData.ofBytes (shortChallenge ++ rest)).Accepted := by
  rw [accepted_iff]
  show leVal (field (shortChallenge ++ rest) 3 32).toList %
    leVal (field (shortChallenge ++ rest) 38 32).toList ≠ 0
  rw [field_append (by decide), field_append (by decide)]
  decide +kernel

/-- A challenge of which 70 bytes have arrived is processed, and the read position moves to 119. -/
theorem bufferBounds_counterexample :
    Started sampleEnv sampleConnection ∧
      ∃ c', sampleConnection.step sampleEnv (.read ⟨0, 4096⟩ shortChallenge) = some c' ∧
        c'.byteBuffer.readPos = 119 ∧ c'.byteBuffer.writePos = 70 ∧
        c'.byteBuffer.getActualSize = 2 ^ 32 - 49 ∧ ¬ Exact c'.byteBuffer := by
  refine ⟨started_sampleConnection, ?_⟩
  have hlen : shortChallenge.length = 70 := by decide
  have hstep := step_sampleConnection shortChallenge (by rw [hlen]; norm_num)
  have hsize : (splice (List.replicate 4096 0) 0 shortChallenge).length = 4096 := by
    rw [length_splice (by rw [hlen, List.length_replicate]; norm_num), List.length_replicate]
  rw [splice_zero, hlen] at hsize hstep
  generalize (List.replicate 4096 (0 : UInt8)).drop 70 = rest at hsize hstep
  have hacc := accepted_shortChallenge rest
  have hfront : (shortChallenge ++ rest).getD 0 0 = NovusCommand.challenge.code := rfl
  generalize shortChallenge ++ rest = data at hsize hstep hacc hfront
  have hv : (sampleConnection.landed 70 data).verdict = .challenge := by
    rw [verdict_landed (by norm_num), hfront]
    rfl
  rw [handleRead_of_accepted (fun _ => rfl) hv hacc,
    settle_accepted (by omega) (by omega) (by omega), if_neg (by norm_num)] at hstep
  refine ⟨_, hstep, rfl, rfl, ?_, ?_⟩
  · exact ByteBuffer.getActualSize_of_lt (show 70 < 119 by norm_num)
      (show 119 < 2 ^ 32 by norm_num)
  · intro h
    exact absurd h.ordered.read_le (show ¬ 119 ≤ 70 by norm_num)

end NovusHeadless
