import NovusHeadless.Connection.Runs

/-!
# Reads into an empty buffer

A first byte that is no command makes the loop call `Clean`, which takes the size of the vector to zero.
The growth rule multiplies the size, so the read that follows has no room and completes at once with no
bytes, and the next one too.

* `Reading` — no read is outstanding for an empty region;
* `reading_iff` — along every run no such read is started exactly when the first unread byte is a command
  whenever the socket is open;
* `step_empty_read` — behind `Clean` a completion starts the same empty read again.
-/

namespace NovusHeadless

open Lib NovusConnection

/-- Every outstanding read has room for at least one byte. -/
def Reading (c : NovusConnection) : Prop := ∀ op ∈ c.reads, 0 < op.len

/-- The condition on a step of a run: on an open socket, the first unread byte is a command. -/
def KnownFront (c : NovusConnection) (i : Completion) : Prop :=
  ∀ op chunk, i = .read op chunk → c.isOpen = true →
    (c.received op chunk).byteBuffer.getActualSize ≠ 0 →
      (c.received op chunk).byteBuffer.getDataPointer.getD 0 0 = NovusCommand.challenge.code ∨
        (c.received op chunk).byteBuffer.getDataPointer.getD 0 0 = NovusCommand.proof.code

/-- What a run keeps as long as its first bytes are commands. -/
structure ReadInv (c : NovusConnection) : Prop where
  tidy : c.Tidy
  reading : Reading c

section

variable {env : Env} {c c' : NovusConnection} {n : ℕ} {data : Bytes}

lemma verdict_unknown_iff {status : NovusStatus} {front : UInt8} (hs : status ≠ .closed) :
    NovusHeadless.verdict status front n = .unknown ↔
      n ≠ 0 ∧ front ≠ NovusCommand.challenge.code ∧ front ≠ NovusCommand.proof.code := by
  unfold NovusHeadless.verdict
  constructor
  · intro h
    split_ifs at h with h0 h1 h2 h3 h4 h5
    exact ⟨fun hn => h0 (.inr hn), h1, h5⟩
  · rintro ⟨hn, h1, h2⟩
    rw [if_neg (by simp [hs, hn]), if_neg h1, if_neg h2]

lemma reading_of_reads (h : c.reads = []) : Reading c := by
  intro op hop
  rw [h] at hop
  exact absurd hop List.not_mem_nil

lemma reading_waiting_iff : Reading (c.waiting n data) ↔ 0 < data.length - n := by
  constructor
  · intro h
    exact h _ (List.mem_singleton.2 rfl)
  · intro h op hop
    obtain rfl := List.mem_singleton.1 hop
    exact h

lemma ReadInv.size (h : ReadInv c) {op : ReadOp} (hop : op ∈ c.reads) {chunk : Bytes}
    (hc : chunk.length ≤ op.len) : (c.received op chunk).byteBuffer.bufferData.length = 4096 := by
  have hpos := h.reading op hop
  rcases h.tidy.shape with h0 | ⟨n, data, hw, hn, hs⟩
  · rw [h0] at hop
    exact absurd hop List.not_mem_nil
  · obtain rfl : op = ⟨n, data.length - n⟩ := by
      rw [hw] at hop
      exact List.mem_singleton.1 hop
    have hfit : chunk.length ≤ data.length - n := hc
    have hroom : 0 < data.length - n := hpos
    rw [hw]
    show (splice data n chunk).length = 4096
    rw [length_splice (by omega)]
    rcases hs with ⟨hl, -⟩ | rfl
    · exact hl
    · simp at hroom

/-- **One call** starts an empty read exactly when the socket is open and the verdict is that the command
is unknown. -/
theorem reading_handleRead_iff (hs : c.status ≠ .closed) (hn : n ≤ data.length)
    (hd : data.length = 4096) (h : (c.landed n data).handleRead env = some c') :
    Reading c' ↔ ¬ (c.isOpen = true ∧ (c.landed n data).verdict = .unknown) := by
  have hv : (c.landed n data).verdict = NovusHeadless.verdict c.status (data.getD 0 0) n :=
    verdict_landed (by omega)
  have hfront : Reading (c.waiting 0 data) := reading_waiting_iff.2 (by omega)
  rw [handleRead_outcome hs hn (.inl hd) h]
  cases hv' : (c.landed n data).verdict with
  | wait =>
    have h3 : n ≤ 3 := le_three_of_wait (hv.symm.trans hv') hs
    refine iff_of_true ?_ (by simp)
    simp only
    split_ifs
    · exact reading_waiting_iff.2 (by omega)
    · exact reading_of_reads rfl
  | unknown =>
    simp only
    split_ifs with ho
    · exact iff_of_false (fun hr => absurd (reading_waiting_iff.1 hr) (by simp)) (by simp [ho])
    · exact iff_of_true (reading_of_reads rfl) (by simp [ho])
  | challenge =>
    refine iff_of_true ?_ (by simp)
    simp only
    split_ifs
    · exact hfront
    · exact reading_of_reads rfl
    · exact reading_of_reads rfl
    · exact reading_of_reads rfl
  | proof =>
    refine iff_of_true ?_ (by simp)
    simp only
    split_ifs
    · exact hfront
    · exact reading_of_reads rfl
    · exact reading_of_reads rfl
    · exact reading_of_reads rfl
  | wrongStep => exact iff_of_true (reading_of_reads rfl) (by simp)
  | challengeFailed => exact iff_of_true (reading_of_reads rfl) (by simp)
  | proofFailed => exact iff_of_true (reading_of_reads rfl) (by simp)

/-- **One step** starts no empty read exactly when its first byte is a command. -/
theorem reading_step_iff {i : Completion} (hinv : ReadInv c) (hs : c.step env i = some c') :
    Reading c' ↔ KnownFront c i := by
  cases i with
  | readError op =>
    obtain ⟨-, rfl⟩ := readError_of_step hs
    refine iff_of_true ?_ (fun op' chunk h => by simp at h)
    intro op' hop
    exact hinv.reading op' (List.mem_of_mem_erase hop)
  | write bytes error =>
    obtain ⟨-, rfl⟩ := write_of_step hs
    refine iff_of_true ?_ (fun op' chunk h => by simp at h)
    cases error <;> exact hinv.reading
  | read op chunk =>
    obtain ⟨n, data, hr, hn, -, hread⟩ := hinv.tidy.read hs
    have hguard : op ∈ c.reads ∧ chunk.length ≤ op.len := by
      by_contra hg
      simp [step, hg] at hs
    have hd : data.length = 4096 := by
      have := hinv.size hguard.1 hguard.2
      rwa [hr] at this
    have hn32 : n < 2 ^ 32 := by omega
    rw [reading_handleRead_iff hinv.tidy.status_ne hn hd hread, verdict_landed hn32,
      verdict_unknown_iff hinv.tidy.status_ne]
    have hknown : KnownFront c (.read op chunk) ↔ (c.isOpen = true → n ≠ 0 →
        data.getD 0 0 = NovusCommand.challenge.code ∨
          data.getD 0 0 = NovusCommand.proof.code) := by
      constructor
      · intro h ho h0
        have := h op chunk rfl ho
        rw [hr, getActualSize_landed hn32] at this
        exact this h0
      · rintro h op' chunk' heq ho
        obtain ⟨rfl, rfl⟩ := Completion.read.inj heq
        rw [hr, getActualSize_landed hn32]
        exact h ho
    rw [hknown]
    tauto

/-- **When no read is started for an empty region.**  None is outstanding at the start, and along a run
exactly when on an open socket the first unread byte is always a command. -/
theorem reading_iff (h : Started env c) (is : List Completion) :
    Reading c ∧
      (Along (step env) (fun _ _ c' => Reading c') c is ↔
        Along (step env) (fun c i _ => KnownFront c i) c is) := by
  have hread : Reading c := by
    obtain ⟨-, proofM2, username, password, challenge, -, rfl⟩ := started_iff.1 h
    rw [greeted_eq]
    exact reading_waiting_iff.2 (by rw [List.length_replicate]; norm_num)
  refine ⟨hread, along_iff_of_inv ?_ ?_ (ReadInv.mk (tidy_started h) hread) is⟩
  · intro c i c' hinv hs hc
    have hr := (reading_step_iff hinv hs).2 hc
    exact ⟨⟨tidy_step hinv.tidy hs, hr⟩, hr⟩
  · intro c i c' hinv hs hc hq
    exact hc ((reading_step_iff hinv hs).1 hq)

/-- **Behind `Clean`** a completion of the empty read starts it again and changes nothing else. -/
theorem step_empty_read (ho : c.isOpen = true) :
    (c.waiting 0 []).step env (.read ⟨0, 0⟩ []) = some (c.waiting 0 []) := by
  have hv : (c.landed 0 []).verdict = .wait :=
    verdict_eq_wait (.inr (getActualSize_landed (by norm_num)))
  have hread : (c.landed 0 []).handleRead env = some (c.landed 0 []).asyncRead := by
    rw [handleRead_eq env _ rfl, hv]
  rw [asyncRead_landed_nil ho] at hread
  exact hread

end

theorem reading_iff_sample :
    Reading sampleConnection ∧
      (Along (step sampleEnv) (fun _ _ c' => Reading c') sampleConnection
          [.read ⟨0, 4096⟩ sampleChallenge.toBytes] ↔
        Along (step sampleEnv) (fun c i _ => KnownFront c i) sampleConnection
          [.read ⟨0, 4096⟩ sampleChallenge.toBytes]) :=
  reading_iff started_sampleConnection _

/-- One byte that is no command leaves a read for an empty region. -/
theorem reading_counterexample :
    Started sampleEnv sampleConnection ∧
      ∃ c', sampleConnection.step sampleEnv (.read ⟨0, 4096⟩ [2]) = some c' ∧
        c'.isOpen = true ∧ c'.reads = [⟨0, 0⟩] ∧ ¬ Reading c' := by
  refine ⟨started_sampleConnection, ?_⟩
  have hstep := step_sampleConnection [2] (by simp)
  have hfront : (splice (List.replicate 4096 (0 : UInt8)) 0 [2]).getD 0 0 = 2 := by
    rw [splice_zero]
    rfl
  generalize splice (List.replicate 4096 (0 : UInt8)) 0 [2] = data at hstep hfront
  have hv : (sampleConnection.landed 1 data).verdict = .unknown := by
    rw [verdict_landed (by norm_num), hfront]
    rfl
  have hread : (sampleConnection.landed 1 data).handleRead sampleEnv =
      some (sampleConnection.waiting 0 []) := by
    rw [handleRead_eq _ _ rfl, hv]
    exact congrArg some (asyncRead_cleaned rfl)
  refine ⟨_, hstep.trans hread, rfl, rfl, ?_⟩
  intro h
  exact absurd (reading_waiting_iff.1 h) (by simp)

end NovusHeadless
