import NovusHeadless.Lib.Cuts
import NovusHeadless.Connection.Runs

/-!
# Replies in pieces

A reply that arrives in pieces is looked at as soon as its header is complete, and whatever has been
buffered by then decides: exactly a header counts as a failure, anything more is processed as a whole
reply, the missing bytes being what the buffer held before.

* `deliver_gather` — pieces that do not complete the header are only collected, so a run over pieces is
  the run over the first front with a whole header;
* `fragmentation_iff` — when the pieces of a reply lead to the same as the whole reply.
-/

namespace NovusHeadless

open Lib NovusConnection

/-- What can be seen of a connection. -/
structure Observation where
  status : NovusStatus
  isClosed : Bool
  key : BigNumber
  proofM2 : Digest
  sent : List Bytes
  hookCalls : List HookCall

def NovusConnection.observe (c : NovusConnection) : Observation :=
  ⟨c.status, c.isClosed, c.key, c.proofM2, c.sent, c.hookCalls⟩

section

variable {env : Env} {c : NovusConnection} {data : Bytes} {m : Reply} {chunks : List Bytes}

lemma getD_part {x rest : Bytes} (hx : x ++ rest = m.bytes) {i : ℕ} (hi : i < x.length)
    (data : Bytes) : (splice data 0 x).getD i 0 = m.bytes.getD i 0 := by
  rw [getD_splice hi, ← hx, List.getD_append _ _ _ _ hi]

lemma front_part {x rest : Bytes} (hx : x ++ rest = m.bytes) (h : 0 < x.length) (data : Bytes) :
    (splice data 0 x).getD 0 0 = m.kind.command.code := by
  have hm := m.getD_zero []
  rw [List.append_nil] at hm
  rw [getD_part hx h, hm]

/-- **Pieces of a header are collected.** -/
theorem deliver_gather (hi : Idle c data) (hs : c.status = m.kind.status)
    (hfit : m.bytes.length ≤ data.length) (hcut : chunks.flatten = m.bytes) (hne : chunks ≠ []) :
    c.deliver env chunks = c.deliver env ((gather m.kind.command.headerSize [] chunks).1 ::
      (gather m.kind.command.headerSize [] chunks).2) := by
  have hmerge : ∀ x y zs, x.length < m.kind.command.headerSize →
      x ++ (y ++ zs.flatten) = m.bytes →
      c.deliver env (x :: y :: zs) = c.deliver env ((x ++ y) :: zs) := by
    intro x y zs hx hxy
    have hlen := congrArg List.length hxy
    simp only [List.length_append] at hlen
    have hsize := m.headerSize_le
    rw [hi.eq_waiting]
    refine deliver_merge hi.isOpen_eq hi.size_lt (by rw [List.length_append]; omega) (by omega) ?_ zs
    rw [Nat.zero_add]
    by_cases h0 : x.length = 0
    · exact if_pos (.inr h0)
    · -- the first byte of the reply has arrived
      rw [front_part hxy (by omega)]
      exact verdict_of_lt hs hx
  have hnil : c.deliver env chunks = c.deliver env ([] :: chunks) := by
    cases chunks with
    | nil => exact absurd rfl hne
    | cons y ys =>
      have hpos : 0 < m.kind.command.headerSize := by cases m.kind <;> decide
      have h := hmerge [] y ys (by simpa using hpos) (by rw [← hcut]; rfl)
      exact h.symm
  rw [hnil]
  exact run_gather hmerge chunks [] (by rw [← hcut]; rfl)

/-- The pieces lead to the same as the whole reply. -/
def SameAsWhole (env : Env) (c : NovusConnection) (m : Reply) (chunks : List Bytes) : Prop :=
  (c.deliver env chunks).map observe = (c.deliver env [m.bytes]).map observe

/-- The cuts into pieces that do no harm.  For a challenge, `firstTotal 3 chunks` is the number of bytes
buffered when its header is complete: the whole reply; or fewer, and then the hook does not return, or
neither the reply nor what the buffer holds by then passes the test of `B`.  For a proof, the four bytes
of its header must not be alone. -/
def Harmless (env : Env) (c : NovusConnection) (data : Bytes) (m : Reply) (chunks : List Bytes) :
    Prop :=
  match m.kind with
  | .challenge =>
    firstTotal 3 chunks = 119 ∨
      env.callHook ⟨.onLoginChallenge, c.username, m.bytes.getD 2 0⟩ = false ∨
      3 < firstTotal 3 chunks ∧ ¬ (SAuthLogonChallengeData.ofBytes m.bytes).Accepted ∧
        ¬ (SAuthLogonChallengeData.ofBytes
          (splice data 0 (m.bytes.take (firstTotal 3 chunks)))).Accepted
  | .proof => firstTotal 4 chunks ≠ 4
  | .challengeFailed | .proofFailed => True

lemma observe_rejected {n : ℕ} :
    (c.landed n data).rejected.observe = ⟨.proof, true, c.key, c.proofM2, c.sent,
      c.hookCalls ++ [⟨.onLoginChallenge, c.username, data.getD 2 0⟩]⟩ := rfl

/-- **A whole challenge**, seen from outside. -/
lemma observe_whole_challenge (hi : Idle c data) (hs : c.status = .challenge)
    (hk : m.kind = .challenge) (hfit : m.bytes.length ≤ data.length)
    (hcall : env.callHook ⟨.onLoginChallenge, c.username, m.bytes.getD 2 0⟩ = true) :
    ∃ o, (c.deliver env [m.bytes]).map observe = some o ∧ o.status = .proof ∧
      ((SAuthLogonChallengeData.ofBytes m.bytes).Accepted → o.isClosed = false) ∧
      (¬ (SAuthLogonChallengeData.ofBytes m.bytes).Accepted →
        o = ⟨.proof, true, c.key, c.proofM2, c.sent,
          c.hookCalls ++ [⟨.onLoginChallenge, c.username, m.bytes.getD 2 0⟩]⟩) := by
  have hl := Reply.length_challenge hk
  have hlen : (splice data 0 m.bytes).length = data.length := length_splice (by omega)
  have hd := hi.size_lt
  have hfront : (splice data 0 m.bytes).getD 0 0 = NovusCommand.challenge.code := by
    rw [m.front_splice, hk]
    rfl
  have hbyte : (splice data 0 m.bytes).getD 2 0 = m.bytes.getD 2 0 := getD_splice (by omega) data
  rw [deliver_idle hi (by omega), hl, handleRead_challenge_header hs hfront (by norm_num)
    (by norm_num), hbyte, if_pos hcall, if_neg (by norm_num), Reply.challengeData_splice hk]
  simp only [Option.bind_some, deliver, Option.map_some]
  by_cases ha : (SAuthLogonChallengeData.ofBytes m.bytes).Accepted
  · simp only [if_pos ha]
    rw [settle_accepted (by omega) (by omega) (by omega), if_pos rfl, if_pos hi.isOpen_eq]
    exact ⟨_, rfl, rfl, fun _ => hi.isClosed_eq, fun h => absurd ha h⟩
  · simp only [if_neg ha]
    refine ⟨_, rfl, rfl, fun h => absurd h ha, ?_⟩
    intro _
    rw [observe_rejected, hbyte]

/-- **A part of a challenge** with its header, seen from outside. -/
lemma observe_part_challenge (hi : Idle c data) (hs : c.status = .challenge)
    (hk : m.kind = .challenge) (hfit : m.bytes.length ≤ data.length) {x : Bytes} {xs : List Bytes}
    (hx : x ++ xs.flatten = m.bytes) (h3 : 3 ≤ x.length) (hlt : x.length < 119)
    (hcall : env.callHook ⟨.onLoginChallenge, c.username, m.bytes.getD 2 0⟩ = true) :
    ∃ o, (c.deliver env (x :: xs)).map observe = some o ∧ o.isClosed = true ∧
      (x.length = 3 → o.status = .challenge) ∧
      (x.length ≠ 3 → (SAuthLogonChallengeData.ofBytes (splice data 0 x)).Accepted →
        o.sent.length = c.sent.length + 1) ∧
      (x.length ≠ 3 → ¬ (SAuthLogonChallengeData.ofBytes (splice data 0 x)).Accepted →
        o = ⟨.proof, true, c.key, c.proofM2, c.sent,
          c.hookCalls ++ [⟨.onLoginChallenge, c.username, m.bytes.getD 2 0⟩]⟩) := by
  have hl := Reply.length_challenge hk
  have hlen : (splice data 0 x).length = data.length := length_splice (by omega)
  have hd := hi.size_lt
  have hbyte : (splice data 0 x).getD 2 0 = m.bytes.getD 2 0 := getD_part hx (by omega) data
  have hfront : (splice data 0 x).getD 0 0 = NovusCommand.challenge.code := by
    rw [front_part hx (by omega), hk]
    rfl
  have hx119 : x.length ≠ 119 := by omega
  have hclose : ((c.landed x.length (splice data 0 x)).accepted env).settle =
      ((c.landed x.length (splice data 0 x)).accepted env).close := by
    rw [settle_accepted (by omega) (by omega) (by omega), if_neg hx119]
  rw [deliver_idle hi (by omega), handleRead_challenge_header hs hfront h3 (by omega),
    hbyte, if_pos hcall, Option.bind_some, hclose]
  by_cases h : x.length = 3
  · simp only [if_pos h]
    rw [deliver_of_reads rfl]
    exact ⟨_, rfl, rfl, fun _ => hs, fun h' => absurd h h', fun h' => absurd h h'⟩
  · simp only [if_neg h]
    by_cases ha : (SAuthLogonChallengeData.ofBytes (splice data 0 x)).Accepted
    · simp only [if_pos ha]
      rw [deliver_of_reads rfl]
      refine ⟨_, rfl, rfl, fun h' => absurd h' h, ?_, fun _ h' => absurd ha h'⟩
      intro _ _
      show ((c.landed x.length (splice data 0 x)).accepted env).sent.length = _
      rw [sent_accepted, List.length_append]
      rfl
    · simp only [if_neg ha]
      rw [deliver_of_reads rfl]
      refine ⟨_, rfl, rfl, fun h' => absurd h' h, fun _ h' => absurd h' ha, ?_⟩
      intro _ _
      rw [observe_rejected, hbyte]

lemma deliver_of_throw (hi : Idle c data) (hs : c.status = .challenge) (hk : m.kind = .challenge)
    (hfit : m.bytes.length ≤ data.length) {x : Bytes} {xs : List Bytes}
    (hx : x ++ xs.flatten = m.bytes) (h3 : 3 ≤ x.length)
    (hcall : env.callHook ⟨.onLoginChallenge, c.username, m.bytes.getD 2 0⟩ = false) :
    c.deliver env (x :: xs) = none := by
  have hle : x.length ≤ m.bytes.length := by
    rw [← hx, List.length_append]
    omega
  have hbyte : (splice data 0 x).getD 2 0 = m.bytes.getD 2 0 := getD_part hx (by omega) data
  have hfront : (splice data 0 x).getD 0 0 = NovusCommand.challenge.code := by
    rw [front_part hx (by omega), hk]
    rfl
  have hd := hi.size_lt
  rw [deliver_idle hi (by omega), handleRead_challenge_header hs hfront h3 (by omega),
    hbyte, if_neg (by rw [hcall]; exact Bool.noConfusion), Option.bind_none]

/-- **A part of a proof** with its header, or the whole proof, seen from outside. -/
lemma observe_part_proof (hi : Idle c data) (hs : c.status = .proof) (hk : m.kind = .proof)
    (hfit : m.bytes.length ≤ data.length) {x : Bytes} {xs : List Bytes}
    (hx : x ++ xs.flatten = m.bytes) (h4 : 4 ≤ x.length) :
    (c.deliver env (x :: xs)).map observe =
      some ⟨if x.length = 4 then .proof else .authed, true, c.key, c.proofM2, c.sent,
        c.hookCalls⟩ := by
  have hl := Reply.length_proof hk
  have hle : x.length ≤ 32 := by
    rw [← hl, ← hx, List.length_append]
    omega
  have hlen : (splice data 0 x).length = data.length := length_splice (by omega)
  have hd := hi.size_lt
  have hfront : (splice data 0 x).getD 0 0 = NovusCommand.proof.code := by
    rw [front_part hx (by omega), hk]
    rfl
  have hx36 : x.length ≠ 36 := by omega
  have hclose : (c.landed x.length (splice data 0 x)).authenticated.settle =
      (c.landed x.length (splice data 0 x)).authenticated.close := by
    rw [settle_authenticated (by omega) (by omega) (by omega), if_neg hx36]
  rw [deliver_idle hi (by omega), handleRead_proof_header hs hfront h4 (by omega), hclose,
    Option.bind_some]
  by_cases h : x.length = 4
  · simp only [if_pos h]
    rw [deliver_of_reads rfl, ← hs]
    rfl
  · simp only [if_neg h]
    -- whatever the comparison says, the status is raised and the connection is closed
    split_ifs
    · rw [deliver_of_reads rfl]
      rfl
    · rw [deliver_of_reads rfl]
      rfl

lemma challenge_part_iff (hi : Idle c data) (hs : c.status = .challenge) (hk : m.kind = .challenge)
    (hfit : m.bytes.length ≤ data.length) {x : Bytes} {xs : List Bytes}
    (hx : x ++ xs.flatten = m.bytes) (h3 : 3 ≤ x.length) (hlt : x.length < 119) :
    (c.deliver env (x :: xs)).map observe = (c.deliver env [m.bytes]).map observe ↔
      env.callHook ⟨.onLoginChallenge, c.username, m.bytes.getD 2 0⟩ = false ∨
        3 < x.length ∧ ¬ (SAuthLogonChallengeData.ofBytes m.bytes).Accepted ∧
          ¬ (SAuthLogonChallengeData.ofBytes (splice data 0 x)).Accepted := by
  have hl := Reply.length_challenge hk
  cases hcall : env.callHook ⟨.onLoginChallenge, c.username, m.bytes.getD 2 0⟩ with
  | false =>
    rw [deliver_of_throw hi hs hk hfit hx h3 hcall,
      deliver_of_throw hi hs hk hfit (by simp) (by omega) hcall]
    exact iff_of_true rfl (.inl rfl)
  | true =>
    obtain ⟨o, ho, hst, hopen, hrej⟩ := observe_whole_challenge hi hs hk hfit hcall
    obtain ⟨o', ho', hcl, hshort, hacc', hrej'⟩ :=
      observe_part_challenge hi hs hk hfit hx h3 hlt hcall
    rw [ho, ho', Option.some.injEq, or_iff_right (by simp)]
    by_cases h : x.length = 3
    · refine iff_of_false ?_ (fun hq => absurd hq.1 (by omega))
      rintro rfl
      rw [hshort h] at hst
      exact NovusStatus.noConfusion hst
    · by_cases ha : (SAuthLogonChallengeData.ofBytes m.bytes).Accepted
      · refine iff_of_false ?_ (fun hq => hq.2.1 ha)
        rintro rfl
        rw [hopen ha] at hcl
        exact Bool.noConfusion hcl
      · by_cases ha' : (SAuthLogonChallengeData.ofBytes (splice data 0 x)).Accepted
        · refine iff_of_false ?_ (fun hq => hq.2.2 ha')
          rintro rfl
          have := hacc' h ha'
          rw [hrej ha] at this
          simp at this
        · exact iff_of_true ((hrej' h ha').trans (hrej ha).symm) ⟨by omega, ha, ha'⟩

lemma harmless_of_whole (h : (gather m.kind.command.headerSize [] chunks).1.length =
    m.bytes.length) : Harmless env c data m chunks := by
  rw [m.length_eq] at h
  unfold Harmless
  cases hk : m.kind with
  | challenge =>
    rw [hk] at h
    exact .inl h
  | proof =>
    rw [hk] at h
    have h32 : firstTotal 4 chunks = 32 := h
    intro h4
    omega
  | challengeFailed => trivial
  | proofFailed => trivial

/-- **A part of a reply** with its header leads to the same as the whole exactly when the cut is
harmless. -/
lemma part_iff (hi : Idle c data) (hs : c.status = m.kind.status)
    (hfit : m.bytes.length ≤ data.length)
    (hflat : (gather m.kind.command.headerSize [] chunks).1 ++
      (gather m.kind.command.headerSize [] chunks).2.flatten = m.bytes)
    (hheader : m.kind.command.headerSize ≤ (gather m.kind.command.headerSize [] chunks).1.length)
    (hlt : (gather m.kind.command.headerSize [] chunks).1.length < m.bytes.length) :
    (c.deliver env ((gather m.kind.command.headerSize [] chunks).1 ::
        (gather m.kind.command.headerSize [] chunks).2)).map observe =
      (c.deliver env [m.bytes]).map observe ↔ Harmless env c data m chunks := by
  have htake : (gather m.kind.command.headerSize [] chunks).1 =
      m.bytes.take (firstTotal m.kind.command.headerSize chunks) := by
    rw [← hflat]
    exact (List.take_left' rfl).symm
  unfold Harmless
  rw [m.length_eq] at hlt
  cases hk : m.kind with
  | challenge =>
    rw [hk] at hs hflat hheader hlt htake
    have hne119 : firstTotal 3 chunks ≠ 119 := hlt.ne
    have hlen : (m.bytes.take (firstTotal ReplyKind.challenge.command.headerSize chunks)).length =
        firstTotal 3 chunks := by
      rw [← htake]
      rfl
    rw [challenge_part_iff hi hs hk hfit hflat hheader hlt, htake, hlen]
    simp only [hne119, false_or]
    rfl
  | proof =>
    rw [hk] at hs hflat hheader hlt
    have hwhole : (c.deliver env [m.bytes]).map observe = _ :=
      observe_part_proof hi hs hk hfit (List.append_nil m.bytes)
        (by rw [m.length_eq, hk]; decide)
    rw [observe_part_proof hi hs hk hfit hflat hheader, hwhole, m.length_eq, hk,
      if_neg (show ¬ ReplyKind.proof.size = 4 by decide)]
    show _ ↔ (gather ReplyKind.proof.command.headerSize [] chunks).1.length ≠ 4
    by_cases h4 : (gather ReplyKind.proof.command.headerSize [] chunks).1.length = 4
    · rw [if_pos h4]
      refine iff_of_false ?_ (not_not.2 h4)
      intro h
      exact NovusStatus.noConfusion (congrArg Observation.status (Option.some.inj h))
    · rw [if_neg h4]
      exact iff_of_true rfl h4
  | challengeFailed =>
    rw [hk] at hheader hlt
    exact absurd hheader (not_le.2 hlt)
  | proofFailed =>
    rw [hk] at hheader hlt
    exact absurd hheader (not_le.2 hlt)

/-- **When pieces do no harm.**  A complete reply in the status that expects it, cut in any way into
pieces that are not empty, leads to the same as the whole reply exactly when the cut is harmless. -/
theorem fragmentation_iff (hi : Idle c data) (hs : c.status = m.kind.status)
    (hfit : m.bytes.length ≤ data.length) (hcut : chunks.flatten = m.bytes)
    (hne : ∀ x ∈ chunks, x ≠ []) :
    SameAsWhole env c m chunks ↔ Harmless env c data m chunks := by
  have hpos := m.length_pos
  have hchunks : chunks ≠ [] := by
    rintro rfl
    rw [← hcut] at hpos
    simp at hpos
  have hflat := gather_flatten m.kind.command.headerSize [] chunks
  rw [List.nil_append, hcut] at hflat
  have hheader : m.kind.command.headerSize ≤
      (gather m.kind.command.headerSize [] chunks).1.length := by
    apply le_length_gather
    rw [List.nil_append, hcut]
    exact m.headerSize_le
  unfold SameAsWhole
  rw [deliver_gather hi hs hfit hcut hchunks]
  by_cases hk : (gather m.kind.command.headerSize [] chunks).1.length = m.bytes.length
  · -- the header is complete only with the last piece
    rw [gather_eq_of_length hne (hk.trans (by rw [hcut])), hcut]
    exact iff_of_true rfl (harmless_of_whole hk)
  · apply part_iff hi hs hfit hflat hheader
    have := congrArg List.length hflat
    rw [List.length_append] at this
    omega

end

/-- A challenge, cut behind its header. -/
def cutChallenge : List Bytes := [sampleChallenge.toBytes.take 3, sampleChallenge.toBytes.drop 3]

lemma cutChallenge_flatten : cutChallenge.flatten = (sampleChallenge.toReply rfl).bytes := by
  show sampleChallenge.toBytes.take 3 ++ (sampleChallenge.toBytes.drop 3 ++ []) =
    sampleChallenge.toBytes
  rw [List.append_nil, List.take_append_drop]

lemma cutChallenge_ne_nil : ∀ x ∈ cutChallenge, x ≠ [] := by decide

theorem fragmentation_iff_sample :
    SameAsWhole sampleEnv sampleConnection (sampleChallenge.toReply rfl) cutChallenge ↔
      Harmless sampleEnv sampleConnection (List.replicate 4096 0) (sampleChallenge.toReply rfl)
        cutChallenge :=
  fragmentation_iff idle_sampleConnection rfl
    (by rw [Reply.length_eq, List.length_replicate]; decide) cutChallenge_flatten
    cutChallenge_ne_nil

/-- The challenge cut behind its header is taken for a failure, and the connection is closed; the whole
challenge is accepted. -/
theorem fragmentation_counterexample :
    Started sampleEnv sampleConnection ∧
      cutChallenge.flatten = (sampleChallenge.toReply rfl).bytes ∧
      (∀ x ∈ cutChallenge, x ≠ []) ∧
      ¬ SameAsWhole sampleEnv sampleConnection (sampleChallenge.toReply rfl) cutChallenge := by
  refine ⟨started_sampleConnection, cutChallenge_flatten, cutChallenge_ne_nil, ?_⟩
  intro h
  have hlen : (sampleChallenge.toBytes.take 3).length = 3 := by decide
  have hfit : (sampleChallenge.toReply rfl).bytes.length ≤ (List.replicate 4096 (0 : UInt8)).length := by
    rw [Reply.length_eq, List.length_replicate]
    decide
  have hpart := (challenge_part_iff idle_sampleConnection rfl rfl hfit cutChallenge_flatten
    (by rw [hlen]) (by rw [hlen]; norm_num)).1 h
  rcases hpart with hcall | ⟨h3, -⟩
  · exact Bool.noConfusion hcall
  · rw [hlen] at h3
    exact absurd h3 (by norm_num)

end NovusHeadless
