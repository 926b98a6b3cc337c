import NovusHeadless.Connection.Runs

/-!
# The login against an honest server

The server answers the challenge with one challenge reply and the proof with one proof reply that holds
the expected `M2`, each in its own read.  The handler of a proof reply reads 32 bytes, but the loop then
moves the read position by `4 + 32`; it passes the write position, the count of unread bytes wraps, and
the next pass of the loop closes the connection (`loginRun_end`).
-/

namespace NovusHeadless

open Lib NovusConnection

/-- The two replies of an honest server to the connection `c`. -/
structure HonestServer (env : Env) (c : NovusConnection) (challenge proof : Reply) : Prop where
  challenge_kind : challenge.kind = .challenge
  accepted : (SAuthLogonChallengeData.ofBytes challenge.bytes).Accepted
  proof_kind : proof.kind = .proof
  proof_eq : ∀ c', c.deliver env [challenge.bytes] = some c' →
    (SAuthLogonProofData.ofBytes proof.bytes).M2 = c'.proofM2

/-- The login as it should end: authenticated, never closed, everything read, and reading on. -/
structure LoggedIn (c : NovusConnection) : Prop where
  status_eq : c.status = .authed
  isClosed_eq : c.isClosed = false
  consumed : c.byteBuffer.getActualSize = 0
  reading : c.reads ≠ []

section Steps

variable {env : Env} {c : NovusConnection} {n : ℕ} {data : Bytes}

/-- **An accepted challenge** that arrives alone leaves the connection waiting for the proof. -/
theorem deliver_challenge (hhook : ∀ call, env.callHook call = true) (ho : c.isOpen = true)
    (hs : c.status = .challenge) (hd : data.length < 2 ^ 32) {m : Reply}
    (hk : m.kind = .challenge) (hfit : m.bytes.length ≤ data.length)
    (ha : (SAuthLogonChallengeData.ofBytes m.bytes).Accepted) :
    (c.waiting 0 data).deliver env [m.bytes] =
      some (((c.landed 119 (splice data 0 m.bytes)).accepted env).waiting 0
        (splice data 0 m.bytes)) := by
  have hl := Reply.length_challenge hk
  have hlen : (splice data 0 m.bytes).length = data.length := length_splice (by omega)
  have hv : (c.landed 119 (splice data 0 m.bytes)).verdict = .challenge := by
    rw [verdict_landed (by norm_num), m.front_splice, hk, hs]
    rfl
  have ha' : (SAuthLogonChallengeData.ofBytes (splice data 0 m.bytes)).Accepted := by
    rw [Reply.challengeData_splice hk]
    exact ha
  rw [deliver_cons hd (by omega), Nat.zero_add, hl, handleRead_of_accepted hhook hv ha']
  simp only [Option.bind_some, deliver]
  rw [settle_accepted (by omega) (by omega) (by omega), if_pos rfl, if_pos ho]

/-- **A matching proof** that arrives alone closes the connection. -/
theorem deliver_proof (hs : c.status = .proof) (hd : data.length < 2 ^ 32) {m : Reply}
    (hk : m.kind = .proof) (hfit : m.bytes.length ≤ data.length)
    (hM : (SAuthLogonProofData.ofBytes m.bytes).M2 = c.proofM2) :
    (c.waiting 0 data).deliver env [m.bytes] =
      some (c.landed 32 (splice data 0 m.bytes)).authenticated.close := by
  have hl := Reply.length_proof hk
  have hlen : (splice data 0 m.bytes).length = data.length := length_splice (by omega)
  have hv : (c.landed 32 (splice data 0 m.bytes)).verdict = .proof := by
    rw [verdict_landed (by norm_num), m.front_splice, hk, hs]
    rfl
  have hM' : (c.landed 32 (splice data 0 m.bytes)).proofM2 =
      (c.landed 32 (splice data 0 m.bytes)).logonProof.M2 := by
    rw [logonProof_landed, Reply.proofData_splice hk, hM]
    rfl
  rw [deliver_cons hd (by omega), Nat.zero_add, hl, handleRead_eq env _ rfl, hv]
  simp only [if_pos hM', Option.bind_some, deliver]
  rw [settle_authenticated (by omega) (by omega) (by omega), if_neg (by norm_num)]

end Steps

/-- `Start`, then the two replies, each in its own read. -/
def loginRun (env : Env) (proofM2 : Digest) (username password : Bytes) (challenge proof : Reply) :
    Option NovusConnection := do
  let (_, c) ← (NovusConnection.new proofM2).start env username password
  let c ← c.deliver env [challenge.bytes]
  c.deliver env [proof.bytes]

section Run

variable {env : Env} {proofM2 : Digest} {username password : Bytes} {challenge proof : Reply}

lemma cAuthLogonChallenge_eq_none (h : 16 < username.length) :
    cAuthLogonChallenge username = none := by
  unfold cAuthLogonChallenge
  rw [if_neg (by omega)]

/-- **How the login ends**: the status says that the login is complete, and the connection is closed,
with a count of unread bytes that has wrapped and no read outstanding. -/
theorem loginRun_end (hconn : env.connects = true) (hhook : ∀ call, env.callHook call = true)
    (hname : username.length ≤ 16)
    (hs : ∀ c, (NovusConnection.new proofM2).start env username password = some (true, c) →
      HonestServer env c challenge proof) :
    ∃ c, loginRun env proofM2 username password challenge proof = some c ∧ c.status = .authed ∧
      c.isClosed = true ∧ c.byteBuffer.getActualSize = 2 ^ 32 - 4 ∧ c.reads = [] := by
  have hch : ∃ ch, cAuthLogonChallenge username = some ch := by
    unfold cAuthLogonChallenge
    rw [if_pos hname]
    exact ⟨_, rfl⟩
  obtain ⟨ch, hch⟩ := hch
  have hstart : (NovusConnection.new proofM2).start env username password =
      some (true, greeted env proofM2 username password ch) := by
    rw [start_eq, if_pos hconn, hch]
    rfl
  obtain ⟨hk, ha, hk', hM⟩ := hs _ hstart
  have hlen : (List.replicate 4096 (0 : UInt8)).length = 4096 := List.length_replicate
  have hl : challenge.bytes.length = 119 := by rw [challenge.length_eq, hk]; rfl
  have hl' : proof.bytes.length = 32 := by rw [proof.length_eq, hk']; rfl
  -- the challenge, after which the connection waits at the front of its buffer
  obtain ⟨c₁, data, h₁, hst, hlen₁⟩ : ∃ (c₁ : NovusConnection) (data : Bytes),
      (greeted env proofM2 username password ch).deliver env [challenge.bytes] =
        some (c₁.waiting 0 data) ∧ c₁.status = .proof ∧ data.length = 4096 := by
    rw [greeted_eq]
    refine ⟨_, _, deliver_challenge hhook rfl rfl (by rw [hlen]; norm_num) hk
      (by rw [hl, hlen]; norm_num) ha, rfl, ?_⟩
    rw [length_splice (by rw [hl, hlen]; norm_num), hlen]
  -- the proof
  have h₂ : (c₁.waiting 0 data).deliver env [proof.bytes] = _ :=
    deliver_proof hst (by omega) hk' (by omega) (hM (c₁.waiting 0 data) h₁)
  refine ⟨(c₁.landed 32 (splice data 0 proof.bytes)).authenticated.close, ?_, rfl, rfl, ?_, rfl⟩
  · unfold loginRun
    rw [hstart]
    show ((greeted env proofM2 username password ch).deliver env [challenge.bytes]).bind _ = _
    rw [h₁]
    exact h₂
  · exact ByteBuffer.getActualSize_of_lt (show 32 < 36 by norm_num) (show 36 < 2 ^ 32 by norm_num)

/-- **No login completes.**  There is no username, password, private value and honest server for which
the login ends as it should. -/
theorem login_not_completed (hconn : env.connects = true)
    (hhook : ∀ call, env.callHook call = true)
    (hs : ∀ c, (NovusConnection.new proofM2).start env username password = some (true, c) →
      HonestServer env c challenge proof) :
    ¬ ∃ c, loginRun env proofM2 username password challenge proof = some c ∧ LoggedIn c := by
  rintro ⟨c, hc, hlog⟩
  rcases le_or_gt username.length 16 with hname | hname
  · obtain ⟨c', hc', -, hcl, -⟩ := loginRun_end hconn hhook hname hs
    obtain rfl := Option.some.inj (hc'.symm.trans hc)
    rw [hlog.isClosed_eq] at hcl
    simp at hcl
  · -- the name does not fit into the packet
    unfold loginRun at hc
    rw [start_eq, if_pos hconn, cAuthLogonChallenge_eq_none hname] at hc
    simp at hc

end Run

/-! ### A login -/

/-- The proof of a server that knows the password. -/
def sampleProof (env : Env) (username password : Bytes) : SAuthLogonProofData where
  cmd := 1
  error := 0
  M2 := (challengeLocals env.sha1 env.a username (passwordHash env.sha1 username password)
    sampleChallenge).proofM2

lemma honestServer_sample (username password : Bytes) (proofM2 : Digest) :
    ∀ c, (NovusConnection.new proofM2).start sampleEnv username password = some (true, c) →
      HonestServer sampleEnv c (sampleChallenge.toReply rfl)
        ((sampleProof sampleEnv username password).toReply (Vector.replicate 10 0) rfl) := by
  intro c hc
  have hacc : (SAuthLogonChallengeData.ofBytes (sampleChallenge.toReply rfl).bytes).Accepted := by
    rw [show (sampleChallenge.toReply rfl).bytes = sampleChallenge.toBytes from rfl,
      challengeData_toBytes]
    exact accepted_sampleChallenge
  refine ⟨rfl, hacc, rfl, ?_⟩
  intro c' hc'
  rw [start_eq, if_pos (show sampleEnv.connects = true from rfl), Option.map_eq_some_iff] at hc
  obtain ⟨ch, -, hc⟩ := hc
  obtain ⟨-, rfl⟩ := Prod.mk.inj hc
  have hlen : (List.replicate 4096 (0 : UInt8)).length = 4096 := List.length_replicate
  have hl : (sampleChallenge.toReply rfl).bytes.length = 119 := Reply.length_eq _
  have hdata := Reply.challengeData_splice (m := sampleChallenge.toReply rfl) rfl
    (List.replicate 4096 0)
  rw [greeted_eq, deliver_challenge (fun _ => rfl) rfl rfl (by rw [hlen]; norm_num) rfl
    (by rw [hl, hlen]; norm_num) hacc] at hc'
  generalize splice (List.replicate 4096 0) 0 (sampleChallenge.toReply rfl).bytes = data
    at hc' hdata
  obtain rfl := Option.some.inj hc'
  rw [show ((sampleProof sampleEnv username password).toReply (Vector.replicate 10 0) rfl).bytes =
    (sampleProof sampleEnv username password).toBytes (Vector.replicate 10 0) from rfl,
    proofData_toBytes]
  rw [proofM2_waiting, proofM2_accepted, hdata,
    show (sampleChallenge.toReply rfl).bytes = sampleChallenge.toBytes from rfl,
    challengeData_toBytes]
  rfl

theorem login_not_completed_sample :
    ¬ ∃ c, loginRun sampleEnv (Vector.replicate 20 0) [0x41] [0x42] (sampleChallenge.toReply rfl)
      ((sampleProof sampleEnv [0x41] [0x42]).toReply (Vector.replicate 10 0) rfl) = some c ∧
      LoggedIn c :=
  login_not_completed rfl (fun _ => rfl) (honestServer_sample [0x41] [0x42] _)

/-- A login of the user `A` with an honest server that ends closed, with `2 ^ 32 - 4` bytes unread. -/
theorem login_counterexample :
    (∀ c, (NovusConnection.new (Vector.replicate 20 0)).start sampleEnv [0x41] [0x42] =
        some (true, c) →
      HonestServer sampleEnv c (sampleChallenge.toReply rfl)
        ((sampleProof sampleEnv [0x41] [0x42]).toReply (Vector.replicate 10 0) rfl)) ∧
    ∃ c, loginRun sampleEnv (Vector.replicate 20 0) [0x41] [0x42] (sampleChallenge.toReply rfl)
        ((sampleProof sampleEnv [0x41] [0x42]).toReply (Vector.replicate 10 0) rfl) = some c ∧
      ¬ LoggedIn c ∧ c.isClosed = true ∧ c.byteBuffer.getActualSize = 2 ^ 32 - 4 := by
  refine ⟨honestServer_sample _ _ _, ?_⟩
  obtain ⟨c, hc, -, hcl, hn, -⟩ := loginRun_end rfl (fun _ => rfl) (by decide)
    (honestServer_sample [0x41] [0x42] (Vector.replicate 20 0))
  refine ⟨c, hc, ?_, hcl, hn⟩
  intro h
  rw [h.isClosed_eq] at hcl
  exact Bool.noConfusion hcl

end NovusHeadless
