import NovusHeadless.Lib.Transition
import NovusHeadless.Cryptography.StreamCrypto

/-!
# The stream ciphers of two parties

A client set up with `SetupClient` and a server set up with `SetupServer`, both with the same session key,
exchange data in both directions.  Each party encrypts chunks of any sizes, and decrypts what has arrived
from the other in chunks of its own.

* `Synced` — the invariant: in each direction the two keystreams are the same, and each is as far as the
  bytes that have gone through it, behind the 1024 bytes dropped at the set-up;
* `duality` — while no chunk has `2 ^ 31` bytes or more, what comes out is what went in.  A longer chunk
  is passed to OpenSSL with a length that has lost its upper bits (`duality_counterexample`).
-/

namespace NovusHeadless

open Lib

inductive Party where
  | client
  | server
  deriving DecidableEq, Repr

def Party.other : Party → Party
  | client => server
  | server => client

@[simp] lemma Party.other_other (p : Party) : p.other.other = p := by cases p <;> rfl

lemma Party.other_ne (p : Party) : p.other ≠ p := by cases p <;> decide

lemma Party.eq_other_of_ne {p q : Party} (h : q ≠ p) : q = p.other := by
  cases p <;> cases q <;> first | rfl | exact absurd rfl h

/-- Two parties and the data between them; each direction is named by the party that sends. -/
structure Session where
  crypto : Party → StreamCrypto
  /-- what has been encrypted and not yet decrypted -/
  wire : Party → Bytes
  /-- what has been given to `Encrypt` -/
  plain : Party → Bytes
  /-- what the other party has got from `Decrypt` -/
  output : Party → Bytes

/-- What a party does next. -/
inductive Traffic where
  | encrypt (p : Party) (chunk : Bytes)
  | decrypt (p : Party) (size : ℕ)

/-- The size of the chunk. -/
def Traffic.size : Traffic → ℕ
  | encrypt _ chunk => chunk.length
  | decrypt _ size => size

namespace Session

variable (o : OpenSsl)

/-- The session behind the two set-ups. -/
def setup (key : BigNumber) (client server : StreamCrypto) : Session where
  crypto
    | .client => client.setupClient o key
    | .server => server.setupServer o key
  wire _ := []
  plain _ := []
  output _ := []

/-- One call of `Encrypt` or `Decrypt`; no more can be decrypted than has arrived. -/
def step (s : Session) : Traffic → Option Session
  | .encrypt p chunk =>
    let (data, crypto) := (s.crypto p).encrypt o chunk
    some
      { crypto := Function.update s.crypto p crypto
        wire := Function.update s.wire p (s.wire p ++ data)
        plain := Function.update s.plain p (s.plain p ++ chunk)
        output := s.output }
  | .decrypt p size =>
    if size ≤ (s.wire p.other).length then
      let (data, crypto) := (s.crypto p).decrypt o ((s.wire p.other).take size)
      some
        { crypto := Function.update s.crypto p crypto
          wire := Function.update s.wire p.other ((s.wire p.other).drop size)
          plain := s.plain
          output := Function.update s.output p.other (s.output p.other ++ data) }
    else none

/-- The key of a direction. -/
def directionKey (key : BigNumber) : Party → Digest
  | .client => StreamCrypto.clientToServer o key
  | .server => StreamCrypto.serverToClient o key

/-- **One direction in lock-step**: `rest` is what has been encrypted and not yet decrypted. -/
structure Synced (key : BigNumber) (s : Session) (p : Party) : Prop where
  sEncrypt_eq : (s.crypto p).sEncrypt = ⟨directionKey o key p, 1024 + (s.plain p).length⟩
  cDecrypt_eq : (s.crypto p.other).cDecrypt = ⟨directionKey o key p, 1024 + (s.output p).length⟩
  valid : (s.crypto p).valid = true
  wire_eq : ∃ rest, s.plain p = s.output p ++ rest ∧
    s.wire p = xorFrom (o.keystream (directionKey o key p)) (1024 + (s.output p).length) rest

/-- What has come out is what went in, as far as nothing is on the way. -/
def Faithful (s : Session) : Prop :=
  ∀ p, s.output p <+: s.plain p ∧ (s.output p).length + (s.wire p).length = (s.plain p).length ∧
    (s.wire p = [] → s.output p = s.plain p)

variable {o} {key : BigNumber} {s s' : Session}

lemma synced_setup (client server : StreamCrypto) (p : Party) :
    Synced o key (setup o key client server) p := by
  cases p with
  | client =>
    refine ⟨?_, ?_, ?_, [], rfl, rfl⟩
    · show (client.setupClient o key).sEncrypt = _
      rw [StreamCrypto.setupClient_eq]
      rfl
    · show (server.setupServer o key).cDecrypt = _
      rw [StreamCrypto.setupServer_eq]
      rfl
    · show (client.setupClient o key).valid = true
      rw [StreamCrypto.setupClient_eq]
  | server =>
    refine ⟨?_, ?_, ?_, [], rfl, rfl⟩
    · show (server.setupServer o key).sEncrypt = _
      rw [StreamCrypto.setupServer_eq]
      rfl
    · show (client.setupClient o key).cDecrypt = _
      rw [StreamCrypto.setupClient_eq]
      rfl
    · show (server.setupServer o key).valid = true
      rw [StreamCrypto.setupServer_eq]

/-- **A call of `Encrypt`** keeps both directions in lock-step. -/
lemma synced_encrypt (h : ∀ p, Synced o key s p) {p : Party} {chunk : Bytes}
    (hc : chunk.length < 2 ^ 31) (hs : s.step o (.encrypt p chunk) = some s') (q : Party) :
    Synced o key s' q := by
  simp only [step, StreamCrypto.encrypt_of_lt (h p).valid hc, (h p).sEncrypt_eq, Option.some.injEq]
    at hs
  subst hs
  by_cases hq : q = p
  · subst hq
    obtain ⟨rest, hplain, hwire⟩ := (h q).wire_eq
    have hother : q.other ≠ q := q.other_ne
    refine ⟨?_, ?_, ?_, rest ++ chunk, ?_, ?_⟩
    · simp only [Function.update_self, List.length_append, Nat.add_assoc]
    · simp only [Function.update_of_ne hother]
      exact (h q).cDecrypt_eq
    · simp only [Function.update_self]
      exact (h q).valid
    · simp only [Function.update_self]
      rw [hplain, List.append_assoc]
    · simp only [Function.update_self]
      rw [hwire, xorFrom_append, hplain, List.length_append, Nat.add_assoc]
  · obtain rfl := Party.eq_other_of_ne hq
    refine ⟨?_, ?_, ?_, ?_⟩
    · simp only [Function.update_of_ne hq]
      exact (h p.other).sEncrypt_eq
    · have hd := (h p.other).cDecrypt_eq
      rw [Party.other_other] at hd
      simp only [Party.other_other, Function.update_self]
      exact hd
    · simp only [Function.update_of_ne hq]
      exact (h p.other).valid
    · simp only [Function.update_of_ne hq]
      exact (h p.other).wire_eq

/-- **A call of `Decrypt`** keeps both directions in lock-step. -/
lemma synced_decrypt (h : ∀ p, Synced o key s p) {p : Party} {size : ℕ} (hc : size < 2 ^ 31)
    (hs : s.step o (.decrypt p size) = some s') (q : Party) : Synced o key s' q := by
  obtain ⟨r, rfl⟩ : ∃ r : Party, p = r.other := ⟨p.other, p.other_other.symm⟩
  obtain ⟨rest, hplain, hwire⟩ := (h r).wire_eq
  simp only [step, Option.ite_none_right_eq_some, Party.other_other] at hs
  obtain ⟨hle, hs⟩ := hs
  have hlen : ((s.wire r).take size).length = size := by rw [List.length_take]; omega
  have hrest : size ≤ rest.length := by rwa [hwire, length_xorFrom] at hle
  have htake : (rest.take size).length = size := by rw [List.length_take]; omega
  have hout : xorFrom (o.keystream (directionKey o key r)) (1024 + (s.output r).length)
      ((s.wire r).take size) = rest.take size := by
    rw [hwire, take_xorFrom, xorFrom_xorFrom]
  rw [StreamCrypto.decrypt_of_lt (h r.other).valid (by omega), (h r).cDecrypt_eq, hout, hlen] at hs
  obtain rfl := Option.some.inj hs
  by_cases hq : q = r
  · subst hq
    have hother : q ≠ q.other := q.other_ne.symm
    refine ⟨?_, ?_, ?_, rest.drop size, ?_, ?_⟩
    · simp only [Function.update_of_ne hother]
      exact (h q).sEncrypt_eq
    · simp only [Function.update_self, List.length_append, htake, Nat.add_assoc]
    · simp only [Function.update_of_ne hother]
      exact (h q).valid
    · simp only [Function.update_self]
      rw [List.append_assoc, List.take_append_drop, hplain]
    · simp only [Function.update_self, List.length_append, htake]
      rw [hwire, drop_xorFrom, Nat.add_assoc]
  · obtain rfl := Party.eq_other_of_ne hq
    refine ⟨?_, ?_, ?_, ?_⟩
    · simp only [Function.update_self]
      exact (h r.other).sEncrypt_eq
    · have hd := (h r.other).cDecrypt_eq
      rw [Party.other_other] at hd
      simp only [Party.other_other, Function.update_of_ne r.other_ne.symm, Function.update_of_ne hq]
      exact hd
    · simp only [Function.update_self]
      exact (h r.other).valid
    · simp only [Function.update_of_ne hq]
      exact (h r.other).wire_eq

/-- **A step** with a chunk of less than `2 ^ 31` bytes. -/
theorem synced_step {i : Traffic} (hi : i.size < 2 ^ 31) (h : ∀ p, Synced o key s p)
    (hs : s.step o i = some s') : ∀ p, Synced o key s' p := by
  cases i with
  | encrypt p chunk => exact synced_encrypt h hi hs
  | decrypt p size => exact synced_decrypt h hi hs

lemma faithful_of_synced (h : ∀ p, Synced o key s p) : s.Faithful := by
  intro p
  obtain ⟨rest, hplain, hwire⟩ := (h p).wire_eq
  refine ⟨⟨rest, hplain.symm⟩, ?_, ?_⟩
  · rw [hwire, length_xorFrom, hplain, List.length_append]
  · intro h0
    have hnil : rest = [] := by
      apply List.eq_nil_of_length_eq_zero
      rw [← length_xorFrom (o.keystream (directionKey o key p)), ← hwire, h0, List.length_nil]
    rw [hplain, hnil, List.append_nil]

/-- **The set-ups are dual.**  In every run in which no chunk has `2 ^ 31` bytes or more, what comes out
of `Decrypt` is what went into `Encrypt`, in both directions. -/
theorem duality (o : OpenSsl) (key : BigNumber) (client server : StreamCrypto) {is : List Traffic}
    (hsize : ∀ i ∈ is, i.size < 2 ^ 31) {s : Session}
    (h : run (step o) (setup o key client server) is = some s) : s.Faithful := by
  have hstep : ∀ (s : Session) (i : Traffic) (s' : Session), i.size < 2 ^ 31 →
      (∀ p, Synced o key s p) → step o s i = some s' → ∀ p, Synced o key s' p := by
    intro s i s' hi hsynced hs
    exact synced_step hi hsynced hs
  apply faithful_of_synced
  exact run_inv_of hstep (synced_setup client server) hsize h

/-- Two chunks from the client to the server, decrypted in two other pieces. -/
theorem duality_sample :
    ∃ s, run (step .actual) (setup .actual ⟨1⟩ .new .new)
        [.encrypt .client [1, 2, 3], .encrypt .client [4], .decrypt .server 1, .decrypt .server 3] =
          some s ∧ s.Faithful := by
  have hrun : (run (step .actual) (setup .actual ⟨1⟩ .new .new)
      [.encrypt .client [1, 2, 3], .encrypt .client [4], .decrypt .server 1,
        .decrypt .server 3]).isSome = true := by
    decide +kernel
  obtain ⟨s, hs⟩ := Option.isSome_iff_exists.1 hrun
  exact ⟨s, hs, duality .actual ⟨1⟩ .new .new (by decide) hs⟩

lemma step_encrypt_long (p : Party) {chunk : Bytes} (h : 2 ^ 31 ≤ chunk.length)
    (h' : chunk.length < 2 ^ 32) :
    ∃ s', s.step o (.encrypt p chunk) = some s' ∧ s'.crypto = s.crypto ∧
      s'.wire p = s.wire p ++ chunk ∧ s'.plain p = s.plain p ++ chunk ∧ s'.output = s.output := by
  simp only [step, StreamCrypto.encrypt_of_ge h h', Function.update_eq_self]
  exact ⟨_, rfl, rfl, Function.update_self .., Function.update_self .., rfl⟩

lemma step_decrypt_server {data : Bytes} {k : Digest} {m : ℕ}
    (hc : (s.crypto .server).cDecrypt = ⟨k, m⟩) (hv : (s.crypto .server).valid = true)
    (hw : s.wire .client = data) {size : ℕ} (hs : size ≤ data.length) (hlt : size < 2 ^ 31) :
    ∃ s', s.step o (.decrypt .server size) = some s' ∧
      (s'.crypto .server).cDecrypt = ⟨k, m + size⟩ ∧ (s'.crypto .server).valid = true ∧
      s'.wire .client = data.drop size ∧ s'.plain = s.plain ∧
      s'.output .client = s.output .client ++ xorFrom (o.keystream k) m (data.take size) := by
  have hlen : (data.take size).length = size := by rw [List.length_take]; omega
  have hdec := StreamCrypto.decrypt_of_lt (o := o) hv (show (data.take size).length < 2 ^ 31 by omega)
  rw [hc, hlen] at hdec
  have hother : Party.server.other = .client := rfl
  simp only [step, hother, hw, if_pos hs, hdec]
  refine ⟨_, rfl, ?_, ?_, ?_, rfl, ?_⟩
  · simp only [Function.update_self]
  · simp only [Function.update_self]
    exact hv
  · simp only [Function.update_self]
  · simp only [Function.update_self]

/-- **A chunk from `2 ^ 31` bytes on** leaves `Encrypt` as it is, and what the other side decrypts in
pieces is combined with the keystream. -/
theorem output_of_long_chunk (o : OpenSsl) (key : BigNumber) {chunk : Bytes} {n m : ℕ}
    (hlen : chunk.length = n + m) (hlong : 2 ^ 31 ≤ n + m) (hn : n < 2 ^ 31) (hm : m < 2 ^ 31) :
    ∃ s, run (step o) (setup o key .new .new)
        [.encrypt .client chunk, .decrypt .server n, .decrypt .server m] = some s ∧
      s.wire .client = [] ∧ s.plain .client = chunk ∧
      s.output .client =
        xorFrom (o.keystream (StreamCrypto.clientToServer o key)) 1024 chunk := by
  have hserver : (setup o key .new .new).crypto .server =
      ⟨⟨StreamCrypto.clientToServer o key, 1024⟩, ⟨StreamCrypto.serverToClient o key, 1024⟩, true⟩ :=
    StreamCrypto.setupServer_eq .new key
  have hwire : (setup o key .new .new).wire .client = [] := rfl
  have hplain : (setup o key .new .new).plain .client = [] := rfl
  have hout : (setup o key .new .new).output .client = [] := rfl
  generalize setup o key .new .new = s at hserver hwire hplain hout
  obtain ⟨s₀, hs₀, hc₀, hw₀, hp₀, ho₀⟩ := step_encrypt_long (o := o) (s := s) .client
    (show 2 ^ 31 ≤ chunk.length by omega) (by omega)
  rw [hwire, List.nil_append] at hw₀
  obtain ⟨s₁, hs₁, hc₁, hv₁, hw₁, hp₁, ho₁⟩ := step_decrypt_server (o := o) (s := s₀)
    (by rw [hc₀, hserver]) (by rw [hc₀, hserver]) hw₀ (show n ≤ chunk.length by omega) hn
  have hrest : m ≤ (chunk.drop n).length := by rw [List.length_drop]; omega
  obtain ⟨s₂, hs₂, -, -, hw₂, hp₂, ho₂⟩ := step_decrypt_server hc₁ hv₁ hw₁ hrest hm
  have hlast : (chunk.drop n).take m = chunk.drop n :=
    List.take_of_length_le (by rw [List.length_drop]; omega)
  have hfirst : (chunk.take n).length = n := by rw [List.length_take]; omega
  refine ⟨s₂, (run_cons hs₀ _).trans ((run_cons hs₁ _).trans (run_cons hs₂ _)), ?_, ?_, ?_⟩
  · rw [hw₂]
    exact List.drop_of_length_le (by rw [List.length_drop]; omega)
  · rw [hp₂, hp₁, hp₀, hplain, List.nil_append]
  · rw [ho₂, ho₁, ho₀, hout, hlast, List.nil_append]
    conv_rhs => rw [← List.take_append_drop n chunk, xorFrom_append, hfirst]

/-- **One chunk of `2 ^ 31` bytes**: it is left as it is, so the piece-wise `Decrypt` garbles it. -/
theorem duality_counterexample :
    ∃ s, run (step .actual) (setup .actual ⟨1⟩ .new .new)
        [.encrypt .client (List.replicate (2 ^ 31) 0), .decrypt .server 1,
          .decrypt .server (2 ^ 31 - 1)] = some s ∧ ¬ s.Faithful := by
  have hlen : (List.replicate (2 ^ 31) (0 : UInt8)).length = 1 + (2 ^ 31 - 1) := by
    rw [List.length_replicate]
    norm_num
  obtain ⟨s, hs, hwire, hplain, hout⟩ := output_of_long_chunk .actual ⟨1⟩ hlen (by norm_num)
    (by norm_num) (by norm_num)
  refine ⟨s, hs, ?_⟩
  intro hf
  have heq := (hf .client).2.2 hwire
  rw [hplain, hout, show 2 ^ 31 = 2147483647 + 1 from rfl, List.replicate_succ, xorFrom,
    keystream_actual] at heq
  exact absurd (List.cons.inj heq).1 (by decide)

end Session

end NovusHeadless
