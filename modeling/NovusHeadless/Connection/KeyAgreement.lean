import NovusHeadless.Connection.Srp6

/-!
# The session secret of the two parties

The client raises `B - 3 * (g ^ x mod N)` to the power `a + u * x`.  The server knows the verifier
`v = g ^ x mod N` and its own private `b`; it raises `A * v ^ u` to the power `b`.

* `verifier`, `serverPublic`, `serverSecret` — the server's side;
* `bigNum_sessionSecret` — the client's expression in numbers, whatever the sign of the difference;
* `sessionSecret_agreement`, `challengeLocals_agreement` — both sides arrive at the same secret.
-/

namespace NovusHeadless

open Lib

/-! ### The server -/

/-- What the server stores for a password. -/
def verifier (N g x : ℕ) : ℕ := g ^ x % N

/-- The server's public value, with `k = 3`. -/
def serverPublic (N g v b : ℕ) : ℕ := (3 * v + g ^ b) % N

def serverSecret (N A v u b : ℕ) : ℕ := (A * v ^ u) ^ b % N

/-! ### The client -/

section

variable {N g B a u x : ℕ}

lemma bigNum_publicA (hN : 0 < N) : (publicA ⟨g⟩ ⟨a⟩ ⟨N⟩).bigNum = (g ^ a % N : ℕ) := by
  have hN' : (0 : ℤ) < N := by exact_mod_cast hN
  have h := BigNumber.bigNum_modExponential ⟨g⟩ ⟨a⟩ ⟨N⟩ hN'
  unfold publicA
  rw [h, Int.natAbs_natCast]
  push_cast
  rfl

/-- **The client's expression in numbers.**  `BN_mod_exp` takes the residue of the difference, so that
neither its sign nor the inner `mod N` matters. -/
theorem bigNum_sessionSecret (hN : 0 < N) :
    (sessionSecret ⟨N⟩ ⟨g⟩ ⟨B⟩ ⟨a⟩ ⟨u⟩ ⟨x⟩).bigNum =
      ((B : ℤ) - 3 * (g : ℤ) ^ x) ^ (a + u * x) % N := by
  have hN' : (0 : ℤ) < N := by exact_mod_cast hN
  have hv : (BigNumber.modExponential ⟨g⟩ ⟨x⟩ ⟨N⟩).bigNum = (g : ℤ) ^ x % N := by
    have h := BigNumber.bigNum_modExponential ⟨g⟩ ⟨x⟩ ⟨N⟩ hN'
    rwa [Int.natAbs_natCast] at h
  have hexp : ((⟨a⟩ + (⟨u⟩ * ⟨x⟩) : BigNumber)).bigNum.natAbs = a + u * x := by
    rw [BigNumber.bigNum_add, BigNumber.bigNum_mul]
    exact_mod_cast Int.natAbs_natCast (a + u * x)
  have hbase : (B : ℤ) - 3 * ((g : ℤ) ^ x % N) ≡ (B : ℤ) - 3 * (g : ℤ) ^ x [ZMOD N] :=
    (Int.ModEq.refl _).sub ((Int.ModEq.refl 3).mul (Int.mod_modEq _ _))
  unfold sessionSecret
  rw [BigNumber.bigNum_modExponential _ _ _ hN', hexp, BigNumber.bigNum_sub, BigNumber.bigNum_mul,
    BigNumber.bigNum_ofUInt32, hv]
  exact hbase.pow _

lemma client_base (N g x b : ℕ) :
    ((serverPublic N g (verifier N g x) b : ℕ) : ℤ) - 3 * (g : ℤ) ^ x ≡ (g : ℤ) ^ b [ZMOD N] := by
  have hv : (((verifier N g x : ℕ) : ℤ)) ≡ (g : ℤ) ^ x [ZMOD N] := by
    unfold verifier
    push_cast
    exact Int.mod_modEq _ _
  have hB : ((serverPublic N g (verifier N g x) b : ℕ) : ℤ) ≡
      3 * (verifier N g x : ℕ) + (g : ℤ) ^ b [ZMOD N] := by
    unfold serverPublic
    push_cast
    exact Int.mod_modEq _ _
  calc ((serverPublic N g (verifier N g x) b : ℕ) : ℤ) - 3 * (g : ℤ) ^ x
      ≡ (3 * (g : ℤ) ^ x + (g : ℤ) ^ b) - 3 * (g : ℤ) ^ x [ZMOD N] :=
        (hB.trans ((hv.mul_left 3).add_right _)).sub_right _
    _ = (g : ℤ) ^ b := by ring

lemma serverSecret_modEq (N g x a u b : ℕ) :
    ((serverSecret N (g ^ a % N) (verifier N g x) u b : ℕ) : ℤ) ≡
      ((g : ℤ) ^ a * ((g : ℤ) ^ x) ^ u) ^ b [ZMOD N] := by
  unfold serverSecret verifier
  push_cast
  refine (Int.mod_modEq _ _).trans (Int.ModEq.pow _ ?_)
  exact (Int.mod_modEq _ _).mul ((Int.mod_modEq _ _).pow _)

/-- **The client's secret is the server's.** -/
theorem bigNum_sessionSecret_serverPublic (g x u a b : ℕ) (hN : 0 < N) :
    (sessionSecret ⟨N⟩ ⟨g⟩ ⟨serverPublic N g (verifier N g x) b⟩ ⟨a⟩ ⟨u⟩ ⟨x⟩).bigNum =
      serverSecret N (g ^ a % N) (verifier N g x) u b := by
  have hlt : ((serverSecret N (g ^ a % N) (verifier N g x) u b : ℕ) : ℤ) < N := by
    exact_mod_cast Nat.mod_lt _ hN
  rw [bigNum_sessionSecret hN, ← Int.emod_eq_of_lt (Int.natCast_nonneg _) hlt]
  calc ((serverPublic N g (verifier N g x) b : ℕ) - 3 * (g : ℤ) ^ x) ^ (a + u * x)
      ≡ ((g : ℤ) ^ b) ^ (a + u * x) [ZMOD N] := (client_base N g x b).pow _
    _ = ((g : ℤ) ^ a * ((g : ℤ) ^ x) ^ u) ^ b := agreement (g : ℤ) a b u x
    _ ≡ serverSecret N (g ^ a % N) (verifier N g x) u b [ZMOD N] :=
      (serverSecret_modEq N g x a u b).symm

end

/-! ### Agreement -/

/-- **Agreement.**  The client that holds the password and the server that holds its verifier compute the
same secret. -/
theorem sessionSecret_agreement (N g x u a b : ℕ) (hN : 0 < N) :
    (publicA ⟨g⟩ ⟨a⟩ ⟨N⟩).bigNum = (g ^ a % N : ℕ) ∧
      (sessionSecret ⟨N⟩ ⟨g⟩ ⟨serverPublic N g (verifier N g x) b⟩ ⟨a⟩ ⟨u⟩ ⟨x⟩).bigNum =
        serverSecret N (g ^ a % N) (verifier N g x) u b :=
  ⟨bigNum_publicA hN, bigNum_sessionSecret_serverPublic g x u a b hN⟩

/-- A login with a negative difference: `B = 6` and `3 * v = 12`. -/
theorem sessionSecret_agreement_sample :
    serverPublic 23 5 (verifier 23 5 4) 7 < 3 * verifier 23 5 4 ∧
      ((publicA ⟨5⟩ ⟨6⟩ ⟨23⟩).bigNum = (5 ^ 6 % 23 : ℕ) ∧
        (sessionSecret ⟨23⟩ ⟨5⟩ ⟨serverPublic 23 5 (verifier 23 5 4) 7⟩ ⟨6⟩ ⟨3⟩ ⟨4⟩).bigNum =
          serverSecret 23 (5 ^ 6 % 23) (verifier 23 5 4) 3 7) :=
  ⟨by decide, sessionSecret_agreement 23 5 4 3 6 7 (by decide)⟩

/-- **The session secret of `HandleCommandChallenge` is the server's**, for a reply with the numbers of a
server that stores the verifier of the password. -/
theorem challengeLocals_agreement (sha1 : Bytes → Digest) (private_a : PrivateKey)
    (username : Bytes) (passwordKey : BigNumber) (m : SAuthLogonChallengeData)
    (hN : 0 < leVal m.n.toList) (b : ℕ) :
    let l := challengeLocals sha1 private_a username passwordKey m
    let v := verifier (leVal m.n.toList) m.g.toNat l.x.bigNum.natAbs
    leVal m.b.toList = serverPublic (leVal m.n.toList) m.g.toNat v b →
      l.S.bigNum = serverSecret (leVal m.n.toList) l.A.bigNum.natAbs v l.u.bigNum.natAbs b := by
  intro l v hb
  obtain ⟨x, hx⟩ : ∃ x : ℕ, l.x = ⟨x⟩ := ⟨_, bin2BN_vector _⟩
  obtain ⟨u, hu⟩ : ∃ u : ℕ, l.u = ⟨u⟩ := ⟨_, bin2BN_vector _⟩
  have hS : l.S = sessionSecret ⟨leVal m.n.toList⟩ ⟨m.g.toNat⟩ ⟨leVal m.b.toList⟩ ⟨private_a.val⟩
      l.u l.x := by
    rw [← bin2BN_vector m.n, ← bin2BN_vector m.b]
    rfl
  have hA : l.A.bigNum = (m.g.toNat ^ private_a.val % leVal m.n.toList : ℕ) := by
    rw [← bigNum_publicA hN, ← bin2BN_vector m.n]
    rfl
  have hv : v = verifier (leVal m.n.toList) m.g.toNat x := by
    show verifier _ _ l.x.bigNum.natAbs = _
    rw [hx, Int.natAbs_natCast]
  rw [hS, hb, hA, hv, hu, hx, Int.natAbs_natCast, Int.natAbs_natCast]
  exact bigNum_sessionSecret_serverPublic m.g.toNat x u private_a.val b hN

end NovusHeadless
