import NovusHeadless.Connection.KeyAgreement
import NovusHeadless.Connection.Runs
import NovusHeadless.Lib.SteadyPowers

/-!
# What a reply can make of the session secret

The only test of the server's numbers is `B % N`.  The generator and the modulus are taken as they come,
so a server can choose them such that the secret does not depend on what the client keeps to itself.

* `secretOf` — the secret as a function of the reply and of the two private values `a` and `x`;
* `Fixes`, `fixes_of_not_varies`, `not_varies_of_fixes` — the replies for which the secret is constant, and no others;
* `secret_varies` — this, and what can be said of all hash functions;
* `secret_counterexample` — a reply that passes the test and fixes the secret.
-/

namespace NovusHeadless

open Lib

/-- The value that `Bin2BN` makes of a digest, as for `x`. -/
def digestValue (d : Digest) : ℕ := leVal d.toList

/-- The secret of `HandleCommandChallenge`: `u` is computed from `A` and `B`. -/
def secretOf (sha1 : Bytes → Digest) (m : SAuthLogonChallengeData) (private_a : PrivateKey)
    (x : Digest) : BigNumber :=
  let g : BigNumber := .ofUInt32 m.g.toNat
  let B : BigNumber := .bin2BN m.b.toList 32
  let N : BigNumber := .bin2BN m.n.toList 32
  let a := private_a.toBigNumber
  sessionSecret N g B a (digestNumber sha1 (hasherU (publicA g a N) B)) (.bin2BN x.toList 20)

lemma locals_S (sha1 : Bytes → Digest) (private_a : PrivateKey) (username : Bytes)
    (passwordKey : BigNumber) (m : SAuthLogonChallengeData) :
    (challengeLocals sha1 private_a username passwordKey m).S =
      secretOf sha1 m private_a
        ((SHA1Hasher.new.updateHashForBn [.bin2BN m.salt.toList 32, passwordKey]).finish sha1).data :=
  rfl

/-- The base of the power, for a value of `x`. -/
def SAuthLogonChallengeData.base (m : SAuthLogonChallengeData) (x : ℕ) : ℤ :=
  (leVal m.b.toList : ℤ) - 3 * (m.g.toNat : ℤ) ^ x

section

variable {sha1 : Bytes → Digest} {m : SAuthLogonChallengeData}

/-- The value of `u`. -/
def scrambler (sha1 : Bytes → Digest) (m : SAuthLogonChallengeData) (private_a : PrivateKey) : ℕ :=
  leVal ((hasherU (publicA (.ofUInt32 m.g.toNat) private_a.toBigNumber (.bin2BN m.n.toList 32))
    (.bin2BN m.b.toList 32)).finish sha1).data.toList

/-- **The secret in numbers.** -/
theorem bigNum_secretOf (hN : 0 < leVal m.n.toList) (private_a : PrivateKey) (x : Digest) :
    (secretOf sha1 m private_a x).bigNum =
      m.base (digestValue x) ^ (private_a.val + scrambler sha1 m private_a * digestValue x) %
        (leVal m.n.toList : ℤ) := by
  have hu : digestNumber sha1 (hasherU (publicA (.ofUInt32 m.g.toNat) private_a.toBigNumber
      (.bin2BN m.n.toList 32)) (.bin2BN m.b.toList 32)) = ⟨(scrambler sha1 m private_a : ℕ)⟩ :=
    bin2BN_vector _
  unfold secretOf
  simp only [hu]
  rw [bin2BN_vector x, bin2BN_vector m.b, bin2BN_vector m.n]
  exact bigNum_sessionSecret hN

/-- With the modulus zero both calls of `BN_mod_exp` fail, and the secret is zero. -/
lemma secretOf_of_zero (hN : leVal m.n.toList = 0) (private_a : PrivateKey) (x : Digest) :
    secretOf sha1 m private_a x = ⟨0⟩ := by
  apply BigNumber.modExponential_zero
  rw [bigNum_bin2BN_vector, hN]
  rfl

/-- The digest whose value is zero. -/
def zeroDigest : Digest := Vector.replicate 20 0

lemma digestValue_zeroDigest : digestValue zeroDigest = 0 := by
  unfold digestValue zeroDigest
  rw [Vector.toList_replicate]
  exact leVal_replicate_zero 20

lemma exists_digest {x : ℕ} (hx : x < 256 ^ 20) : ∃ d : Digest, digestValue d = x := by
  refine ⟨⟨(padded 20 x).toArray, ?_⟩, ?_⟩
  · rw [List.size_toArray]
    exact length_padded hx
  · exact leVal_padded 20 x

/-! ### Replies that fix the secret -/

/-- The secret differs for two choices of the private values. -/
def SAuthLogonChallengeData.Varies (sha1 : Bytes → Digest) (m : SAuthLogonChallengeData) : Prop :=
  ∃ a a' : PrivateKey, ∃ x x' : Digest, secretOf sha1 m a x ≠ secretOf sha1 m a' x'

/-- The modulus is `N₀ * N₁`: every prime of `N₀` divides the first two bases, and modulo `N₁` these are their own
inverses, and the third base is the first one. -/
structure SAuthLogonChallengeData.Splits (m : SAuthLogonChallengeData) (N₀ N₁ : ℕ) : Prop where
  mul : leVal m.n.toList = N₀ * N₁
  vanishing : ∀ p : ℕ, p.Prime → p ∣ N₀ → (p : ℤ) ∣ m.base 0 ∧ (p : ℤ) ∣ m.base 1
  zero_sq : (N₁ : ℤ) ∣ m.base 0 ^ 2 - 1
  one_sq : (N₁ : ℤ) ∣ m.base 1 ^ 2 - 1
  two : (N₁ : ℤ) ∣ m.base 2 - m.base 0

/-- The modulus is zero, or it splits and, modulo `N₁`, the first two bases are the same when `u` is even, and the first
one is 1 when `u` is odd. -/
def SAuthLogonChallengeData.Fixes (sha1 : Bytes → Digest) (m : SAuthLogonChallengeData) : Prop :=
  leVal m.n.toList = 0 ∨ ∃ N₀ N₁, m.Splits N₀ N₁ ∧ ∀ a : PrivateKey,
    if Even (scrambler sha1 m a) then (N₁ : ℤ) ∣ m.base 1 - m.base 0 else (N₁ : ℤ) ∣ m.base 0 - 1

/-- The same without the hash function: one of the two holds. -/
def SAuthLogonChallengeData.Fixable (m : SAuthLogonChallengeData) : Prop :=
  leVal m.n.toList = 0 ∨ ∃ N₀ N₁, m.Splits N₀ N₁ ∧ ((N₁ : ℤ) ∣ m.base 1 - m.base 0 ∨ (N₁ : ℤ) ∣ m.base 0 - 1)

section

variable {N₀ N₁ : ℕ} (h : m.Splits N₀ N₁)

include h

lemma SAuthLogonChallengeData.Splits.dvd_base {p : ℕ} (hp : p.Prime) (hpN : p ∣ N₀) (x : ℕ) : (p : ℤ) ∣ m.base x := by
  obtain ⟨hzero, hone⟩ := h.vanishing p hp hpN
  have hdiff : (p : ℤ) ∣ 3 * ((m.g.toNat : ℤ) - 1) := by
    have hsub := dvd_sub hzero hone
    have heq : m.base 0 - m.base 1 = 3 * ((m.g.toNat : ℤ) - 1) := by
      unfold base
      ring
    rwa [heq] at hsub
  have hpow : (p : ℤ) ∣ 3 * ((m.g.toNat : ℤ) ^ x - 1) :=
    hdiff.trans (mul_dvd_mul_left 3 (sub_one_dvd_pow_sub_one _ x))
  have heq : m.base x = m.base 0 - 3 * ((m.g.toNat : ℤ) ^ x - 1) := by
    unfold base
    ring
  rw [heq]
  exact dvd_sub hzero hpow

lemma SAuthLogonChallengeData.Splits.pos (hN : 0 < leVal m.n.toList) : 0 < N₀ ∧ 0 < N₁ := by
  rw [h.mul] at hN
  exact ⟨Nat.pos_of_mul_pos_right hN, Nat.pos_of_mul_pos_left hN⟩

lemma SAuthLogonChallengeData.Splits.base_modEq (x : ℕ) : m.base x ≡ m.base (x % 2) [ZMOD N₁] := by
  induction x using Nat.twoStepInduction with
  | zero => exact Int.ModEq.refl _
  | one => exact Int.ModEq.refl _
  | more x ih _ =>
    have heq : m.base x - m.base (x + 2) = (m.g.toNat : ℤ) ^ x * (m.base 0 - m.base 2) := by
      unfold base
      ring
    have hstep : m.base (x + 2) ≡ m.base x [ZMOD N₁] := by
      rw [Int.modEq_iff_dvd, heq]
      exact (dvd_sub_comm.1 h.two).mul_left _
    rw [Nat.add_mod_right]
    exact hstep.trans ih

end

/-! ### What a secret that does not vary tells -/

lemma pow_modEq_of_eq (hN : 0 < leVal m.n.toList) {n : ℕ} (hn : n ∣ leVal m.n.toList) {a a' : PrivateKey} {x x' : Digest}
    (heq : secretOf sha1 m a x = secretOf sha1 m a' x') :
    m.base (digestValue x) ^ (a.val + scrambler sha1 m a * digestValue x) ≡
      m.base (digestValue x') ^ (a'.val + scrambler sha1 m a' * digestValue x') [ZMOD n] := by
  have hS := congrArg BigNumber.bigNum heq
  rw [bigNum_secretOf hN, bigNum_secretOf hN] at hS
  exact Int.ModEq.of_dvd (Int.natCast_dvd_natCast.2 hn) hS

lemma PrivateKey.odd_val (a : PrivateKey) : Odd a.val := Nat.odd_iff.2 a.odd

lemma PrivateKey.val_ne_zero (a : PrivateKey) (n : ℕ) : a.val + n ≠ 0 := by
  have := a.odd
  omega

lemma PrivateKey.second_val : PrivateKey.second.val = PrivateKey.first.val + 2 := rfl

section

variable (hconst : ¬m.Varies sha1)

include hconst

/-- Modulo a divisor of the modulus every power is that of the smallest private value, for `x = 0`. -/
lemma base_pow_modEq (hN : 0 < leVal m.n.toList) {n : ℕ} (hn : n ∣ leVal m.n.toList) (a : PrivateKey) {x : ℕ}
    (hx : x < 256 ^ 20) :
    m.base x ^ (a.val + scrambler sha1 m a * x) ≡ m.base 0 ^ PrivateKey.first.val [ZMOD n] := by
  unfold SAuthLogonChallengeData.Varies at hconst
  push Not at hconst
  obtain ⟨d, rfl⟩ := exists_digest hx
  have heq := pow_modEq_of_eq hN hn (hconst a .first d zeroDigest)
  rwa [digestValue_zeroDigest, mul_zero, add_zero] at heq

lemma base_pow_eq (hN : 0 < leVal m.n.toList) {n : ℕ} (hn : n ∣ leVal m.n.toList) (a : PrivateKey) {x : ℕ}
    (hx : x < 256 ^ 20) :
    ((m.base x : ℤ) : ZMod n) ^ (a.val + scrambler sha1 m a * x) = ((m.base 0 : ℤ) : ZMod n) ^ PrivateKey.first.val := by
  have heq := (ZMod.intCast_eq_intCast_iff _ _ _).2 (base_pow_modEq hconst hN hn a hx)
  push_cast at heq
  exact heq

/-- The bases are units modulo a divisor that the first one is prime to, and their powers do not vary. -/
lemma exists_steady (hN : 0 < leVal m.n.toList) {n : ℕ} (hn : n ∣ leVal m.n.toList) (hcoprime : IsCoprime (m.base 0) n) :
    ∃ c : ℕ → (ZMod n)ˣ, (∀ x, x < 256 ^ 20 → (c x : ZMod n) = ((m.base x : ℤ) : ZMod n)) ∧
      Steady (256 ^ 20) ((leVal m.b.toList : ℕ) : ZMod n) 3 ((m.g.toNat : ℕ) : ZMod n) c
        PrivateKey.first.val (scrambler sha1 m .first) (scrambler sha1 m .second) := by
  have hpow := fun (a : PrivateKey) {x : ℕ} (hx : x < 256 ^ 20) => base_pow_eq hconst hN hn a hx
  have hunit : ∀ x, ∃ y : (ZMod n)ˣ, x < 256 ^ 20 → (y : ZMod n) = ((m.base x : ℤ) : ZMod n) := by
    intro x
    by_cases hx : x < 256 ^ 20
    · have hzero : IsUnit ((m.base 0 : ℤ) : ZMod n) := (ZMod.coe_int_isUnit_iff_isCoprime _ _).2 hcoprime.symm
      have hx' : IsUnit ((m.base x : ℤ) : ZMod n) := by
        rw [← isUnit_pow_iff (PrivateKey.first.val_ne_zero _), hpow .first hx]
        exact hzero.pow _
      exact ⟨hx'.unit, fun _ => rfl⟩
    · exact ⟨1, fun h => absurd h hx⟩
  choose c hc using hunit
  refine ⟨c, hc, fun x hx => ?_, fun x hx => ?_, fun x hx => ?_, PrivateKey.first.odd_val, by norm_num⟩
  · rw [hc x hx]
    unfold SAuthLogonChallengeData.base
    push_cast
    rfl
  · apply Units.ext
    push_cast
    rw [hc x hx, hc 0 (by norm_num)]
    exact hpow .first hx
  · apply Units.ext
    push_cast
    rw [hc x hx, hc 0 (by norm_num), ← PrivateKey.second_val]
    exact hpow .second hx

/-- A prime that divides the first base divides the second one. -/
lemma dvd_base_one (hN : 0 < leVal m.n.toList) {p : ℕ} (hp : p.Prime) (hpN : p ∣ leVal m.n.toList)
    (hzero : (p : ℤ) ∣ m.base 0) : (p : ℤ) ∣ m.base 1 := by
  have hpow := base_pow_modEq hconst hN hpN .first (show 1 < 256 ^ 20 by norm_num)
  have hdvd : (p : ℤ) ∣ m.base 0 ^ PrivateKey.first.val := dvd_pow hzero (PrivateKey.first.val_ne_zero 0)
  exact (Nat.prime_iff_prime_int.1 hp).dvd_of_dvd_pow ((dvd_iff_dvd_of_dvd_sub hpow.dvd).1 hdvd)

end

/-- There are few units modulo a divisor of the modulus. -/
lemma card_units_lt (hN : 0 < leVal m.n.toList) {n : ℕ} [NeZero n] (hn : n ∣ leVal m.n.toList) :
    Nat.card (ZMod n)ˣ < 53 ^ 52 := by
  have hlt := leVal_lt m.n.toList
  rw [Vector.length_toList] at hlt
  rw [Nat.card_eq_fintype_card, ZMod.card_units_eq_totient]
  calc n.totient ≤ n := n.totient_le
    _ ≤ leVal m.n.toList := Nat.le_of_dvd hN hn
    _ < 256 ^ 32 := hlt
    _ < 53 ^ 52 := by norm_num

/-- Of an element that is its own inverse, odd powers are the element and even ones are 1. -/
lemma unit_of_pow {G : Type*} [Monoid G] {y z : G} (hy : y ^ 2 = 1) {k u : ℕ} (hk : Odd k) (hpow : y ^ (k + u) = z) :
    if Even u then y = z else z = 1 := by
  split
  case isTrue heven =>
    obtain ⟨i, hi⟩ := hk.add_even heven
    rwa [hi, pow_succ, pow_mul, hy, one_pow, one_mul] at hpow
  case isFalse hodd =>
    obtain ⟨i, hi⟩ := (hk.add_odd (Nat.not_even_iff_odd.1 hodd)).two_dvd
    rw [hi, pow_mul, hy, one_pow] at hpow
    exact hpow.symm

/-- **A secret that does not vary** is that of a reply which fixes it. -/
lemma fixes_of_not_varies (hconst : ¬m.Varies sha1) : m.Fixes sha1 := by
  rcases Nat.eq_zero_or_pos (leVal m.n.toList) with hN | hN
  · exact Or.inl hN
  obtain ⟨N₀, N₁, hmul, hprimes, hcoprime⟩ := exists_coprime_part (m.base 0) hN.ne'
  have h₀ : N₀ ∣ leVal m.n.toList := Dvd.intro N₁ hmul.symm
  have h₁ : N₁ ∣ leVal m.n.toList := Dvd.intro_left N₀ hmul.symm
  have : NeZero N₁ := ⟨(Nat.pos_of_dvd_of_pos h₁ hN).ne'⟩
  obtain ⟨c, hc, hsteady⟩ := exists_steady hconst hN h₁ hcoprime.symm
  obtain ⟨hzero, hone, htwo⟩ := hsteady.spec (card_units_lt hN h₁) Nat.card_pos
  have hc0 : (c 0 : ZMod N₁) = ((m.base 0 : ℤ) : ZMod N₁) := hc 0 (by norm_num)
  have hc1 : (c 1 : ZMod N₁) = ((m.base 1 : ℤ) : ZMod N₁) := hc 1 (by norm_num)
  have hdvd : ∀ {y z : ℤ}, ((y : ℤ) : ZMod N₁) = ((z : ℤ) : ZMod N₁) → (N₁ : ℤ) ∣ y - z := by
    intro y z heq
    rw [← ZMod.intCast_zmod_eq_zero_iff_dvd, Int.cast_sub, heq, sub_self]
  refine Or.inr ⟨N₀, N₁, ⟨hmul, fun p hp hpN => ?_, hdvd ?_, hdvd ?_, hdvd ?_⟩, fun a => ?_⟩
  · exact ⟨hprimes p hp hpN, dvd_base_one hconst hN hp (hpN.trans h₀) (hprimes p hp hpN)⟩
  · have heq := congrArg Units.val hzero
    push_cast at heq ⊢
    rwa [← hc0]
  · have heq := congrArg Units.val hone
    push_cast at heq ⊢
    rwa [← hc1]
  · unfold SAuthLogonChallengeData.base
    push_cast
    rw [htwo, pow_zero, mul_one]
  · have hpow : c 1 ^ (a.val + scrambler sha1 m a * 1) = c 0 ^ PrivateKey.first.val := by
      apply Units.ext
      push_cast
      rw [hc1, hc0]
      exact base_pow_eq hconst hN h₁ a (by norm_num)
    rw [mul_one, hsteady.zero_pow PrivateKey.first.odd_val] at hpow
    have hunit := unit_of_pow hone a.odd_val hpow
    split
    case isTrue heven =>
      rw [if_pos heven] at hunit
      refine hdvd ?_
      rw [← hc0, ← hc1, hunit]
    case isFalse hodd =>
      rw [if_neg hodd] at hunit
      refine hdvd ?_
      rw [← hc0, hunit]
      push_cast
      rfl

/-- Powers of the base modulo `N₁`: those with odd exponents are the first base again. -/
lemma SAuthLogonChallengeData.Splits.pow_modEq {N₀ N₁ : ℕ} (h : m.Splits N₀ N₁) {a : PrivateKey}
    (hu : if Even (scrambler sha1 m a) then (N₁ : ℤ) ∣ m.base 1 - m.base 0 else (N₁ : ℤ) ∣ m.base 0 - 1) (x : ℕ) :
    m.base x ^ (a.val + scrambler sha1 m a * x) ≡ m.base 0 [ZMOD N₁] := by
  have hsquare : ∀ {y : ℤ}, (N₁ : ℤ) ∣ y ^ 2 - 1 → y ^ 2 ≡ 1 [ZMOD N₁] := fun hy =>
    (Int.modEq_iff_dvd.2 hy).symm
  have hodd : ∀ {y : ℤ} {e : ℕ}, y ^ 2 ≡ 1 [ZMOD N₁] → Odd e → y ^ e ≡ y [ZMOD N₁] := by
    rintro y e hy ⟨k, rfl⟩
    rw [pow_succ, pow_mul]
    simpa using (hy.pow k).mul_right y
  refine ((h.base_modEq x).pow _).trans ?_
  rcases Nat.even_or_odd x with hx | hx
  · rw [Nat.even_iff.1 hx]
    exact hodd (hsquare h.zero_sq) (a.odd_val.add_even (hx.mul_left _))
  · rw [Nat.odd_iff.1 hx]
    split at hu
    case isTrue heven =>
      exact (hodd (hsquare h.one_sq) (a.odd_val.add_even (heven.mul_right x))).trans (Int.modEq_iff_dvd.2 hu).symm
    case isFalse hodd' =>
      obtain ⟨k, hk⟩ := (a.odd_val.add_odd ((Nat.not_even_iff_odd.1 hodd').mul hx)).two_dvd
      rw [hk, pow_mul]
      have hone := (hsquare h.one_sq).pow k
      rw [one_pow] at hone
      exact hone.trans (Int.modEq_iff_dvd.2 hu)

lemma SAuthLogonChallengeData.Splits.isCoprime {N₀ N₁ : ℕ} (h : m.Splits N₀ N₁) : IsCoprime (N₀ : ℤ) N₁ := by
  rw [Nat.isCoprime_iff_coprime]
  refine Nat.coprime_of_dvd fun p hp h₀ h₁ => hp.one_lt.ne' ?_
  have hbase : (p : ℤ) ∣ m.base 0 ^ 2 := dvd_pow (h.vanishing p hp h₀).1 two_ne_zero
  have hone : (p : ℤ) ∣ 1 := (dvd_iff_dvd_of_dvd_sub ((Int.natCast_dvd_natCast.2 h₁).trans h.zero_sq)).1 hbase
  exact Nat.dvd_one.1 (Int.natCast_dvd_natCast.1 (by exact_mod_cast hone))

lemma not_varies_of_fixes (hfixes : m.Fixes sha1) : ¬m.Varies sha1 := by
  rintro ⟨a, a', x, x', hne⟩
  rcases Nat.eq_zero_or_pos (leVal m.n.toList) with hN | hN
  · exact hne ((secretOf_of_zero hN a x).trans (secretOf_of_zero hN a' x').symm)
  obtain ⟨N₀, N₁, h, hu⟩ := hfixes.resolve_left hN.ne'
  have hvanishes : ∀ (a : PrivateKey) (x : ℕ), (N₀ : ℤ) ∣ m.base x ^ (a.val + scrambler sha1 m a * x) := by
    intro a x
    refine dvd_pow_of_primes (fun p hp hpN => h.dvd_base hp hpN x) (h.pos hN).1.ne' ?_
    have hlt := leVal_lt m.n.toList
    rw [Vector.length_toList] at hlt
    calc N₀ ≤ leVal m.n.toList := Nat.le_of_dvd hN (Dvd.intro N₁ h.mul.symm)
      _ < 2 ^ 256 := hlt.trans_eq (by norm_num)
      _ ≤ 2 ^ (a.val + scrambler sha1 m a * x) := by
        refine Nat.pow_le_pow_right (by norm_num) (le_trans ?_ (Nat.le_add_right _ _))
        exact le_trans (by norm_num) a.lower
  have hboth : m.base (digestValue x) ^ (a.val + scrambler sha1 m a * digestValue x) ≡
      m.base (digestValue x') ^ (a'.val + scrambler sha1 m a' * digestValue x') [ZMOD leVal m.n.toList] := by
    rw [h.mul, Nat.cast_mul, Int.modEq_iff_dvd]
    refine h.isCoprime.mul_dvd (dvd_sub (hvanishes a' _) (hvanishes a _)) ?_
    exact ((h.pow_modEq (hu a) _).trans (h.pow_modEq (hu a') _).symm).dvd
  apply hne
  have hS : (secretOf sha1 m a x).bigNum = (secretOf sha1 m a' x').bigNum := by
    rw [bigNum_secretOf hN, bigNum_secretOf hN]
    exact hboth
  exact congrArg BigNumber.mk hS

lemma fixable_iff : m.Fixable ↔ ∃ sha1, m.Fixes sha1 := by
  have hscrambler : ∀ (d : Digest) (a : PrivateKey), scrambler (fun _ => d) m a = digestValue d := fun _ _ => rfl
  constructor
  · rintro (hN | ⟨N₀, N₁, h, hu⟩)
    · exact ⟨fun _ => zeroDigest, Or.inl hN⟩
    · -- a hash function whose only value is even, or odd
      obtain ⟨zero, hzero⟩ := exists_digest (show 0 < 256 ^ 20 by norm_num)
      obtain ⟨one, hone⟩ := exists_digest (show 1 < 256 ^ 20 by norm_num)
      rcases hu with hu | hu
      · refine ⟨fun _ => zero, Or.inr ⟨N₀, N₁, h, fun a => ?_⟩⟩
        rw [hscrambler, hzero, if_pos Even.zero]
        exact hu
      · refine ⟨fun _ => one, Or.inr ⟨N₀, N₁, h, fun a => ?_⟩⟩
        rw [hscrambler, hone, if_neg Nat.not_even_one]
        exact hu
  · rintro ⟨sha1, hN | ⟨N₀, N₁, h, hu⟩⟩
    · exact Or.inl hN
    · refine Or.inr ⟨N₀, N₁, h, ?_⟩
      have hu := hu .first
      split at hu
      · exact Or.inl hu
      · exact Or.inr hu

/-- With a modulus that has no prime in common with the first base, there is nothing to split off. -/
lemma fixable_iff_of_isCoprime (hN : leVal m.n.toList ≠ 0) (hcoprime : IsCoprime (leVal m.n.toList : ℤ) (m.base 0)) :
    m.Fixable ↔ ((leVal m.n.toList : ℤ) ∣ m.base 0 ^ 2 - 1 ∧ (leVal m.n.toList : ℤ) ∣ m.base 1 ^ 2 - 1 ∧
      (leVal m.n.toList : ℤ) ∣ m.base 2 - m.base 0) ∧
        ((leVal m.n.toList : ℤ) ∣ m.base 1 - m.base 0 ∨ (leVal m.n.toList : ℤ) ∣ m.base 0 - 1) := by
  constructor
  · intro hfixable
    obtain ⟨N₀, N₁, h, hu⟩ := hfixable.resolve_left hN
    obtain rfl : N₀ = 1 := by
      by_contra hne
      obtain ⟨p, hp, hpN⟩ := Nat.exists_prime_and_dvd hne
      have hdvd : (p : ℤ) ∣ leVal m.n.toList := Int.natCast_dvd_natCast.2 (hpN.trans (Dvd.intro N₁ h.mul.symm))
      have hone := hcoprime.isUnit_of_dvd' hdvd (h.vanishing p hp hpN).1
      exact (Nat.prime_iff_prime_int.1 hp).not_isUnit hone
    have hN₁ : leVal m.n.toList = N₁ := h.mul.trans (Nat.one_mul N₁)
    rw [hN₁]
    exact ⟨⟨h.zero_sq, h.one_sq, h.two⟩, hu⟩
  · rintro ⟨⟨hzero, hone, htwo⟩, hu⟩
    refine Or.inr ⟨1, _, ⟨(Nat.one_mul _).symm, fun p hp h => ?_, hzero, hone, htwo⟩, hu⟩
    exact absurd (Nat.dvd_one.1 h) hp.ne_one

/-- `N = 8`, `g = 3` and `B = 2`: the bases are their own inverses, and the secret varies with every hash function. -/
example : ¬SAuthLogonChallengeData.Fixable { sampleChallenge with
    b := (Vector.replicate 32 0).set 0 2
    g := 3
    n := (Vector.replicate 32 0).set 0 8 } := by
  rw [fixable_iff_of_isCoprime (by decide +kernel) (by rw [Int.isCoprime_iff_gcd_eq_one]; decide +kernel)]
  decide +kernel

/-- **When the secret varies**: with a hash function `sha1` exactly when the reply does not fix it, and with every hash
function exactly when the reply is not one that can fix it. -/
theorem secret_varies (m : SAuthLogonChallengeData) :
    (∀ sha1, m.Varies sha1 ↔ ¬m.Fixes sha1) ∧ ((∀ sha1, m.Varies sha1) ↔ ¬m.Fixable) := by
  have hiff : ∀ sha1, m.Varies sha1 ↔ ¬m.Fixes sha1 := fun sha1 =>
    ⟨fun hv hf => not_varies_of_fixes hf hv, not_imp_comm.1 fixes_of_not_varies⟩
  refine ⟨hiff, ?_⟩
  rw [fixable_iff, not_exists]
  exact forall_congr' hiff

/-- A challenge with the generator 1 and `B = 4`. -/
def fixingChallenge : SAuthLogonChallengeData :=
  { sampleChallenge with
    b := (Vector.replicate 32 0).set 0 4
    g := 1 }

/-- The reply passes the test, and the secret is 1 for every client. -/
theorem secret_counterexample :
    fixingChallenge.Accepted ∧
      ∀ (sha1 : Bytes → Digest) (a : PrivateKey) (x : Digest),
        secretOf sha1 fixingChallenge a x = ⟨1⟩ := by
  have hb : leVal fixingChallenge.b.toList = 4 := by decide +kernel
  have hN : 1 < leVal fixingChallenge.n.toList := by decide +kernel
  refine ⟨?_, ?_⟩
  · rw [accepted_iff]
    decide +kernel
  · intro sha1 a x
    have hbase : fixingChallenge.base (digestValue x) = 1 := by
      unfold SAuthLogonChallengeData.base
      rw [hb, show fixingChallenge.g.toNat = 1 from rfl]
      norm_num
    have hS : (secretOf sha1 fixingChallenge a x).bigNum = _ := bigNum_secretOf (by omega) a x
    rw [hbase, one_pow, Int.emod_eq_of_lt (by norm_num) (by exact_mod_cast hN)] at hS
    exact congrArg BigNumber.mk hS

end

end NovusHeadless
