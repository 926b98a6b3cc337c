import Mathlib.Data.Int.ModEq
import Mathlib.RingTheory.Int.Basic
import Mathlib.Tactic

/-!
# Powers modulo a number

* `powMod b e m` — `b ^ e % m` by repeated squaring (`powMod_eq`);
* `agreement` — the two ways the parties of an SRP exchange raise the same element to the same power,
  in any commutative monoid;
* `exists_coprime_part`, `dvd_pow_of_primes` — the part of a modulus whose primes divide a number, and the powers of
  this number that it divides.
-/

namespace NovusHeadless.Lib

/-- Repeated squaring: `fuel` bounds the number of bits of the exponent that are left. -/
def powModLoop (m : ℕ) : (fuel base exponent acc : ℕ) → ℕ
  | 0, _, _, acc => acc
  | fuel + 1, base, exponent, acc =>
    powModLoop m fuel (base * base % m) (exponent / 2)
      (if exponent % 2 = 1 then acc * base % m else acc)

/-- `b ^ e % m`, by repeated squaring. -/
def powMod (b e m : ℕ) : ℕ := powModLoop m (e.log2 + 1) (b % m) e (1 % m)

theorem powModLoop_modEq (m : ℕ) :
    ∀ fuel base exponent acc, exponent < 2 ^ fuel →
      powModLoop m fuel base exponent acc ≡ acc * base ^ exponent [MOD m] := by
  intro fuel
  induction fuel with
  | zero =>
    intro base exponent acc h
    obtain rfl : exponent = 0 := by simpa using h
    simp [powModLoop, Nat.ModEq]
  | succ fuel ih =>
    intro base exponent acc h
    have hhalf : exponent / 2 < 2 ^ fuel := by rw [pow_succ] at h; omega
    have hacc : (if exponent % 2 = 1 then acc * base % m else acc) ≡
        acc * base ^ (exponent % 2) [MOD m] := by
      rcases Nat.mod_two_eq_zero_or_one exponent with h0 | h1
      · simp [h0, Nat.ModEq]
      · simp [h1, Nat.ModEq]
    have hsq : (base * base % m) ^ (exponent / 2) ≡ base ^ (2 * (exponent / 2)) [MOD m] := by
      rw [pow_mul, sq]
      exact (Nat.mod_modEq (base * base) m).pow _
    unfold powModLoop
    refine (ih _ _ _ hhalf).trans ((hacc.mul hsq).trans ?_)
    rw [mul_assoc, ← pow_add, Nat.mod_add_div]

lemma powModLoop_lt {m : ℕ} (hm : 0 < m) :
    ∀ fuel base exponent acc, acc < m → powModLoop m fuel base exponent acc < m := by
  intro fuel
  induction fuel with
  | zero => intro _ _ _ h; exact h
  | succ fuel ih =>
    intro base exponent acc h
    apply ih
    split
    · exact Nat.mod_lt _ hm
    · exact h

/-- **Repeated squaring computes the power.** -/
theorem powMod_eq (b e : ℕ) {m : ℕ} (hm : 0 < m) : powMod b e m = b ^ e % m := by
  have hlt : powMod b e m < m := powModLoop_lt hm _ _ _ _ (Nat.mod_lt _ hm)
  have hfuel : e < 2 ^ (e.log2 + 1) := by
    rw [Nat.log2_eq_log_two]
    exact Nat.lt_pow_succ_log_self (by norm_num) e
  have hmod : powMod b e m ≡ b ^ e [MOD m] := by
    apply (powModLoop_modEq m _ _ _ _ hfuel).trans
    have := (Nat.mod_modEq 1 m).mul ((Nat.mod_modEq b m).pow e)
    rwa [one_mul] at this
  rw [← Nat.mod_eq_of_lt hlt]
  exact hmod

/-- **SRP agreement.**  The client's base is the server's ephemeral power `g ^ b`; raising it to
`a + u * x` gives what the server gets from the client's public value and the verifier `g ^ x`. -/
theorem agreement {M : Type*} [CommMonoid M] (g : M) (a b u x : ℕ) :
    (g ^ b) ^ (a + u * x) = (g ^ a * (g ^ x) ^ u) ^ b := by
  rw [mul_pow, ← pow_mul, ← pow_mul, ← pow_mul, ← pow_mul, ← pow_add]
  ring_nf

/-! ### The primes of a modulus -/

/-- The primes of a number that divide `c`, and the others. -/
lemma exists_coprime_part (c : ℤ) {n : ℕ} (hn : n ≠ 0) :
    ∃ n₀ n₁ : ℕ, n = n₀ * n₁ ∧ (∀ p : ℕ, p.Prime → p ∣ n₀ → (p : ℤ) ∣ c) ∧ IsCoprime (n₁ : ℤ) c := by
  induction n using induction_on_primes with
  | zero => exact absurd rfl hn
  | one => exact ⟨1, 1, rfl, fun p hp h => absurd (Nat.dvd_one.1 h) hp.ne_one, isCoprime_one_left⟩
  | prime_mul q n hq ih =>
    obtain ⟨n₀, n₁, rfl, hprimes, hcoprime⟩ := ih (Nat.ne_zero_of_mul_ne_zero_right hn)
    by_cases hqc : (q : ℤ) ∣ c
    · refine ⟨q * n₀, n₁, (mul_assoc _ _ _).symm, fun p hp h => ?_, hcoprime⟩
      rcases hp.dvd_mul.1 h with hpq | hpn
      · rwa [(Nat.prime_dvd_prime_iff_eq hp hq).1 hpq]
      · exact hprimes p hp hpn
    · refine ⟨n₀, q * n₁, mul_left_comm _ _ _, hprimes, ?_⟩
      rw [Nat.cast_mul]
      exact ((Nat.prime_iff_prime_int.1 hq).coprime_iff_not_dvd.2 hqc).mul_left hcoprime

/-- A number whose primes divide `c` divides the powers of `c` that are large enough. -/
lemma dvd_pow_of_primes {c : ℤ} {n e : ℕ} (h : ∀ p : ℕ, p.Prime → p ∣ n → (p : ℤ) ∣ c) (hn : n ≠ 0) (hlt : n < 2 ^ e) :
    (n : ℤ) ∣ c ^ e := by
  induction n using induction_on_primes generalizing e with
  | zero => exact absurd rfl hn
  | one => exact one_dvd _
  | prime_mul q n hq ih =>
    cases e with
    | zero =>
      have := Nat.pos_of_ne_zero hn
      omega
    | succ e =>
      have hpos := Nat.pos_of_ne_zero (Nat.ne_zero_of_mul_ne_zero_right hn)
      have hhalf : n < 2 ^ e := by
        have hle : 2 * n ≤ q * n := Nat.mul_le_mul_right n hq.two_le
        rw [pow_succ] at hlt
        omega
      rw [Nat.cast_mul, pow_succ, mul_comm]
      exact mul_dvd_mul (ih (fun p hp hpn => h p hp (hpn.mul_left q)) hpos.ne' hhalf) (h q hq (dvd_mul_right q n))

end NovusHeadless.Lib
