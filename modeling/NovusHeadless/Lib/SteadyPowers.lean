import Mathlib.Algebra.BigOperators.Associated
import Mathlib.GroupTheory.OrderOfElement
import Mathlib.NumberTheory.Primorial
import Mathlib.Tactic

/-!
# Powers that stay the same

Units `c x = b - w * g ^ x` of a ring are raised to the powers `a + u * x` and `a + 2 + u' * x`, with an odd `a`.
When none of these powers depends on `x`, for all `x` below a bound, little is left for the units to be
(`Steady.spec`): each of the first two is its own inverse, and `w * g ^ 2 = w`, so that the others are one of
these two.

The order of `c x` divides `2 + (u' - u) * x`.  An odd prime that divides it does not divide `x`, and a prime that
divides the orders of two units divides the difference of their indices.  So different multiples of a number with
many small prime divisors take different large primes, for which the group has no room: one of these units is
`c 0` (`Steady.exists_period`).  From this period of the sequence one prime after the other can be taken away
(`Steady.period_of_mul`).
-/

namespace NovusHeadless.Lib

variable {R : Type*} [CommRing R]

structure Steady (L : ℕ) (b w g : R) (c : ℕ → Rˣ) (a u u' : ℕ) : Prop where
  unit_eq : ∀ x < L, (c x : R) = b - w * g ^ x
  first : ∀ x < L, c x ^ (a + u * x) = c 0 ^ a
  second : ∀ x < L, c x ^ (a + 2 + u' * x) = c 0 ^ a
  odd : Odd a
  large : 2 * (52 * 4 ^ 52) < L

lemma mul_pow_mul_of_mul_pow {w g : R} {m : ℕ} (h : w * g ^ m = w) (j : ℕ) : w * g ^ (m * j) = w := by
  induction j with
  | zero => rw [Nat.mul_zero, pow_zero, mul_one]
  | succ j ih => rw [Nat.mul_succ, pow_add, ← mul_assoc, ih, h]

namespace Steady

variable {L : ℕ} {b w g : R} {c : ℕ → Rˣ} {a u u' : ℕ}

section

variable (h : Steady L b w g c a u u')

include h

lemma pos : 0 < L := Nat.zero_lt_of_lt h.large

/-! ### Orders -/

lemma orderOf_dvd {x : ℕ} (hx : x < L) : (orderOf (c x) : ℤ) ∣ 2 + ((u' : ℤ) - u) * x := by
  have hexp : (2 : ℤ) + ((u' : ℤ) - u) * x = ((a + 2 + u' * x : ℕ) : ℤ) - ((a + u * x : ℕ) : ℤ) := by
    push_cast
    ring
  rw [orderOf_dvd_iff_zpow_eq_one, hexp, zpow_sub, zpow_natCast, zpow_natCast, h.first x hx, h.second x hx,
    mul_inv_cancel]

lemma zero_sq : c 0 ^ 2 = 1 := by
  have hzero := h.second 0 h.pos
  rw [Nat.mul_zero, Nat.add_zero, pow_add] at hzero
  exact mul_eq_left.1 hzero

lemma zero_pow {e : ℕ} (he : Odd e) : c 0 ^ e = c 0 := by
  obtain ⟨k, rfl⟩ := he
  rw [pow_succ, pow_mul, h.zero_sq, one_pow, one_mul]

/-- A unit with an even index is the first one, or an odd prime divides its order. -/
lemma exists_prime {x : ℕ} (hx : x < L) (heven : Even x) (hne : c x ≠ c 0) :
    ∃ ℓ : ℕ, ℓ.Prime ∧ ℓ ≠ 2 ∧ ℓ ∣ orderOf (c x) := by
  by_contra! hnone
  have hodd : Odd (a + u * x) := h.odd.add_even (heven.mul_left u)
  have hpow : c x ^ (a + u * x) = c 0 := (h.first x hx).trans (h.zero_pow h.odd)
  have hcoprime : (orderOf (c x)).Coprime (a + u * x) := by
    refine Nat.Coprime.symm (Nat.coprime_of_dvd fun ℓ hℓ hdvd hdvd' => ?_)
    obtain rfl : ℓ = 2 := by
      by_contra hℓ2
      exact hnone ℓ hℓ hℓ2 hdvd'
    exact (Nat.not_even_iff_odd.2 hodd) (even_iff_two_dvd.2 hdvd)
  have htwo : orderOf (c x) ∣ 2 := by
    refine hcoprime.dvd_of_dvd_mul_left (orderOf_dvd_of_pow_eq_one ?_)
    rw [pow_mul, hpow, h.zero_sq]
  have hsq : c x ^ 2 = 1 := orderOf_dvd_iff_pow_eq_one.1 htwo
  obtain ⟨k, hk⟩ := hodd
  rw [hk, pow_succ, pow_mul, hsq, one_pow, one_mul] at hpow
  exact hne hpow

lemma not_dvd_of_dvd_orderOf {x ℓ : ℕ} (hx : x < L) (hℓ : ℓ.Prime) (hℓ2 : ℓ ≠ 2) (hdvd : ℓ ∣ orderOf (c x)) :
    ¬ℓ ∣ x := by
  intro hℓx
  have hsum := (Int.natCast_dvd_natCast.2 hdvd).trans (h.orderOf_dvd hx)
  have htwo : (ℓ : ℤ) ∣ (2 : ℕ) := (Int.dvd_add_left ((Int.natCast_dvd_natCast.2 hℓx).mul_left _)).1 hsum
  exact hℓ2 ((Nat.prime_dvd_prime_iff_eq hℓ Nat.prime_two).1 (Int.natCast_dvd_natCast.1 htwo))

lemma dvd_sub_of_dvd_orderOf {x x' ℓ : ℕ} (hx : x < L) (hx' : x' < L) (hℓ : ℓ.Prime) (hℓ2 : ℓ ≠ 2)
    (hdvd : ℓ ∣ orderOf (c x)) (hdvd' : ℓ ∣ orderOf (c x')) : (ℓ : ℤ) ∣ (x : ℤ) - x' := by
  have hsum := (Int.natCast_dvd_natCast.2 hdvd).trans (h.orderOf_dvd hx)
  have hsum' := (Int.natCast_dvd_natCast.2 hdvd').trans (h.orderOf_dvd hx')
  have hboth : (ℓ : ℤ) ∣ (2 : ℕ) * ((x : ℤ) - x') := by
    have hdiff := dvd_sub (hsum'.mul_left (x : ℤ)) (hsum.mul_left (x' : ℤ))
    have heq : (x : ℤ) * (2 + ((u' : ℤ) - u) * x') - x' * (2 + ((u' : ℤ) - u) * x) =
        (2 : ℕ) * ((x : ℤ) - x') := by
      push_cast
      ring
    rwa [heq] at hdiff
  rcases (Nat.prime_iff_prime_int.1 hℓ).dvd_or_dvd hboth with htwo | hdiff
  · exact absurd ((Nat.prime_dvd_prime_iff_eq hℓ Nat.prime_two).1 (Int.natCast_dvd_natCast.1 htwo)) hℓ2
  · exact hdiff

/-! ### A period -/

lemma mul_pow_of_eq {K : ℕ} (hK : K < L) (heq : c K = c 0) : w * g ^ K = w := by
  have hunits := congrArg (Units.val) heq
  rw [h.unit_eq K hK, h.unit_eq 0 h.pos, pow_zero, mul_one] at hunits
  exact sub_right_injective hunits

lemma eq_of_period {K x : ℕ} (hK : w * g ^ K = w) (hx : x + K < L) : c (x + K) = c x := by
  apply Units.ext
  rw [h.unit_eq _ hx, h.unit_eq x (Nat.lt_of_add_right_lt hx), pow_add, mul_comm (g ^ x), ← mul_assoc, hK]

/-- **There is a period.**  One of 52 multiples of all the primes up to 52 is the index of a unit that is the first
one again: the others would need different primes from 53 on. -/
lemma exists_period (hcard : Nat.card Rˣ < 53 ^ 52) (hfinite : 0 < Nat.card Rˣ) :
    ∃ K, 0 < K ∧ Even K ∧ 2 * K < L ∧ w * g ^ K = w := by
  have hbound : ∀ t ∈ Finset.Icc 1 52, 2 * (primorial 52 * t) < L := by
    intro t ht
    have hle : primorial 52 * t ≤ 4 ^ 52 * 52 := Nat.mul_le_mul (primorial_le_four_pow 52) (Finset.mem_Icc.1 ht).2
    have := h.large
    omega
  have heven : ∀ t, Even (primorial 52 * t) := fun t =>
    (even_iff_two_dvd.2 (Nat.prime_two.dvd_primorial_iff.2 (by norm_num))).mul_right t
  by_contra! hnone
  have hne : ∀ t ∈ Finset.Icc 1 52, c (primorial 52 * t) ≠ c 0 := by
    intro t ht heq
    have hlt := hbound t ht
    refine hnone _ (Nat.mul_pos (primorial_pos 52) (Finset.mem_Icc.1 ht).1) (heven t) hlt ?_
    exact h.mul_pow_of_eq (by omega) heq
  have hprime : ∀ t ∈ Finset.Icc 1 52, ∃ ℓ : ℕ, ℓ.Prime ∧ ℓ ≠ 2 ∧ ℓ ∣ orderOf (c (primorial 52 * t)) := by
    intro t ht
    have hlt := hbound t ht
    exact h.exists_prime (by omega) (heven t) (hne t ht)
  choose! ℓ hℓ hℓ2 hdvd using hprime
  have hnot : ∀ t ∈ Finset.Icc 1 52, ¬ℓ t ≤ 52 := by
    intro t ht hle
    have hlt := hbound t ht
    exact h.not_dvd_of_dvd_orderOf (by omega) (hℓ t ht) (hℓ2 t ht) (hdvd t ht)
      (((hℓ t ht).dvd_primorial_iff.2 hle).mul_right t)
  have hinj : Set.InjOn ℓ (Finset.Icc 1 52) := by
    intro t ht t' ht' heq
    have ht := Finset.mem_coe.1 ht
    have ht' := Finset.mem_coe.1 ht'
    have hlt := hbound t ht
    have hlt' := hbound t' ht'
    have hdiff := h.dvd_sub_of_dvd_orderOf (by omega) (by omega) (hℓ t ht) (hℓ2 t ht) (hdvd t ht)
      (heq ▸ hdvd t' ht')
    push_cast at hdiff
    rw [← mul_sub] at hdiff
    have hlarge := hnot t ht
    rcases (Nat.prime_iff_prime_int.1 (hℓ t ht)).dvd_or_dvd hdiff with hsmall | hclose
    · exact absurd ((hℓ t ht).dvd_primorial_iff.1 (Int.natCast_dvd_natCast.1 hsmall)) hlarge
    · have hzero := Int.eq_zero_of_abs_lt_dvd hclose
        (by rw [abs_lt]; simp only [Finset.mem_Icc] at ht ht'; omega)
      omega
  have hprod : ∏ p ∈ (Finset.Icc 1 52).image ℓ, p ∣ Nat.card Rˣ := by
    refine Finset.prod_primes_dvd _ ?_ ?_
    · intro p hp
      obtain ⟨t, ht, rfl⟩ := Finset.mem_image.1 hp
      exact (hℓ t ht).prime
    · intro p hp
      obtain ⟨t, ht, rfl⟩ := Finset.mem_image.1 hp
      exact (hdvd t ht).trans (orderOf_dvd_natCard _)
  have hlarge : 53 ^ 52 ≤ ∏ p ∈ (Finset.Icc 1 52).image ℓ, p := by
    rw [Finset.prod_image hinj]
    calc 53 ^ 52 = ∏ _t ∈ Finset.Icc 1 52, 53 := by rw [Finset.prod_const, Nat.card_Icc]
      _ ≤ ∏ t ∈ Finset.Icc 1 52, ℓ t := by
        refine Finset.prod_le_prod (fun _ _ => Nat.zero_le _) fun t ht => ?_
        have := hnot t ht
        omega
  exact absurd (Nat.le_of_dvd hfinite hprod) (by omega)

lemma orderOf_dvd_two_mul {K x : ℕ} (hK : w * g ^ K = w) (hx : x + K < L) : orderOf (c x) ∣ 2 * K := by
  have hsum := h.orderOf_dvd (Nat.lt_of_add_right_lt hx)
  have hsum' := h.orderOf_dvd hx
  rw [h.eq_of_period hK hx] at hsum'
  have hdiff := dvd_sub (hsum.mul_right ((x : ℤ) + K)) (hsum'.mul_right (x : ℤ))
  have heq : (2 + ((u' : ℤ) - u) * x) * (x + K) - (2 + ((u' : ℤ) - u) * (x + K : ℕ)) * x = (2 * K : ℕ) := by
    push_cast
    ring
  rw [heq] at hdiff
  exact Int.natCast_dvd_natCast.1 hdiff

/-- **A period without one of its primes** is a period. -/
lemma period_of_mul {K ℓ : ℕ} (hℓ : ℓ.Prime) (hlt : 2 * (ℓ * K) < L) (hpos : 0 < K) (heven : Even K)
    (hperiod : w * g ^ (ℓ * K) = w) : w * g ^ K = w := by
  have hle : 2 * K ≤ ℓ * K := Nat.mul_le_mul_right K hℓ.two_le
  -- `K` and `2 * K` are indices of the first unit again, or `ℓ` divides the order and not the index
  have hprime : ∀ j, j = 1 ∨ j = 2 → c (j * K) ≠ c 0 → ℓ ≠ 2 ∧ ℓ ∣ orderOf (c (j * K)) := by
    intro j hj hne
    have hx : j * K + ℓ * K < L := by rcases hj with rfl | rfl <;> omega
    obtain ⟨q, hq, hq2, hdvd⟩ := h.exists_prime (Nat.lt_of_add_right_lt hx) (heven.mul_left j) hne
    have hindex := h.not_dvd_of_dvd_orderOf (Nat.lt_of_add_right_lt hx) hq hq2 hdvd
    have hdouble := hdvd.trans (h.orderOf_dvd_two_mul hperiod hx)
    rcases hq.dvd_mul.1 hdouble with htwo | hmul
    · exact absurd ((Nat.prime_dvd_prime_iff_eq hq Nat.prime_two).1 htwo) hq2
    · rcases hq.dvd_mul.1 hmul with hself | hK
      · obtain rfl := (Nat.prime_dvd_prime_iff_eq hq hℓ).1 hself
        exact ⟨hq2, hdvd⟩
      · exact absurd (hK.mul_left j) hindex
  by_cases hone : c (1 * K) = c 0
  · have hK := h.mul_pow_of_eq (by omega) hone
    rwa [Nat.one_mul] at hK
  obtain ⟨hℓ2, hdvd⟩ := hprime 1 (Or.inl rfl) hone
  have htwo : c (2 * K) = c 0 := by
    by_contra hne
    obtain ⟨-, hdvd'⟩ := hprime 2 (Or.inr rfl) hne
    have hdiff := h.dvd_sub_of_dvd_orderOf (by omega) (by omega) hℓ hℓ2 hdvd' hdvd
    have heq : ((2 * K : ℕ) : ℤ) - ((1 * K : ℕ) : ℤ) = K := by
      push_cast
      ring
    rw [heq] at hdiff
    refine h.not_dvd_of_dvd_orderOf (by omega) hℓ hℓ2 hdvd ?_
    rw [Nat.one_mul]
    exact Int.natCast_dvd_natCast.1 hdiff
  -- the period is an odd number of times `K`
  have hdouble := h.mul_pow_of_eq (by omega) htwo
  obtain ⟨j, rfl⟩ := hℓ.odd_of_ne_two hℓ2
  have hsplit : (2 * j + 1) * K = 2 * K * j + K := by ring
  rw [hsplit, pow_add, ← mul_assoc, mul_pow_mul_of_mul_pow hdouble] at hperiod
  exact hperiod

/-- Every even period leads down to 2. -/
lemma period_two {K : ℕ} (hpos : 0 < K) (heven : Even K) (hlt : 2 * K < L) (hperiod : w * g ^ K = w) :
    w * g ^ 2 = w := by
  induction K using Nat.strong_induction_on with
  | _ K ih =>
    obtain ⟨m, rfl⟩ := heven.two_dvd
    by_cases hm : m = 1
    · rwa [hm] at hperiod
    obtain ⟨k, hk⟩ := Nat.minFac_dvd m
    have hprime := Nat.minFac_prime hm
    have hkpos : 0 < k := Nat.pos_of_ne_zero fun hzero => by
      rw [hzero, Nat.mul_zero] at hk
      omega
    have hsplit : 2 * m = m.minFac * (2 * k) := by
      rw [Nat.mul_left_comm, ← hk]
    rw [hsplit] at hlt hperiod
    have hsmaller : 2 * k < 2 * m := by
      rw [hsplit]
      exact lt_mul_of_one_lt_left (by omega) hprime.one_lt
    have hnext := h.period_of_mul hprime hlt (by omega) (even_two_mul k) hperiod
    exact ih (2 * k) hsmaller (by omega) (even_two_mul k) (by omega) hnext

/-- **What is left.** -/
theorem spec (hcard : Nat.card Rˣ < 53 ^ 52) (hfinite : 0 < Nat.card Rˣ) :
    c 0 ^ 2 = 1 ∧ c 1 ^ 2 = 1 ∧ w * g ^ 2 = w := by
  obtain ⟨K, hpos, heven, hlt, hperiod⟩ := h.exists_period hcard hfinite
  have htwo := h.period_two hpos heven hlt hperiod
  refine ⟨h.zero_sq, ?_, htwo⟩
  have hlarge : 3 < L := by
    have := h.large
    omega
  have hthree := h.eq_of_period htwo hlarge
  -- with the exponents for the indices 1 and 3
  have hfour : c 1 ^ 4 = 1 := orderOf_dvd_iff_pow_eq_one.1 (h.orderOf_dvd_two_mul htwo hlarge)
  have hone := h.first 1 (by omega)
  have hthird := h.first 3 hlarge
  rw [hthree] at hthird
  have hu : c 1 ^ (2 * u) = 1 := by
    have hsplit : a + u * 3 = a + u * 1 + 2 * u := by ring
    rw [hsplit, pow_add, hone] at hthird
    exact mul_eq_left.1 hthird
  have ha : c 1 ^ (2 * a) = 1 := by
    have hsq : (c 1 ^ (a + u * 1)) ^ 2 = 1 := by
      rw [hone, h.zero_pow h.odd, h.zero_sq]
    rw [← pow_mul] at hsq
    have hsplit : (a + u * 1) * 2 = 2 * a + 2 * u := by ring
    rwa [hsplit, pow_add, hu, mul_one] at hsq
  obtain ⟨k, hk⟩ := h.odd
  have hsplit : 2 * a = 4 * k + 2 := by omega
  rwa [hsplit, pow_add, pow_mul, hfour, one_pow, one_mul] at ha

end

end Steady

end NovusHeadless.Lib
