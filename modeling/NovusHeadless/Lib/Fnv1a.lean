import Mathlib.Tactic

/-!
# FNV-1a with 32 bits

The hash of a byte string: from the offset basis on, each byte is mixed in by an exclusive or and a
multiplication with the prime.

* `fnv1a_concat` — one more byte at the end;
* `mul_prime_eq_self_iff` — the only values that a byte of zero leaves as they are.
-/

namespace NovusHeadless.Lib

def fnvBasis : UInt32 := 2166136261

def fnvPrime : UInt32 := 16777619

/-- The hash of a byte string; bytes are unsigned. -/
def fnv1a (s : List UInt8) : UInt32 := s.foldl (fun h b => (h ^^^ b.toUInt32) * fnvPrime) fnvBasis

lemma fnv1a_concat (s : List UInt8) (b : UInt8) :
    fnv1a (s ++ [b]) = (fnv1a s ^^^ b.toUInt32) * fnvPrime := by
  unfold fnv1a
  rw [List.foldl_append, List.foldl_cons, List.foldl_nil]

/-- A byte of zero multiplies the hash. -/
lemma fnv1a_concat_zero (s : List UInt8) : fnv1a (s ++ [0]) = fnv1a s * fnvPrime := by
  have hzero : fnv1a s ^^^ (0 : UInt8).toUInt32 = fnv1a s := UInt32.xor_zero
  rw [fnv1a_concat, hzero]

/-- The prime minus one is two times an odd number. -/
lemma mul_prime_modEq_iff (n : ℕ) :
    n * 16777619 ≡ n [MOD 2 ^ 32] ↔ 2 ^ 31 ∣ n := by
  have hodd : Nat.Coprime (2 ^ 31) 8388809 := by norm_num
  have hsub : n * 16777619 - n = 2 * (n * 8388809) := by omega
  have hpow : 2 ^ 32 = 2 * 2 ^ 31 := by norm_num
  rw [Nat.ModEq.comm, Nat.modEq_iff_dvd' (by omega), hsub, hpow,
    Nat.mul_dvd_mul_iff_left (by norm_num), hodd.dvd_mul_right]

theorem mul_prime_eq_self_iff (h : UInt32) : h * fnvPrime = h ↔ h.toNat % 2 ^ 31 = 0 := by
  have hprime : fnvPrime.toNat = 16777619 := rfl
  rw [← UInt32.toNat_inj, UInt32.toNat_mul, hprime, ← Nat.dvd_iff_mod_eq_zero,
    ← mul_prime_modEq_iff]
  unfold Nat.ModEq
  rw [Nat.mod_eq_of_lt h.toNat_lt]

/-- The hash of `foobar`. -/
example : fnv1a [0x66, 0x6F, 0x6F, 0x62, 0x61, 0x72] = 0xBF9CF968 := by decide

end NovusHeadless.Lib
