import Mathlib.Data.Nat.Digits.Lemmas
import Mathlib.Data.List.DropRight
import Mathlib.Algebra.BigOperators.Ring.Finset

/-!
# Little-endian byte strings

* `leVal l` — the number a byte string denotes, least significant byte first;
* `leBytes n` — the shortest byte string that denotes `n`;
* `padded k n` — the same bytes, filled up with zeros to `k` bytes;
* `trim l` — a byte string without the zeros at its end: `leBytes (leVal l) = trim l`.

A string is *full* when `trim` leaves it alone.  `flatten_map_trim` is the fact about transcripts:
a concatenation of strings survives the trimming of its parts only when every part is full.
-/

namespace NovusHeadless.Lib

/-- The number a byte string denotes, least significant byte first. -/
def leVal (l : List UInt8) : ℕ := Nat.ofDigits 256 (l.map UInt8.toNat)

/-- The shortest byte string that denotes `n`, least significant byte first. -/
def leBytes (n : ℕ) : List UInt8 := (Nat.digits 256 n).map UInt8.ofNat

/-- The bytes of `n`, filled up with zeros to at least `k` bytes. -/
def padded (k n : ℕ) : List UInt8 := leBytes n ++ List.replicate (k - (leBytes n).length) 0

/-- A byte string without the zeros at its end. -/
def trim (l : List UInt8) : List UInt8 := l.rdropWhile (· == 0)

/-! ### The value of a byte string -/

lemma leVal_cons (b : UInt8) (l : List UInt8) : leVal (b :: l) = b.toNat + 256 * leVal l := by
  unfold leVal
  rw [List.map_cons, Nat.ofDigits_cons]

lemma leVal_append (l₁ l₂ : List UInt8) :
    leVal (l₁ ++ l₂) = leVal l₁ + 256 ^ l₁.length * leVal l₂ := by
  unfold leVal
  rw [List.map_append, Nat.ofDigits_append, List.length_map]

theorem leVal_eq_sum (l : List UInt8) :
    leVal l = ∑ i ∈ Finset.range l.length, (l.getD i 0).toNat * 256 ^ i := by
  induction l with
  | nil => rfl
  | cons b l ih =>
    rw [leVal_cons, ih, List.length_cons, Finset.sum_range_succ', Finset.mul_sum, Nat.add_comm]
    congr 1
    · exact Finset.sum_congr rfl fun i _ => by rw [List.getD_cons_succ, pow_succ]; ring
    · rw [List.getD_cons_zero, pow_zero, Nat.mul_one]

lemma leVal_replicate_zero (k : ℕ) : leVal (List.replicate k 0) = 0 := by
  unfold leVal
  rw [List.map_replicate]
  exact Nat.ofDigits_replicate_zero

lemma leVal_lt (l : List UInt8) : leVal l < 256 ^ l.length := by
  have h : ∀ x ∈ l.map UInt8.toNat, x < 256 := by
    intro x hx
    obtain ⟨b, -, rfl⟩ := List.mem_map.1 hx
    exact b.toNat_lt
  have := Nat.ofDigits_lt_base_pow_length (b := 256) (by norm_num) h
  rwa [List.length_map] at this

theorem leVal_leBytes (n : ℕ) : leVal (leBytes n) = n := by
  unfold leVal leBytes
  rw [List.map_map]
  have h : (Nat.digits 256 n).map (UInt8.toNat ∘ UInt8.ofNat) = Nat.digits 256 n := by
    conv_rhs => rw [← List.map_id (Nat.digits 256 n)]
    refine List.map_congr_left fun d hd => ?_
    have := Nat.digits_lt_base (by norm_num : 1 < 256) hd
    simp only [Function.comp, UInt8.toNat_ofNat', id]
    omega
  rw [h, Nat.ofDigits_digits]

theorem leVal_padded (k n : ℕ) : leVal (padded k n) = n := by
  unfold padded
  rw [leVal_append, leVal_replicate_zero, leVal_leBytes, Nat.mul_zero, Nat.add_zero]

/-! ### Trimming -/

@[simp] lemma trim_nil : trim [] = [] := rfl

lemma trim_concat_zero (l : List UInt8) : trim (l ++ [0]) = trim l :=
  List.rdropWhile_concat_pos _ _ _ (by decide)

lemma trim_concat_of_ne {b : UInt8} (l : List UInt8) (hb : b ≠ 0) :
    trim (l ++ [b]) = l ++ [b] :=
  List.rdropWhile_concat_neg _ _ _ (by simpa using hb)

lemma trim_prefixOf (l : List UInt8) : trim l <+: l := List.rdropWhile_prefix _ l

lemma length_trim_le (l : List UInt8) : (trim l).length ≤ l.length := (trim_prefixOf l).length_le

/-- A string is full exactly when its last byte is not zero. -/
lemma trim_eq_iff {l : List UInt8} : trim l = l ↔ l.getLast? ≠ some 0 := by
  rcases List.eq_nil_or_concat' l with rfl | ⟨r, b, rfl⟩
  · simp
  rw [List.getLast?_concat, ne_eq, Option.some.injEq]
  constructor
  · intro h hb
    subst hb
    rw [trim_concat_zero] at h
    have := length_trim_le r
    rw [h] at this
    simp at this
  · exact trim_concat_of_ne r

/-- **Decoding and encoding again trims.** -/
theorem leBytes_leVal (l : List UInt8) : leBytes (leVal l) = trim l := by
  induction l using List.reverseRecOn with
  | nil => rfl
  | append_singleton l b ih =>
    by_cases hb : b = 0
    · subst hb
      rw [trim_concat_zero, leVal_append, ← ih]
      simp [leVal]
    · rw [trim_concat_of_ne l hb]
      unfold leBytes leVal
      rw [Nat.digits_ofDigits 256 (by norm_num)]
      · rw [List.map_map]
        have : UInt8.ofNat ∘ UInt8.toNat = id := by
          funext x; simp
        rw [this, List.map_id]
      · intro x hx
        obtain ⟨c, -, rfl⟩ := List.mem_map.1 hx
        exact c.toNat_lt
      · intro h
        simp only [List.map_append, List.map_cons, List.map_nil, List.getLast_append_singleton]
        intro h0
        exact hb (UInt8.toNat_inj.1 h0)

lemma padded_leVal (l : List UInt8) : padded l.length (leVal l) = l := by
  unfold padded
  rw [leBytes_leVal]
  induction l using List.reverseRecOn with
  | nil => rfl
  | append_singleton l b ih =>
    by_cases hb : b = 0
    · subst hb
      have h := length_trim_le l
      rw [trim_concat_zero, List.length_append, List.length_singleton,
        show l.length + 1 - (trim l).length = (l.length - (trim l).length) + 1 by omega,
        List.replicate_succ', ← List.append_assoc, ih]
    · rw [trim_concat_of_ne l hb]
      simp

/-! ### How long the shortest string is -/

lemma length_leBytes_le {k n : ℕ} (h : n < 256 ^ k) : (leBytes n).length ≤ k := by
  unfold leBytes
  rw [List.length_map]
  exact (Nat.digits_length_le_iff (by norm_num) n).2 h

lemma length_padded {k n : ℕ} (h : n < 256 ^ k) : (padded k n).length = k := by
  have := length_leBytes_le h
  unfold padded
  rw [List.length_append, List.length_replicate]
  omega

lemma length_take_padded (k n : ℕ) : ((padded k n).take k).length = k := by
  unfold padded
  rw [List.length_take, List.length_append, List.length_replicate]
  omega

lemma trim_padded (k n : ℕ) : trim (padded k n) = leBytes n := by
  rw [← leBytes_leVal, leVal_padded]

/-! ### Concatenations -/

lemma append_eq_append_of_length_le {a b c d : List UInt8} (hab : a.length ≤ b.length)
    (hcd : c.length ≤ d.length) (h : a ++ c = b ++ d) : a = b ∧ c = d := by
  have hlen := congrArg List.length h
  rw [List.length_append, List.length_append] at hlen
  exact List.append_inj h (by omega)

lemma length_flatten_map_trim_le (ls : List (List UInt8)) :
    (ls.map trim).flatten.length ≤ ls.flatten.length := by
  induction ls with
  | nil => exact le_rfl
  | cons l ls ih =>
    have := length_trim_le l
    simp only [List.map_cons, List.flatten_cons, List.length_append]
    omega

/-- **A concatenation survives the trimming of its parts only when every part is full.** -/
theorem flatten_map_trim (ls : List (List UInt8)) :
    (ls.map trim).flatten = ls.flatten ↔ ∀ l ∈ ls, trim l = l := by
  constructor
  · intro h
    induction ls with
    | nil => simp
    | cons l ls ih =>
      obtain ⟨hl, hls⟩ := append_eq_append_of_length_le (length_trim_le l)
        (length_flatten_map_trim_le ls) h
      intro m hm
      rcases List.mem_cons.1 hm with rfl | hm
      · exact hl
      · exact ih hls m hm
  · intro h
    congr 1
    conv_rhs => rw [← List.map_id ls]
    exact List.map_congr_left h

end NovusHeadless.Lib
