import Mathlib.Tactic

/-!
# Additive stream ciphers

A stream cipher that adds a keystream to the data, byte by byte: `xorFrom ks n d` is the text `d`
combined with the keystream `ks` from the position `n` on.

* `xorFrom_append` — a text in two pieces;
* `xorFrom_xorFrom` — the cipher is its own inverse at the same position.
-/

namespace NovusHeadless.Lib

/-- The text combined with the keystream from the position `n` on. -/
def xorFrom (ks : ℕ → UInt8) : ℕ → List UInt8 → List UInt8
  | _, [] => []
  | n, b :: d => (b ^^^ ks n) :: xorFrom ks (n + 1) d

variable (ks : ℕ → UInt8)

@[simp] lemma length_xorFrom (n : ℕ) (d : List UInt8) : (xorFrom ks n d).length = d.length := by
  induction d generalizing n with
  | nil => rfl
  | cons b d ih => rw [xorFrom, List.length_cons, ih, List.length_cons]

/-- **A text in two pieces.** -/
theorem xorFrom_append (n : ℕ) (d e : List UInt8) :
    xorFrom ks n (d ++ e) = xorFrom ks n d ++ xorFrom ks (n + d.length) e := by
  induction d generalizing n with
  | nil => rfl
  | cons b d ih =>
    rw [List.cons_append, xorFrom, ih, xorFrom, List.cons_append, List.length_cons, Nat.add_assoc,
      Nat.add_comm 1]

/-- **Decryption is encryption at the same position.** -/
theorem xorFrom_xorFrom (n : ℕ) (d : List UInt8) : xorFrom ks n (xorFrom ks n d) = d := by
  induction d generalizing n with
  | nil => rfl
  | cons b d ih => rw [xorFrom, xorFrom, ih, UInt8.xor_assoc, UInt8.xor_self, UInt8.xor_zero]

lemma take_xorFrom (n k : ℕ) (d : List UInt8) :
    (xorFrom ks n d).take k = xorFrom ks n (d.take k) := by
  induction d generalizing n k with
  | nil => rw [List.take_nil, xorFrom, List.take_nil]
  | cons b d ih =>
    cases k with
    | zero => rfl
    | succ k => rw [xorFrom, List.take_succ_cons, ih, List.take_succ_cons, xorFrom]

lemma drop_xorFrom (n k : ℕ) (d : List UInt8) :
    (xorFrom ks n d).drop k = xorFrom ks (n + k) (d.drop k) := by
  induction d generalizing n k with
  | nil => rw [xorFrom, List.drop_nil, xorFrom]
  | cons b d ih =>
    cases k with
    | zero => rfl
    | succ k =>
      rw [xorFrom, List.drop_succ_cons, ih, List.drop_succ_cons, Nat.add_assoc, Nat.add_comm 1]

end NovusHeadless.Lib
