import Mathlib.Data.List.GetD
import NovusHeadless.Lib.Fnv1a
import NovusHeadless.Console.StringUtils

/-!
# The hash of the console as FNV-1a (`Utils/StringUtils.h`)

`fnv1a_32` counts down to zero and mixes in the character at the count before it returns, so of a string
of `n` characters it mixes in `n + 1`, the last of which is the terminator.

* `fnv1aTrace` is `fnv1a_32` with the indices of the characters that it reads.
* `fnv1a_never` — no string is hashed without its terminator, and up to `0x7F` the value is that of FNV-1a
  for two values only.
-/

namespace NovusHeadless

open Lib

namespace StringUtils

/-- `fnv1a_32`, with the indices at which `s` is read. -/
def fnv1aTrace (s : Bytes) : ℕ → UInt32 × List ℕ
  | 0 => ((2166136261 ^^^ charAt s 0) * 16777619, [0])
  | count + 1 =>
    let (h, indices) := fnv1aTrace s count
    ((h ^^^ charAt s (count + 1)) * 16777619, indices ++ [count + 1])

lemma fnv1aTrace_eq (s : Bytes) (count : ℕ) :
    fnv1aTrace s count = (fnv1a32 s count, List.range (count + 1)) := by
  induction count with
  | zero => rfl
  | succ count ih =>
    rw [fnv1aTrace, ih, List.range_succ (n := count + 1)]
    rfl

/-- What `fnv1a_32` makes of the string is its FNV-1a hash, and it reads no byte behind the string. -/
structure IsFnv1a (s : Bytes) : Prop where
  value : (fnv1aTrace s s.length).1 = fnv1a s
  inside : ∀ i ∈ (fnv1aTrace s s.length).2, i < s.length

/-! ### Strings of ASCII characters -/

/-- Up to `0x7F` there is no sign to extend. -/
lemma toUInt32_of_ascii {c : UInt8} (h : c < 0x80) : c.toInt8.toInt32.toUInt32 = c.toUInt32 := by
  have hall : ∀ b : Fin 256, b < 0x80 →
      (UInt8.ofFin b).toInt8.toInt32.toUInt32 = (UInt8.ofFin b).toUInt32 := by decide +kernel
  exact hall c.toFin h

lemma charAt_of_ascii {s : Bytes} (h : ∀ c ∈ s, c < 0x80) (i : ℕ) :
    charAt s i = (s.getD i 0).toUInt32 := by
  unfold charAt
  by_cases hi : i < s.length
  · rw [List.getD_eq_getElem _ _ hi]
    exact toUInt32_of_ascii (h _ (List.getElem_mem hi))
  · rw [List.getD_eq_default _ _ (not_lt.1 hi)]
    rfl

/-- **The characters up to the count** are hashed, with the one at the count. -/
lemma fnv1a32_of_ascii {s : Bytes} (h : ∀ c ∈ s, c < 0x80) (count : ℕ) :
    fnv1a32 s count = fnv1a ((List.range (count + 1)).map fun i => s.getD i 0) := by
  induction count with
  | zero =>
    rw [fnv1a32, charAt_of_ascii h]
    rfl
  | succ count ih =>
    rw [fnv1a32, ih, charAt_of_ascii h, List.range_succ (n := count + 1), List.map_append, List.map_singleton,
      fnv1a_concat]
    rfl

lemma map_getD_range (s : Bytes) :
    (List.range (s.length + 1)).map (fun i => s.getD i 0) = s ++ [0] := by
  apply List.ext_getElem
  · simp
  · intro i h1 h2
    rw [List.getElem_map, List.getElem_range]
    by_cases hi : i < s.length
    · rw [List.getElem_append_left hi, List.getD_eq_getElem _ _ hi]
    · rw [List.getElem_append_right (not_lt.1 hi), List.getD_eq_default _ _ (not_lt.1 hi)]
      simp

theorem hashString_of_ascii {s : Bytes} (h : ∀ c ∈ s, c < 0x80) :
    hashString s = fnv1a s * fnvPrime := by
  unfold hashString
  rw [fnv1a32_of_ascii h, map_getD_range, fnv1a_concat_zero]

/-- **No string** is hashed without the byte behind it. -/
theorem fnv1a_never (s : Bytes) :
    ¬ IsFnv1a s ∧
      ((∀ c ∈ s, c < 0x80) → (hashString s = fnv1a s ↔ (fnv1a s).toNat % 2 ^ 31 = 0)) := by
  constructor
  · rintro ⟨-, hinside⟩
    rw [fnv1aTrace_eq] at hinside
    have hlt := hinside s.length (List.mem_range.2 (Nat.lt_succ_self _))
    exact absurd hlt (Nat.lt_irrefl _)
  · intro hascii
    rw [hashString_of_ascii hascii, mul_prime_eq_self_iff]

theorem terminator_hashed : ¬ ∀ s : Bytes, IsFnv1a s := by
  intro h
  have hvalue := (h []).value
  exact absurd hvalue (by decide)

end StringUtils

end NovusHeadless
