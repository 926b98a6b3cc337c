import NovusHeadless.Cryptography.BigNumber

/-!
# Strings of the console (`Utils/StringUtils.h`)

A `std::string` is the list of its bytes.  `char` is signed, so a byte from `0x80` on is sign-extended
when the hash mixes it in; `c_str()` has a zero behind the last character, which the hash reads too.

* `splitString_eq_nil` — there is no token exactly when there is nothing but whitespace.
-/

namespace NovusHeadless

open Lib

/-- The bytes of a string literal. -/
def ascii (s : String) : Bytes := s.toList.map fun c => UInt8.ofNat c.toNat

namespace StringUtils

/-- `s[i]`, as it enters an expression of the type `u32`. -/
def charAt (s : Bytes) (i : ℕ) : UInt32 := (s.getD i 0).toInt8.toInt32.toUInt32

def fnv1a32 (s : Bytes) : ℕ → UInt32
  | 0 => (2166136261 ^^^ charAt s 0) * 16777619
  | count + 1 => (fnv1a32 s count ^^^ charAt s (count + 1)) * 16777619

/-- `fnv1a_32(s.c_str(), s.size())`, and the literal operator `_h`. -/
def hashString (s : Bytes) : UInt32 := fnv1a32 s s.length

/-- `isspace` in the classic locale. -/
def isSpace (c : UInt8) : Bool := c == 0x20 || (0x09 ≤ c && c ≤ 0x0D)

/-- `SplitString`: the words that `operator>>` reads until it finds no more. -/
def splitString (s : Bytes) : List Bytes := (s.splitOnP isSpace).filter (!·.isEmpty)

/-- `::tolower` in the classic locale. -/
def toLower (c : UInt8) : UInt8 := if 0x41 ≤ c && c ≤ 0x5A then c + 0x20 else c

lemma splitString_cons_of_space {c : UInt8} (h : isSpace c = true) (s : Bytes) :
    splitString (c :: s) = splitString s := by
  unfold splitString
  rw [List.splitOnP_cons_eq_if_modifyHead, if_pos h, List.filter_cons_of_neg]
  exact Bool.false_ne_true

lemma splitString_cons_ne_nil {c : UInt8} (h : isSpace c = false) (s : Bytes) :
    splitString (c :: s) ≠ [] := by
  unfold splitString
  rw [List.splitOnP_cons_eq_if_modifyHead, if_neg (by rw [h]; exact Bool.false_ne_true)]
  cases hs : s.splitOnP isSpace with
  | nil => exact absurd hs (List.splitOnP_ne_nil _ _)
  | cons word words =>
    rw [List.modifyHead_cons, List.filter_cons_of_pos rfl]
    exact List.cons_ne_nil _ _

theorem splitString_eq_nil {s : Bytes} : splitString s = [] ↔ ∀ c ∈ s, isSpace c = true := by
  induction s with
  | nil => exact iff_of_true rfl (fun c hc => absurd hc List.not_mem_nil)
  | cons c s ih =>
    cases h : isSpace c with
    | true =>
      rw [splitString_cons_of_space h, ih, List.forall_mem_cons]
      exact (and_iff_right h).symm
    | false =>
      apply iff_of_false (splitString_cons_ne_nil h s)
      intro hall
      have hc := hall c List.mem_cons_self
      rw [h] at hc
      exact Bool.false_ne_true hc

end StringUtils

end NovusHeadless
