import Mathlib.Tactic

/-!
# Format strings of the C library

A format string is a sequence of characters, of `%%`, and of conversion specifications: flags, width,
precision, length modifier and specifier, each but the last optional.  A width or a precision `*` takes an
argument, and so does the specifier.

* `pieces s` — the string, cut into these;
* `output ps` — what is written when no argument is passed; there is no answer where an argument is taken,
  or a `%` begins no conversion specification;
* `output_pieces_eq_self_iff` — a string is written as it is exactly when there is no `%` in it.
-/

namespace NovusHeadless.Lib.FormatString

inductive Piece where
  | char (c : UInt8)
  /-- `%%` -/
  | percent
  /-- a conversion specification with so many `*` -/
  | conversion (stars : ℕ) (specifier : UInt8)
  | malformed
  deriving DecidableEq, Repr

/-- The number of arguments that a piece takes. -/
def Piece.arguments : Piece → ℕ
  | .conversion stars _ => stars + 1
  | .char _ => 0
  | .percent => 0
  | .malformed => 0

/-! ### The characters of a conversion specification -/

/-- One of `-`, `+`, the blank, `#` and `0`. -/
def isFlag (c : UInt8) : Bool := c ∈ [0x2D, 0x2B, 0x20, 0x23, 0x30]

def isDigit (c : UInt8) : Bool := 0x30 ≤ c && c ≤ 0x39

/-- One of `h`, `l`, `j`, `z`, `t` and `L`. -/
def isLength (c : UInt8) : Bool := c ∈ [0x68, 0x6C, 0x6A, 0x7A, 0x74, 0x4C]

/-- One of `d i o u x X f F e E g G a A c s p n`. -/
def isSpecifier (c : UInt8) : Bool :=
  c ∈ [0x64, 0x69, 0x6F, 0x75, 0x78, 0x58, 0x66, 0x46, 0x65, 0x45, 0x67, 0x47, 0x61, 0x41, 0x63, 0x73,
    0x70, 0x6E]

/-- What has been read of a conversion specification last. -/
inductive Place where
  | start
  | flags
  | width
  | widthStar
  | point
  | precision
  | precisionStar
  | length (c : UInt8)
  | lengthTwice
  deriving DecidableEq, Repr

/-- The parts that may follow the flags; with them the number of arguments taken. -/
def afterFlags (c : UInt8) : Option (Place × ℕ) :=
  if c = 0x2E then some (.point, 0)
  else if isLength c then some (.length c, 0)
  else none

/-- The next part of a conversion specification, up to its specifier. -/
def advance (place : Place) (c : UInt8) : Option (Place × ℕ) :=
  match place with
  | .start | .flags =>
    if isFlag c then some (.flags, 0)
    else if isDigit c then some (.width, 0)
    else if c = 0x2A then some (.widthStar, 1)
    else afterFlags c
  | .width => if isDigit c then some (.width, 0) else afterFlags c
  | .widthStar => afterFlags c
  | .point =>
    if isDigit c then some (.precision, 0)
    else if c = 0x2A then some (.precisionStar, 1)
    else if isLength c then some (.length c, 0)
    else none
  | .precision =>
    if isDigit c then some (.precision, 0)
    else if isLength c then some (.length c, 0)
    else none
  | .precisionStar => if isLength c then some (.length c, 0) else none
  | .length d => if c = d ∧ (c = 0x68 ∨ c = 0x6C) then some (.lengthTwice, 0) else none
  | .lengthTwice => none

/-- Where the reader of a format string is. -/
inductive Scan where
  | text
  | directive (place : Place) (stars : ℕ)
  deriving DecidableEq, Repr

def scan : Scan → List UInt8 → List Piece
  | .text, [] => []
  | .text, c :: s =>
    if c = 0x25 then scan (.directive .start 0) s else .char c :: scan .text s
  | .directive _ _, [] => [.malformed]
  | .directive place stars, c :: s =>
    if place = .start ∧ c = 0x25 then .percent :: scan .text s
    else
      match advance place c with
      | some (place, n) => scan (.directive place (stars + n)) s
      | none =>
        (if isSpecifier c then .conversion stars c else .malformed) :: scan .text s

def pieces (s : List UInt8) : List Piece := scan .text s

/-- What is written without arguments. -/
def output : List Piece → Option (List UInt8)
  | [] => some []
  | .char c :: ps => (output ps).map fun out => c :: out
  | .percent :: ps => (output ps).map fun out => 0x25 :: out
  | .conversion _ _ :: _ => none
  | .malformed :: _ => none

/-- `%-5.*lld` takes two arguments, `5%%` none. -/
example : pieces [0x25, 0x2D, 0x35, 0x2E, 0x2A, 0x6C, 0x6C, 0x64] = [.conversion 1 0x64] ∧
    pieces [0x35, 0x25, 0x25] = [.char 0x35, .percent] := by decide

/-! ### Strings without conversion specifications -/

section

variable {s out : List UInt8}

lemma pieces_of_not_mem (h : 0x25 ∉ s) : pieces s = s.map .char := by
  unfold pieces
  induction s with
  | nil => rfl
  | cons c s ih =>
    obtain ⟨hc, hs⟩ := not_or.1 (mt List.mem_cons.2 h)
    rw [scan, if_neg (Ne.symm hc), ih hs, List.map_cons]

lemma output_map_char (s : List UInt8) : output (s.map .char) = some s := by
  induction s with
  | nil => rfl
  | cons c s ih =>
    rw [List.map_cons, output, ih]
    rfl

/-- Behind a specification that is not `%%` nothing is written. -/
lemma output_ite_cons (p : Bool) (stars : ℕ) (c : UInt8) (ps : List Piece) :
    output ((if p then .conversion stars c else .malformed) :: ps) = none := by
  cases p <;> rfl

lemma length_output_scan {start : Scan} (h : output (scan start s) = some out) :
    out.length ≤ s.length := by
  induction s generalizing start out with
  | nil =>
    cases start with
    | text =>
      obtain rfl := Option.some.inj h
      exact le_rfl
    | directive place stars => exact absurd h (by simp [scan, output])
  | cons c s ih =>
    cases start with
    | text =>
      rw [scan] at h
      split at h
      · exact (ih h).trans (Nat.le_succ _)
      · obtain ⟨out, hout, rfl⟩ := Option.map_eq_some_iff.1 h
        exact Nat.succ_le_succ (ih hout)
    | directive place stars =>
      rw [scan] at h
      split at h
      · obtain ⟨out, hout, rfl⟩ := Option.map_eq_some_iff.1 h
        exact Nat.succ_le_succ (ih hout)
      · split at h
        · exact (ih h).trans (Nat.le_succ _)
        · rw [output_ite_cons] at h
          exact absurd h.symm (Option.some_ne_none _)

lemma length_output_lt (hmem : 0x25 ∈ s) (h : output (pieces s) = some out) :
    out.length < s.length := by
  unfold pieces at h
  induction s generalizing out with
  | nil => exact absurd hmem List.not_mem_nil
  | cons c s ih =>
    rw [scan] at h
    split at h
    · exact Nat.lt_succ_of_le (length_output_scan h)
    · next hc =>
      obtain ⟨out, hout, rfl⟩ := Option.map_eq_some_iff.1 h
      have hs := (List.mem_cons.1 hmem).resolve_left (Ne.symm hc)
      exact Nat.succ_lt_succ (ih hs hout)

/-- **A string is written as it is** exactly when there is no `%` in it. -/
theorem output_pieces_eq_self_iff : output (pieces s) = some s ↔ 0x25 ∉ s := by
  constructor
  · intro h hmem
    exact absurd (length_output_lt hmem h) (Nat.lt_irrefl _)
  · intro h
    rw [pieces_of_not_mem h, output_map_char]

lemma arguments_of_not_mem (h : 0x25 ∉ s) : ∀ piece ∈ pieces s, piece.arguments = 0 := by
  rw [pieces_of_not_mem h]
  intro piece hpiece
  obtain ⟨c, -, rfl⟩ := List.mem_map.1 hpiece
  rfl

end

end NovusHeadless.Lib.FormatString
