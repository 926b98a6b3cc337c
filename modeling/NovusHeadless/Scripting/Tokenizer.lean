import NovusHeadless.Console.StringUtils

/-!
# The tokens of the script language (`as_tokenizer.cpp`, `as_tokendef.h`)

`asCScriptEngine::ParseToken` tells the class and the length of the token at the start of a text.  The text
is what is left of a section, so behind its last character is the terminator, which is read when nothing is
left.  The type of a token is not modelled: `ParseToken` does not pass it on.

* `parseToken_pos` — a token is never empty.
* `parseToken_bounds` — the token fits into the text but for three cases: nothing is left; what is
  left is a comment that was only just opened; or it is a heredoc string that is never closed.
-/

namespace NovusHeadless

namespace Tokenizer

/-- `asETokenClass`. -/
inductive TokenClass where
  | unknown
  | keyword
  | value
  | identifier
  | comment
  | whiteSpace
  deriving DecidableEq, Repr

/-! ### Characters -/

abbrev newline : UInt8 := 0x0A
abbrev blank : UInt8 := 0x20
abbrev quote : UInt8 := 0x22
abbrev hash : UInt8 := 0x23
abbrev apostrophe : UInt8 := 0x27
abbrev star : UInt8 := 0x2A
abbrev dot : UInt8 := 0x2E
abbrev slash : UInt8 := 0x2F
abbrev backslash : UInt8 := 0x5C
abbrev underscore : UInt8 := 0x5F

def isDigit (c : UInt8) : Bool := 0x30 ≤ c && c ≤ 0x39

def isUpper (c : UInt8) : Bool := 0x41 ≤ c && c ≤ 0x5A

def isLower (c : UInt8) : Bool := 0x61 ≤ c && c ≤ 0x7A

/-- The property of the engine; it is off unless the application turns it on, which this one does not. -/
def allowUnicodeIdentifiers : Bool := false

/-- The first character of an identifier; `c` is read as signed. -/
def startsIdentifier (c : UInt8) : Bool :=
  isLower c || isUpper c || c == underscore || (0x80 ≤ c && allowUnicodeIdentifiers)

def continuesIdentifier (c : UInt8) : Bool :=
  isLower c || isUpper c || isDigit c || c == underscore || (0x80 ≤ c && allowUnicodeIdentifiers)

def isDigitInRadix (radix : ℕ) (c : UInt8) : Bool :=
  if isDigit c then c.toNat - 0x30 < radix
  else if isUpper c then c.toNat - (0x41 - 10) < radix
  else if isLower c then c.toNat - (0x61 - 10) < radix
  else false

/-! ### Keywords -/

/-- The words of the table `tokenWords`. -/
def tokenWords : List Bytes :=
  ["+", "+=", "++", "-", "-=", "--", "*", "*=", "/", "/=", "%", "%=", "**", "**=", "=", "==", ".", "|", "|=",
    "||", "&", "&=", "&&", "^", "^=", "^^", "<", "<=", "<<", "<<=", ">", ">=", ">>", ">>=", ">>>", ">>>=",
    "~", ";", ",", "\x7b", "\x7d", "(", ")", "[", "]", "?", ":", "::", "!", "!=", "!is", "@", "and", "auto",
    "bool", "break", "case", "cast", "catch", "class", "const", "continue", "default", "do", "double",
    "else", "enum", "false", "float", "for", "funcdef", "if", "import", "in", "inout", "int", "int8",
    "int16", "int32", "int64", "interface", "is", "mixin", "namespace", "not", "null", "or", "out",
    "private", "protected", "return", "switch", "true", "try", "typedef", "uint", "uint8", "uint16",
    "uint32", "uint64", "void", "while", "xor"].map ascii

/-- The body of the constructor's loop: `current` goes behind the words that are at least as long. -/
def insertWord (tok : List Bytes) (current : Bytes) : List Bytes :=
  let insert := tok.countP fun w => current.length ≤ w.length
  tok.take insert ++ current :: tok.drop insert

/-- `keywordTable[start]`, as the constructor leaves it. -/
def keywordTable (start : UInt8) : List Bytes :=
  (tokenWords.filter fun w => w.head? = some start).foldl insertWord []

/-- The token would end inside of an identifier. -/
def splitsIdentifier (source : Bytes) (wlen : ℕ) : Bool :=
  match source[wlen - 1]?, source[wlen]? with
  | some last, some next =>
    (isLower last || isUpper last || isDigit last) &&
      (isLower next || isUpper next || isDigit next || next == underscore)
  | _, _ => false

def isKeyWord (source : Bytes) : Option ℕ :=
  ((keywordTable (source.headD 0)).find? fun w =>
    w.isPrefixOf source && !splitsIdentifier source w.length).map List.length

/-! ### The other classes -/

/-- The byte-order-mark of UTF-8. -/
def byteOrderMark : Bytes := [0xEF, 0xBB, 0xBF]

/-- The characters of `whiteSpace`. -/
def isWhiteSpaceChar (c : UInt8) : Bool := c == blank || c == 0x09 || c == 0x0D || c == newline

def isWhiteSpace (source : Bytes) : Option ℕ :=
  if byteOrderMark.isPrefixOf source then some 3
  else
    let n := (source.takeWhile isWhiteSpaceChar).length
    if 0 < n then some n else none

/-- The loop that looks for the end of a comment of several lines: how far `n` gets. -/
def findCommentEnd : Bytes → ℕ
  | a :: b :: rest => if a == star && b == slash then 1 else 1 + findCommentEnd (b :: rest)
  | _ => 0

def isComment (source : Bytes) : Option ℕ :=
  match source with
  | a :: b :: rest =>
    if a ≠ slash then none
    else if b = slash then
      let n := 2 + (rest.takeWhile (· != newline)).length
      some (if n < source.length then n + 1 else n)
    else if b = star then some (2 + findCommentEnd rest + 1)
    else none
  | _ => none

/-- The radix that the second character announces. -/
def radixOf (c : UInt8) : Option ℕ :=
  if c = 0x62 ∨ c = 0x42 then some 2
  else if c = 0x6F ∨ c = 0x4F then some 8
  else if c = 0x64 ∨ c = 0x44 then some 10
  else if c = 0x78 ∨ c = 0x58 then some 16
  else none

/-- The end of the digits from `n` on. -/
def skipDigits (source : Bytes) (n : ℕ) : ℕ := n + ((source.drop n).takeWhile isDigit).length

/-- `n < sourceLength && source[n]` is one of these. -/
def standsAt (source : Bytes) (n : ℕ) (cs : List UInt8) : Bool := source[n]?.any cs.contains

/-- The length of a number that is not based: digits, a fraction, an exponent, the letter of a float. -/
def decimalLength (source : Bytes) : ℕ :=
  let n := skipDigits source 0
  if standsAt source n [dot, 0x65, 0x45] then
    let n := if standsAt source n [dot] then skipDigits source (n + 1) else n
    let n :=
      if standsAt source n [0x65, 0x45] then
        skipDigits source (if standsAt source (n + 1) [0x2D, 0x2B] then n + 1 + 1 else n + 1)
      else n
    if standsAt source n [0x66, 0x46] then n + 1 else n
  else n

def numberLength (source : Bytes) : ℕ :=
  match source with
  | c :: r :: digits =>
    if c = 0x30 then
      match radixOf r with
      | some radix => 2 + (digits.takeWhile (isDigitInRadix radix)).length
      | none => decimalLength source
    else decimalLength source
  | _ => decimalLength source

/-- Three quotes, which open and close a heredoc string. -/
def heredocQuotes : Bytes := [quote, quote, quote]

/-- The loop that looks for the end of a heredoc string: how far `n` gets. -/
def findHeredocEnd : Bytes → ℕ
  | a :: b :: c :: rest =>
    if heredocQuotes.isPrefixOf (a :: b :: c :: rest) then 0 else 1 + findHeredocEnd (b :: c :: rest)
  | _ => 0

/-- The loop over a string: its length, with the closing quote where there is one. -/
def findStringEnd (q : UInt8) : Bool → Bytes → ℕ
  | _, [] => 0
  | evenSlashes, c :: rest =>
    if c == q && evenSlashes then 1
    else 1 + findStringEnd q (if c == backslash then !evenSlashes else true) rest

def startsNumber (source : Bytes) : Bool :=
  match source with
  | [] => false
  | c :: rest => isDigit c || (c == dot && rest.head?.any isDigit)

def isConstant (source : Bytes) : Option ℕ :=
  if startsNumber source then some (numberLength source)
  else
    match source with
    | q :: rest =>
      if q = quote ∨ q = apostrophe then
        if 6 ≤ source.length ∧ heredocQuotes.isPrefixOf source then
          some (3 + findHeredocEnd (source.drop 3) + 3)
        else some (1 + findStringEnd q true rest)
      else none
    | [] => none

def isIdentifier (source : Bytes) : Option ℕ :=
  match source with
  | c :: rest =>
    if startsIdentifier c then
      let tokenLength := 1 + (rest.takeWhile continuesIdentifier).length
      if (isKeyWord (source.take tokenLength)).isSome then none else some tokenLength
    else none
  | [] => none

/-- `ParseToken`: the class of the token at the start of the text, and its length. -/
def parseToken (source : Bytes) : TokenClass × ℕ :=
  match isWhiteSpace source with
  | some len => (.whiteSpace, len)
  | none =>
    match isComment source with
    | some len => (.comment, len)
    | none =>
      match isConstant source with
      | some len => (.value, len)
      | none =>
        match isIdentifier source with
        | some len => (.identifier, len)
        | none =>
          match isKeyWord source with
          | some len => (.keyword, len)
          | none => (.unknown, 1)

/-! ### The jump table -/

/-- The words are sorted from longest to shortest. -/
abbrev Sorted (tok : List Bytes) : Prop := tok.Pairwise fun v w => w.length ≤ v.length

lemma mem_insertWord {tok : List Bytes} {current w : Bytes} :
    w ∈ insertWord tok current ↔ w = current ∨ w ∈ tok := by
  unfold insertWord
  simp only [List.mem_append, List.mem_cons]
  conv_rhs => rw [← List.take_append_drop (tok.countP fun w => decide (current.length ≤ w.length)) tok]
  rw [List.mem_append]
  tauto

lemma insertWord_cons_of_le {v current : Bytes} (h : current.length ≤ v.length) (tok : List Bytes) :
    insertWord (v :: tok) current = v :: insertWord tok current := by
  unfold insertWord
  rw [List.countP_cons_of_pos (by simpa using h)]
  rfl

lemma insertWord_cons_of_lt {v current : Bytes} {tok : List Bytes} (h : v.length < current.length)
    (hsorted : Sorted (v :: tok)) : insertWord (v :: tok) current = current :: v :: tok := by
  have hnone : (v :: tok).countP (fun w => decide (current.length ≤ w.length)) = 0 := by
    rw [List.countP_eq_zero]
    intro w hw
    have hle : w.length ≤ v.length := by
      rcases List.mem_cons.1 hw with rfl | hw
      · exact le_rfl
      · exact List.rel_of_pairwise_cons hsorted hw
    simp only [decide_eq_true_eq]
    omega
  unfold insertWord
  rw [hnone]
  rfl

lemma sorted_insertWord {tok : List Bytes} (h : Sorted tok) (current : Bytes) :
    Sorted (insertWord tok current) := by
  induction tok with
  | nil => exact List.pairwise_singleton _ _
  | cons v tok ih =>
    by_cases hle : current.length ≤ v.length
    · rw [insertWord_cons_of_le hle]
      refine List.pairwise_cons.2 ⟨fun w hw => ?_, ih h.of_cons⟩
      rcases mem_insertWord.1 hw with rfl | hw
      · exact hle
      · exact List.rel_of_pairwise_cons h hw
    · have hlt : v.length < current.length := by omega
      rw [insertWord_cons_of_lt hlt h]
      refine List.pairwise_cons.2 ⟨fun w hw => ?_, h⟩
      rcases List.mem_cons.1 hw with rfl | hw
      · exact hlt.le
      · exact (List.rel_of_pairwise_cons h hw).trans hlt.le

lemma mem_foldl_insertWord {words tok : List Bytes} {w : Bytes} :
    w ∈ words.foldl insertWord tok ↔ w ∈ tok ∨ w ∈ words := by
  induction words generalizing tok with
  | nil => simp
  | cons v words ih =>
    rw [List.foldl_cons, ih, mem_insertWord, List.mem_cons]
    tauto

lemma sorted_foldl_insertWord {words tok : List Bytes} (h : Sorted tok) :
    Sorted (words.foldl insertWord tok) := by
  induction words generalizing tok with
  | nil => exact h
  | cons v words ih => exact ih (sorted_insertWord h v)

lemma mem_keywordTable {start : UInt8} {w : Bytes} :
    w ∈ keywordTable start ↔ w ∈ tokenWords ∧ w.head? = some start := by
  unfold keywordTable
  rw [mem_foldl_insertWord, List.mem_filter]
  simp

lemma sorted_keywordTable (start : UInt8) : Sorted (keywordTable start) :=
  sorted_foldl_insertWord List.Pairwise.nil

lemma ne_nil_of_mem_tokenWords {w : Bytes} (h : w ∈ tokenWords) : w ≠ [] := by
  revert w
  decide +kernel

/-- The word stands at the start of the text, and does not end inside of an identifier. -/
def Matches (source w : Bytes) : Prop :=
  w ∈ tokenWords ∧ w <+: source ∧ splitsIdentifier source w.length = false

lemma mem_keywordTable_of_matches {source w : Bytes} (h : Matches source w) :
    w ∈ keywordTable (source.headD 0) := by
  obtain ⟨hmem, ⟨rest, rfl⟩, -⟩ := h
  obtain ⟨c, w, rfl⟩ := List.exists_cons_of_ne_nil (ne_nil_of_mem_tokenWords hmem)
  exact mem_keywordTable.2 ⟨hmem, rfl⟩

lemma matches_iff_of_mem_keywordTable {source w : Bytes} (h : w ∈ keywordTable (source.headD 0)) :
    (w.isPrefixOf source && !splitsIdentifier source w.length) = true ↔ Matches source w := by
  have hmem := (mem_keywordTable.1 h).1
  simp only [Bool.and_eq_true, List.isPrefixOf_iff_prefix, Bool.not_eq_true', Matches, hmem, true_and]

lemma isKeyWord_eq_none_iff {source : Bytes} :
    isKeyWord source = none ↔ ∀ w, ¬Matches source w := by
  unfold isKeyWord
  rw [Option.map_eq_none_iff, List.find?_eq_none]
  constructor
  · intro h w hw
    have hmem := mem_keywordTable_of_matches hw
    exact h w hmem ((matches_iff_of_mem_keywordTable hmem).2 hw)
  · intro h w hmem hp
    exact h w ((matches_iff_of_mem_keywordTable hmem).1 hp)

lemma isKeyWord_eq_some {source : Bytes} {n : ℕ} (h : isKeyWord source = some n) :
    (∃ w, Matches source w ∧ w.length = n) ∧ ∀ w, Matches source w → w.length ≤ n := by
  unfold isKeyWord at h
  obtain ⟨w, hw, rfl⟩ := Option.map_eq_some_iff.1 h
  obtain ⟨hp, before, after, htable, hbefore⟩ := List.find?_eq_some_iff_append.1 hw
  refine ⟨⟨w, (matches_iff_of_mem_keywordTable (List.mem_of_find?_eq_some hw)).1 hp, rfl⟩, fun v hv => ?_⟩
  have hvmem := mem_keywordTable_of_matches hv
  have hvp := (matches_iff_of_mem_keywordTable hvmem).2 hv
  have hsorted := sorted_keywordTable (source.headD 0)
  rw [htable] at hvmem hsorted
  rcases List.mem_append.1 hvmem with hvbefore | hvafter
  · -- what stands before the word that was found has been tried without success
    have hfalse := hbefore v hvbefore
    rw [hvp] at hfalse
    exact absurd hfalse Bool.false_ne_true
  · rcases List.mem_cons.1 hvafter with rfl | hvafter
    · exact le_rfl
    · exact List.rel_of_pairwise_cons (List.pairwise_append.1 hsorted).2.1 hvafter

/-- **The jump table finds the longest match** among the words of the plain table. -/
theorem isKeyWord_eq_some_iff (source : Bytes) (n : ℕ) :
    isKeyWord source = some n ↔
      (∃ w, Matches source w ∧ w.length = n) ∧ ∀ w, Matches source w → w.length ≤ n := by
  refine ⟨isKeyWord_eq_some, ?_⟩
  rintro ⟨⟨w, hw, rfl⟩, hmax⟩
  cases h : isKeyWord source with
  | none => exact absurd hw (isKeyWord_eq_none_iff.1 h w)
  | some m =>
    obtain ⟨⟨v, hv, rfl⟩, hmax'⟩ := isKeyWord_eq_some h
    rw [le_antisymm (hmax v hv) (hmax' w hw)]

/-! ### The length of a token -/

/-- A heredoc string that is never closed. -/
def OpenHeredoc (source : Bytes) : Prop :=
  6 ≤ source.length ∧ heredocQuotes <+: source ∧ ¬heredocQuotes <:+: source.drop 3

lemma isKeyWord_bounds {source : Bytes} {n : ℕ} (h : isKeyWord source = some n) :
    0 < n ∧ n ≤ source.length := by
  obtain ⟨⟨w, ⟨hmem, hprefix, -⟩, rfl⟩, -⟩ := isKeyWord_eq_some h
  exact ⟨List.length_pos_of_ne_nil (ne_nil_of_mem_tokenWords hmem), hprefix.length_le⟩

lemma length_takeWhile_le (p : UInt8 → Bool) (l : Bytes) : (l.takeWhile p).length ≤ l.length :=
  (List.takeWhile_prefix p).length_le

lemma isWhiteSpace_bounds {source : Bytes} {n : ℕ} (h : isWhiteSpace source = some n) :
    0 < n ∧ n ≤ source.length := by
  unfold isWhiteSpace at h
  split at h
  · rename_i hbom
    obtain rfl := Option.some.inj h
    exact ⟨by decide, (List.isPrefixOf_iff_prefix.1 hbom).length_le⟩
  · simp only [Option.ite_none_right_eq_some, Option.some.injEq] at h
    obtain ⟨hpos, rfl⟩ := h
    exact ⟨hpos, length_takeWhile_le _ _⟩

lemma findCommentEnd_lt (rest : Bytes) (h : rest ≠ []) : findCommentEnd rest < rest.length := by
  induction rest with
  | nil => exact absurd rfl h
  | cons a rest ih =>
    cases rest with
    | nil => exact Nat.zero_lt_one
    | cons b rest =>
      have := ih (List.cons_ne_nil _ _)
      unfold findCommentEnd
      split <;> simp only [List.length_cons] at this ⊢ <;> omega

/-- A comment fits into the text unless it has only just been opened. -/
lemma isComment_bounds {source : Bytes} {n : ℕ} (h : isComment source = some n) :
    0 < n ∧ n ≤ source.length + 1 ∧ (source.length < n ↔ source = [slash, star]) := by
  match source with
  | [] => cases h
  | [a] => cases h
  | a :: b :: rest =>
    simp only [isComment] at h
    split at h
    · cases h
    rename_i ha
    have ha : a = slash := not_not.1 ha
    subst ha
    split at h
    · rename_i hb
      subst hb
      have hle := length_takeWhile_le (· != newline) rest
      have hne : ¬slash :: slash :: rest = [slash, star] :=
        fun h => absurd (List.cons.inj (List.cons.inj h).2).1 (by decide)
      obtain rfl := Option.some.inj h
      simp only [List.length_cons] at hle ⊢
      split <;> simp only [hne, iff_false] <;> omega
    · simp only [Option.ite_none_right_eq_some, Option.some.injEq] at h
      obtain ⟨rfl, rfl⟩ := h
      by_cases hrest : rest = []
      · subst hrest
        exact ⟨by decide, by decide, by decide⟩
      · have := findCommentEnd_lt rest hrest
        simp only [List.length_cons, List.cons.injEq, hrest, and_false, iff_false]
        omega

lemma le_skipDigits (source : Bytes) (n : ℕ) : n ≤ skipDigits source n := Nat.le_add_right _ _

lemma skipDigits_le {source : Bytes} {n : ℕ} (h : n ≤ source.length) :
    skipDigits source n ≤ source.length := by
  have := length_takeWhile_le isDigit (source.drop n)
  rw [List.length_drop] at this
  unfold skipDigits
  omega

lemma lt_of_standsAt {source : Bytes} {n : ℕ} {cs : List UInt8} (h : standsAt source n cs = true) :
    n < source.length := by
  unfold standsAt at h
  obtain ⟨c, hc, -⟩ := (Option.any_eq_true _ _).1 h
  exact (List.getElem?_eq_some_iff.1 hc).1

/-- The digits of a fraction, and of an exponent, stay inside of the text. -/
lemma decimalLength_bounds (source : Bytes) :
    skipDigits source 0 ≤ decimalLength source ∧ decimalLength source ≤ source.length ∧
      (standsAt source (skipDigits source 0) [dot] = true → 0 < decimalLength source) := by
  have hint := skipDigits_le (Nat.zero_le source.length)
  unfold decimalLength
  generalize skipDigits source 0 = n at hint
  -- the end of the fraction
  obtain ⟨m, hm⟩ : ∃ m, m = if standsAt source n [dot] then skipDigits source (n + 1) else n := ⟨_, rfl⟩
  have hfraction : n ≤ m ∧ m ≤ source.length ∧ (standsAt source n [dot] = true → 0 < m) := by
    split at hm
    · rename_i hdot
      have := lt_of_standsAt hdot
      have := skipDigits_le (show n + 1 ≤ source.length by omega)
      have := le_skipDigits source (n + 1)
      exact ⟨by omega, by omega, fun _ => by omega⟩
    · rename_i hdot
      exact ⟨by omega, by omega, fun h => absurd h hdot⟩
  -- the end of the exponent
  obtain ⟨k, hk⟩ : ∃ k, k = if standsAt source m [0x65, 0x45] then
      skipDigits source (if standsAt source (m + 1) [0x2D, 0x2B] then m + 1 + 1 else m + 1) else m :=
    ⟨_, rfl⟩
  have hexponent : m ≤ k ∧ k ≤ source.length := by
    split at hk
    · rename_i he
      have := lt_of_standsAt he
      split at hk
      · rename_i hsign
        have := lt_of_standsAt hsign
        have := skipDigits_le (show m + 1 + 1 ≤ source.length by omega)
        have := le_skipDigits source (m + 1 + 1)
        omega
      · have := skipDigits_le (show m + 1 ≤ source.length by omega)
        have := le_skipDigits source (m + 1)
        omega
    · omega
  simp only [← hm, ← hk]
  split
  · split
    · rename_i hf
      have := lt_of_standsAt hf
      exact ⟨by omega, by omega, fun h => by omega⟩
    · exact ⟨by omega, by omega, fun h => by have := hfraction.2.2 h; omega⟩
  · rename_i hnone
    refine ⟨le_rfl, hint, fun h => absurd ?_ hnone⟩
    unfold standsAt at h ⊢
    obtain ⟨c, hc, hdot⟩ := (Option.any_eq_true _ _).1 h
    rw [hc]
    simp only [Option.any_some, List.contains_cons, List.contains_nil, Bool.or_false] at hdot ⊢
    rw [hdot, Bool.true_or]

lemma numberLength_bounds {source : Bytes} (h : startsNumber source = true) :
    0 < numberLength source ∧ numberLength source ≤ source.length := by
  have hdecimal : 0 < decimalLength source ∧ decimalLength source ≤ source.length := by
    obtain ⟨hint, hle, hdot⟩ := decimalLength_bounds source
    refine ⟨?_, hle⟩
    match source with
    | [] => cases h
    | c :: rest =>
      by_cases hc : isDigit c = true
      · have : 0 < skipDigits (c :: rest) 0 := by
          unfold skipDigits
          rw [List.drop_zero, List.takeWhile_cons_of_pos hc]
          simp
        omega
      · rw [Bool.not_eq_true] at hc
        simp only [startsNumber, hc, Bool.false_or, Bool.and_eq_true] at h
        have hzero : skipDigits (c :: rest) 0 = 0 := by
          unfold skipDigits
          rw [List.drop_zero, List.takeWhile_cons_of_neg (by simp [hc])]
          rfl
        rw [hzero] at hdot
        exact hdot (by simp [standsAt, beq_iff_eq.1 h.1])
  unfold numberLength
  split
  · rename_i c r digits
    split
    · split
      · have := length_takeWhile_le (isDigitInRadix ‹ℕ›) digits
        simp only [List.length_cons]
        omega
      · exact hdecimal
    · exact hdecimal
  · exact hdecimal

lemma findStringEnd_le (q : UInt8) (evenSlashes : Bool) (rest : Bytes) :
    findStringEnd q evenSlashes rest ≤ rest.length := by
  induction rest generalizing evenSlashes with
  | nil => exact le_rfl
  | cons c rest ih =>
    have := ih (if c == backslash then !evenSlashes else true)
    unfold findStringEnd
    split <;> simp only [List.length_cons] <;> omega

/-- The loop either finds the closing quotes, or stops two characters before the end. -/
lemma findHeredocEnd_bounds (rest : Bytes) (h : 3 ≤ rest.length) :
    findHeredocEnd rest + 2 ≤ rest.length ∧
      (rest.length < findHeredocEnd rest + 3 ↔ ¬heredocQuotes <:+: rest) := by
  induction rest with
  | nil => simp at h
  | cons a rest ih =>
    match rest with
    | [] => simp at h
    | [b] => simp at h
    | b :: c :: rest =>
      unfold findHeredocEnd
      split
      · rename_i hquotes
        have hinfix := (List.isPrefixOf_iff_prefix.1 hquotes).isInfix
        simp only [List.length_cons, hinfix, not_true, iff_false]
        omega
      · rename_i hquotes
        rw [List.isPrefixOf_iff_prefix] at hquotes
        have hiff : heredocQuotes <:+: a :: b :: c :: rest ↔ heredocQuotes <:+: b :: c :: rest := by
          rw [List.infix_cons_iff]
          tauto
        rw [hiff]
        match rest with
        | [] =>
          have hshort : ¬heredocQuotes <:+: [b, c] := fun h => by
            simpa [heredocQuotes] using h.length_le
          simp [findHeredocEnd, hshort]
        | d :: rest =>
          obtain ⟨hle, hclosed⟩ := ih (by simp)
          rw [← hclosed]
          simp only [List.length_cons] at hle ⊢
          omega

lemma startsNumber_heredoc (rest : Bytes) : startsNumber (heredocQuotes ++ rest) = false := rfl

/-- A constant fits into the text unless it is a heredoc string that is never closed. -/
lemma isConstant_bounds {source : Bytes} {n : ℕ} (h : isConstant source = some n) :
    0 < n ∧ n ≤ source.length + 1 ∧ (source.length < n ↔ OpenHeredoc source) := by
  unfold isConstant at h
  split at h
  · rename_i hnumber
    obtain rfl := Option.some.inj h
    have := numberLength_bounds hnumber
    have hclosed : ¬OpenHeredoc source := by
      rintro ⟨-, ⟨rest, rfl⟩, -⟩
      exact absurd hnumber (by rw [startsNumber_heredoc]; exact Bool.false_ne_true)
    simp only [hclosed, iff_false]
    omega
  split at h
  · rename_i q rest hnumber
    split at h
    · split at h
      · rename_i hq hheredoc
        obtain ⟨hlen, hquotes⟩ := hheredoc
        rw [List.isPrefixOf_iff_prefix] at hquotes
        have hdrop : ((q :: rest).drop 3).length = (q :: rest).length - 3 := List.length_drop
        obtain ⟨hle, hclosed⟩ := findHeredocEnd_bounds ((q :: rest).drop 3) (by omega)
        have hopen : OpenHeredoc (q :: rest) ↔ ¬heredocQuotes <:+: (q :: rest).drop 3 := by
          unfold OpenHeredoc
          tauto
        obtain rfl := Option.some.inj h
        rw [hopen, ← hclosed]
        omega
      · rename_i hq hheredoc
        have hopen : ¬OpenHeredoc (q :: rest) := fun h => hheredoc ⟨h.1, List.isPrefixOf_iff_prefix.2 h.2.1⟩
        have := findStringEnd_le q true rest
        obtain rfl := Option.some.inj h
        simp only [hopen, iff_false, List.length_cons]
        omega
    · cases h
  · cases h

lemma isIdentifier_bounds {source : Bytes} {n : ℕ} (h : isIdentifier source = some n) :
    0 < n ∧ n ≤ source.length := by
  unfold isIdentifier at h
  split at h
  · rename_i c rest
    split at h
    · dsimp only at h
      split at h
      · cases h
      · obtain rfl := Option.some.inj h
        have := length_takeWhile_le continuesIdentifier rest
        simp only [List.length_cons]
        omega
    · cases h
  · cases h

lemma isConstant_heredoc {rest : Bytes} (h : 3 ≤ rest.length) :
    isConstant (heredocQuotes ++ rest) = some (3 + findHeredocEnd rest + 3) := by
  have hlen : 6 ≤ (heredocQuotes ++ rest).length := by
    rw [List.length_append]
    exact Nat.add_le_add_left h 3
  have hprefix : heredocQuotes.isPrefixOf (heredocQuotes ++ rest) = true :=
    List.isPrefixOf_iff_prefix.2 (List.prefix_append _ _)
  unfold isConstant
  rw [startsNumber_heredoc, if_neg Bool.false_ne_true]
  show (if quote = quote ∨ quote = apostrophe then
    if 6 ≤ (heredocQuotes ++ rest).length ∧ heredocQuotes.isPrefixOf (heredocQuotes ++ rest) = true then
      some (3 + findHeredocEnd ((heredocQuotes ++ rest).drop 3) + 3)
    else _ else none) = _
  rw [if_pos (Or.inl rfl), if_pos ⟨hlen, hprefix⟩]
  rfl

@[simp] lemma parseToken_nil : parseToken [] = (.unknown, 1) := by decide +kernel

lemma parseToken_commentStart : parseToken [slash, star] = (.comment, 3) := by decide +kernel

lemma parseToken_openHeredoc {source : Bytes} (h : OpenHeredoc source) :
    parseToken source = (.value, source.length + 1) := by
  obtain ⟨hlen, ⟨rest, rfl⟩, hclosed⟩ := h
  have hrest : 3 ≤ rest.length := by
    rw [List.length_append] at hlen
    exact Nat.le_of_add_le_add_left hlen
  obtain ⟨hle, hiff⟩ := findHeredocEnd_bounds rest hrest
  have hend := hiff.2 hclosed
  have hspace : isWhiteSpace (heredocQuotes ++ rest) = none := rfl
  have hcomment : isComment (heredocQuotes ++ rest) = none := rfl
  unfold parseToken
  rw [hspace, hcomment, isConstant_heredoc hrest]
  have hlength : heredocQuotes.length = 3 := rfl
  simp only [Prod.mk.injEq, true_and, List.length_append, hlength]
  omega

/-- A text is too short for its token in three cases only. -/
lemma parseToken_fits {source : Bytes} (hnil : source ≠ []) (hcomment : source ≠ [slash, star])
    (hheredoc : ¬OpenHeredoc source) :
    0 < (parseToken source).2 ∧ (parseToken source).2 ≤ source.length := by
  unfold parseToken
  split
  · exact isWhiteSpace_bounds ‹_›
  split
  · obtain ⟨hpos, -, hlt⟩ := isComment_bounds ‹_›
    exact ⟨hpos, not_lt.1 (mt hlt.1 hcomment)⟩
  split
  · obtain ⟨hpos, -, hlt⟩ := isConstant_bounds ‹_›
    exact ⟨hpos, not_lt.1 (mt hlt.1 hheredoc)⟩
  split
  · exact isIdentifier_bounds ‹_›
  split
  · exact isKeyWord_bounds ‹_›
  · exact ⟨Nat.zero_lt_one, List.length_pos_of_ne_nil hnil⟩

/-- The texts that are too short for their first token. -/
def EndsEarly (source : Bytes) : Prop := source = [] ∨ source = [slash, star] ∨ OpenHeredoc source

/-- Either the token ends one character behind the text, or in it. -/
lemma parseToken_cases (source : Bytes) :
    EndsEarly source ∧ (parseToken source).2 = source.length + 1 ∨
      ¬EndsEarly source ∧ 0 < (parseToken source).2 ∧ (parseToken source).2 ≤ source.length := by
  by_cases hnil : source = []
  · subst hnil
    exact Or.inl ⟨Or.inl rfl, by rw [parseToken_nil]; rfl⟩
  by_cases hcomment : source = [slash, star]
  · subst hcomment
    exact Or.inl ⟨Or.inr (Or.inl rfl), by rw [parseToken_commentStart]; rfl⟩
  by_cases hheredoc : OpenHeredoc source
  · exact Or.inl ⟨Or.inr (Or.inr hheredoc), by rw [parseToken_openHeredoc hheredoc]⟩
  · refine Or.inr ⟨?_, parseToken_fits hnil hcomment hheredoc⟩
    rintro (h | h | h)
    · exact hnil h
    · exact hcomment h
    · exact hheredoc h

lemma parseToken_pos (source : Bytes) : 0 < (parseToken source).2 := by
  rcases parseToken_cases source with ⟨-, hlen⟩ | ⟨-, hpos, -⟩
  · rw [hlen]
    exact Nat.succ_pos _
  · exact hpos

lemma parseToken_le (source : Bytes) : (parseToken source).2 ≤ source.length + 1 := by
  rcases parseToken_cases source with ⟨-, hlen⟩ | ⟨-, -, hle⟩
  · exact hlen.le
  · exact Nat.le_succ_of_le hle

/-- **A token is never empty**, and it ends inside of the text but for three cases, in which it ends one
character behind it. -/
theorem parseToken_bounds (source : Bytes) :
    0 < (parseToken source).2 ∧ (parseToken source).2 ≤ source.length + 1 ∧
      (source.length < (parseToken source).2 ↔
        source = [] ∨ source = [slash, star] ∨ OpenHeredoc source) := by
  refine ⟨parseToken_pos source, parseToken_le source, ?_⟩
  rcases parseToken_cases source with ⟨hearly, hlen⟩ | ⟨hnot, -, hle⟩
  · exact iff_of_true (hlen ▸ Nat.lt_succ_self _) hearly
  · exact iff_of_false (not_lt.2 hle) hnot

/-! ### Tokens with a known first character -/

@[simp] lemma parseToken_hash (rest : Bytes) : parseToken (hash :: rest) = (.unknown, 1) := by
  have hspace : isWhiteSpace (hash :: rest) = none := rfl
  have hcomment : isComment (hash :: rest) = none := by cases rest <;> rfl
  have hconstant : isConstant (hash :: rest) = none := rfl
  have hidentifier : isIdentifier (hash :: rest) = none := rfl
  have htable : keywordTable hash = [] := by decide +kernel
  have hkeyword : isKeyWord (hash :: rest) = none := by
    unfold isKeyWord
    rw [List.headD_cons, htable]
    rfl
  unfold parseToken
  rw [hspace, hcomment, hconstant, hidentifier, hkeyword]

end Tokenizer

end NovusHeadless
