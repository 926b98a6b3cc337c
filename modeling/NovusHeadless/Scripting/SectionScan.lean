import NovusHeadless.Scripting.ConditionalCode

/-!
# Metadata and includes (`CScriptBuilder::ProcessScriptSection`, the second pass)

The pass looks for metadata in brackets, for `#include` and for `#pragma`, between statements only.  It keeps
track of the class and the namespace it is in, and blanks what the compiler must not see.  The client sets no
callback, so a `#pragma` ends the pass with an error.
-/

namespace NovusHeadless

open Lib Tokenizer

namespace ScriptBuilder

abbrev semicolon : UInt8 := 0x3B
abbrev openBracket : UInt8 := 0x5B
abbrev closeBracket : UInt8 := 0x5D
abbrev openBrace : UInt8 := 0x7B
abbrev closeBrace : UInt8 := 0x7D

/-- `METADATATYPE`. -/
inductive MetadataType where
  | type
  | func
  | var
  | virtProp
  | funcOrVar
  deriving DecidableEq, Repr

structure SMetadataDecl where
  metadata : List Bytes
  name : Bytes
  declaration : Bytes
  type : MetadataType
  parentClass : Bytes
  nameSpace : Bytes
  deriving DecidableEq, Repr

/-! ### Moving on in the text -/

/-- `modifiedScript.substr(pos, len)`. -/
def substr (modifiedScript : Bytes) (pos len : ℕ) : Bytes := (modifiedScript.drop pos).take len

/-- The token is skipped. -/
def isBlankToken (t : TokenClass) : Bool := t == .comment || t == .whiteSpace

/-- The first token from `pos` on that is neither a comment nor white space; `pos` has to be in the text. -/
def skipBlanks (modifiedScript : Bytes) (pos : ℕ) : Option (TokenClass × ℕ × ℕ) :=
  if pos ≤ modifiedScript.length then
    let t := (parseToken (modifiedScript.drop pos)).1
    let len := (parseToken (modifiedScript.drop pos)).2
    if isBlankToken t then skipBlanks modifiedScript (pos + len) else some (t, pos, len)
  else none
termination_by modifiedScript.length + 1 - pos
decreasing_by
  have := parseToken_pos (modifiedScript.drop pos)
  omega

/-- The token behind the word `class`, if there is one before the text ends. -/
def tokenBehindClass (modifiedScript : Bytes) (pos : ℕ) : TokenClass × ℕ × ℕ :=
  if pos < modifiedScript.length then
    let t := (parseToken (modifiedScript.drop pos)).1
    let len := (parseToken (modifiedScript.drop pos)).2
    if isBlankToken t then tokenBehindClass modifiedScript (pos + len) else (t, pos, len)
  else (.unknown, pos, 0)
termination_by modifiedScript.length - pos
decreasing_by
  have := parseToken_pos (modifiedScript.drop pos)
  omega

/-- The position behind the first token that begins with one of the characters, and the character. -/
def searchFor (stops : List UInt8) (modifiedScript : Bytes) (pos : ℕ) : ℕ × Option UInt8 :=
  if pos < modifiedScript.length then
    let len := (parseToken (modifiedScript.drop pos)).2
    match modifiedScript[pos]? with
    | some c => if stops.contains c then (pos + len, some c) else searchFor stops modifiedScript (pos + len)
    | none => (pos, none)
  else (pos, none)
termination_by modifiedScript.length - pos
decreasing_by
  have := parseToken_pos (modifiedScript.drop pos)
  omega

/-- The first loop of `SkipStatement`. -/
def skipToBlock (modifiedScript : Bytes) (pos : ℕ) : ℕ :=
  if pos < modifiedScript.length ∧ modifiedScript[pos]? ≠ some semicolon ∧
      modifiedScript[pos]? ≠ some openBrace then
    skipToBlock modifiedScript (pos + (parseToken (modifiedScript.drop pos)).2)
  else pos
termination_by modifiedScript.length - pos
decreasing_by
  have := parseToken_pos (modifiedScript.drop pos)
  omega

/-- The level of the blocks, or of the brackets, behind a token. -/
def levelBehind (opens closes : UInt8) (t : TokenClass) (c : Option UInt8) (level : ℕ) : ℕ :=
  if t = .keyword then
    if c = some opens then level + 1 else if c = some closes then level - 1 else level
  else level

/-- The second loop of `SkipStatement`. -/
def skipBlock (modifiedScript : Bytes) (pos level : ℕ) : ℕ :=
  if 0 < level ∧ pos < modifiedScript.length then
    let t := (parseToken (modifiedScript.drop pos)).1
    let len := (parseToken (modifiedScript.drop pos)).2
    skipBlock modifiedScript (pos + len) (levelBehind openBrace closeBrace t modifiedScript[pos]? level)
  else pos
termination_by modifiedScript.length - pos
decreasing_by
  have := parseToken_pos (modifiedScript.drop pos)
  omega

def skipStatement (modifiedScript : Bytes) (pos : ℕ) : ℕ :=
  let pos := skipToBlock modifiedScript pos
  if pos < modifiedScript.length ∧ modifiedScript[pos]? = some openBrace then
    skipBlock modifiedScript (pos + 1) 1
  else pos + 1

/-! ### Metadata -/

/-- The loop over one piece of metadata. -/
structure Brackets where
  code : Bytes
  pos : ℕ
  level : ℕ
  metadataString : Bytes
  deriving DecidableEq, Repr

def bracketsRound (s : Brackets) : Option (Round Brackets) :=
  if 0 < s.level ∧ s.pos < s.code.length then
    let t := (parseToken (s.code.drop s.pos)).1
    let len := (parseToken (s.code.drop s.pos)).2
    let level := levelBehind openBracket closeBracket t s.code[s.pos]? s.level
    let metadataString :=
      if 0 < level then s.metadataString ++ textAt s.code s.pos len else s.metadataString
    if t ≠ .whiteSpace then
      (overwriteCode s.code s.pos len).map fun code => .next ⟨code, s.pos + len, level, metadataString⟩
    else some (.next ⟨s.code, s.pos + len, level, metadataString⟩)
  else some (.stop s)

/-- The words in front of a declaration that `ExtractDeclaration` skips. -/
def decorators : List Bytes :=
  ["private", "protected", "shared", "external", "final", "abstract"].map ascii

/-- The first token of a declaration, behind comments, white space and decorators. -/
def skipDecorators (modifiedScript : Bytes) (pos : ℕ) : Option (TokenClass × ℕ × ℕ) :=
  if pos ≤ modifiedScript.length then
    let t := (parseToken (modifiedScript.drop pos)).1
    let len := (parseToken (modifiedScript.drop pos)).2
    if isBlankToken t || decorators.contains (textAt modifiedScript pos len) then
      skipDecorators modifiedScript (pos + len)
    else some (t, pos, len)
  else none
termination_by modifiedScript.length + 1 - pos
decreasing_by
  have := parseToken_pos (modifiedScript.drop pos)
  omega

/-- The variables of `ExtractDeclaration` while it reads a function or a variable. -/
structure Signature where
  pos : ℕ
  name : Bytes
  declaration : Bytes
  hasParenthesis : Bool
  nestedParenthesis : ℤ
  deriving DecidableEq, Repr

/-- The loop over the tokens of a function or a variable: where it ends, and what has been found. -/
def readSignature (modifiedScript : Bytes) (s : Signature) : Signature × Option MetadataType :=
  if s.pos < modifiedScript.length then
    let t := (parseToken (modifiedScript.drop s.pos)).1
    let len := (parseToken (modifiedScript.drop s.pos)).2
    let token := textAt modifiedScript s.pos len
    if t = .keyword ∧ token = ascii "\x7b" ∧ s.nestedParenthesis = 0 then
      if s.hasParenthesis then (s, some .func) else ({ s with declaration := s.name }, some .virtProp)
    else if t = .keyword ∧ (token = ascii "=" ∧ !s.hasParenthesis ∨ token = ascii ";") then
      if s.hasParenthesis then (s, some .funcOrVar) else ({ s with declaration := s.name }, some .var)
    else
      let name := if t = .identifier then token else s.name
      let hasParenthesis := s.hasParenthesis || (t == .keyword && token == ascii "(")
      let nestedParenthesis :=
        if t = .keyword ∧ token = ascii "(" then s.nestedParenthesis + 1
        else if t = .keyword ∧ token = ascii ")" then s.nestedParenthesis - 1
        else s.nestedParenthesis
      let declaration :=
        if !hasParenthesis ∨ 0 < nestedParenthesis ∨ t ≠ .identifier ∨
            (token ≠ ascii "final" ∧ token ≠ ascii "override") then s.declaration ++ token
        else s.declaration
      readSignature modifiedScript ⟨s.pos + len, name, declaration, hasParenthesis, nestedParenthesis⟩
  else (s, none)
termination_by modifiedScript.length - s.pos
decreasing_by
  have := parseToken_pos (modifiedScript.drop s.pos)
  omega

/-- The words of a declaration of a type. -/
def typeWords : List Bytes := ["interface", "class", "enum"].map ascii

/-- `ExtractDeclaration(pos, name, declaration, type)`: the name, the declaration and the type.  The name is
the one of an earlier declaration until an identifier is read. -/
def extractDeclaration (modifiedScript : Bytes) (pos : ℕ) (name : Bytes) :
    Option (Bytes × Bytes × Option MetadataType) := do
  let (t, pos, len) ← skipDecorators modifiedScript pos
  if t = .keyword ∨ t = .identifier then
    let token := textAt modifiedScript pos len
    if typeWords.contains token then
      let (t, pos, len) ← skipBlanks modifiedScript (pos + len)
      if t = .identifier then some (name, textAt modifiedScript pos len, some .type)
      else some (name, [], none)
    else
      let (s, type) := readSignature modifiedScript ⟨pos + len, name, token, false, 0⟩
      some (s.name, s.declaration, type)
  else some (name, [], none)

/-! ### What the loops do to the text -/

lemma le_of_skipBlanks {code : Bytes} {pos pos' len : ℕ} {t : TokenClass}
    (h : skipBlanks code pos = some (t, pos', len)) : pos ≤ pos' ∧ pos' ≤ code.length := by
  fun_induction skipBlanks code pos with
  | case1 pos hle t₁ len₁ hblank ih =>
    obtain ⟨hpos, hend⟩ := ih h
    exact ⟨(Nat.le_add_right _ _).trans hpos, hend⟩
  | case2 pos hle t₁ len₁ hblank =>
    obtain ⟨-, h⟩ := Prod.mk.inj (Option.some.inj h)
    obtain ⟨rfl, -⟩ := Prod.mk.inj h
    exact ⟨le_rfl, hle⟩
  | case3 pos hle => cases h

lemma le_tokenBehindClass (code : Bytes) (pos : ℕ) : pos ≤ (tokenBehindClass code pos).2.1 := by
  fun_induction tokenBehindClass code pos with
  | case1 pos hlt t len hblank ih => exact (Nat.le_add_right _ _).trans ih
  | case2 pos hlt t len hblank => exact le_rfl
  | case3 pos hlt => exact le_rfl

lemma le_searchFor (stops : List UInt8) (code : Bytes) (pos : ℕ) : pos ≤ (searchFor stops code pos).1 := by
  fun_induction searchFor stops code pos with
  | case1 pos hlt len c hc hstop => exact Nat.le_add_right _ _
  | case2 pos hlt len c hc hstop ih => exact (Nat.le_add_right _ _).trans ih
  | case3 pos hlt hc => exact le_rfl
  | case4 pos hlt => exact le_rfl

lemma le_skipToBlock (code : Bytes) (pos : ℕ) : pos ≤ skipToBlock code pos := by
  fun_induction skipToBlock code pos with
  | case1 pos hlt ih => exact (Nat.le_add_right _ _).trans ih
  | case2 pos hlt => exact le_rfl

lemma le_skipBlock (code : Bytes) (pos level : ℕ) : pos ≤ skipBlock code pos level := by
  fun_induction skipBlock code pos level with
  | case1 pos level hlt t len ih => exact (Nat.le_add_right _ _).trans ih
  | case2 pos level hlt => exact le_rfl

lemma lt_skipStatement (code : Bytes) (pos : ℕ) : pos < skipStatement code pos := by
  have hto := le_skipToBlock code pos
  unfold skipStatement
  dsimp only
  split
  · have := le_skipBlock code (skipToBlock code pos + 1) 1
    omega
  · omega

def Brackets.place (s : Brackets) : Bytes × ℕ := (s.code, s.pos)

lemma bracketsRound_advances (s : Brackets) (r : Round Brackets) (h : bracketsRound s = some r) :
    Advances Brackets.place s r := by
  unfold bracketsRound at h
  split at h
  · rename_i hlt
    have hlen := parseToken_pos (s.code.drop s.pos)
    dsimp only at h
    split at h
    · obtain ⟨code, hcode, rfl⟩ := Option.map_eq_some_iff.1 h
      exact advances_next hlt.2 (ahead_overwriteCode hcode) (by dsimp only [Brackets.place]; omega)
    · obtain rfl := Option.some.inj h
      exact advances_next hlt.2 (Ahead.move (Nat.le_add_right _ _)) (by dsimp only [Brackets.place]; omega)
  · obtain rfl := Option.some.inj h
    exact advances_stop (Ahead.move le_rfl)

def bracketsLoop : Brackets → Option Brackets :=
  loop (fun s => s.place.1.length - s.place.2) bracketsRound (decreases_of_advances bracketsRound_advances)

/-! ### All pieces of metadata -/

/-- `modifiedScript`, `pos` and `metadata` in the loop of `ExtractMetadata`. -/
structure Pieces where
  code : Bytes
  pos : ℕ
  metadata : List Bytes
  deriving DecidableEq, Repr

def Pieces.place (s : Pieces) : Bytes × ℕ := (s.code, s.pos)

def metadataRound (s : Pieces) : Option (Round Pieces) := do
  let piece ← bracketsLoop ⟨s.code.set s.pos blank, s.pos + 1, 1, []⟩
  let (_, pos, _) ← skipBlanks piece.code piece.pos
  let s' : Pieces := ⟨piece.code, pos, s.metadata ++ [piece.metadataString]⟩
  if piece.code[pos]? ≠ some openBracket then some (.stop s') else some (.next s')

/-- A bracket is at the position. -/
def Pieces.AtBracket (s : Pieces) : Prop := s.code[s.pos]? = some openBracket

lemma metadataRound_cases {s : Pieces} {r : Round Pieces} (h : metadataRound s = some r) :
    r.state.code.length = s.code.length ∧ s.pos < r.state.pos ∧ r.state.pos ≤ s.code.length ∧
      (s.AtBracket → Ahead s.code s.pos r.state.code r.state.pos) ∧
      ∀ s', r = .next s' → s'.AtBracket := by
  unfold metadataRound at h
  obtain ⟨piece, hpiece, h⟩ := Option.bind_eq_some_iff.1 h
  obtain ⟨⟨t, pos, len⟩, hskip, h⟩ := Option.bind_eq_some_iff.1 h
  have hahead : Ahead (s.code.set s.pos blank) (s.pos + 1) piece.code piece.pos :=
    ahead_loop bracketsRound_advances hpiece
  have hlength := hahead.length_eq
  rw [List.length_set] at hlength
  obtain ⟨hle, hend⟩ := le_of_skipBlanks hskip
  have := hahead.le
  have hspec : s.AtBracket → Ahead s.code s.pos piece.code pos := fun hbracket =>
    ((ahead_set hbracket (by decide)).trans hahead).trans (Ahead.move hle)
  dsimp only at h
  split at h
  · obtain rfl := Option.some.inj h
    refine ⟨hlength, ?_, ?_, hspec, fun s' hs' => by cases hs'⟩
    all_goals simp only [Round.state]; omega
  · rename_i hbracket
    obtain rfl := Option.some.inj h
    refine ⟨hlength, ?_, ?_, hspec, fun s' hs' => ?_⟩
    · simp only [Round.state]
      omega
    · simp only [Round.state]
      omega
    · cases hs'
      exact not_not.1 hbracket

lemma decreases_metadataRound : Decreases (fun s : Pieces => s.code.length - s.pos) metadataRound := by
  intro s s' h
  obtain ⟨hlength, hlt, hle, -, -⟩ := metadataRound_cases h
  simp only [Round.state] at hlength hlt hle
  dsimp only
  omega

/-- `ExtractMetadata(pos, metadata)`. -/
def extractMetadata (modifiedScript : Bytes) (pos : ℕ) : Option (Bytes × ℕ × List Bytes) :=
  (loop (fun s : Pieces => s.code.length - s.pos) metadataRound decreases_metadataRound
    ⟨modifiedScript, pos, []⟩).map fun s => (s.code, s.pos, s.metadata)

lemma ahead_extractMetadata {code code' : Bytes} {pos pos' : ℕ} {metadata : List Bytes}
    (hbracket : code[pos]? = some openBracket) (h : extractMetadata code pos = some (code', pos', metadata)) :
    Ahead code pos code' pos' ∧ pos < pos' := by
  unfold extractMetadata at h
  obtain ⟨s, hs, htriple⟩ := Option.map_eq_some_iff.1 h
  obtain ⟨rfl, hpair⟩ := Prod.mk.inj htriple
  obtain ⟨rfl, -⟩ := Prod.mk.inj hpair
  have hstart : Pieces.AtBracket ⟨code, pos, []⟩ := hbracket
  refine loop_rel_of (R := fun s t : Pieces => Ahead s.code s.pos t.code t.pos ∧ s.pos < t.pos)
    (fun _ _ _ h h' => ⟨h.1.trans h'.1, h.2.trans h'.2⟩)
    (fun s r (hbracket : s.AtBracket) hr => ?_) hstart hs
  obtain ⟨-, hlt, -, hahead, hnext⟩ := metadataRound_cases hr
  exact ⟨⟨hahead hbracket, hlt⟩, hnext⟩

/-! ### The second pass -/

/-- The variables of the second pass, with the members of the builder that it changes. -/
structure Scanner where
  code : Bytes
  pos : ℕ
  includes : List Bytes
  currentClass : Bytes
  currentNamespace : Bytes
  foundDeclarations : List SMetadataDecl
  name : Bytes
  result : Int32
  deriving DecidableEq, Repr

namespace Scanner

def place (s : Scanner) : Bytes × ℕ := (s.code, s.pos)

/-- Behind the word `class`. -/
def enterClass (s : Scanner) (len : ℕ) : Scanner :=
  let (t, pos, len) := tokenBehindClass s.code (s.pos + len)
  if t = .identifier then
    let (behind, found) := searchFor [openBrace, semicolon] s.code pos
    { s with
      pos := behind
      currentClass := if found = some semicolon then [] else substr s.code pos len }
  else { s with pos := pos }

/-- Behind the word `namespace`. -/
def enterNamespace (s : Scanner) (len : ℕ) : Option Scanner := do
  let (_, pos, len) ← skipBlanks s.code (s.pos + len)
  let outer := if s.currentNamespace = [] then [] else s.currentNamespace ++ ascii "::"
  some { s with
    pos := (searchFor [openBrace] s.code pos).1
    currentNamespace := outer ++ substr s.code pos len }

/-- The namespace around a namespace: what stands in front of the last `::`. -/
def outerNamespace (currentNamespace : Bytes) : Bytes :=
  match (List.range currentNamespace.length).reverse.find? fun i =>
      (ascii "::").isPrefixOf (currentNamespace.drop i) with
  | some found => currentNamespace.take found
  | none => []

/-- At the bracket that begins metadata. -/
def readMetadata (s : Scanner) : Option Scanner := do
  let (code, pos, metadata) ← extractMetadata s.code s.pos
  let (name, declaration, type) ← extractDeclaration code pos s.name
  let decl := type.map fun kind => ⟨metadata, name, declaration, kind, s.currentClass, s.currentNamespace⟩
  some { s with
    code := code
    pos := pos
    name := name
    foundDeclarations := s.foundDeclarations ++ decl.toList }

/-- At the `#` of a directive that is not the last character. -/
def readDirective (s : Scanner) : Option (Round Scanner) :=
  let start := s.pos
  let pos := s.pos + 1
  let t := (parseToken (s.code.drop pos)).1
  let len := (parseToken (s.code.drop pos)).2
  if t = .identifier then
    let token := textAt s.code pos len
    if token = ascii "include" then do
      let (pos, t, len) ← skipWhiteSpace s.code (pos + len)
      if t = .value ∧ 2 < len ∧ (s.code[pos]? = some quote ∨ s.code[pos]? = some apostrophe) then
        let includefile := textAt s.code (pos + 1) (len - 2)
        let pos := pos + len
        let code ← overwriteCode s.code start (pos - start)
        some (.next { s with code := code, pos := pos, includes := s.includes ++ [includefile] })
      else some (.next { s with pos := pos })
    else if token = ascii "pragma" then some (.stop { s with result := -1 })
    else some (.next { s with pos := pos })
  else some (.next { s with pos := pos })

end Scanner

def scanRound (s : Scanner) : Option (Round Scanner) :=
  if s.pos < s.code.length then
    let t := (parseToken (s.code.drop s.pos)).1
    let len := (parseToken (s.code.drop s.pos)).2
    if isBlankToken t then some (.next { s with pos := s.pos + len })
    else if s.currentClass = [] ∧ substr s.code s.pos len = ascii "class" then some (.next (s.enterClass len))
    else if s.currentClass ≠ [] ∧ s.code[s.pos]? = some closeBrace then
      some (.next { s with currentClass := [], pos := s.pos + len })
    else if substr s.code s.pos len = ascii "namespace" then (s.enterNamespace len).map .next
    else if s.currentNamespace ≠ [] ∧ s.code[s.pos]? = some closeBrace then
      some (.next { s with
        currentNamespace := Scanner.outerNamespace s.currentNamespace
        pos := s.pos + len })
    else if s.code[s.pos]? = some openBracket then s.readMetadata.map .next
    else if s.code[s.pos]? = some hash ∧ s.pos + 1 < s.code.length then s.readDirective
    else some (.next { s with pos := skipStatement s.code s.pos })
  else some (.stop s)

namespace Scanner

lemma enterClass_code (s : Scanner) (len : ℕ) : (s.enterClass len).code = s.code := by
  unfold enterClass
  dsimp only
  split <;> rfl

lemma le_enterClass (s : Scanner) (len : ℕ) : s.pos + len ≤ (s.enterClass len).pos := by
  have htoken := le_tokenBehindClass s.code (s.pos + len)
  unfold enterClass
  dsimp only
  split
  · exact htoken.trans (le_searchFor _ _ _)
  · exact htoken

lemma enterNamespace_spec {s s' : Scanner} {len : ℕ} (h : s.enterNamespace len = some s') :
    s'.code = s.code ∧ s.pos + len ≤ s'.pos := by
  unfold enterNamespace at h
  obtain ⟨⟨t, pos, len'⟩, hskip, h⟩ := Option.bind_eq_some_iff.1 h
  obtain rfl := Option.some.inj h
  exact ⟨rfl, (le_of_skipBlanks hskip).1.trans (le_searchFor _ _ _)⟩

lemma readMetadata_ahead {s s' : Scanner} (hbracket : s.code[s.pos]? = some openBracket)
    (h : s.readMetadata = some s') : Ahead s.code s.pos s'.code s'.pos ∧ s.pos < s'.pos := by
  unfold readMetadata at h
  obtain ⟨⟨code, pos, metadata⟩, hmetadata, h⟩ := Option.bind_eq_some_iff.1 h
  obtain ⟨⟨name, declaration, type⟩, -, h⟩ := Option.bind_eq_some_iff.1 h
  obtain rfl := Option.some.inj h
  exact ahead_extractMetadata hbracket hmetadata

lemma readDirective_advances {s : Scanner} {r : Round Scanner} (hlt : s.pos < s.code.length)
    (h : s.readDirective = some r) : Advances Scanner.place s r := by
  have hmove : ∀ pos, s.pos < pos → some (.next { s with pos := pos }) = some r →
      Advances Scanner.place s r := by
    intro pos hpos h
    obtain rfl := Option.some.inj h
    exact advances_next hlt (Ahead.move hpos.le) hpos
  unfold readDirective at h
  dsimp only at h
  split at h
  · split at h
    · obtain ⟨⟨pos, t, len⟩, hskip, h⟩ := Option.bind_eq_some_iff.1 h
      have hpos := le_skipWhiteSpace hskip
      dsimp only at h
      split at h
      · obtain ⟨code, hcode, h⟩ := Option.bind_eq_some_iff.1 h
        obtain rfl := Option.some.inj h
        have hahead := ahead_overwriteCode hcode
        rw [Nat.add_sub_cancel' (by omega)] at hahead
        exact advances_next hlt hahead (by dsimp only [Scanner.place]; omega)
      · exact hmove pos (by omega) h
    · split at h
      · obtain rfl := Option.some.inj h
        exact advances_stop (Ahead.move le_rfl)
      · exact hmove _ (Nat.lt_succ_self _) h
  · exact hmove _ (Nat.lt_succ_self _) h

end Scanner

lemma scanRound_advances (s : Scanner) (r : Round Scanner) (h : scanRound s = some r) :
    Advances Scanner.place s r := by
  unfold scanRound at h
  split at h
  · rename_i hlt
    have hlen := parseToken_pos (s.code.drop s.pos)
    have hmove : s.pos < s.pos + (parseToken (s.code.drop s.pos)).2 := by omega
    dsimp only at h
    split_ifs at h with hblank hclass hendclass hnamespace hendnamespace hmetadata hdirective
    · obtain rfl := Option.some.inj h
      exact advances_next hlt (Ahead.move hmove.le) hmove
    · obtain rfl := Option.some.inj h
      have hpos := hmove.trans_le (s.le_enterClass _)
      refine advances_next hlt ?_ hpos
      show Ahead s.code s.pos (s.enterClass _).code (s.enterClass _).pos
      rw [s.enterClass_code]
      exact Ahead.move hpos.le
    · obtain rfl := Option.some.inj h
      exact advances_next hlt (Ahead.move hmove.le) hmove
    · obtain ⟨s', hs', rfl⟩ := Option.map_eq_some_iff.1 h
      obtain ⟨hcode, hle⟩ := Scanner.enterNamespace_spec hs'
      have hpos := hmove.trans_le hle
      refine advances_next hlt ?_ hpos
      show Ahead s.code s.pos s'.code s'.pos
      rw [hcode]
      exact Ahead.move hpos.le
    · obtain rfl := Option.some.inj h
      exact advances_next hlt (Ahead.move hmove.le) hmove
    · obtain ⟨s', hs', rfl⟩ := Option.map_eq_some_iff.1 h
      obtain ⟨hahead, hpos⟩ := Scanner.readMetadata_ahead hmetadata hs'
      exact advances_next hlt hahead hpos
    · exact Scanner.readDirective_advances hlt h
    · obtain rfl := Option.some.inj h
      have hpos := lt_skipStatement s.code s.pos
      exact advances_next hlt (Ahead.move hpos.le) hpos
  · obtain rfl := Option.some.inj h
    exact advances_stop (Ahead.move le_rfl)

def scanLoop : Scanner → Option Scanner :=
  loop (fun s => s.place.1.length - s.place.2) scanRound (decreases_of_advances scanRound_advances)

end ScriptBuilder

end NovusHeadless
