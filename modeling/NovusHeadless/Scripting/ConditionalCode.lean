import NovusHeadless.Lib.Erasure
import NovusHeadless.Lib.Loop
import NovusHeadless.Scripting.Tokenizer

/-!
# Conditional compilation (`CScriptBuilder::ProcessScriptSection`, the first pass)

The pass works on the characters of a section in place.  An access outside of them is undefined, which is
`none` here: `OverwriteCode` is called with the length of a token, and a token may be longer than what is
left of the section.
-/

namespace NovusHeadless

open Lib Tokenizer

namespace ScriptBuilder

/-- What `OverwriteCode` makes of a character. -/
def blankOut (c : UInt8) : UInt8 := if c = newline then c else blank

/-- `OverwriteCode(start, len)` on `modifiedScript`. -/
def overwriteCode (modifiedScript : Bytes) (start len : ℕ) : Option Bytes :=
  if start + len ≤ modifiedScript.length then
    some (modifiedScript.take start ++ ((modifiedScript.drop start).take len).map blankOut ++
      modifiedScript.drop (start + len))
  else none

/-- `engine->ParseToken(&modifiedScript[pos], modifiedScript.size() - pos, &len)`. -/
def parseTokenAt (modifiedScript : Bytes) (pos : ℕ) : Option (TokenClass × ℕ) :=
  if pos ≤ modifiedScript.length then some (parseToken (modifiedScript.drop pos)) else none

/-- `token.assign(&modifiedScript[pos], len)`: the terminator can be part of it. -/
def textAt (modifiedScript : Bytes) (pos len : ℕ) : Bytes := ((modifiedScript ++ [0]).drop pos).take len

/-- `modifiedScript` and `pos` in one of the loops, with the level of the directives that are open. -/
structure Cursor where
  code : Bytes
  pos : ℕ
  nested : ℕ
  deriving DecidableEq, Repr

/-- A round of the loop of `ExcludeCode`. -/
def excludeRound (s : Cursor) : Option (Round Cursor) :=
  if s.pos < s.code.length then
    let len := (parseToken (s.code.drop s.pos)).2
    if s.code[s.pos]? = some hash then
      let code := s.code.set s.pos blank
      let pos := s.pos + 1
      let len := (parseToken (code.drop pos)).2
      let token := textAt code pos len
      (overwriteCode code pos len).map fun code =>
        if token = ascii "if" then .next ⟨code, pos + len, s.nested + 1⟩
        else if token = ascii "endif" then
          if s.nested = 0 then .stop ⟨code, pos + len, s.nested⟩
          else .next ⟨code, pos + len, s.nested - 1⟩
        else .next ⟨code, pos + len, s.nested⟩
    else if s.code[s.pos]? ≠ some newline then
      (overwriteCode s.code s.pos len).map fun code => .next ⟨code, s.pos + len, s.nested⟩
    else some (.next { s with pos := s.pos + len })
  else some (.stop s)

/-! ### What the rounds do to the text -/

/-- Line breaks stay, and other characters stay or become blanks. -/
abbrev Blanked : Bytes → Bytes → Prop := Erases (· = newline) blank

/-- A loop has gone on from a position to a later one: in front of it characters have become blanks, and
behind it nothing is changed. -/
structure Ahead (code : Bytes) (pos : ℕ) (code' : Bytes) (pos' : ℕ) : Prop where
  blanked : Blanked code code'
  le : pos ≤ pos'
  behind : code'.drop pos' = code.drop pos'

namespace Ahead

variable {code code' code'' : Bytes} {pos pos' pos'' : ℕ}

lemma move (h : pos ≤ pos') : Ahead code pos code pos' := ⟨Erases.refl _, h, rfl⟩

lemma trans (h : Ahead code pos code' pos') (h' : Ahead code' pos' code'' pos'') : Ahead code pos code'' pos'' := by
  refine ⟨h.blanked.trans h'.blanked, h.le.trans h'.le, ?_⟩
  obtain ⟨n, rfl⟩ := Nat.exists_eq_add_of_le h'.le
  rw [h'.behind, ← List.drop_drop, h.behind, List.drop_drop]

lemma length_eq (h : Ahead code pos code' pos') : code'.length = code.length := h.blanked.length_eq

end Ahead

lemma blankOut_cases (c : UInt8) : blankOut c = c ∨ ¬c = newline ∧ blankOut c = blank := by
  unfold blankOut
  split
  · exact Or.inl rfl
  · exact Or.inr ⟨‹_›, rfl⟩

lemma ahead_overwriteCode {code code' : Bytes} {start len : ℕ} (h : overwriteCode code start len = some code') :
    Ahead code start code' (start + len) := by
  unfold overwriteCode at h
  rw [Option.ite_none_right_eq_some, Option.some.injEq] at h
  obtain ⟨hle, rfl⟩ := h
  refine ⟨?_, Nat.le_add_right _ _, ?_⟩
  · have hsplit : code = code.take start ++ (code.drop start).take len ++ code.drop (start + len) := by
      rw [List.append_assoc, ← List.drop_drop, List.take_append_drop, List.take_append_drop]
    conv_lhs => rw [hsplit]
    exact ((Erases.refl _).append (Erases.map_of blankOut blankOut_cases _)).append (Erases.refl _)
  · refine List.drop_left' ?_
    simp only [List.length_append, List.length_take, List.length_map, List.length_drop]
    omega

lemma ahead_set {code : Bytes} {pos : ℕ} {c : UInt8} (h : code[pos]? = some c) (hc : ¬c = newline) :
    Ahead code pos (code.set pos blank) (pos + 1) := by
  obtain ⟨hlt, rfl⟩ := List.getElem?_eq_some_iff.1 h
  refine ⟨?_, Nat.le_succ _, List.drop_set_of_lt (Nat.lt_succ_self _)⟩
  have hsplit : code = code.take pos ++ ([code[pos]] ++ code.drop (pos + 1)) := by
    rw [List.singleton_append, List.getElem_cons_drop, List.take_append_drop]
  have hset : code.set pos blank = code.take pos ++ ([blank] ++ code.drop (pos + 1)) := by
    rw [List.set_eq_take_cons_drop _ hlt, List.singleton_append]
  have hone : Blanked [code[pos]] [blank] := List.Forall₂.cons (Or.inr ⟨hc, rfl⟩) List.Forall₂.nil
  rw [hset]
  conv_lhs => rw [hsplit]
  exact (Erases.refl _).append (hone.append (Erases.refl _))

/-- A round of a loop over the text ends ahead of where it began, and farther on when the loop goes on;
`place` gives the text and the position of a state. -/
def Advances {σ : Type} (place : σ → Bytes × ℕ) (s : σ) (r : Round σ) : Prop :=
  Ahead (place s).1 (place s).2 (place r.state).1 (place r.state).2 ∧
    ∀ s', r = .next s' → (place s).2 < (place s).1.length ∧ (place s).2 < (place s').2

section Advances

variable {σ : Type} {place : σ → Bytes × ℕ} {body : σ → Option (Round σ)} {s s' : σ}

lemma advances_next (hlt : (place s).2 < (place s).1.length)
    (hahead : Ahead (place s).1 (place s).2 (place s').1 (place s').2) (hpos : (place s).2 < (place s').2) :
    Advances place s (.next s') := by
  refine ⟨hahead, fun t ht => ?_⟩
  cases ht
  exact ⟨hlt, hpos⟩

lemma advances_stop (hahead : Ahead (place s).1 (place s).2 (place s').1 (place s').2) :
    Advances place s (.stop s') :=
  ⟨hahead, fun _ ht => by cases ht⟩

lemma decreases_of_advances (h : ∀ s r, body s = some r → Advances place s r) :
    Decreases (fun s => (place s).1.length - (place s).2) body := by
  intro s s' hs
  obtain ⟨hahead, hnext⟩ := h s _ hs
  obtain ⟨hlt, hpos⟩ := hnext s' rfl
  have hlength : (place s').1.length = (place s).1.length := hahead.length_eq
  dsimp only
  omega

/-- **A loop whose rounds advance** ends ahead of where it began. -/
lemma ahead_loop (h : ∀ s r, body s = some r → Advances place s r)
    (hloop : loop (fun s => (place s).1.length - (place s).2) body (decreases_of_advances h) s = some s') :
    Ahead (place s).1 (place s).2 (place s').1 (place s').2 :=
  loop_rel (R := fun s t => Ahead (place s).1 (place s).2 (place t).1 (place t).2) (fun _ _ _ => Ahead.trans)
    (fun _ _ hr => (h _ _ hr).1) hloop

end Advances

def Cursor.place (s : Cursor) : Bytes × ℕ := (s.code, s.pos)

lemma excludeRound_advances (s : Cursor) (r : Round Cursor) (h : excludeRound s = some r) :
    Advances Cursor.place s r := by
  unfold excludeRound at h
  split at h
  · rename_i hlt
    have hlen := parseToken_pos (s.code.drop s.pos)
    dsimp only at h
    split at h
    · rename_i hhash
      obtain ⟨code, hcode, rfl⟩ := Option.map_eq_some_iff.1 h
      have hahead := (ahead_set hhash (by decide)).trans (ahead_overwriteCode hcode)
      split_ifs
      · exact advances_next hlt hahead (by dsimp only [Cursor.place]; omega)
      · exact advances_stop hahead
      · exact advances_next hlt hahead (by dsimp only [Cursor.place]; omega)
      · exact advances_next hlt hahead (by dsimp only [Cursor.place]; omega)
    · split at h
      · obtain ⟨code, hcode, rfl⟩ := Option.map_eq_some_iff.1 h
        exact advances_next hlt (ahead_overwriteCode hcode) (by dsimp only [Cursor.place]; omega)
      · obtain rfl := Option.some.inj h
        exact advances_next hlt (Ahead.move (Nat.le_add_right _ _)) (by dsimp only [Cursor.place]; omega)
  · obtain rfl := Option.some.inj h
    exact advances_stop (Ahead.move le_rfl)

def excludeLoop : Cursor → Option Cursor :=
  loop (fun s => s.place.1.length - s.place.2) excludeRound (decreases_of_advances excludeRound_advances)

/-- `ExcludeCode(pos)`. -/
def excludeCode (modifiedScript : Bytes) (pos : ℕ) : Option (Bytes × ℕ) :=
  (excludeLoop ⟨modifiedScript, pos, 0⟩).map fun s => (s.code, s.pos)

lemma ahead_excludeCode {code code' : Bytes} {pos pos' : ℕ} (h : excludeCode code pos = some (code', pos')) :
    Ahead code pos code' pos' := by
  unfold excludeCode at h
  obtain ⟨s, hs, hpair⟩ := Option.map_eq_some_iff.1 h
  obtain ⟨rfl, rfl⟩ := Prod.mk.inj hpair
  exact ahead_loop excludeRound_advances hs

/-! ### The first pass -/

/-- `if( t == asTC_WHITESPACE )`: the token behind the white space. -/
def skipWhiteSpace (modifiedScript : Bytes) (pos : ℕ) : Option (ℕ × TokenClass × ℕ) := do
  let (t, len) ← parseTokenAt modifiedScript pos
  if t = .whiteSpace then
    let (t, len') ← parseTokenAt modifiedScript (pos + len)
    some (pos + len, t, len')
  else some (pos, t, len)

/-- A round of the loop over the `#if` directives. -/
def conditionalRound (definedWords : List Bytes) (s : Cursor) : Option (Round Cursor) :=
  if s.pos < s.code.length then
    let (t, len) := parseToken (s.code.drop s.pos)
    if t = .unknown ∧ s.code[s.pos]? = some hash ∧ s.pos + 1 < s.code.length then
      let start := s.pos
      let pos := s.pos + 1
      let len := (parseToken (s.code.drop pos)).2
      let token := textAt s.code pos len
      let pos := pos + len
      if token = ascii "if" then do
        let (pos, t, len) ← skipWhiteSpace s.code pos
        if t = .identifier then
          let word := textAt s.code pos len
          let pos := pos + len
          let code ← overwriteCode s.code start (pos - start)
          if definedWords.contains word then some (.next ⟨code, pos, s.nested + 1⟩)
          else (excludeCode code pos).map fun (code, pos) => .next ⟨code, pos, s.nested⟩
        else some (.next { s with pos := pos })
      else if token = ascii "endif" then
        if 0 < s.nested then
          (overwriteCode s.code start (pos - start)).map fun code => .next ⟨code, pos, s.nested - 1⟩
        else some (.next { s with pos := pos })
      else some (.next { s with pos := pos })
    else some (.next { s with pos := s.pos + len })
  else some (.stop s)

lemma le_skipWhiteSpace {code : Bytes} {pos pos' len : ℕ} {t : TokenClass}
    (h : skipWhiteSpace code pos = some (pos', t, len)) : pos ≤ pos' := by
  unfold skipWhiteSpace at h
  obtain ⟨⟨t₁, len₁⟩, -, h⟩ := Option.bind_eq_some_iff.1 h
  dsimp only at h
  split at h
  · obtain ⟨⟨t₂, len₂⟩, -, h⟩ := Option.bind_eq_some_iff.1 h
    obtain ⟨rfl, -⟩ := Prod.mk.inj (Option.some.inj h)
    exact Nat.le_add_right _ _
  · obtain ⟨rfl, -⟩ := Prod.mk.inj (Option.some.inj h)
    exact le_rfl

lemma conditionalRound_advances (definedWords : List Bytes) (s : Cursor) (r : Round Cursor)
    (h : conditionalRound definedWords s = some r) : Advances Cursor.place s r := by
  -- the rounds that only move on
  have hmove : ∀ pos, s.pos < s.code.length → s.pos < pos → some (.next { s with pos := pos }) = some r →
      Advances Cursor.place s r := by
    intro pos hlt hpos h
    obtain rfl := Option.some.inj h
    exact advances_next hlt (Ahead.move hpos.le) hpos
  -- the text of a directive reaches from its `#` to the position behind it
  have hblank : ∀ {code : Bytes} {pos : ℕ}, s.pos < pos → overwriteCode s.code s.pos (pos - s.pos) = some code →
      Ahead s.code s.pos code pos := by
    intro code pos hpos hcode
    have := ahead_overwriteCode hcode
    rwa [Nat.add_sub_cancel' hpos.le] at this
  unfold conditionalRound at h
  split at h
  · rename_i hlt
    dsimp only at h
    have hlen := parseToken_pos (s.code.drop s.pos)
    split at h
    · split at h
      · obtain ⟨⟨pos, t, len⟩, hskip, h⟩ := Option.bind_eq_some_iff.1 h
        have hpos := le_skipWhiteSpace hskip
        dsimp only at h
        split at h
        · obtain ⟨code, hcode, h⟩ := Option.bind_eq_some_iff.1 h
          have hahead := hblank (by omega) hcode
          split at h
          · obtain rfl := Option.some.inj h
            exact advances_next hlt hahead (by dsimp only [Cursor.place]; omega)
          · obtain ⟨⟨code', pos'⟩, hexclude, rfl⟩ := Option.map_eq_some_iff.1 h
            have hexcluded := ahead_excludeCode hexclude
            have := hexcluded.le
            exact advances_next hlt (hahead.trans hexcluded) (by dsimp only [Cursor.place]; omega)
        · exact hmove pos hlt (by omega) h
      · split at h
        · split at h
          · obtain ⟨code, hcode, rfl⟩ := Option.map_eq_some_iff.1 h
            have hahead := hblank (by omega) hcode
            exact advances_next hlt hahead (by dsimp only [Cursor.place]; omega)
          · exact hmove _ hlt (by omega) h
        · exact hmove _ hlt (by omega) h
    · exact hmove _ hlt (by omega) h
  · obtain rfl := Option.some.inj h
    exact advances_stop (Ahead.move le_rfl)

def conditionalLoop (definedWords : List Bytes) : Cursor → Option Cursor :=
  loop (fun s => s.place.1.length - s.place.2) (conditionalRound definedWords)
    (decreases_of_advances (conditionalRound_advances definedWords))

/-- The text that the first pass leaves. -/
def conditionalPass (definedWords : List Bytes) (script : Bytes) : Option Bytes :=
  (conditionalLoop definedWords ⟨script, 0, 0⟩).map Cursor.code

lemma blanked_conditionalPass {definedWords : List Bytes} {script code : Bytes}
    (h : conditionalPass definedWords script = some code) : Blanked script code := by
  unfold conditionalPass at h
  obtain ⟨s, hs, rfl⟩ := Option.map_eq_some_iff.1 h
  exact (ahead_loop (conditionalRound_advances definedWords) hs).blanked

end ScriptBuilder

end NovusHeadless
