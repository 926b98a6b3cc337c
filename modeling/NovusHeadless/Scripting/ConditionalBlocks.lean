import NovusHeadless.Scripting.ConditionalCode

/-!
# What conditional compilation means

A section is a tree: tokens, directives other than `#if`, and blocks that an `#if` opens and the matching
`#endif` closes.  A block stands for its body when its word is defined, and for nothing otherwise.

* `conditionalPass_text` — the first pass computes that, with blanks in the place of what is left out.
-/

namespace NovusHeadless

open Lib Tokenizer

namespace ScriptBuilder

/-- A section, as its tokens and blocks. -/
inductive Script where
  | done
  | token (t : Bytes) (next : Script)
  | directive (t : Bytes) (next : Script)
  | block (gap word : Bytes) (body next : Script)

namespace Script

/-- The characters of a section. -/
def text : Script → Bytes
  | done => []
  | token t next => t ++ next.text
  | directive t next => hash :: (t ++ next.text)
  | block gap word body next =>
    hash :: (ascii "if" ++ (gap ++ (word ++ (body.text ++ (hash :: (ascii "endif" ++ next.text))))))

/-- The text `t` is a token where `rest` stands behind it. -/
def IsToken (t rest : Bytes) : Prop := (parseToken (t ++ rest)).2 = t.length

/-- The pieces of a section are the tokens that the tokenizer finds, when `rest` stands behind the section. -/
def Lexed : Script → Bytes → Prop
  | done, _ => True
  | token t next, rest => t.head? ≠ some hash ∧ IsToken t (next.text ++ rest) ∧ next.Lexed rest
  | directive t next, rest =>
    t ≠ ascii "if" ∧ t ≠ ascii "endif" ∧ IsToken t (next.text ++ rest) ∧ next.Lexed rest
  | block gap word body next, rest =>
    let behind := hash :: (ascii "endif" ++ (next.text ++ rest))
    IsToken (ascii "if") (gap ++ (word ++ (body.text ++ behind))) ∧
      parseToken (gap ++ (word ++ (body.text ++ behind))) = (.whiteSpace, gap.length) ∧
      parseToken (word ++ (body.text ++ behind)) = (.identifier, word.length) ∧
      body.Lexed behind ∧ IsToken (ascii "endif") (next.text ++ rest) ∧ next.Lexed rest

instance decidableIsToken (t rest : Bytes) : Decidable (IsToken t rest) :=
  inferInstanceAs (Decidable (_ = _))

instance decidableLexed : (s : Script) → (rest : Bytes) → Decidable (s.Lexed rest)
  | done, _ => isTrue trivial
  | token _ next, rest =>
    have := decidableLexed next rest
    inferInstanceAs (Decidable (_ ∧ _ ∧ _))
  | directive _ next, rest =>
    have := decidableLexed next rest
    inferInstanceAs (Decidable (_ ∧ _ ∧ _ ∧ _))
  | block _ _ body next, rest =>
    have := decidableLexed body (hash :: (ascii "endif" ++ (next.text ++ rest)))
    have := decidableLexed next rest
    inferInstanceAs (Decidable (_ ∧ _ ∧ _ ∧ _ ∧ _ ∧ _))

/-- A token in code that is left out: a line break and the white space behind it stay. -/
def wipeToken (t : Bytes) : Bytes := if t.head? = some newline then t else t.map blankOut

/-- A section that is left out. -/
def wipe : Script → Bytes
  | done => []
  | token t next => wipeToken t ++ next.wipe
  | directive t next => blank :: (t.map blankOut ++ next.wipe)
  | block gap word body next =>
    blank :: ((ascii "if").map blankOut ++ (wipeToken gap ++ (wipeToken word ++
      (body.wipe ++ (blank :: ((ascii "endif").map blankOut ++ next.wipe))))))

/-- What is left of the `#if` of a block. -/
def opening (gap word : Bytes) : Bytes := (hash :: (ascii "if" ++ (gap ++ word))).map blankOut

/-- What is left of the `#endif` of a block. -/
def closing : Bytes := (hash :: ascii "endif").map blankOut

/-- **The meaning of a section**: a block stands for its body when its word is defined. -/
def select (definedWords : List Bytes) : Script → Bytes
  | done => []
  | token t next => t ++ next.select definedWords
  | directive t next => hash :: (t ++ next.select definedWords)
  | block gap word body next =>
    opening gap word ++ ((if definedWords.contains word then body.select definedWords else body.wipe) ++
      (closing ++ next.select definedWords))

end Script

/-! ### Rounds at a place in the text -/

/-- The loop has come to the end of `before`. -/
def Cursor.at (before rest : Bytes) (nested : ℕ) : Cursor := ⟨before ++ rest, before.length, nested⟩

lemma textAt_append (before t rest : Bytes) : textAt (before ++ (t ++ rest)) before.length t.length = t := by
  unfold textAt
  rw [List.append_assoc, List.drop_left, List.append_assoc, List.take_left]

lemma overwriteCode_append (before t rest : Bytes) :
    overwriteCode (before ++ (t ++ rest)) before.length t.length = some (before ++ (t.map blankOut ++ rest)) := by
  unfold overwriteCode
  rw [if_pos (by simp only [List.length_append]; omega), List.take_left, List.drop_left, List.take_left,
    ← List.append_assoc before t rest, ← List.length_append, List.drop_left, List.append_assoc]

lemma parseTokenAt_append (before rest : Bytes) :
    parseTokenAt (before ++ rest) before.length = some (parseToken rest) := by
  unfold parseTokenAt
  rw [if_pos (by rw [List.length_append]; omega), List.drop_left]

lemma getElem?_append_length (before rest : Bytes) : (before ++ rest)[before.length]? = rest.head? := by
  rw [List.getElem?_append_right le_rfl, Nat.sub_self, List.head?_eq_getElem?]

lemma head?_ne_hash {t rest : Bytes} {c : TokenClass} (h : parseToken (t ++ rest) = (c, t.length))
    (hc : c ≠ .unknown) : t.head? ≠ some hash := by
  intro hhead
  obtain ⟨t, rfl⟩ := List.head?_eq_some_iff.1 hhead
  rw [List.cons_append, parseToken_hash] at h
  exact hc (Prod.mk.inj h).1.symm

lemma head?_append_of_isToken {t rest : Bytes} (h : Script.IsToken t rest) : (t ++ rest).head? = t.head? := by
  have hpos : 0 < t.length := by
    rw [← h]
    exact parseToken_pos _
  obtain ⟨c, t, rfl⟩ := List.exists_cons_of_length_pos hpos
  rfl

namespace Script

lemma excludeLoop_token {t rest : Bytes} (hhead : t.head? ≠ some hash) (ht : IsToken t rest)
    (before : Bytes) (nested : ℕ) :
    excludeLoop (.at before (t ++ rest) nested) = excludeLoop (.at (before ++ wipeToken t) rest nested) := by
  have hpos : 0 < t.length := by
    rw [← ht]
    exact parseToken_pos _
  have hlt : before.length < (before ++ (t ++ rest)).length := by
    simp only [List.length_append]
    omega
  have hget : (before ++ (t ++ rest))[before.length]? = t.head? := by
    rw [getElem?_append_length, head?_append_of_isToken ht]
  have hround : excludeRound (.at before (t ++ rest) nested) =
      some (.next (.at (before ++ wipeToken t) rest nested)) := by
    unfold excludeRound Cursor.at wipeToken
    dsimp only
    rw [if_pos hlt, hget, if_neg hhead, List.drop_left, ht]
    by_cases hnewline : t.head? = some newline
    · rw [if_neg (not_not.2 hnewline), if_pos hnewline, List.length_append, List.append_assoc]
    · rw [if_pos hnewline, if_neg hnewline, overwriteCode_append, List.append_assoc, List.length_append,
        List.length_map]
      rfl
  exact loop_of_next hround

lemma excludeRound_directive {t rest : Bytes} (ht : IsToken t rest) (before : Bytes) (nested : ℕ) :
    excludeRound (.at before (hash :: (t ++ rest)) nested) =
      some (if t = ascii "if" then .next (.at (before ++ blank :: t.map blankOut) rest (nested + 1))
        else if t = ascii "endif" then
          if nested = 0 then .stop (.at (before ++ blank :: t.map blankOut) rest nested)
          else .next (.at (before ++ blank :: t.map blankOut) rest (nested - 1))
        else .next (.at (before ++ blank :: t.map blankOut) rest nested)) := by
  have hlt : before.length < (before ++ hash :: (t ++ rest)).length := by
    simp only [List.length_append, List.length_cons]
    omega
  have hset : (before ++ hash :: (t ++ rest)).set before.length blank = (before ++ [blank]) ++ (t ++ rest) := by
    rw [List.set_append_right _ _ le_rfl, Nat.sub_self, List.set_cons_zero, List.append_assoc,
      List.singleton_append]
  have hlength : before.length + 1 = (before ++ [blank]).length := by
    rw [List.length_append, List.length_singleton]
  have hcode : (before ++ [blank]) ++ (t.map blankOut ++ rest) = (before ++ blank :: t.map blankOut) ++ rest := by
    simp only [List.append_assoc, List.cons_append, List.nil_append]
  have hpos : (before ++ [blank]).length + t.length = (before ++ blank :: t.map blankOut).length := by
    simp only [List.length_append, List.length_cons, List.length_nil, List.length_map]
    omega
  unfold excludeRound Cursor.at
  dsimp only
  rw [if_pos hlt, getElem?_append_length, List.head?_cons, if_pos rfl, hset, hlength, List.drop_left, ht,
    overwriteCode_append, textAt_append, hcode, hpos]
  rfl

/-- **Code that is left out** is wiped, with the blocks in it, and the loop goes on behind it. -/
theorem excludeLoop_text (s : Script) {rest : Bytes} (hs : s.Lexed rest) (before : Bytes) (nested : ℕ) :
    excludeLoop (.at before (s.text ++ rest) nested) = excludeLoop (.at (before ++ s.wipe) rest nested) := by
  induction s generalizing before rest nested with
  | done => simp [text, wipe]
  | token t next ih =>
    obtain ⟨hhead, ht, hnext⟩ := hs
    simp only [text, wipe, List.append_assoc]
    rw [excludeLoop_token hhead ht, ih hnext, List.append_assoc]
  | directive t next ih =>
    obtain ⟨hif, hendif, ht, hnext⟩ := hs
    have hround := excludeRound_directive ht before nested
    rw [if_neg hif, if_neg hendif] at hround
    simp only [text, wipe, List.append_assoc, List.cons_append]
    rw [excludeLoop, loop_of_next hround, ← excludeLoop, ih hnext, List.append_assoc, List.cons_append]
  | block gap word body next ihbody ihnext =>
    obtain ⟨hif, hgap, hword, hbody, hendif, hnext⟩ := hs
    have hgaphead := head?_ne_hash hgap (by decide)
    have hwordhead := head?_ne_hash hword (by decide)
    have hopen := excludeRound_directive hif before nested
    rw [if_pos rfl] at hopen
    simp only [text, wipe, List.append_assoc, List.cons_append]
    rw [excludeLoop, loop_of_next hopen, ← excludeLoop, excludeLoop_token hgaphead (congrArg Prod.snd hgap),
      excludeLoop_token hwordhead (congrArg Prod.snd hword), ihbody hbody]
    -- the block is closed, and the level is what it was
    have hclose := excludeRound_directive hendif
      (before ++ blank :: (ascii "if").map blankOut ++ wipeToken gap ++ wipeToken word ++ body.wipe) (nested + 1)
    rw [if_neg (by decide), if_pos rfl, if_neg (Nat.succ_ne_zero nested), Nat.add_sub_cancel] at hclose
    rw [excludeLoop, loop_of_next hclose, ← excludeLoop, ihnext hnext]
    simp only [List.append_assoc, List.cons_append]

/-- `ExcludeCode` at the body of a block: the body and the `#endif` are blank, and the pass goes on behind. -/
lemma excludeCode_body {body : Script} {rest : Bytes} (hbody : body.Lexed (hash :: (ascii "endif" ++ rest)))
    (hendif : IsToken (ascii "endif") rest) (before : Bytes) :
    excludeCode (before ++ (body.text ++ (hash :: (ascii "endif" ++ rest)))) before.length =
      some (before ++ body.wipe ++ blank :: (ascii "endif").map blankOut ++ rest,
        (before ++ body.wipe ++ blank :: (ascii "endif").map blankOut).length) := by
  have hclose := excludeRound_directive hendif (before ++ body.wipe) 0
  rw [if_neg (by decide), if_pos rfl, if_pos rfl] at hclose
  have hloop := excludeLoop_text body hbody before 0
  rw [excludeLoop, loop_of_stop hclose] at hloop
  unfold excludeCode
  show (excludeLoop (.at before (body.text ++ (hash :: (ascii "endif" ++ rest))) 0)).map _ = _
  rw [excludeLoop, hloop]
  rfl

variable (definedWords : List Bytes)

lemma conditionalLoop_token {t rest : Bytes} (hhead : t.head? ≠ some hash) (ht : IsToken t rest)
    (before : Bytes) (nested : ℕ) :
    conditionalLoop definedWords (.at before (t ++ rest) nested) =
      conditionalLoop definedWords (.at (before ++ t) rest nested) := by
  have hpos : 0 < t.length := by
    rw [← ht]
    exact parseToken_pos _
  have hlt : before.length < (before ++ (t ++ rest)).length := by
    simp only [List.length_append]
    omega
  have hround : conditionalRound definedWords (.at before (t ++ rest) nested) =
      some (.next (.at (before ++ t) rest nested)) := by
    unfold conditionalRound Cursor.at
    dsimp only
    rw [if_pos hlt, getElem?_append_length, head?_append_of_isToken ht, if_neg (fun h => hhead h.2.1),
      List.drop_left, ht, List.length_append, List.append_assoc]
  exact loop_of_next hround

/-- The test of the first pass for a directive, and the token behind the `#`. -/
lemma conditionalRound_hash {t rest : Bytes} (ht : IsToken t rest) (before : Bytes) (nested : ℕ) :
    conditionalRound definedWords (.at before (hash :: (t ++ rest)) nested) =
      if t = ascii "if" then do
        let (pos, c, len) ← skipWhiteSpace (before ++ hash :: (t ++ rest)) (before ++ hash :: t).length
        if c = .identifier then
          let code ← overwriteCode (before ++ hash :: (t ++ rest)) before.length (pos + len - before.length)
          if definedWords.contains (textAt (before ++ hash :: (t ++ rest)) pos len) then
            some (.next ⟨code, pos + len, nested + 1⟩)
          else (excludeCode code (pos + len)).map fun (code, pos) => .next ⟨code, pos, nested⟩
        else some (.next ⟨before ++ hash :: (t ++ rest), pos, nested⟩)
      else if t = ascii "endif" then
        if 0 < nested then
          (overwriteCode (before ++ hash :: (t ++ rest)) before.length
            ((before ++ hash :: t).length - before.length)).map fun code =>
              .next ⟨code, (before ++ hash :: t).length, nested - 1⟩
        else some (.next (.at (before ++ hash :: t) rest nested))
      else some (.next (.at (before ++ hash :: t) rest nested)) := by
  have hpos : 0 < t.length := by
    rw [← ht]
    exact parseToken_pos _
  have hat : Cursor.at (before ++ hash :: t) rest nested =
      ⟨before ++ hash :: (t ++ rest), (before ++ hash :: t).length, nested⟩ := by
    unfold Cursor.at
    rw [List.append_assoc, List.cons_append]
  have hdrop : (before ++ hash :: (t ++ rest)).drop (before.length + 1) = t ++ rest := by
    rw [List.drop_length_add_append, List.drop_succ_cons, List.drop_zero]
  have htext : textAt (before ++ hash :: (t ++ rest)) (before.length + 1) t.length = t := by
    have := textAt_append (before ++ [hash]) t rest
    rwa [List.append_assoc, List.singleton_append, List.length_append, List.length_singleton] at this
  have hend : before.length + 1 + t.length = (before ++ hash :: t).length := by
    simp only [List.length_append, List.length_cons]
    omega
  have hlt : before.length < (before ++ hash :: (t ++ rest)).length := by
    simp only [List.length_append, List.length_cons]
    omega
  have hlt' : before.length + 1 < (before ++ hash :: (t ++ rest)).length := by
    simp only [List.length_append, List.length_cons]
    omega
  have hparse : parseToken ((before ++ hash :: (t ++ rest)).drop before.length) = (.unknown, 1) := by
    rw [List.drop_left, parseToken_hash]
  rw [hat]
  unfold conditionalRound Cursor.at
  dsimp only
  rw [if_pos hlt, hparse, getElem?_append_length, List.head?_cons, if_pos ⟨rfl, rfl, hlt'⟩, hdrop, ht, htext,
    hend]

lemma skipWhiteSpace_gap {gap word rest : Bytes} (hgap : parseToken (gap ++ (word ++ rest)) = (.whiteSpace, gap.length))
    (hword : parseToken (word ++ rest) = (.identifier, word.length)) (before : Bytes) :
    skipWhiteSpace (before ++ (gap ++ (word ++ rest))) before.length =
      some ((before ++ gap).length, .identifier, word.length) := by
  have hfirst : parseTokenAt (before ++ (gap ++ (word ++ rest))) before.length =
      some (.whiteSpace, gap.length) := by
    rw [parseTokenAt_append, hgap]
  have hsecond : parseTokenAt (before ++ (gap ++ (word ++ rest))) (before.length + gap.length) =
      some (.identifier, word.length) := by
    rw [← List.append_assoc, ← List.length_append, parseTokenAt_append, hword]
  unfold skipWhiteSpace
  simp only [hfirst, Option.bind_eq_bind, Option.bind_some, if_true, hsecond, List.length_append]

/-- **An `#if`** is blanked; then the pass is in the block, or behind it. -/
lemma conditionalRound_if {gap word tail : Bytes} (hif : IsToken (ascii "if") (gap ++ (word ++ tail)))
    (hgap : parseToken (gap ++ (word ++ tail)) = (.whiteSpace, gap.length))
    (hword : parseToken (word ++ tail) = (.identifier, word.length)) (before : Bytes) (nested : ℕ) :
    conditionalRound definedWords (.at before (hash :: (ascii "if" ++ (gap ++ (word ++ tail)))) nested) =
      if definedWords.contains word then some (.next (.at (before ++ opening gap word) tail (nested + 1)))
      else (excludeCode (before ++ opening gap word ++ tail) (before ++ opening gap word).length).map
        fun (code, pos) => .next ⟨code, pos, nested⟩ := by
  have hcode : before ++ hash :: (ascii "if" ++ (gap ++ (word ++ tail))) =
      (before ++ hash :: ascii "if") ++ (gap ++ (word ++ tail)) := by
    simp only [List.append_assoc, List.cons_append]
  have hskip := skipWhiteSpace_gap hgap hword (before ++ hash :: ascii "if")
  have htext : textAt (before ++ hash :: (ascii "if" ++ (gap ++ (word ++ tail))))
      (before ++ hash :: ascii "if" ++ gap).length word.length = word := by
    have := textAt_append (before ++ hash :: ascii "if" ++ gap) word tail
    simpa only [List.append_assoc, List.cons_append] using this
  have hlength : (before ++ opening gap word).length - before.length =
      (hash :: (ascii "if" ++ (gap ++ word))).length := by
    unfold opening
    rw [List.length_append, Nat.add_sub_cancel_left, List.length_map]
  have hend : (before ++ hash :: ascii "if" ++ gap).length + word.length = (before ++ opening gap word).length := by
    simp only [opening, List.length_append, List.length_cons, List.length_map]
    omega
  have hblank : overwriteCode (before ++ hash :: (ascii "if" ++ (gap ++ (word ++ tail)))) before.length
      (hash :: (ascii "if" ++ (gap ++ word))).length = some (before ++ opening gap word ++ tail) := by
    have := overwriteCode_append before (hash :: (ascii "if" ++ (gap ++ word))) tail
    simpa only [opening, List.append_assoc, List.cons_append] using this
  rw [conditionalRound_hash definedWords hif, if_pos rfl, hcode, hskip, ← hcode]
  simp only [Option.bind_eq_bind, Option.bind_some, if_true, htext, hend, hlength, hblank]
  rfl

lemma conditionalRound_endif {rest : Bytes} (hendif : IsToken (ascii "endif") rest) (before : Bytes) (nested : ℕ) :
    conditionalRound definedWords (.at before (hash :: (ascii "endif" ++ rest)) (nested + 1)) =
      some (.next (.at (before ++ closing) rest nested)) := by
  have hblank := overwriteCode_append before (hash :: ascii "endif") rest
  rw [List.cons_append] at hblank
  have hlength : (before ++ hash :: ascii "endif").length - before.length = (hash :: ascii "endif").length := by
    rw [List.length_append, Nat.add_sub_cancel_left]
  have hend : (before ++ hash :: ascii "endif").length = (before ++ closing).length := by
    unfold closing
    rw [List.length_append, List.length_append, List.length_map]
  rw [conditionalRound_hash definedWords hendif, if_neg (by decide), if_pos rfl, if_pos (Nat.succ_pos nested),
    hlength, hblank, Nat.add_sub_cancel, hend]
  unfold Cursor.at
  rw [List.append_assoc]
  rfl

/-- **The first pass over a section** leaves its meaning, whatever stands around it. -/
theorem conditionalLoop_text (s : Script) {rest : Bytes} (hs : s.Lexed rest) (before : Bytes) (nested : ℕ) :
    conditionalLoop definedWords (.at before (s.text ++ rest) nested) =
      conditionalLoop definedWords (.at (before ++ s.select definedWords) rest nested) := by
  induction s generalizing before rest nested with
  | done => simp [text, select]
  | token t next ih =>
    obtain ⟨hhead, ht, hnext⟩ := hs
    simp only [text, select, List.append_assoc]
    rw [conditionalLoop_token definedWords hhead ht, ih hnext, List.append_assoc]
  | directive t next ih =>
    obtain ⟨hif, hendif, ht, hnext⟩ := hs
    have hround := conditionalRound_hash definedWords ht before nested
    rw [if_neg hif, if_neg hendif] at hround
    simp only [text, select, List.append_assoc, List.cons_append]
    rw [conditionalLoop, loop_of_next hround, ← conditionalLoop, ih hnext, List.append_assoc, List.cons_append]
  | block gap word body next ihbody ihnext =>
    obtain ⟨hif, hgap, hword, hbody, hendif, hnext⟩ := hs
    have hopen := conditionalRound_if definedWords hif hgap hword before nested
    simp only [text, select, List.append_assoc, List.cons_append]
    by_cases hdefined : definedWords.contains word = true
    · -- the body is compiled, and the pass has to close the block
      rw [if_pos hdefined] at hopen ⊢
      have hclose := conditionalRound_endif definedWords hendif
        (before ++ opening gap word ++ body.select definedWords) nested
      rw [conditionalLoop, loop_of_next hopen, ← conditionalLoop, ihbody hbody, conditionalLoop,
        loop_of_next hclose, ← conditionalLoop, ihnext hnext]
      simp only [List.append_assoc]
    · -- `ExcludeCode` takes the body and the end of the block at once
      rw [if_neg hdefined] at hopen ⊢
      rw [excludeCode_body hbody hendif] at hopen
      rw [conditionalLoop, loop_of_next hopen, ← conditionalLoop]
      exact (ihnext hnext _ nested).trans (by simp only [List.append_assoc]; rfl)

end Script

/-- **Conditional compilation keeps the meaning**: of a section that its blocks structure, the first pass
leaves the code of the blocks whose words are defined, at the places where it was. -/
theorem conditionalPass_text {definedWords : List Bytes} {s : Script} (hs : s.Lexed []) :
    conditionalPass definedWords s.text = some (s.select definedWords) := by
  have hloop := Script.conditionalLoop_text definedWords s hs [] 0
  have hend : conditionalRound definedWords (.at ([] ++ s.select definedWords) [] 0) =
      some (.stop (.at ([] ++ s.select definedWords) [] 0)) := by
    unfold conditionalRound Cursor.at
    rw [if_neg (by simp)]
  rw [conditionalLoop, loop_of_stop hend, List.append_nil] at hloop
  unfold conditionalPass
  show (conditionalLoop definedWords (.at [] s.text 0)).map Cursor.code = _
  rw [conditionalLoop, hloop]
  simp [Cursor.at]

/-- `#if A`, a declaration, `#if B` inside of it, and a declaration behind the blocks. -/
def nestedBlocks : Script :=
  .block (ascii " ") (ascii "A")
    (.token (ascii "\n") (.token (ascii "int") (.token (ascii " ") (.token (ascii "x") (.token (ascii ";")
      (.token (ascii "\n") (.block (ascii " ") (ascii "B") (.token (ascii "\n") (.token (ascii "y") .done))
        (.token (ascii "\n") .done))))))))
    (.token (ascii "\n") (.token (ascii "z") .done))

theorem conditionalPass_text_nested :
    conditionalPass [ascii "A"] nestedBlocks.text = some (ascii "     \nint x;\n     \n       \n      \nz") :=
  (conditionalPass_text (by decide +kernel)).trans (by decide +kernel)

end ScriptBuilder

end NovusHeadless
