import NovusHeadless.Scripting.SectionScan

/-!
# The passes stay inside of the section

Every access of the two passes is at a position that a token ends at.  Where no token of a section reaches
over its end, and its last character is not a `#`, both passes are defined.

* `EndsLine.contained` — so it is for a section that ends with a line break and has no heredoc quotes in it.
-/

namespace NovusHeadless

open Lib Tokenizer

namespace ScriptBuilder

/-- No token in the text reaches over its end, and the text does not end with `#`. -/
def Contained (rest : Bytes) : Prop :=
  (∀ t, t <:+ rest → t ≠ [] → (parseToken t).2 ≤ t.length) ∧ rest.getLast? ≠ some hash

variable {code code' : Bytes} {pos pos' : ℕ}

lemma Contained.of_suffix {rest t : Bytes} (h : Contained rest) (ht : t <:+ rest) : Contained t := by
  refine ⟨fun u hu => h.1 u (hu.trans ht), fun hlast => h.2 ?_⟩
  obtain ⟨front, rfl⟩ := ht
  rw [List.getLast?_append, hlast]
  rfl

lemma Contained.drop (h : Contained (code.drop pos)) (hle : pos ≤ pos') : Contained (code.drop pos') := by
  obtain ⟨n, rfl⟩ := Nat.exists_eq_add_of_le hle
  rw [← List.drop_drop]
  exact h.of_suffix (List.drop_suffix _ _)

lemma Contained.fits (h : Contained (code.drop pos)) (hle : pos ≤ pos') (hlt : pos' < code.length) :
    pos' + (parseToken (code.drop pos')).2 ≤ code.length := by
  have hne : code.drop pos' ≠ [] := by
    rw [ne_eq, List.drop_eq_nil_iff]
    omega
  have := (h.drop hle).1 _ List.suffix_rfl hne
  rw [List.length_drop] at this
  omega

lemma Ahead.contained (hahead : Ahead code pos code' pos') (h : Contained (code.drop pos)) :
    Contained (code'.drop pos') := by
  rw [hahead.behind]
  exact h.drop hahead.le

lemma Contained.known (h : Contained (code.drop pos)) (hle : pos ≤ code.length) :
    (parseToken (code.drop pos)).1 = .unknown ∨ pos + (parseToken (code.drop pos)).2 ≤ code.length := by
  rcases hle.eq_or_lt with heq | hlt
  · left
    rw [List.drop_eq_nil_of_le heq.ge, parseToken_nil]
  · right
    exact h.fits le_rfl hlt

lemma exists_overwriteCode {start len : ℕ} (h : start + len ≤ code.length) :
    ∃ code', overwriteCode code start len = some code' := ⟨_, if_pos h⟩

/-! ### The first pass -/

lemma exists_excludeRound {s : Cursor} (h : Contained (s.code.drop s.pos)) : ∃ r, excludeRound s = some r := by
  unfold excludeRound
  split
  · rename_i hlt
    dsimp only
    split
    · rename_i hhash
      -- the `#` is not the last character, so there is a token behind it
      have hlt' : s.pos + 1 < s.code.length := by
        by_contra hend
        have hlast : s.code.drop s.pos = [hash] := by
          obtain ⟨hlt, hget⟩ := List.getElem?_eq_some_iff.1 hhash
          rw [List.drop_eq_getElem_cons hlt, hget, List.drop_eq_nil_of_le (by omega)]
        exact h.2 (by rw [hlast]; rfl)
      have hdrop : (s.code.set s.pos blank).drop (s.pos + 1) = s.code.drop (s.pos + 1) :=
        List.drop_set_of_lt (Nat.lt_succ_self _)
      have hfits : s.pos + 1 + (parseToken ((s.code.set s.pos blank).drop (s.pos + 1))).2 ≤
          (s.code.set s.pos blank).length := by
        rw [hdrop, List.length_set]
        exact h.fits (Nat.le_add_right s.pos 1) hlt'
      obtain ⟨code, hcode⟩ := exists_overwriteCode hfits
      rw [hcode]
      exact ⟨_, rfl⟩
    · split
      · obtain ⟨code, hcode⟩ := exists_overwriteCode (h.fits le_rfl hlt)
        rw [hcode]
        exact ⟨_, rfl⟩
      · exact ⟨_, rfl⟩
  · exact ⟨_, rfl⟩

/-- A loop whose rounds advance, and are defined where the rest of the text is contained, is defined. -/
lemma exists_loop_of_contained {σ : Type} {place : σ → Bytes × ℕ} {body : σ → Option (Round σ)} {s : σ}
    (h : ∀ s r, body s = some r → Advances place s r)
    (hround : ∀ s, Contained ((place s).1.drop (place s).2) → ∃ r, body s = some r)
    (hs : Contained ((place s).1.drop (place s).2)) :
    ∃ s', loop (fun s => (place s).1.length - (place s).2) body (decreases_of_advances h) s = some s' := by
  have hkeeps : ∀ s, Contained ((place s).1.drop (place s).2) →
      ∃ r, body s = some r ∧ Contained ((place r.state).1.drop (place r.state).2) := by
    intro s hs
    obtain ⟨r, hr⟩ := hround s hs
    exact ⟨r, hr, (h s r hr).1.contained hs⟩
  obtain ⟨s', hs', -⟩ := exists_loop hkeeps hs
  exact ⟨s', hs'⟩

lemma exists_excludeCode (h : Contained (code.drop pos)) : ∃ r, excludeCode code pos = some r := by
  have hstart : Contained ((Cursor.place ⟨code, pos, 0⟩).1.drop (Cursor.place ⟨code, pos, 0⟩).2) := h
  obtain ⟨s', hs'⟩ := exists_loop_of_contained excludeRound_advances (fun _ => exists_excludeRound) hstart
  unfold excludeCode
  rw [excludeLoop, hs']
  exact ⟨_, rfl⟩

lemma exists_skipWhiteSpace (h : Contained (code.drop pos)) (hle : pos ≤ code.length) :
    ∃ pos' t len, skipWhiteSpace code pos = some (pos', t, len) ∧ pos ≤ pos' ∧
      (t = .unknown ∨ pos' + len ≤ code.length) := by
  have hknown := h.known hle
  unfold skipWhiteSpace parseTokenAt
  rw [if_pos hle]
  simp only [Option.bind_eq_bind, Option.bind_some]
  split
  · rename_i hspace
    have hle' := hknown.resolve_left (by rw [hspace]; decide)
    rw [if_pos hle']
    exact ⟨_, _, _, rfl, Nat.le_add_right _ _, (h.drop (Nat.le_add_right pos _)).known hle'⟩
  · exact ⟨_, _, _, rfl, le_rfl, hknown⟩

lemma exists_conditionalRound {definedWords : List Bytes} {s : Cursor} (h : Contained (s.code.drop s.pos)) :
    ∃ r, conditionalRound definedWords s = some r := by
  unfold conditionalRound
  split
  · rename_i hlt
    dsimp only
    split
    · rename_i hdirective
      have htoken := h.fits (Nat.le_add_right s.pos 1) hdirective.2.2
      split
      · obtain ⟨pos, t, len, hskip, hpos, hfits⟩ :=
          exists_skipWhiteSpace (h.drop (by omega)) htoken
        rw [hskip]
        simp only [Option.bind_eq_bind, Option.bind_some]
        split
        · rename_i hidentifier
          subst hidentifier
          have hfits : pos + len ≤ s.code.length := hfits.resolve_left (by decide)
          have hbounds : s.pos + (pos + len - s.pos) ≤ s.code.length := by omega
          obtain ⟨code, hcode⟩ := exists_overwriteCode hbounds
          have hahead := ahead_overwriteCode hcode
          rw [Nat.add_sub_cancel' (by omega)] at hahead
          rw [hcode]
          simp only [Option.bind_some]
          split
          · exact ⟨_, rfl⟩
          · obtain ⟨r, hr⟩ := exists_excludeCode (hahead.contained h)
            rw [hr]
            exact ⟨_, rfl⟩
        · exact ⟨_, rfl⟩
      · split
        · split
          · have hbounds : s.pos + (s.pos + 1 + (parseToken (s.code.drop (s.pos + 1))).2 - s.pos) ≤
                s.code.length := by omega
            obtain ⟨code, hcode⟩ := exists_overwriteCode hbounds
            rw [hcode]
            exact ⟨_, rfl⟩
          · exact ⟨_, rfl⟩
        · exact ⟨_, rfl⟩
    · exact ⟨_, rfl⟩
  · exact ⟨_, rfl⟩

lemma exists_conditionalPass (definedWords : List Bytes) {script : Bytes} (h : Contained script) :
    ∃ code, conditionalPass definedWords script = some code := by
  have hstart : Contained ((Cursor.place ⟨script, 0, 0⟩).1.drop (Cursor.place ⟨script, 0, 0⟩).2) := h
  obtain ⟨s', hs'⟩ := exists_loop_of_contained (conditionalRound_advances definedWords)
    (fun _ => exists_conditionalRound) hstart
  unfold conditionalPass
  rw [conditionalLoop, hs']
  exact ⟨_, rfl⟩

/-! ### The second pass -/

lemma exists_skipBlanks (h : Contained (code.drop pos)) (hle : pos ≤ code.length) :
    ∃ t pos' len, skipBlanks code pos = some (t, pos', len) ∧ pos ≤ pos' ∧
      (t = .unknown ∨ pos' + len ≤ code.length) := by
  fun_induction skipBlanks code pos with
  | case1 pos hle t len hblank ih =>
    have hnext : pos + len ≤ code.length := by
      refine (h.known hle).resolve_left fun hunknown => ?_
      have ht : t = .unknown := hunknown
      rw [ht] at hblank
      exact absurd hblank (by decide)
    obtain ⟨t', pos', len', hskip, hpos, hfits⟩ := ih (h.drop (Nat.le_add_right _ _)) hnext
    exact ⟨t', pos', len', hskip, (Nat.le_add_right _ _).trans hpos, hfits⟩
  | case2 pos hle t len hblank => exact ⟨t, pos, len, rfl, le_rfl, h.known hle⟩
  | case3 pos hnle => exact absurd hle hnle

lemma exists_skipDecorators (h : Contained (code.drop pos)) (hle : pos ≤ code.length) :
    ∃ t pos' len, skipDecorators code pos = some (t, pos', len) ∧ pos ≤ pos' ∧
      (t = .unknown ∨ pos' + len ≤ code.length) := by
  fun_induction skipDecorators code pos with
  | case1 pos hle t len hskipped ih =>
    have hnext : pos + len ≤ code.length := by
      rcases hle.eq_or_lt with heq | hlt
      · -- at the end, the token is the terminator, which is no decorator
        have hnil : code.drop pos = [] := List.drop_eq_nil_of_le heq.ge
        have ht : t = .unknown := by simp only [t, hnil, parseToken_nil]
        have hlen : len = 1 := by simp only [len, hnil, parseToken_nil]
        have htext : textAt code pos len = [0] := by
          unfold textAt
          rw [heq, List.drop_left, hlen]
          rfl
        rw [ht, htext] at hskipped
        exact absurd hskipped (by decide)
      · exact h.fits le_rfl hlt
    obtain ⟨t', pos', len', hskip, hpos, hfits⟩ := ih (h.drop (Nat.le_add_right _ _)) hnext
    exact ⟨t', pos', len', hskip, (Nat.le_add_right _ _).trans hpos, hfits⟩
  | case2 pos hle t len hskipped => exact ⟨t, pos, len, rfl, le_rfl, h.known hle⟩
  | case3 pos hnle => exact absurd hle hnle

lemma exists_extractDeclaration (h : Contained (code.drop pos)) (hle : pos ≤ code.length) (name : Bytes) :
    ∃ d, extractDeclaration code pos name = some d := by
  obtain ⟨t, pos', len, hskip, hpos, hfits⟩ := exists_skipDecorators h hle
  unfold extractDeclaration
  rw [hskip]
  simp only [Option.bind_eq_bind, Option.bind_some]
  split
  · rename_i hknown
    have hend : pos' + len ≤ code.length := by
      refine hfits.resolve_left fun hunknown => ?_
      rw [hunknown] at hknown
      exact absurd hknown (by decide)
    split
    · obtain ⟨t', pos'', len', hskip', -, -⟩ := exists_skipBlanks (h.drop (by omega)) hend
      rw [hskip']
      simp only [Option.bind_some]
      split
      · exact ⟨_, rfl⟩
      · exact ⟨_, rfl⟩
    · exact ⟨_, rfl⟩
  · exact ⟨_, rfl⟩

lemma exists_bracketsRound {s : Brackets} (h : Contained (s.code.drop s.pos)) (hle : s.pos ≤ s.code.length) :
    ∃ r, bracketsRound s = some r ∧ r.state.pos ≤ r.state.code.length := by
  unfold bracketsRound
  split
  · rename_i hlt
    have hfits := h.fits le_rfl hlt.2
    dsimp only
    split
    · obtain ⟨code, hcode⟩ := exists_overwriteCode hfits
      have hlength := (ahead_overwriteCode hcode).length_eq
      rw [hcode]
      exact ⟨_, rfl, by simpa only [Round.state, hlength] using hfits⟩
    · exact ⟨_, rfl, hfits⟩
  · exact ⟨_, rfl, hle⟩

lemma exists_bracketsLoop {s : Brackets} (h : Contained (s.code.drop s.pos)) (hle : s.pos ≤ s.code.length) :
    ∃ s', bracketsLoop s = some s' ∧ s'.pos ≤ s'.code.length := by
  have hkeeps : ∀ s : Brackets, Contained (s.code.drop s.pos) ∧ s.pos ≤ s.code.length →
      ∃ r, bracketsRound s = some r ∧
        (Contained (r.state.code.drop r.state.pos) ∧ r.state.pos ≤ r.state.code.length) := by
    intro s hs
    obtain ⟨r, hr, hle⟩ := exists_bracketsRound hs.1 hs.2
    exact ⟨r, hr, (bracketsRound_advances s r hr).1.contained hs.1, hle⟩
  obtain ⟨s', hs', -, hle'⟩ := exists_loop hkeeps ⟨h, hle⟩
  exact ⟨s', hs', hle'⟩

lemma exists_metadataRound {s : Pieces} (h : Contained (s.code.drop s.pos)) (hbracket : s.AtBracket) :
    ∃ r, metadataRound s = some r := by
  have hlt : s.pos < s.code.length := (List.getElem?_eq_some_iff.1 hbracket).1
  have hset : Ahead s.code s.pos (s.code.set s.pos blank) (s.pos + 1) := ahead_set hbracket (by decide)
  have hle : s.pos + 1 ≤ (s.code.set s.pos blank).length := by
    rw [List.length_set]
    exact hlt
  obtain ⟨piece, hpiece, hend⟩ : ∃ piece, bracketsLoop ⟨s.code.set s.pos blank, s.pos + 1, 1, []⟩ = some piece ∧
      piece.pos ≤ piece.code.length := exists_bracketsLoop (hset.contained h) hle
  have hahead : Ahead (s.code.set s.pos blank) (s.pos + 1) piece.code piece.pos :=
    ahead_loop bracketsRound_advances hpiece
  obtain ⟨t, pos, len, hskip, -, -⟩ := exists_skipBlanks ((hset.trans hahead).contained h) hend
  unfold metadataRound
  rw [hpiece]
  simp only [Option.bind_eq_bind, Option.bind_some, hskip]
  split
  · exact ⟨_, rfl⟩
  · exact ⟨_, rfl⟩

lemma exists_extractMetadata (h : Contained (code.drop pos)) (hbracket : code[pos]? = some openBracket) :
    ∃ code' pos' metadata, extractMetadata code pos = some (code', pos', metadata) ∧ pos' ≤ code'.length := by
  have hround : ∀ s : Pieces, Contained (s.code.drop s.pos) ∧ s.AtBracket →
      ∃ r, metadataRound s = some r ∧
        (∀ s', r = .next s' → Contained (s'.code.drop s'.pos) ∧ s'.AtBracket) ∧
        ∀ s', r = .stop s' → s'.pos ≤ s'.code.length := by
    intro s hs
    obtain ⟨r, hr⟩ := exists_metadataRound hs.1 hs.2
    obtain ⟨hlength, -, hend, hahead, hnext⟩ := metadataRound_cases hr
    refine ⟨r, hr, fun s' hs' => ⟨?_, hnext s' hs'⟩, fun s' hs' => ?_⟩
    · subst hs'
      exact (hahead hs.2).contained hs.1
    · subst hs'
      exact hend.trans hlength.ge
  have hstart : Contained ((⟨code, pos, []⟩ : Pieces).code.drop (⟨code, pos, []⟩ : Pieces).pos) ∧
      Pieces.AtBracket ⟨code, pos, []⟩ := ⟨h, hbracket⟩
  obtain ⟨s', hs', hend⟩ := exists_loop_of hround hstart
  unfold extractMetadata
  rw [hs']
  exact ⟨_, _, _, rfl, hend⟩

namespace Scanner

lemma exists_enterNamespace {s : Scanner} {len : ℕ} (h : Contained (s.code.drop s.pos))
    (hle : s.pos + len ≤ s.code.length) : ∃ s', s.enterNamespace len = some s' := by
  obtain ⟨t, pos, len', hskip, -, -⟩ := exists_skipBlanks (h.drop (Nat.le_add_right _ _)) hle
  unfold enterNamespace
  rw [hskip]
  exact ⟨_, rfl⟩

lemma exists_readMetadata {s : Scanner} (h : Contained (s.code.drop s.pos))
    (hbracket : s.code[s.pos]? = some openBracket) : ∃ s', s.readMetadata = some s' := by
  obtain ⟨code, pos, metadata, hmetadata, hend⟩ := exists_extractMetadata h hbracket
  have hahead := (ahead_extractMetadata hbracket hmetadata).1
  obtain ⟨d, hd⟩ := exists_extractDeclaration (hahead.contained h) hend s.name
  unfold readMetadata
  rw [hmetadata]
  simp only [Option.bind_eq_bind, Option.bind_some, hd]
  exact ⟨_, rfl⟩

lemma exists_readDirective {s : Scanner} (h : Contained (s.code.drop s.pos)) (hlt : s.pos + 1 < s.code.length) :
    ∃ r, s.readDirective = some r := by
  have htoken := h.fits (Nat.le_add_right s.pos 1) hlt
  unfold readDirective
  dsimp only
  split
  · split
    · obtain ⟨pos, t, len, hskip, hpos, hfits⟩ := exists_skipWhiteSpace (h.drop (by omega)) htoken
      rw [hskip]
      simp only [Option.bind_eq_bind, Option.bind_some]
      split
      · rename_i hvalue
        have hend : pos + len ≤ s.code.length := hfits.resolve_left (by rw [hvalue.1]; decide)
        have hbounds : s.pos + (pos + len - s.pos) ≤ s.code.length := by omega
        obtain ⟨code, hcode⟩ := exists_overwriteCode hbounds
        rw [hcode]
        exact ⟨_, rfl⟩
      · exact ⟨_, rfl⟩
    · split
      · exact ⟨_, rfl⟩
      · exact ⟨_, rfl⟩
  · exact ⟨_, rfl⟩

end Scanner

lemma exists_scanRound {s : Scanner} (h : Contained (s.code.drop s.pos)) : ∃ r, scanRound s = some r := by
  unfold scanRound
  split
  · rename_i hlt
    have hfits := h.fits le_rfl hlt
    dsimp only
    split_ifs with hblank hclass hendclass hnamespace hendnamespace hmetadata hdirective
    · exact ⟨_, rfl⟩
    · exact ⟨_, rfl⟩
    · exact ⟨_, rfl⟩
    · obtain ⟨s', hs'⟩ := Scanner.exists_enterNamespace h hfits
      rw [hs']
      exact ⟨_, rfl⟩
    · exact ⟨_, rfl⟩
    · obtain ⟨s', hs'⟩ := Scanner.exists_readMetadata h hmetadata
      rw [hs']
      exact ⟨_, rfl⟩
    · exact Scanner.exists_readDirective h hdirective.2
    · exact ⟨_, rfl⟩
  · exact ⟨_, rfl⟩

lemma exists_scanLoop {s : Scanner} (h : Contained (s.code.drop s.pos)) : ∃ s', scanLoop s = some s' :=
  exists_loop_of_contained scanRound_advances (fun _ => exists_scanRound) h

/-! ### Sections that contain their tokens -/

/-- The section is empty or ends with a line break, and it has no heredoc quotes. -/
def EndsLine (script : Bytes) : Prop :=
  (script ≠ [] → script.getLast? = some newline) ∧ ¬heredocQuotes <:+: script

instance (script : Bytes) : Decidable (EndsLine script) := inferInstanceAs (Decidable (_ ∧ _))

lemma EndsLine.contained {script : Bytes} (h : EndsLine script) : Contained script := by
  have hlast : ∀ t, t <:+ script → t ≠ [] → t.getLast? = some newline := by
    rintro t ⟨front, rfl⟩ hne
    have := h.1 (List.append_ne_nil_of_right_ne_nil front hne)
    rw [List.getLast?_append, List.getLast?_eq_some_getLast hne, Option.some_or] at this
    rw [List.getLast?_eq_some_getLast hne, this]
  refine ⟨fun t ht hne => ?_, fun hhash => ?_⟩
  · refine (parseToken_fits hne (fun hcomment => ?_) fun hheredoc => ?_).2
    · have := hlast t ht hne
      rw [hcomment] at this
      exact absurd this (by decide)
    · exact h.2 (hheredoc.2.1.isInfix.trans ht.isInfix)
  · have hne : script ≠ [] := by
      rintro rfl
      cases hhash
    rw [hlast script List.suffix_rfl hne] at hhash
    exact absurd hhash (by decide)

lemma EndsLine.of_blanked {script code : Bytes} (h : EndsLine script) (hblanked : Blanked script code) :
    EndsLine code := by
  refine ⟨fun hne => ?_, fun hquotes => h.2 (hblanked.infix_of_not_mem (by decide) hquotes)⟩
  have hne' : script ≠ [] := by
    rw [← List.length_pos_iff, ← hblanked.length_eq]
    exact List.length_pos_iff.2 hne
  have hlast := h.1 hne'
  rw [List.getLast?_eq_getElem?] at hlast ⊢
  rw [hblanked.length_eq]
  exact (hblanked.fixed_getElem?_iff (by decide) rfl).2 hlast

end ScriptBuilder

end NovusHeadless
