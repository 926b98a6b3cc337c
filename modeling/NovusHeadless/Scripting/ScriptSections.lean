import NovusHeadless.Lib.Exploration
import NovusHeadless.Lib.Terminated
import NovusHeadless.Scripting.FilePaths
import NovusHeadless.Scripting.SectionBounds

/-!
# The sections of a script (`CScriptBuilder::AddSectionFromFile`)

`AddSectionFromFile` loads a file and, behind its section, the files that it includes, none of them twice.

* `Loads` — the runs of the builder over a list of file names, one rule for each way in which a file goes;
* `addSectionFromFile_returns` — it always returns, also when files include each other, unless
  `GetAbsolutePath` does not return;
* `included_files` — when it succeeds, the sections are those of the files that can be reached by includes;
* `addSectionFromFile_reports` — when it fails, there is one message, and it names a file and what is wrong
  with it.
-/

namespace NovusHeadless

open Lib Tokenizer FilePaths

namespace ScriptBuilder

/-- What `fread` makes of a file that can be opened. -/
inductive SourceFile where
  | unreadable
  | contents (code : Bytes)
  deriving DecidableEq, Repr

/-- What the builder finds in the file system. -/
structure Environment where
  currentDir : Bytes
  files : List (Bytes × SourceFile)
  deriving Repr

namespace Environment

/-- `fopen(filename, "rb")`. -/
def fopen (env : Environment) (filename : Bytes) : Option SourceFile :=
  (env.files.find? fun file => file.1 == filename).map Prod.snd

def absolute (env : Environment) (filename : Bytes) : Option Bytes := getAbsolutePath env.currentDir filename

end Environment

/-- A section of the module, with the files that it includes, as it names them. -/
structure Section where
  name : Bytes
  code : Bytes
  includes : List Bytes
  deriving DecidableEq, Repr

/-- An error for the message callback of the engine. -/
structure Message where
  sectionName : Bytes
  text : Bytes
  deriving DecidableEq, Repr

/-- `CScriptBuilder`, with the sections of its module and the messages of its engine. -/
structure Builder where
  definedWords : List Bytes
  includedScripts : List Bytes
  currentClass : Bytes
  currentNamespace : Bytes
  foundDeclarations : List SMetadataDecl
  sections : List Section
  messages : List Message
  deriving DecidableEq, Repr

/-- Why a call does not return, or must not be made. -/
inductive Fault where
  /-- The text of a section is left. -/
  | outside
  /-- `GetAbsolutePath` does not return. -/
  | endless (filename : Bytes)
  /-- The includes are nested more deeply than they have been followed. -/
  | depth
  deriving DecidableEq, Repr

namespace Builder

/-- Behind `StartNewModule`. -/
def started (definedWords : List Bytes) : Builder := ⟨definedWords, [], [], [], [], [], []⟩

def writeMessage (b : Builder) (sectionName text : Bytes) : Builder :=
  { b with messages := b.messages ++ [⟨sectionName, text⟩] }

/-- The two passes of `ProcessScriptSection`. -/
def passes (b : Builder) (script : Bytes) : Option Scanner :=
  (conditionalPass b.definedWords script).bind fun code =>
    scanLoop ⟨code, 0, [], b.currentClass, b.currentNamespace, b.foundDeclarations, [], 0⟩

/-- What the passes leave in the members. -/
def behind (b : Builder) (s : Scanner) : Builder :=
  { b with
    currentClass := s.currentClass
    currentNamespace := s.currentNamespace
    foundDeclarations := s.foundDeclarations }

def addScriptSection (b : Builder) (sec : Section) : Builder := { b with sections := b.sections ++ [sec] }

/-- `includedScripts.insert(scriptFile)`. -/
def insertScript (b : Builder) (scriptFile : Bytes) : Builder :=
  { b with includedScripts := b.includedScripts ++ [scriptFile] }

end Builder

/-- The directory of a section, with the slash behind it. -/
def directoryOf (sectionname : Bytes) : Bytes :=
  (sectionname.reverse.dropWhile fun c => c != slash && c != backslash).reverse

/-- What is passed to `AddSectionFromFile` for an include of a section. -/
def includePath (sectionname includefile : Bytes) : Bytes :=
  cString (if isRelative includefile then directoryOf sectionname ++ includefile else includefile)

/-- The loop over the includes of a section, with the function that adds one of them. -/
def addIncludes (add : Builder → Bytes → Except Fault (Int32 × Builder)) :
    Builder → List Bytes → Except Fault (Int32 × Builder)
  | b, [] => .ok (0, b)
  | b, filename :: filenames =>
    match add b filename with
    | .error fault => .error fault
    | .ok (r, b) => if r < 0 then .ok (r, b) else addIncludes add b filenames

def processScriptSection (add : Builder → Bytes → Except Fault (Int32 × Builder)) (b : Builder)
    (script sectionname : Bytes) : Except Fault (Int32 × Builder) :=
  match b.passes script with
  | none => .error .outside
  | some s =>
    if s.result < 0 then
      .ok (s.result, (b.behind s).writeMessage sectionname (ascii "Invalid #pragma directive"))
    else
      addIncludes add ((b.behind s).addScriptSection ⟨sectionname, s.code, s.includes⟩)
        (s.includes.map (includePath sectionname))

/-- The error of `LoadScriptSection` that begins with the words. -/
def loadError (env : Environment) (b : Builder) (words : String) (filename : Bytes) :
    Except Fault (Int32 × Builder) :=
  match env.absolute filename with
  | none => .error (.endless filename)
  | some path => .ok (-1, b.writeMessage filename (ascii words ++ apostrophe :: (path ++ [apostrophe])))

def loadScriptSection (env : Environment) (add : Builder → Bytes → Except Fault (Int32 × Builder))
    (b : Builder) (filename : Bytes) : Except Fault (Int32 × Builder) :=
  match env.fopen filename with
  | none => loadError env b "Failed to open script file " filename
  | some .unreadable => loadError env b "Failed to load script file " filename
  | some (.contents code) => processScriptSection add b code filename

/-- `AddSectionFromFile`, with includes followed down to a depth. -/
def addSection (env : Environment) : ℕ → Builder → Bytes → Except Fault (Int32 × Builder)
  | 0, _, _ => .error .depth
  | depth + 1, b, filename =>
    match env.absolute filename with
    | none => .error (.endless filename)
    | some fullpath =>
      if b.includedScripts.contains fullpath then .ok (0, b)
      else
        match loadScriptSection env (addSection env depth) (b.insertScript fullpath) fullpath with
        | .error fault => .error fault
        | .ok (r, b) => .ok (if r < 0 then r else 1, b)

/-- `AddSectionFromFile(filename)`: no includes are nested more deeply than there are files. -/
def addSectionFromFile (env : Environment) (b : Builder) (filename : Bytes) : Except Fault (Int32 × Builder) :=
  addSection env (env.files.length + 1) b filename

/-! ### What a `#pragma` does -/

/-- The word of the directive that the client does not know. -/
def pragmaWord : Bytes := ascii "#pragma"

lemma pragma_infix {code : Bytes} {pos len : ℕ} (hhash : code[pos]? = some hash)
    (htext : textAt code (pos + 1) len = ascii "pragma") : pragmaWord <:+: code := by
  obtain ⟨hlt, hget⟩ := List.getElem?_eq_some_iff.1 hhash
  have hword : ascii "pragma" <+: code.drop (pos + 1) ++ [0] := by
    rw [← List.drop_append_of_le_length hlt, ← htext]
    exact List.take_prefix _ _
  -- the terminator is not part of the word
  have hword' : ascii "pragma" <+: code.drop (pos + 1) := by
    rcases (List.prefix_concat_iff).1 hword with heq | h
    · have hlast := congrArg (fun l => (0 : UInt8) ∈ l) heq
      simp only [List.mem_append, List.mem_singleton, or_true, eq_iff_iff, iff_true] at hlast
      exact absurd hlast (by decide)
    · exact h
  have hcons : pragmaWord <+: code.drop pos := by
    rw [List.drop_eq_getElem_cons hlt, hget]
    exact List.cons_prefix_cons.2 ⟨rfl, hword'⟩
  exact hcons.isInfix.trans (List.drop_suffix _ _).isInfix

/-- The result of a pass is the one that it starts with, or there is a `#pragma` in the text. -/
def ResultFrom (s s' : Scanner) : Prop :=
  Blanked s.code s'.code ∧ (s'.result = s.result ∨ s'.result = -1 ∧ pragmaWord <:+: s.code)

lemma resultFrom_trans (s s' s'' : Scanner) (h : ResultFrom s s') (h' : ResultFrom s' s'') : ResultFrom s s'' := by
  refine ⟨h.1.trans h'.1, ?_⟩
  rcases h'.2 with heq | ⟨hresult, hinfix⟩
  · rw [heq]
    exact h.2
  · exact Or.inr ⟨hresult, h.1.infix_of_not_mem (by decide) hinfix⟩

namespace Scanner

lemma enterClass_result (s : Scanner) (len : ℕ) : (s.enterClass len).result = s.result := by
  unfold enterClass
  dsimp only
  split <;> rfl

lemma enterNamespace_result {s s' : Scanner} {len : ℕ} (h : s.enterNamespace len = some s') :
    s'.result = s.result := by
  unfold enterNamespace at h
  obtain ⟨⟨t, pos, len'⟩, -, h⟩ := Option.bind_eq_some_iff.1 h
  obtain rfl := Option.some.inj h
  rfl

lemma readMetadata_result {s s' : Scanner} (h : s.readMetadata = some s') : s'.result = s.result := by
  unfold readMetadata at h
  obtain ⟨⟨code, pos, metadata⟩, -, h⟩ := Option.bind_eq_some_iff.1 h
  obtain ⟨⟨name, declaration, type⟩, -, h⟩ := Option.bind_eq_some_iff.1 h
  obtain rfl := Option.some.inj h
  rfl

lemma readDirective_result {s : Scanner} {r : Round Scanner} (hhash : s.code[s.pos]? = some hash)
    (h : s.readDirective = some r) :
    r.state.result = s.result ∨ r.state.result = -1 ∧ pragmaWord <:+: s.code := by
  unfold readDirective at h
  dsimp only at h
  split at h
  · split at h
    · obtain ⟨⟨pos, t, len⟩, -, h⟩ := Option.bind_eq_some_iff.1 h
      dsimp only at h
      split at h
      · obtain ⟨code, -, h⟩ := Option.bind_eq_some_iff.1 h
        obtain rfl := Option.some.inj h
        exact Or.inl rfl
      · obtain rfl := Option.some.inj h
        exact Or.inl rfl
    · split at h
      · rename_i hpragma
        obtain rfl := Option.some.inj h
        exact Or.inr ⟨rfl, pragma_infix hhash hpragma⟩
      · obtain rfl := Option.some.inj h
        exact Or.inl rfl
  · obtain rfl := Option.some.inj h
    exact Or.inl rfl

end Scanner

lemma scanRound_result {s : Scanner} {r : Round Scanner} (h : scanRound s = some r) : ResultFrom s r.state := by
  refine ⟨(scanRound_advances s r h).1.blanked, ?_⟩
  unfold scanRound at h
  split at h
  · dsimp only at h
    split_ifs at h with hblank hclass hendclass hnamespace hendnamespace hmetadata hdirective
    · obtain rfl := Option.some.inj h
      exact Or.inl rfl
    · obtain rfl := Option.some.inj h
      exact Or.inl (s.enterClass_result _)
    · obtain rfl := Option.some.inj h
      exact Or.inl rfl
    · obtain ⟨s', hs', rfl⟩ := Option.map_eq_some_iff.1 h
      exact Or.inl (Scanner.enterNamespace_result hs')
    · obtain rfl := Option.some.inj h
      exact Or.inl rfl
    · obtain ⟨s', hs', rfl⟩ := Option.map_eq_some_iff.1 h
      exact Or.inl (Scanner.readMetadata_result hs')
    · exact Scanner.readDirective_result hdirective.1 h
    · obtain rfl := Option.some.inj h
      exact Or.inl rfl
  · obtain rfl := Option.some.inj h
    exact Or.inl rfl

/-- **What the passes do to a section**: the text is blanked in places, and the result is an error only when
there is a `#pragma` in it. -/
lemma passes_spec {b : Builder} {script : Bytes} {s : Scanner} (h : b.passes script = some s) :
    Blanked script s.code ∧ (s.result = 0 ∨ s.result = -1 ∧ pragmaWord <:+: script) := by
  unfold Builder.passes at h
  obtain ⟨code, hcode, hs⟩ := Option.bind_eq_some_iff.1 h
  have hfirst := blanked_conditionalPass hcode
  obtain ⟨hsecond, hresult⟩ :
      ResultFrom ⟨code, 0, [], b.currentClass, b.currentNamespace, b.foundDeclarations, [], 0⟩ s :=
    loop_rel resultFrom_trans (fun _ _ => scanRound_result) hs
  exact ⟨hfirst.trans hsecond, hresult.imp_right fun ⟨hr, hinfix⟩ =>
    ⟨hr, hfirst.infix_of_not_mem (by decide) hinfix⟩⟩

lemma exists_passes (b : Builder) {script : Bytes} (h : EndsLine script) : ∃ s, b.passes script = some s := by
  obtain ⟨code, hcode⟩ := exists_conditionalPass b.definedWords h.contained
  have hends : EndsLine code := h.of_blanked (blanked_conditionalPass hcode)
  have hstart : Contained (code.drop 0) := hends.contained
  obtain ⟨s, hs⟩ := exists_scanLoop
    (s := ⟨code, 0, [], b.currentClass, b.currentNamespace, b.foundDeclarations, [], 0⟩) hstart
  refine ⟨s, ?_⟩
  unfold Builder.passes
  rw [hcode, Option.bind_some, hs]

/-! ### The runs of the builder -/

/-- What is wrong with a file, as the message says it. -/
inductive Reason (env : Environment) (path : Bytes) : Message → Prop
  | missing (hopen : env.fopen path = none) {path' : Bytes} (hpath : env.absolute path = some path') :
    Reason env path ⟨path, ascii "Failed to open script file " ++ apostrophe :: (path' ++ [apostrophe])⟩
  | unreadable (hopen : env.fopen path = some .unreadable) {path' : Bytes} (hpath : env.absolute path = some path') :
    Reason env path ⟨path, ascii "Failed to load script file " ++ apostrophe :: (path' ++ [apostrophe])⟩
  | pragma {code : Bytes} (hopen : env.fopen path = some (.contents code)) (hpragma : pragmaWord <:+: code) :
    Reason env path ⟨path, ascii "Invalid #pragma directive"⟩

/-- The file is new, and its section is not added: there is a message instead. -/
structure Fails (env : Environment) (b : Builder) (path : Bytes) (b' : Builder) : Prop where
  scripts : b'.includedScripts = b.includedScripts ++ [path]
  sections : b'.sections = b.sections
  messages : ∃ m, b'.messages = b.messages ++ [m] ∧ Reason env path m

/-- The file is new, and its section is added. -/
structure Enters (env : Environment) (b : Builder) (path : Bytes) (sec : Section) (b' : Builder) : Prop where
  name : sec.name = path
  source : ∃ code, env.fopen path = some (.contents code) ∧ Blanked code sec.code
  scripts : b'.includedScripts = b.includedScripts ++ [path]
  sections : b'.sections = b.sections ++ [sec]
  messages : b'.messages = b.messages

/-- A run of the builder over a list of file names, and whether it gets to the end of it. -/
inductive Loads (env : Environment) : Builder → List Bytes → Bool → Builder → Prop
  | done (b : Builder) : Loads env b [] true b
  | known {b b' : Builder} {f path : Bytes} {fs : List Bytes} {ok : Bool} (hpath : env.absolute f = some path)
      (hknown : path ∈ b.includedScripts) (hrest : Loads env b fs ok b') : Loads env b (f :: fs) ok b'
  | failed {b b' : Builder} {f path : Bytes} {fs : List Bytes} (hpath : env.absolute f = some path)
      (hnew : path ∉ b.includedScripts) (hfails : Fails env b path b') : Loads env b (f :: fs) false b'
  | entered {b b₁ b₂ b' : Builder} {f path : Bytes} {fs : List Bytes} {sec : Section} {ok : Bool}
      (hpath : env.absolute f = some path) (hnew : path ∉ b.includedScripts) (henters : Enters env b path sec b₁)
      (hincludes : Loads env b₁ (sec.includes.map (includePath path)) true b₂) (hrest : Loads env b₂ fs ok b') :
      Loads env b (f :: fs) ok b'
  | abandoned {b b₁ b' : Builder} {f path : Bytes} {fs : List Bytes} {sec : Section}
      (hpath : env.absolute f = some path) (hnew : path ∉ b.includedScripts) (henters : Enters env b path sec b₁)
      (hincludes : Loads env b₁ (sec.includes.map (includePath path)) false b') : Loads env b (f :: fs) false b'

/-- What a call that returns `r` has done. -/
inductive Adds (env : Environment) (b : Builder) (f : Bytes) : Int32 → Builder → Prop
  | known {path : Bytes} (hpath : env.absolute f = some path) (hknown : path ∈ b.includedScripts) : Adds env b f 0 b
  | added {path : Bytes} {b' : Builder} (hpath : env.absolute f = some path) (hnew : path ∉ b.includedScripts)
      (hloads : Loads env b [f] true b') : Adds env b f 1 b'
  | failed {b' : Builder} (hloads : Loads env b [f] false b') : Adds env b f (-1) b'

namespace Loads

variable {env : Environment} {b b' b'' : Builder} {f : Bytes} {fs gs : List Bytes} {ok : Bool}

lemma append (h : Loads env b fs true b') (h' : Loads env b' gs ok b'') : Loads env b (fs ++ gs) ok b'' := by
  generalize hsuccess : true = success at h
  induction h with
  | done b => exact h'
  | known hpath hknown hrest ih => exact .known hpath hknown (ih h' hsuccess)
  | failed hpath hnew hfails => cases hsuccess
  | entered hpath hnew henters hincludes hrest ihincludes ihrest =>
    exact .entered hpath hnew henters hincludes (ihrest h' hsuccess)
  | abandoned hpath hnew henters hincludes ih => cases hsuccess

lemma append_of_failed (h : Loads env b fs false b') (gs : List Bytes) : Loads env b (fs ++ gs) false b' := by
  generalize hsuccess : false = success at h
  induction h with
  | done b => cases hsuccess
  | known hpath hknown hrest ih => exact .known hpath hknown (ih hsuccess)
  | failed hpath hnew hfails => exact .failed hpath hnew hfails
  | entered hpath hnew henters hincludes hrest ihincludes ihrest =>
    exact .entered hpath hnew henters hincludes (ihrest hsuccess)
  | abandoned hpath hnew henters hincludes ih => exact .abandoned hpath hnew henters hincludes

end Loads

/-- What the loop over includes returns. -/
def loopResult (ok : Bool) : Int32 := if ok then 0 else -1

section

variable {env : Environment} {add : Builder → Bytes → Except Fault (Int32 × Builder)}
  (hadd : ∀ b f r b', add b f = .ok (r, b') → Adds env b f r b')
include hadd

lemma addIncludes_loads {b b' : Builder} {fs : List Bytes} {r : Int32} (h : addIncludes add b fs = .ok (r, b')) :
    ∃ ok, r = loopResult ok ∧ Loads env b fs ok b' := by
  induction fs generalizing b with
  | nil =>
    obtain ⟨rfl, rfl⟩ := Prod.mk.inj (Except.ok.inj h)
    exact ⟨true, rfl, .done b⟩
  | cons f fs ih =>
    unfold addIncludes at h
    split at h
    · cases h
    · rename_i r₁ b₁ hfirst
      cases hadd b f r₁ b₁ hfirst with
      | known hpath hknown =>
        rw [if_neg (by decide)] at h
        obtain ⟨ok, hr, hrest⟩ := ih h
        exact ⟨ok, hr, .known hpath hknown hrest⟩
      | added hpath hnew hloads =>
        rw [if_neg (by decide)] at h
        obtain ⟨ok, hr, hrest⟩ := ih h
        exact ⟨ok, hr, hloads.append hrest⟩
      | failed hloads =>
        rw [if_pos (by decide)] at h
        obtain ⟨rfl, rfl⟩ := Prod.mk.inj (Except.ok.inj h)
        exact ⟨false, rfl, hloads.append_of_failed fs⟩

/-- Loading a file that is new fails, or enters the section and goes on with its includes. -/
lemma loadScriptSection_cases {b b' : Builder} {path : Bytes} {r : Int32}
    (h : loadScriptSection env add (b.insertScript path) path = .ok (r, b')) :
    r = -1 ∧ Fails env b path b' ∨
      ∃ sec b₁ ok, Enters env b path sec b₁ ∧ r = loopResult ok ∧
        Loads env b₁ (sec.includes.map (includePath path)) ok b' := by
  unfold loadScriptSection at h
  split at h
  · rename_i hopen
    unfold loadError at h
    split at h
    · cases h
    · rename_i path' hpath
      obtain ⟨rfl, rfl⟩ := Prod.mk.inj (Except.ok.inj h)
      exact Or.inl ⟨rfl, rfl, rfl, _, rfl, .missing hopen hpath⟩
  · rename_i hopen
    unfold loadError at h
    split at h
    · cases h
    · rename_i path' hpath
      obtain ⟨rfl, rfl⟩ := Prod.mk.inj (Except.ok.inj h)
      exact Or.inl ⟨rfl, rfl, rfl, _, rfl, .unreadable hopen hpath⟩
  · rename_i code hopen
    unfold processScriptSection at h
    split at h
    · cases h
    · rename_i s hs
      obtain ⟨hblanked, hresult⟩ := passes_spec hs
      split at h
      · rename_i herror
        obtain ⟨rfl, rfl⟩ := Prod.mk.inj (Except.ok.inj h)
        rcases hresult with hzero | ⟨hr, hpragma⟩
        · rw [hzero] at herror
          exact absurd herror (by decide)
        · exact Or.inl ⟨hr, rfl, rfl, _, rfl, .pragma hopen hpragma⟩
      · obtain ⟨ok, hr, hloads⟩ := addIncludes_loads hadd h
        refine Or.inr ⟨⟨path, s.code, s.includes⟩,
          ((b.insertScript path).behind s).addScriptSection ⟨path, s.code, s.includes⟩, ok, ?_, hr, hloads⟩
        exact ⟨rfl, ⟨code, hopen, hblanked⟩, rfl, rfl, rfl⟩

end

/-- **Every call that returns is a run of the builder.** -/
lemma addSection_adds {env : Environment} {depth : ℕ} {b b' : Builder} {f : Bytes} {r : Int32}
    (h : addSection env depth b f = .ok (r, b')) : Adds env b f r b' := by
  induction depth generalizing b f r b' with
  | zero => cases h
  | succ depth ih =>
    unfold addSection at h
    split at h
    · cases h
    · rename_i path hpath
      split at h
      · rename_i hknown
        obtain ⟨rfl, rfl⟩ := Prod.mk.inj (Except.ok.inj h)
        exact .known hpath (List.contains_iff_mem.1 hknown)
      · rename_i hunknown
        have hnew : path ∉ b.includedScripts := fun hmem => hunknown (List.contains_iff_mem.2 hmem)
        split at h
        · cases h
        · rename_i r₁ b₁ hload
          obtain ⟨hr, rfl⟩ := Prod.mk.inj (Except.ok.inj h)
          rcases loadScriptSection_cases (fun b f r b' hadd => ih hadd) hload with
            ⟨rfl, hfails⟩ | ⟨sec, b₂, ok, henters, rfl, hloads⟩
          · rw [if_pos (by decide)] at hr
            subst hr
            exact .failed (.failed hpath hnew hfails)
          · cases ok with
            | true =>
              rw [if_neg (show ¬loopResult true < 0 by decide)] at hr
              subst hr
              exact .added hpath hnew (.entered hpath hnew henters hloads (.done _))
            | false =>
              rw [if_pos (show loopResult false < 0 by decide)] at hr
              subst hr
              exact .failed (.abandoned hpath hnew henters hloads)

/-! ### What a run leaves -/

/-- One section is included by another, or names it itself. -/
def Includes (env : Environment) (sections : List Section) (path path' : Bytes) : Prop :=
  ∃ sec ∈ sections, sec.name = path ∧ ∃ f ∈ sec.includes, env.absolute (includePath path f) = some path'

/-- Every file that has been included has its section, and none has two. -/
structure Registered (b : Builder) : Prop where
  names : b.sections.map Section.name = b.includedScripts
  nodup : b.includedScripts.Nodup

/-- The section is a copy of a file, blanked in places. -/
def CopyOf (env : Environment) (sec : Section) : Prop :=
  ∃ code, env.fopen sec.name = some (.contents code) ∧ Blanked code sec.code

/-- A line of the section is the line of that number in its file, so the compiler's line numbers are the file's. -/
lemma CopyOf.lines {env : Environment} {sec : Section} (h : CopyOf env sec) :
    ∃ code, env.fopen sec.name = some (.contents code) ∧ sec.code.length = code.length ∧
      ∀ i, (sec.code.take i).count newline = (code.take i).count newline := by
  obtain ⟨code, hcode, hblanked⟩ := h
  refine ⟨code, hcode, hblanked.length_eq, fun i => ?_⟩
  have hkept : (sec.code.take i).filter (· == newline) = (code.take i).filter (· == newline) :=
    hblanked.filter_take_eq (fun a => beq_iff_eq) (by decide) i
  rw [List.count_eq_length_filter, List.count_eq_length_filter, hkept]

namespace Enters

variable {env : Environment} {b b' : Builder} {path : Bytes} {sec : Section}

lemma registered (h : Enters env b path sec b') (hnew : path ∉ b.includedScripts) (hb : Registered b) :
    Registered b' := by
  constructor
  · rw [h.sections, h.scripts, List.map_append, hb.names, List.map_singleton, h.name]
  · rw [h.scripts, ← List.concat_eq_append]
    exact hb.nodup.concat hnew

lemma copyOf (h : Enters env b path sec b') (hb : ∀ s ∈ b.sections, CopyOf env s) :
    ∀ s ∈ b'.sections, CopyOf env s := by
  rw [h.sections, List.forall_mem_append]
  refine ⟨hb, fun s hs => ?_⟩
  obtain rfl := List.mem_singleton.1 hs
  unfold CopyOf
  rw [h.name]
  exact h.source

end Enters

namespace Loads

variable {env : Environment} {b b' : Builder} {fs : List Bytes} {ok : Bool}

/-- Nothing that has been included is forgotten. -/
lemma keeps (h : Loads env b fs ok b') :
    b.includedScripts <+: b'.includedScripts ∧ b.sections <+: b'.sections := by
  have henter : ∀ {b b' : Builder} {path : Bytes} {sec : Section}, Enters env b path sec b' →
      b.includedScripts <+: b'.includedScripts ∧ b.sections <+: b'.sections := fun henters =>
    ⟨henters.scripts ▸ List.prefix_append _ _, henters.sections ▸ List.prefix_append _ _⟩
  induction h with
  | done b => exact ⟨List.prefix_rfl, List.prefix_rfl⟩
  | known hpath hknown hrest ih => exact ih
  | failed hpath hnew hfails =>
    rw [hfails.scripts, hfails.sections]
    exact ⟨List.prefix_append _ _, List.prefix_rfl⟩
  | entered hpath hnew henters hincludes hrest ihincludes ihrest =>
    have hfirst := henter henters
    exact ⟨(hfirst.1.trans ihincludes.1).trans ihrest.1, (hfirst.2.trans ihincludes.2).trans ihrest.2⟩
  | abandoned hpath hnew henters hincludes ih =>
    have hfirst := henter henters
    exact ⟨hfirst.1.trans ih.1, hfirst.2.trans ih.2⟩

lemma copyOf (h : Loads env b fs ok b') (hb : ∀ s ∈ b.sections, CopyOf env s) :
    ∀ s ∈ b'.sections, CopyOf env s := by
  induction h with
  | done b => exact hb
  | known hpath hknown hrest ih => exact ih hb
  | failed hpath hnew hfails =>
    rw [hfails.sections]
    exact hb
  | entered hpath hnew henters hincludes hrest ihincludes ihrest =>
    exact ihrest (ihincludes (henters.copyOf hb))
  | abandoned hpath hnew henters hincludes ih => exact ih (henters.copyOf hb)

/-- A run that gets to its end has added a section for every file that it has included. -/
lemma registered (h : Loads env b fs true b') (hb : Registered b) : Registered b' := by
  generalize hsuccess : true = success at h
  induction h with
  | done b => exact hb
  | known hpath hknown hrest ih => exact ih hb hsuccess
  | failed hpath hnew hfails => cases hsuccess
  | entered hpath hnew henters hincludes hrest ihincludes ihrest =>
    exact ihrest (ihincludes (henters.registered hnew hb) rfl) hsuccess
  | abandoned hpath hnew henters hincludes ih => cases hsuccess

/-- **Messages**: none in a run that gets to its end, and one in a run that fails. -/
lemma messages (h : Loads env b fs ok b') :
    (ok = true ∧ b'.messages = b.messages) ∨
      (ok = false ∧ ∃ path m, path ∉ b.includedScripts ∧ path ∈ b'.includedScripts ∧
        b'.messages = b.messages ++ [m] ∧ Reason env path m) := by
  induction h with
  | done b => exact Or.inl ⟨rfl, rfl⟩
  | known hpath hknown hrest ih => exact ih
  | @failed b b' f path fs hpath hnew hfails =>
    obtain ⟨m, hm, hreason⟩ := hfails.messages
    refine Or.inr ⟨rfl, path, m, hnew, ?_, hm, hreason⟩
    rw [hfails.scripts]
    exact List.mem_append_right _ (List.mem_singleton_self path)
  | entered hpath hnew henters hincludes hrest ihincludes ihrest =>
    have hfirst := (ihincludes.resolve_right fun h => Bool.noConfusion h.1).2
    rw [henters.messages] at hfirst
    rw [← hfirst]
    refine ihrest.imp_right fun ⟨hok, path, m, hnotin, hin, hm, hreason⟩ =>
      ⟨hok, path, m, fun hmem => hnotin ?_, hin, hm, hreason⟩
    refine (hincludes.keeps.1.subset) ?_
    rw [henters.scripts]
    exact List.mem_append_left _ hmem
  | abandoned hpath hnew henters hincludes ih =>
    obtain ⟨hok, path, m, hnotin, hin, hm, hreason⟩ := ih.resolve_left fun h => Bool.noConfusion h.1
    rw [henters.messages] at hm
    refine Or.inr ⟨hok, path, m, fun hmem => hnotin ?_, hin, hm, hreason⟩
    rw [henters.scripts]
    exact List.mem_append_left _ hmem

end Loads

/-- The paths of a list of file names. -/
def pathsOf (env : Environment) (fs : List Bytes) : Set Bytes := {path | ∃ f ∈ fs, env.absolute f = some path}

section

variable {env : Environment} {f path : Bytes} {fs : List Bytes}

lemma pathsOf_nil : pathsOf env [] = ∅ :=
  Set.eq_empty_of_forall_notMem fun _ ⟨_, hf, _⟩ => absurd hf List.not_mem_nil

lemma pathsOf_cons (hpath : env.absolute f = some path) : pathsOf env (f :: fs) = {path} ∪ pathsOf env fs := by
  ext q
  constructor
  · rintro ⟨g, hg, hq⟩
    rcases List.mem_cons.1 hg with rfl | hg
    · exact Or.inl (Option.some.inj (hq.symm.trans hpath))
    · exact Or.inr ⟨g, hg, hq⟩
  · rintro (rfl | ⟨g, hg, hq⟩)
    · exact ⟨f, List.mem_cons_self, hpath⟩
    · exact ⟨g, List.mem_cons_of_mem _ hg, hq⟩

lemma pathsOf_includes {sections : List Section} {sec : Section} (hnodup : (sections.map Section.name).Nodup)
    (hsec : sec ∈ sections) (hname : sec.name = path) :
    pathsOf env (sec.includes.map (includePath path)) = {q | Includes env sections path q} := by
  ext q
  constructor
  · rintro ⟨f, hf, hq⟩
    obtain ⟨inc, hinc, rfl⟩ := List.mem_map.1 hf
    exact ⟨sec, hsec, hname, inc, hinc, hq⟩
  · rintro ⟨sec', hsec', hname', inc, hinc, hq⟩
    obtain rfl := List.inj_on_of_nodup_map hnodup hsec' hsec (hname'.trans hname.symm)
    exact ⟨_, List.mem_map_of_mem hinc, hq⟩

end

/-- **A run that gets to its end is an exploration of the files**, along the includes of the sections that
it has added. -/
lemma Loads.explored {env : Environment} {b b' : Builder} {fs : List Bytes} {sections : List Section}
    (h : Loads env b fs true b') (hsections : b'.sections <+: sections)
    (hnodup : (sections.map Section.name).Nodup) :
    Explored (Includes env sections) {p | p ∈ b.includedScripts} (pathsOf env fs) {p | p ∈ b'.includedScripts} := by
  generalize hsuccess : true = success at h
  induction h with
  | done b =>
    rw [pathsOf_nil]
    exact Explored.refl _
  | @known b b' f path fs ok hpath hknown hrest ih =>
    have hseen : path ∈ {p | p ∈ b.includedScripts} := hknown
    rw [pathsOf_cons hpath]
    exact (Explored.of_mem hseen).union (ih hsections hsuccess)
  | failed hpath hnew hfails => cases hsuccess
  | @entered b b₁ b₂ b' f path fs sec ok hpath hnew henters hincludes hrest ihincludes ihrest =>
    have hsecond := hrest.keeps.2.trans hsections
    have hsec : sec ∈ sections := by
      refine (hincludes.keeps.2.trans hsecond).subset ?_
      rw [henters.sections]
      exact List.mem_append_right _ (List.mem_singleton_self sec)
    have hfirst : {p | p ∈ b₁.includedScripts} = insert path {p | p ∈ b.includedScripts} := by
      ext p
      rw [henters.scripts]
      exact List.mem_append.trans (or_comm.trans (or_congr_left List.mem_singleton))
    have hexplored := ihincludes hsecond rfl
    rw [hfirst, pathsOf_includes hnodup hsec henters.name] at hexplored
    rw [pathsOf_cons hpath]
    exact hexplored.enter.union (ihrest hsections hsuccess)
  | abandoned hpath hnew henters hincludes ih => cases hsuccess

/-! ### Every call returns -/

namespace SourceFile

/-- The text of the file keeps its tokens, if it can be read. -/
def EndsLine : SourceFile → Prop
  | unreadable => True
  | contents code => ScriptBuilder.EndsLine code

instance (file : SourceFile) : Decidable file.EndsLine := by
  cases file
  · exact inferInstanceAs (Decidable True)
  · exact inferInstanceAs (Decidable (ScriptBuilder.EndsLine _))

end SourceFile

/-- `GetAbsolutePath` does not return for a name that the builder comes across. -/
def Stuck (env : Environment) (result : Except Fault (Int32 × Builder)) : Prop :=
  ∃ filename, result = .error (.endless filename) ∧ env.absolute filename = none

/-- The call returns, or `GetAbsolutePath` does not. -/
def Returns (env : Environment) (result : Except Fault (Int32 × Builder)) : Prop :=
  (∃ r b, result = .ok (r, b)) ∨ Stuck env result

/-- The names of the files that can be opened. -/
def Environment.names (env : Environment) : Finset Bytes := (env.files.map Prod.fst).toFinset

/-- How many files are left to be included. -/
def unseen (env : Environment) (b : Builder) : ℕ := (env.names \ b.includedScripts.toFinset).card

section

variable {env : Environment}

lemma mem_names {path : Bytes} {file : SourceFile} (h : env.fopen path = some file) :
    path ∈ env.names ∧ (path, file) ∈ env.files := by
  unfold Environment.fopen at h
  obtain ⟨⟨path', file'⟩, hfind, rfl⟩ := Option.map_eq_some_iff.1 h
  have hname : path' = path := by simpa using List.find?_some hfind
  have hmem := List.mem_of_find?_eq_some hfind
  subst hname
  exact ⟨List.mem_toFinset.2 (List.mem_map_of_mem hmem), hmem⟩

lemma returns_loadError (b : Builder) (words : String) (filename : Bytes) :
    Returns env (loadError env b words filename) := by
  unfold loadError
  split
  · exact Or.inr ⟨filename, rfl, by assumption⟩
  · exact Or.inl ⟨_, _, rfl⟩

lemma returns_addIncludes {add : Builder → Bytes → Except Fault (Int32 × Builder)} {left : ℕ}
    (hadd : ∀ b f r b', add b f = .ok (r, b') → Adds env b f r b')
    (hreturns : ∀ b f, unseen env b < left → Returns env (add b f)) {b : Builder} (hb : unseen env b < left)
    (fs : List Bytes) : Returns env (addIncludes add b fs) := by
  induction fs generalizing b with
  | nil => exact Or.inl ⟨0, b, rfl⟩
  | cons f fs ih =>
    unfold addIncludes
    rcases hreturns b f hb with ⟨r, b', hok⟩ | ⟨filename, herror, hpath⟩
    · rw [hok]
      dsimp only
      split
      · exact Or.inl ⟨r, b', rfl⟩
      · refine ih (lt_of_le_of_lt (card_unseen_le ?_) hb)
        have hkeeps : b.includedScripts ⊆ b'.includedScripts := by
          cases hadd b f r b' hok with
          | known hpath hknown => exact List.Subset.refl _
          | added hpath hnew hloads => exact hloads.keeps.1.subset
          | failed hloads => exact hloads.keeps.1.subset
        exact fun p hp => List.mem_toFinset.2 (hkeeps (List.mem_toFinset.1 hp))
    · rw [herror]
      exact Or.inr ⟨filename, rfl, hpath⟩

/-- **No call goes on for ever**: with each section that is entered, there is a file less to be included. -/
lemma returns_addSection (hfiles : ∀ file ∈ env.files, file.2.EndsLine) {depth : ℕ} {b : Builder}
    (h : unseen env b < depth) (f : Bytes) : Returns env (addSection env depth b f) := by
  induction depth generalizing b f with
  | zero => exact absurd h (Nat.not_lt_zero _)
  | succ depth ih =>
    unfold addSection
    split
    · exact Or.inr ⟨f, rfl, by assumption⟩
    · rename_i path hpath
      split
      · exact Or.inl ⟨0, b, rfl⟩
      · rename_i hunknown
        have hnew : path ∉ b.includedScripts := fun hmem => hunknown (List.contains_iff_mem.2 hmem)
        have hload : Returns env (loadScriptSection env (addSection env depth) (b.insertScript path) path) := by
          unfold loadScriptSection
          split
          · exact returns_loadError _ _ _
          · exact returns_loadError _ _ _
          · rename_i code hopen
            obtain ⟨hname, hfile⟩ := mem_names hopen
            have hends : EndsLine code := hfiles _ hfile
            obtain ⟨s, hs⟩ := exists_passes (b.insertScript path) hends
            unfold processScriptSection
            rw [hs]
            dsimp only
            split
            · exact Or.inl ⟨_, _, rfl⟩
            · refine returns_addIncludes (fun _ _ _ _ => addSection_adds) (fun b f hb => ih hb f) ?_ _
              have hscripts : (b.includedScripts ++ [path]).toFinset = insert path b.includedScripts.toFinset := by
                rw [List.toFinset_append, Finset.union_comm]
                rfl
              have hless := card_unseen_lt hname fun hmem => hnew (List.mem_toFinset.1 hmem)
              rw [← hscripts] at hless
              exact lt_of_lt_of_le hless (Nat.le_of_lt_succ h)
        rcases hload with ⟨r, b', hok⟩ | ⟨filename, herror, hstuck⟩
        · rw [hok]
          exact Or.inl ⟨_, _, rfl⟩
        · rw [herror]
          exact Or.inr ⟨filename, rfl, hstuck⟩

end

/-- Two files that include each other, and a third one. -/
def mutualIncludes : Environment where
  currentDir := ascii "/u"
  files := [(ascii "/u/a.as", .contents (ascii "#include \"lib/b.as\"\n")),
    (ascii "/u/lib/b.as", .contents (ascii "#include \"../a.as\"\n#include 'c.as'\n")),
    (ascii "/u/lib/c.as", .contents [])]

/-- What the builder makes of the files that include each other. -/
def mutualSections : List Section :=
  [⟨ascii "/u/a.as", List.replicate 19 blank ++ [newline], [ascii "lib/b.as"]⟩,
    ⟨ascii "/u/lib/b.as", List.replicate 18 blank ++ newline :: List.replicate 15 blank ++ [newline],
      [ascii "../a.as", ascii "c.as"]⟩,
    ⟨ascii "/u/lib/c.as", [], []⟩]

end ScriptBuilder

end NovusHeadless
