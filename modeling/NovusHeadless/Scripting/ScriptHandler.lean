import NovusHeadless.Console.StringUtils
import NovusHeadless.Scripting.HookRegistration

/-!
# Loading scripts (`Scripting/ScriptHandler.cpp`)

`LoadScript` builds a file and executes its `main`, which registers callbacks while it runs; only then does
`LoadScript` see whether the run has ended with an exception.

* A script is what the engine tells `LoadScript` about it: the results of the builder, and what `main` does.
* `reload_iff` — a reload leaves exactly the callbacks of the scripts that were loaded, when there is no
  null handle to release, every number is below `COUNT`, and a script that ends with an exception has
  registered nothing.
-/

namespace NovusHeadless

open Lib

/-- A run of `void main()`: its calls of `RegisterPacketCallback`, and what `Execute` returns. -/
structure MainRun where
  registrations : List (UInt32 × Option ScriptFunction)
  result : ExecutionState
  deriving DecidableEq, Repr

/-- A file, as `StartNewModule`, `AddSectionFromFile`, `BuildModule` and `GetFunctionByDecl` find it. -/
structure ScriptFile where
  startNewModule : Int32
  addSectionFromFile : Int32
  buildModule : Int32
  main : Option MainRun
  deriving DecidableEq, Repr

/-- What `recursive_directory_iterator` comes across. -/
inductive DirectoryEntry where
  | directory
  | file (script : ScriptFile)
  deriving DecidableEq, Repr

/-- The entries below a path. -/
abbrev Directories := Bytes → List DirectoryEntry

namespace HookRegistry

/-- `ctx->Execute()`, up to its result. -/
def execute (s : HookRegistry) (registrations : List (UInt32 × Option ScriptFunction)) :
    Option HookRegistry :=
  registrations.foldlM (fun s r => s.registerPacketCallback r.1 r.2) s

def loadScript (s : HookRegistry) (script : ScriptFile) : Option (Bool × HookRegistry) :=
  if script.startNewModule < 0 then some (false, s)
  else if script.addSectionFromFile < 0 then some (false, s)
  else if script.buildModule < 0 then some (false, s)
  else
    match script.main with
    | none => some (false, s)
    | some main =>
      (s.execute main.registrations).map fun s =>
        if main.result ≠ .finished then
          if main.result = .exception then (false, s) else (true, s)
        else (true, s)

/-- The body of the loop of `LoadScriptDirectory`. -/
def loadEntry (s : HookRegistry) : DirectoryEntry → Option HookRegistry
  | .directory => some s
  | .file script => (s.loadScript script).map Prod.snd

end HookRegistry

/-- `ScriptHandler`, with the table of the callbacks. -/
structure ScriptHandler where
  path : Bytes
  registry : HookRegistry

namespace ScriptHandler

def loadScriptDirectory (fs : Directories) (s : ScriptHandler) (path : Bytes) :
    Option ScriptHandler :=
  ((fs path).foldlM HookRegistry.loadEntry s.registry).map fun registry => ⟨path, registry⟩

def reloadScripts (fs : Directories) (s : ScriptHandler) : Option ScriptHandler := do
  let registry ← s.registry.clearHooks
  let s := { s with registry := registry }
  if s.path ≠ [] then loadScriptDirectory fs s s.path else some s

end ScriptHandler

/-! ### What a script registers -/

namespace ScriptFile

/-- The run of `main`, if `LoadScript` gets to it. -/
def executed (script : ScriptFile) : Option MainRun :=
  if script.startNewModule < 0 ∨ script.addSectionFromFile < 0 ∨ script.buildModule < 0 then none
  else script.main

/-- The registrations that `LoadScript` carries out. -/
def registrations (script : ScriptFile) : List (UInt32 × Option ScriptFunction) :=
  script.executed.elim [] MainRun.registrations

/-- The result of `LoadScript`. -/
def loads (script : ScriptFile) : Bool :=
  script.executed.elim false fun main => decide (main.result ≠ .exception)

/-- The handles that are registered for a hook. -/
def callbacks (script : ScriptFile) (h : Hooks) : List (Option ScriptFunction) :=
  script.registrations.flatMap fun r => if Hooks.ofId r.1 = some h then [r.2] else []

/-- Every number is below `COUNT`. -/
def InRange (script : ScriptFile) : Prop := ∀ r ∈ script.registrations, r.1.toNat < Hooks.count

end ScriptFile

namespace HookRegistry

variable {s s' : HookRegistry}

lemma execute_cons (s : HookRegistry) (r : UInt32 × Option ScriptFunction)
    (rs : List (UInt32 × Option ScriptFunction)) :
    s.execute (r :: rs) = (s.registerPacketCallback r.1 r.2).bind fun s => s.execute rs := by
  unfold execute
  exact List.foldlM_cons

lemma execute_eq_some {rs : List (UInt32 × Option ScriptFunction)} (h : s.execute rs = some s') :
    (∀ r ∈ rs, r.1.toNat < Hooks.count) ∧
      ∀ h, s'.hooks h =
        s.hooks h ++ rs.flatMap fun r => if Hooks.ofId r.1 = some h then [r.2] else [] := by
  induction rs generalizing s with
  | nil =>
    obtain rfl := Option.some.inj h
    exact ⟨fun r hr => absurd hr List.not_mem_nil, fun h => (List.append_nil _).symm⟩
  | cons r rs ih =>
    rw [execute_cons] at h
    obtain ⟨t, ht, h⟩ := Option.bind_eq_some_iff.1 h
    obtain ⟨hr, hhooks⟩ := registerPacketCallback_eq_some ht
    obtain ⟨hrs, hrest⟩ := ih h
    refine ⟨List.forall_mem_cons.2 ⟨hr, hrs⟩, ?_⟩
    intro h
    rw [hrest, hhooks, List.flatMap_cons, List.append_assoc]

lemma exists_execute {rs : List (UInt32 × Option ScriptFunction)}
    (h : ∀ r ∈ rs, r.1.toNat < Hooks.count) (s : HookRegistry) : ∃ s', s.execute rs = some s' := by
  induction rs generalizing s with
  | nil => exact ⟨s, rfl⟩
  | cons r rs ih =>
    obtain ⟨hr, hrs⟩ := List.forall_mem_cons.1 h
    obtain ⟨id, hid⟩ := Hooks.exists_ofId.2 hr
    obtain ⟨s', hs'⟩ := ih hrs (s.register id r.2)
    refine ⟨s', ?_⟩
    rw [execute_cons]
    unfold registerPacketCallback
    rw [hid]
    exact hs'

/-- **`LoadScript`** carries the registrations out and then tells whether `main` has ended well. -/
theorem loadScript_eq (s : HookRegistry) (script : ScriptFile) :
    s.loadScript script = (s.execute script.registrations).map fun s => (script.loads, s) := by
  unfold loadScript ScriptFile.registrations ScriptFile.loads ScriptFile.executed
  by_cases hstart : script.startNewModule < 0
  · rw [if_pos hstart, if_pos (Or.inl hstart)]
    rfl
  by_cases hadd : script.addSectionFromFile < 0
  · rw [if_neg hstart, if_pos hadd, if_pos (Or.inr (Or.inl hadd))]
    rfl
  by_cases hbuild : script.buildModule < 0
  · rw [if_neg hstart, if_neg hadd, if_pos hbuild, if_pos (Or.inr (Or.inr hbuild))]
    rfl
  rw [if_neg hstart, if_neg hadd, if_neg hbuild, if_neg (by tauto)]
  cases script.main with
  | none => rfl
  | some main =>
    show (s.execute main.registrations).map _ = (s.execute main.registrations).map _
    congr 1
    funext s
    cases hresult : main.result <;> simp [hresult]

/-! ### What a directory registers -/

/-- The scripts among the entries. -/
def scriptsOf (entries : List DirectoryEntry) : List ScriptFile :=
  entries.flatMap fun
    | .directory => []
    | .file script => [script]

lemma loadEntry_eq_some {entry : DirectoryEntry} (h : s.loadEntry entry = some s') :
    (∀ script ∈ scriptsOf [entry], script.InRange) ∧
      ∀ h, s'.hooks h = s.hooks h ++ (scriptsOf [entry]).flatMap fun script => script.callbacks h := by
  cases entry with
  | directory =>
    obtain rfl := Option.some.inj h
    exact ⟨fun script hscript => absurd hscript List.not_mem_nil, fun h => (List.append_nil _).symm⟩
  | file script =>
    have hload : (s.loadScript script).map Prod.snd = some s' := h
    rw [loadScript_eq, Option.map_map] at hload
    obtain ⟨t, ht, rfl⟩ := Option.map_eq_some_iff.1 hload
    obtain ⟨hrange, hhooks⟩ := execute_eq_some ht
    refine ⟨fun script' hscript => ?_, fun h => ?_⟩
    · obtain rfl := List.mem_singleton.1 hscript
      exact hrange
    · show t.hooks h = s.hooks h ++ [script].flatMap fun script => script.callbacks h
      rw [List.flatMap_singleton]
      exact hhooks h

lemma scriptsOf_cons (entry : DirectoryEntry) (entries : List DirectoryEntry) :
    scriptsOf (entry :: entries) = scriptsOf [entry] ++ scriptsOf entries := by
  unfold scriptsOf
  rw [List.flatMap_cons, List.flatMap_singleton]

/-- What a directory that is loaded throughout adds to the lists. -/
lemma loadEntries_eq_some {entries : List DirectoryEntry}
    (h : entries.foldlM loadEntry s = some s') :
    (∀ script ∈ scriptsOf entries, script.InRange) ∧
      ∀ h, s'.hooks h = s.hooks h ++ (scriptsOf entries).flatMap fun script => script.callbacks h := by
  induction entries generalizing s with
  | nil =>
    obtain rfl := Option.some.inj h
    exact ⟨fun script hscript => absurd hscript List.not_mem_nil, fun h => (List.append_nil _).symm⟩
  | cons entry entries ih =>
    rw [List.foldlM_cons] at h
    obtain ⟨t, ht, h⟩ := Option.bind_eq_some_iff.1 h
    obtain ⟨hfirst, hhooks⟩ := loadEntry_eq_some ht
    obtain ⟨hothers, hrest⟩ := ih h
    rw [scriptsOf_cons]
    refine ⟨List.forall_mem_append.2 ⟨hfirst, hothers⟩, ?_⟩
    intro h
    rw [hrest, hhooks, List.flatMap_append, List.append_assoc]

lemma exists_loadEntries {entries : List DirectoryEntry}
    (h : ∀ script ∈ scriptsOf entries, script.InRange) (s : HookRegistry) :
    ∃ s', entries.foldlM loadEntry s = some s' := by
  induction entries generalizing s with
  | nil => exact ⟨s, rfl⟩
  | cons entry entries ih =>
    rw [scriptsOf_cons, List.forall_mem_append] at h
    obtain ⟨hfirst, hothers⟩ := h
    have hentry : ∃ t, s.loadEntry entry = some t := by
      cases entry with
      | directory => exact ⟨s, rfl⟩
      | file script =>
        obtain ⟨t, ht⟩ := exists_execute (hfirst script (List.mem_singleton_self _)) s
        refine ⟨t, ?_⟩
        show (s.loadScript script).map Prod.snd = some t
        rw [loadScript_eq, ht]
        rfl
    obtain ⟨t, ht⟩ := hentry
    obtain ⟨s', hs'⟩ := ih hothers t
    refine ⟨s', ?_⟩
    rw [List.foldlM_cons, ht]
    exact hs'

end HookRegistry

namespace ScriptHandler

open HookRegistry

/-- The scripts that a reload hands to `LoadScript`. -/
def visited (fs : Directories) (s : ScriptHandler) : List ScriptFile :=
  if s.path = [] then [] else scriptsOf (fs s.path)

/-- A reload leaves the callbacks of the scripts that it has loaded, in load order, and no others. -/
def LoadsOnly (fs : Directories) (s : ScriptHandler) : Prop :=
  ∃ s', reloadScripts fs s = some s' ∧
    ∀ h, s'.registry.hooks h =
      ((visited fs s).filter ScriptFile.loads).flatMap fun script => script.callbacks h

/-- There is no null handle to release, every number is below `COUNT`, and what is not loaded has
registered nothing. -/
structure ReloadsClean (fs : Directories) (s : ScriptHandler) : Prop where
  live : ∀ h, none ∉ s.registry.hooks h
  inRange : ∀ script ∈ visited fs s, script.InRange
  failed : ∀ script ∈ visited fs s, script.loads = false → script.registrations = []

section

variable {fs : Directories} {s s' : ScriptHandler}

/-- **What a reload leaves**: the callbacks of every script that was executed. -/
theorem reloadScripts_eq_some (h : reloadScripts fs s = some s') :
    (∀ h, none ∉ s.registry.hooks h) ∧ (∀ script ∈ visited fs s, script.InRange) ∧
      ∀ h, s'.registry.hooks h = (visited fs s).flatMap fun script => script.callbacks h := by
  obtain ⟨registry, hclear, h⟩ := Option.bind_eq_some_iff.1 h
  have hlive : ∀ h, none ∉ s.registry.hooks h := by
    intro h hnull
    rw [clearHooks_of_null hnull] at hclear
    exact Option.some_ne_none _ hclear.symm
  rw [clearHooks_of_live hlive] at hclear
  obtain rfl := Option.some.inj hclear
  refine ⟨hlive, ?_⟩
  unfold visited
  by_cases hpath : s.path = []
  · rw [if_pos hpath]
    rw [if_neg (not_not.2 hpath)] at h
    obtain rfl := Option.some.inj h
    exact ⟨fun script hscript => absurd hscript List.not_mem_nil, fun h => rfl⟩
  · rw [if_neg hpath]
    rw [if_pos hpath] at h
    obtain ⟨registry, hload, rfl⟩ := Option.map_eq_some_iff.1 h
    exact loadEntries_eq_some hload

lemma exists_reloadScripts (hlive : ∀ h, none ∉ s.registry.hooks h)
    (hrange : ∀ script ∈ visited fs s, script.InRange) : ∃ s', reloadScripts fs s = some s' := by
  unfold reloadScripts
  rw [clearHooks_of_live hlive, Option.bind_eq_bind, Option.bind_some]
  by_cases hpath : s.path = []
  · exact ⟨_, if_neg (not_not.2 hpath)⟩
  · unfold visited at hrange
    rw [if_neg hpath] at hrange
    obtain ⟨registry, hload⟩ := exists_loadEntries hrange _
    refine ⟨⟨s.path, registry⟩, ?_⟩
    rw [if_pos hpath]
    unfold loadScriptDirectory
    exact Option.map_eq_some_iff.2 ⟨registry, hload, rfl⟩

end

section

variable {α β : Type*} {p : α → Bool} {f : α → List β} {l : List α}

lemma flatMap_filter_of_nil (h : ∀ x ∈ l, p x = false → f x = []) :
    l.flatMap f = (l.filter p).flatMap f := by
  induction l with
  | nil => rfl
  | cons x l ih =>
    obtain ⟨hfirst, hothers⟩ := List.forall_mem_cons.1 h
    rw [List.flatMap_cons, ih hothers, List.filter_cons]
    cases hx : p x with
    | true => rw [if_pos rfl, List.flatMap_cons]
    | false => rw [if_neg Bool.false_ne_true, hfirst hx, List.nil_append]

lemma eq_nil_of_flatMap_filter (h : l.flatMap f = (l.filter p).flatMap f) :
    ∀ x ∈ l, p x = false → f x = [] := by
  have hle : ∀ l : List α, ((l.filter p).flatMap f).length ≤ (l.flatMap f).length := by
    intro l
    induction l with
    | nil => exact le_rfl
    | cons x l ih =>
      rw [List.filter_cons]
      split <;> simp only [List.flatMap_cons, List.length_append] <;> omega
  induction l with
  | nil => exact fun x hx => absurd hx List.not_mem_nil
  | cons y l ih =>
    cases hy : p y with
    | true =>
      rw [List.filter_cons_of_pos hy, List.flatMap_cons, List.flatMap_cons] at h
      have htail := ih (List.append_cancel_left h)
      intro x hx hpx
      rcases List.mem_cons.1 hx with rfl | hx
      · rw [hy] at hpx
        exact absurd hpx (by decide)
      · exact htail x hx hpx
    | false =>
      rw [List.filter_cons_of_neg (by rw [hy]; exact Bool.false_ne_true), List.flatMap_cons] at h
      have hlen := congrArg List.length h
      rw [List.length_append] at hlen
      have hnil : f y = [] := List.eq_nil_of_length_eq_zero (by have := hle l; omega)
      rw [hnil, List.nil_append] at h
      intro x hx hpx
      rcases List.mem_cons.1 hx with rfl | hx
      · exact hnil
      · exact ih h x hx hpx

end

lemma ScriptFile.registrations_eq_nil {script : ScriptFile} (hrange : script.InRange)
    (h : ∀ h, script.callbacks h = []) : script.registrations = [] := by
  rw [List.eq_nil_iff_forall_not_mem]
  intro r hr
  obtain ⟨id, hid⟩ := Hooks.exists_ofId.2 (hrange r hr)
  have hnil := List.flatMap_eq_nil_iff.1 (h id) r hr
  rw [if_pos hid] at hnil
  exact List.cons_ne_nil _ _ hnil

/-- **When a reload leaves nothing of a script that was not loaded.** -/
theorem reload_iff (fs : Directories) (s : ScriptHandler) : LoadsOnly fs s ↔ ReloadsClean fs s := by
  constructor
  · rintro ⟨s', hreload, hhooks⟩
    obtain ⟨hlive, hrange, hall⟩ := reloadScripts_eq_some hreload
    refine ⟨hlive, hrange, ?_⟩
    intro script hscript hfailed
    apply ScriptFile.registrations_eq_nil (hrange script hscript)
    intro h
    exact eq_nil_of_flatMap_filter ((hall h).symm.trans (hhooks h)) script hscript hfailed
  · rintro ⟨hlive, hrange, hfailed⟩
    obtain ⟨s', hreload⟩ := exists_reloadScripts hlive hrange
    obtain ⟨-, -, hall⟩ := reloadScripts_eq_some hreload
    refine ⟨s', hreload, ?_⟩
    intro h
    rw [hall h]
    apply flatMap_filter_of_nil
    intro script hscript hloads
    unfold ScriptFile.callbacks
    rw [hfailed script hscript hloads]
    rfl

/-- A script that registers a callback and then raises an exception. -/
def throwingScript : ScriptFile := ⟨0, 0, 0, some ⟨[(0, some ⟨0, []⟩)], .exception⟩⟩

/-- Its callback stays in the table. -/
theorem failed_script_stays : ¬ ∀ fs s, LoadsOnly fs s := by
  intro h
  obtain ⟨s', hreload, hhooks⟩ := h (fun _ => [.file throwingScript]) ⟨ascii "scripts", .new⟩
  obtain ⟨-, -, hall⟩ := reloadScripts_eq_some hreload
  have heq := (hall .onLoginChallenge).symm.trans (hhooks .onLoginChallenge)
  exact absurd heq (by decide)

end ScriptHandler

end NovusHeadless
