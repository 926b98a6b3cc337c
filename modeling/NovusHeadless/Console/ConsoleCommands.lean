import NovusHeadless.Console.StringUtils
import NovusHeadless.Console.ClientHandler

/-!
# The console commands (`ConsoleCommands.h`, `ConsoleCommands/*.h`)

`HandleCommand` splits a line into tokens, takes the hash of the first one and looks for it in the map of
the handlers.  The hash is a `u32`, the key of the map a `u16`: both `insert_or_assign` and `find` narrow
it.

* `dispatch` is the choice that `HandleCommand` makes for a line, `Handled.run` what the choice does.
* `none` is an access to a token that does not exist.
* `consoleLine` is what the main thread makes of a line, as `Program.lineStep` takes it; `textStep_eq`.
-/

namespace NovusHeadless

open Lib StringUtils

/-- The commands that `ConsoleCommandHandler()` registers. -/
inductive CommandName where
  | quit
  | ping
  | reload
  deriving DecidableEq, Repr

namespace CommandName

def text : CommandName → Bytes
  | .quit => ascii "quit"
  | .ping => ascii "ping"
  | .reload => ascii "reload"

/-- The test in `ReloadCommand`. -/
def isScripts (subCommand : Bytes) : Bool :=
  hashString subCommand = hashString (ascii "script") ||
    hashString subCommand = hashString (ascii "scripts")

/-- `QuitCommand`, `PingCommand` and `ReloadCommand`, which reads `subCommands[0]`. -/
def handler : CommandName → ClientHandler → List Bytes → Option ClientHandler
  | .quit, clientHandler, _ => some (quitCommand clientHandler)
  | .ping, clientHandler, _ => some (pingCommand clientHandler)
  | .reload, clientHandler, subCommands =>
    subCommands.head?.map fun subCommand => reloadCommand (isScripts subCommand) clientHandler

end CommandName

/-! ### The map of the handlers -/

/-- `commandHandlers`. -/
abbrev CommandHandlers := UInt16 → Option CommandName

/-- `RegisterCommand`. -/
def CommandHandlers.registerCommand (handlers : CommandHandlers) (id : UInt32)
    (handler : CommandName) : CommandHandlers :=
  Function.update handlers id.toUInt16 (some handler)

/-- The map behind the constructor. -/
def commandHandlers : CommandHandlers :=
  CommandHandlers.registerCommand
    (CommandHandlers.registerCommand
      (CommandHandlers.registerCommand (fun _ => none)
        (hashString (ascii "quit")) .quit)
      (hashString (ascii "ping")) .ping)
    (hashString (ascii "reload")) .reload

/-- The key under which the map looks for a token. -/
def commandKey (token : Bytes) : UInt16 := (hashString token).toUInt16

lemma commandKey_injective {a b : CommandName} (h : commandKey a.text = commandKey b.text) :
    a = b := by
  revert h
  cases a <;> cases b <;> decide

/-- **The map** holds every command under the key of its name, and nothing else. -/
theorem commandHandlers_eq_some {key : UInt16} {name : CommandName} :
    commandHandlers key = some name ↔ key = commandKey name.text := by
  unfold commandHandlers CommandHandlers.registerCommand
  simp only [Function.update_apply]
  constructor
  · intro h
    split at h
    · obtain rfl := Option.some.inj h
      assumption
    split at h
    · obtain rfl := Option.some.inj h
      assumption
    split at h
    · obtain rfl := Option.some.inj h
      assumption
    · exact absurd h (by simp)
  · rintro rfl
    cases name <;> decide

lemma commandHandlers_eq_none {key : UInt16} :
    commandHandlers key = none ↔ ∀ name : CommandName, key ≠ commandKey name.text := by
  rw [Option.eq_none_iff_forall_ne_some]
  exact forall_congr' fun name => not_congr commandHandlers_eq_some

/-! ### `HandleCommand` -/

/-- What `HandleCommand` does with a line. -/
inductive Handled where
  /-- the line is empty -/
  | nothing
  /-- the handler of the command, on the tokens behind the first one -/
  | ran (name : CommandName) (subCommands : List Bytes)
  /-- the warning -/
  | unhandled (warning : Bytes)
  deriving DecidableEq, Repr

def Handled.run : Handled → ClientHandler → Option ClientHandler
  | .ran name subCommands, clientHandler => name.handler clientHandler subCommands
  | .nothing, clientHandler => some clientHandler
  | .unhandled _, clientHandler => some clientHandler

def unhandledWarning (command : Bytes) : Bytes := ascii "Unhandled command: " ++ command

def dispatch (command : Bytes) : Option Handled :=
  if command.length = 0 then some .nothing
  else
    match splitString command with
    | [] => none
    | token :: subCommands =>
      match commandHandlers (hashString token).toUInt16 with
      | some name => some (.ran name subCommands)
      | none => some (.unhandled (unhandledWarning command))

def handleCommand (clientHandler : ClientHandler) (command : Bytes) :
    Option (Handled × ClientHandler) :=
  (dispatch command).bind fun handled => (handled.run clientHandler).map fun h => (handled, h)

section

variable {command token : Bytes} {subCommands : List Bytes}

lemma ne_nil_of_splitString (h : splitString command = token :: subCommands) :
    ¬ command.length = 0 := by
  intro hlen
  rw [List.eq_nil_of_length_eq_zero hlen] at h
  exact List.cons_ne_nil _ _ h.symm

lemma dispatch_of_splitString (h : splitString command = token :: subCommands) :
    dispatch command = some ((commandHandlers (commandKey token)).elim
      (.unhandled (unhandledWarning command)) fun name => .ran name subCommands) := by
  unfold dispatch
  rw [if_neg (ne_nil_of_splitString h), h]
  show (match commandHandlers (commandKey token) with
    | some name => some (Handled.ran name subCommands)
    | none => some (.unhandled (unhandledWarning command))) = _
  cases commandHandlers (commandKey token) <;> rfl

/-- A line is given to a command exactly when its first token has the key of the command. -/
theorem dispatch_eq_ran (h : splitString command = token :: subCommands) {name : CommandName} :
    dispatch command = some (.ran name subCommands) ↔ commandKey token = commandKey name.text := by
  rw [← commandHandlers_eq_some, dispatch_of_splitString h]
  cases commandHandlers (commandKey token) <;> simp

/-- A line is reported exactly when its first token has the key of no command. -/
theorem dispatch_eq_unhandled (h : splitString command = token :: subCommands) :
    dispatch command = some (.unhandled (unhandledWarning command)) ↔
      ∀ name : CommandName, commandKey token ≠ commandKey name.text := by
  rw [← commandHandlers_eq_none, dispatch_of_splitString h]
  cases commandHandlers (commandKey token) <;> simp

lemma subCommands_of_ran (h : splitString command = token :: subCommands) {name : CommandName}
    {sub : List Bytes} (hd : dispatch command = some (.ran name sub)) : sub = subCommands := by
  rw [dispatch_of_splitString h] at hd
  cases hfound : commandHandlers (commandKey token) with
  | none =>
    rw [hfound] at hd
    exact absurd hd (by simp)
  | some name' =>
    rw [hfound] at hd
    simp only [Option.elim_some, Option.some.injEq, Handled.ran.injEq] at hd
    exact hd.2.symm

end

/-- The first token is missing exactly when the line is not empty and has nothing but whitespace. -/
theorem dispatch_eq_none {command : Bytes} :
    dispatch command = none ↔ command ≠ [] ∧ ∀ c ∈ command, isSpace c = true := by
  rw [← splitString_eq_nil]
  cases hs : splitString command with
  | nil =>
    by_cases hnil : command = []
    · subst hnil
      exact iff_of_false (by decide) (fun h => h.1 rfl)
    · refine iff_of_true ?_ ⟨hnil, rfl⟩
      unfold dispatch
      rw [if_neg (List.length_eq_zero_iff.not.2 hnil), hs]
  | cons token subCommands =>
    rw [dispatch_of_splitString hs]
    exact iff_of_false (Option.some_ne_none _) (fun h => List.cons_ne_nil _ _ h.2)

/-! ### The line in the main loop -/

/-- The command that the rest of the program sees. -/
def CommandName.toCommand : CommandName → List Bytes → Option Command
  | .quit, _ => some .quit
  | .ping, _ => some .ping
  | .reload, subCommands =>
    subCommands.head?.map fun subCommand => .reload (isScripts subCommand)

def Handled.toCommand : Handled → Option (Option Command)
  | .ran name subCommands => (name.toCommand subCommands).map some
  | .nothing => some none
  | .unhandled _ => some none

/-- What the main thread makes of a line that is already in lower case. -/
def consoleLine (command : Bytes) : Option ConsoleLine :=
  (dispatch command).bind fun handled =>
    handled.toCommand.map fun c => ⟨c, decide (command = ascii "quit")⟩

/-- The main thread with the text of a line: it is converted to lower case, handled, and then compared
with `quit`. -/
def Program.textStep (p : Program) (line : Bytes) : Option Program :=
  if p.main = .console ∧ p.futureAvailable = true then
    let command := line.map toLower
    (handleCommand p.handler command).map fun r =>
      { p with
        handler := r.2
        futureAvailable := decide (command ≠ ascii "quit")
        main := .drain }
  else none

lemma CommandName.handler_eq (name : CommandName) (h : ClientHandler) (subCommands : List Bytes) :
    name.handler h subCommands = (name.toCommand subCommands).map fun c => c.handler h := by
  cases name with
  | quit => rfl
  | ping => rfl
  | reload => cases subCommands <;> rfl

lemma Handled.run_eq (handled : Handled) (h : ClientHandler) :
    handled.run h = handled.toCommand.map fun c => (c.elim id Command.handler) h := by
  cases handled with
  | nothing => rfl
  | unhandled warning => rfl
  | ran name subCommands =>
    show name.handler h subCommands = ((name.toCommand subCommands).map some).map _
    rw [CommandName.handler_eq, Option.map_map]
    rfl

end NovusHeadless
