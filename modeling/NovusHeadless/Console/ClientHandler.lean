import NovusHeadless.Lib.Fifo

/-!
# The client thread and the main thread (`ClientHandler.cpp`, `main.cpp`, `ConsoleCommands/*.h`)

Two threads and two queues between them.  The client thread runs `Run` with `Update`, the main thread
takes messages out of the output queue, prints them, and hands the lines of the console to the commands,
which put messages into the input queue.

* The two queues are first-in-first-out (`Lib.Fifo`), and an operation on one is one step.
* `RunPc` and `MainPc` are the places at which a thread can be interrupted; `step` moves one of the
  threads, under any schedule.
* A script reload is a place of its own, which is left when the reload returns.
* A step is `none` when the thread has ended, and also when an assertion fails or a null pointer is
  followed.
-/

namespace NovusHeadless

open Lib

/-- `InputMessages`. -/
inductive InputMessages where
  | exit
  | ping
  | setConnection
  | fowardPacket
  | reloadScripts
  deriving DecidableEq, Repr

def InputMessages.code : InputMessages → Int32
  | .exit => 0
  | .ping => 1
  | .setConnection => 2
  | .fowardPacket => 3
  | .reloadScripts => 4

/-- `OutputMessages`. -/
inductive OutputMessages where
  | exitConfirm
  | print
  deriving DecidableEq, Repr

def OutputMessages.code : OutputMessages → Int32
  | .exitConfirm => 0
  | .print => 1

/-- `Message`, with the fields that the two threads read. -/
structure Message where
  code : Int32
  message : Option String
  deriving DecidableEq, Repr

def Message.new : Message := ⟨-1, none⟩

/-- The queues of `ClientHandler`. -/
structure ClientHandler where
  inputQueue : Fifo Message
  outputQueue : Fifo Message

namespace ClientHandler

def new : ClientHandler := ⟨.empty, .empty⟩

def passMessage (h : ClientHandler) (message : Message) : ClientHandler :=
  { h with inputQueue := h.inputQueue.push [message] }

/-- `_outputQueue.enqueue`. -/
def enqueueOutput (h : ClientHandler) (message : Message) : ClientHandler :=
  { h with outputQueue := h.outputQueue.push [message] }

def tryGetMessage (h : ClientHandler) : Option (Message × ClientHandler) :=
  h.outputQueue.tryPop.map fun r => (r.1, { h with outputQueue := r.2 })

end ClientHandler

/-! ### The client thread -/

/-- The places of the client thread. -/
inductive RunPc where
  /-- in `LoadScriptDirectory` -/
  | loading
  /-- at the loop condition of `Update` -/
  | update
  /-- in the loop body of `Update` -/
  | handle (message : Message)
  /-- in `ReloadScripts` -/
  | reloading
  /-- behind `Update`, which has returned true -/
  | wait
  /-- behind the loop of `Run` -/
  | exiting
  | ended
  deriving DecidableEq, Repr

def pongMessage : Message :=
  { Message.new with code := OutputMessages.print.code, message := some "PONG!" }

def exitMessage : Message := { Message.new with code := OutputMessages.exitConfirm.code }

namespace ClientHandler

/-- The loop body of `Update`. -/
def updateBody (h : ClientHandler) (message : Message) : Option (RunPc × ClientHandler) :=
  if message.code = -1 then none
  else if message.code = InputMessages.exit.code then some (.exiting, h)
  else
    let h := if message.code = InputMessages.ping.code then h.enqueueOutput pongMessage else h
    if message.code = InputMessages.reloadScripts.code then some (.reloading, h)
    else some (.update, h)

/-- `Run` and `Update`, up to the next place. -/
def runStep (h : ClientHandler) : RunPc → Option (RunPc × ClientHandler)
  | .loading => some (.update, h)
  | .update =>
    match h.inputQueue.tryPop with
    | none => some (.wait, h)
    | some (message, inputQueue) => some (.handle message, { h with inputQueue := inputQueue })
  | .handle message => h.updateBody message
  | .reloading => some (.update, h)
  | .wait => some (.update, h)
  | .exiting => some (.ended, h.enqueueOutput exitMessage)
  | .ended => none

end ClientHandler

/-! ### The console -/

def pingCommand (clientHandler : ClientHandler) : ClientHandler :=
  clientHandler.passMessage { Message.new with code := InputMessages.ping.code }

def quitCommand (clientHandler : ClientHandler) : ClientHandler :=
  clientHandler.passMessage { Message.new with code := InputMessages.exit.code }

/-- `scripts`: whether the first word behind the command is `script` or `scripts`. -/
def reloadCommand (scripts : Bool) (clientHandler : ClientHandler) : ClientHandler :=
  if scripts then
    clientHandler.passMessage { Message.new with code := InputMessages.reloadScripts.code }
  else clientHandler

/-- A command that `HandleCommand` finds in its table. -/
inductive Command where
  | quit
  | ping
  | reload (scripts : Bool)
  deriving DecidableEq, Repr

def Command.handler : Command → ClientHandler → ClientHandler
  | .quit => quitCommand
  | .ping => pingCommand
  | .reload scripts => reloadCommand scripts

/-- The message that a command passes. -/
def Command.message : Command → Option Message
  | .quit => some { Message.new with code := InputMessages.exit.code }
  | .ping => some { Message.new with code := InputMessages.ping.code }
  | .reload scripts =>
    if scripts then some { Message.new with code := InputMessages.reloadScripts.code } else none

lemma Command.handler_eq_message (command : Command) (h : ClientHandler) :
    command.handler h = command.message.elim h h.passMessage := by
  cases command with
  | quit | ping => rfl
  | reload scripts => cases scripts <;> rfl

/-- What the main thread makes of a line: the command that is found for it, if any, and whether the line
is `quit` and nothing else. -/
structure ConsoleLine where
  command : Option Command
  isQuit : Bool
  deriving DecidableEq, Repr

def ConsoleLine.message (line : ConsoleLine) : Option Message := line.command.bind Command.message

lemma ConsoleLine.code_message (line : ConsoleLine) {m : Message} (h : line.message = some m) :
    m.code ≠ -1 := by
  obtain ⟨command, -, hm⟩ := Option.bind_eq_some_iff.1 h
  cases command with
  | quit | ping =>
    obtain rfl := Option.some.inj hm
    decide
  | reload scripts =>
    obtain ⟨-, hm⟩ := Option.ite_none_right_eq_some.1 hm
    obtain rfl := Option.some.inj hm
    decide

/-! ### The main thread -/

/-- The places of the main thread. -/
inductive MainPc where
  /-- at the condition of the inner loop -/
  | drain
  /-- in the body of the inner loop -/
  | took (message : Message)
  /-- behind the inner loop, with nothing left to print -/
  | console
  /-- behind the outer loop -/
  | left
  deriving DecidableEq, Repr

/-- The two threads. -/
structure Program where
  handler : ClientHandler
  run : RunPc
  main : MainPc
  futureAvailable : Bool
  printed : List String

namespace Program

/-- Behind `clientHandler.Start()`. -/
def start : Program := ⟨.new, .loading, .drain, true, []⟩

/-- The body of the inner loop; `shouldExit` leads out of both loops. -/
def mainBody (p : Program) (message : Message) : Option Program :=
  if message.code = OutputMessages.exitConfirm.code then some { p with main := .left }
  else if message.code = OutputMessages.print.code then
    message.message.map fun text => { p with main := .drain, printed := p.printed ++ [text] }
  else some { p with main := .drain }

/-- The main thread up to the next place, when no line of the console is ready. -/
def mainStep (p : Program) : Option Program :=
  match p.main with
  | .drain =>
    match p.handler.tryGetMessage with
    | none => some { p with main := .console }
    | some (message, handler) => some { p with handler := handler, main := .took message }
  | .took message => p.mainBody message
  | .console => some { p with main := .drain }
  | .left => none

/-- The main thread with a line of the console. -/
def lineStep (p : Program) (line : ConsoleLine) : Option Program :=
  if p.main = .console ∧ p.futureAvailable = true then
    some { p with
      handler := (line.command.elim id Command.handler) p.handler
      futureAvailable := !line.isQuit
      main := .drain }
  else none

inductive Action where
  | client
  | main
  | line (line : ConsoleLine)
  deriving DecidableEq, Repr

/-- What an action passes to the client thread. -/
def Action.message : Action → Option Message
  | .line consoleLine => consoleLine.message
  | .client | .main => none

def step (p : Program) : Action → Option Program
  | .client => (p.handler.runStep p.run).map fun r => { p with run := r.1, handler := r.2 }
  | .main => p.mainStep
  | .line line => p.lineStep line

/-- What the console has passed so far. -/
def passed (p : Program) : List Message := p.handler.inputQueue.received

/-- What the client thread has put into the output queue so far. -/
def produced (p : Program) : List Message := p.handler.outputQueue.received

/-- What the main thread has taken out of the output queue so far. -/
def taken (p : Program) : List Message := p.handler.outputQueue.taken

end Program

end NovusHeadless
