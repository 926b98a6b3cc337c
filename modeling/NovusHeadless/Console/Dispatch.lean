import NovusHeadless.Console.ConsoleCommands

/-!
# Which line runs which command

* `dispatchExact_iff` — the choice of the handler is by name exactly when the first token is a name, or
  its narrowed hash is the key of no name;
* `tokensInRange_iff` — no token is missing exactly when the line is empty or has a token, and what has
  the key of `reload` is followed by an argument;
* `quitTests_iff` — the two tests for quitting agree exactly when the line is `quit`, or its first token
  does not have the key of `quit`.
-/

namespace NovusHeadless

open Lib StringUtils

/-! ### What the handlers enqueue -/

/-- `MSG_IN_EXIT`, as `QuitCommand` passes it. -/
def exitRequest : Message := { Message.new with code := InputMessages.exit.code }

section

variable {h h' : ClientHandler} {m m' : Message}

lemma received_passMessage (h : ClientHandler) (m : Message) :
    (h.passMessage m).inputQueue.received = h.inputQueue.received ++ [m] := rfl

lemma passMessage_injective (heq : h.passMessage m = h.passMessage m') : m = m' := by
  have hreceived : h.inputQueue.received ++ [m] = h.inputQueue.received ++ [m'] :=
    congrArg (fun h => h.inputQueue.received) heq
  exact List.singleton_inj.1 (List.append_cancel_left hreceived)

lemma passMessage_ne (h : ClientHandler) (m : Message) : h.passMessage m ≠ h := by
  intro heq
  have hlen := congrArg (fun h => h.inputQueue.received.length) heq
  simp only [received_passMessage, List.length_append, List.length_singleton] at hlen
  omega

/-- A command enqueues one message, or none at all. -/
inductive Enqueues (h : ClientHandler) : ClientHandler → List Message → Prop where
  | nothing : Enqueues h h []
  | one (m : Message) : Enqueues h (h.passMessage m) [m]

lemma Enqueues.received {ms : List Message} (he : Enqueues h h' ms) :
    h'.inputQueue.received = h.inputQueue.received ++ ms ∧ ms.length ≤ 1 := by
  cases he with
  | nothing => exact ⟨(List.append_nil _).symm, Nat.zero_le _⟩
  | one m => exact ⟨received_passMessage h m, le_rfl⟩

/-- **A handler** that finds its tokens enqueues at most one message, and an exit message only if it is
the handler of `quit`. -/
theorem CommandName.handler_enqueues {name : CommandName} {subCommands : List Bytes}
    (hrun : name.handler h subCommands = some h') :
    (∃ ms, Enqueues h h' ms) ∧ (h' = h.passMessage exitRequest ↔ name = .quit) := by
  cases name with
  | quit =>
    obtain rfl := Option.some.inj hrun
    exact ⟨⟨_, .one exitRequest⟩, iff_of_true rfl rfl⟩
  | ping =>
    obtain rfl := Option.some.inj hrun
    refine ⟨⟨_, .one _⟩, iff_of_false ?_ (by decide)⟩
    intro heq
    exact absurd (passMessage_injective heq) (by decide)
  | reload =>
    obtain ⟨subCommand, -, rfl⟩ := Option.map_eq_some_iff.1 hrun
    unfold reloadCommand
    split
    · refine ⟨⟨_, .one _⟩, iff_of_false ?_ (by decide)⟩
      intro heq
      exact absurd (passMessage_injective heq) (by decide)
    · exact ⟨⟨_, .nothing⟩, iff_of_false (fun heq => passMessage_ne h _ heq.symm) (by decide)⟩

lemma CommandName.handler_eq_none {name : CommandName} {subCommands : List Bytes} :
    name.handler h subCommands = none ↔ name = .reload ∧ subCommands = [] := by
  cases name with
  | quit => exact iff_of_false (Option.some_ne_none _) (fun h => absurd h.1 (by decide))
  | ping => exact iff_of_false (Option.some_ne_none _) (fun h => absurd h.1 (by decide))
  | reload =>
    show subCommands.head?.map _ = none ↔ _
    rw [Option.map_eq_none_iff, List.head?_eq_none_iff]
    exact (and_iff_right rfl).symm

end

/-! ### The command by its name -/

/-- The line with the first token `token` is handled by names. -/
structure DispatchExact (line token : Bytes) : Prop where
  runs : ∀ name : CommandName,
    (∃ subCommands, dispatch line = some (.ran name subCommands)) ↔ token = name.text
  exits : ∀ h handled, handleCommand h line = some (handled, h.passMessage exitRequest) →
    token = ascii "quit"
  reported : (∀ name : CommandName, token ≠ name.text) →
    ∀ h, handleCommand h line = some (.unhandled (unhandledWarning line), h)

section

variable {line token : Bytes} {subCommands : List Bytes}

lemma CommandName.text_injective {a b : CommandName} (h : a.text = b.text) : a = b :=
  commandKey_injective (congrArg commandKey h)

lemma dispatchExact_of_name (hline : splitString line = token :: subCommands) {name : CommandName}
    (hname : token = name.text) : DispatchExact line token := by
  have hran : dispatch line = some (.ran name subCommands) :=
    (dispatch_eq_ran hline).2 (congrArg commandKey hname)
  refine ⟨?_, ?_, ?_⟩
  · intro name'
    rw [hran, hname]
    constructor
    · rintro ⟨sub, hsub⟩
      simp only [Option.some.injEq, Handled.ran.injEq] at hsub
      rw [hsub.1]
    · intro htext
      rw [CommandName.text_injective htext]
      exact ⟨_, rfl⟩
  · intro h handled hexit
    unfold handleCommand at hexit
    rw [hran, Option.bind_some] at hexit
    obtain ⟨h', hrun, heq⟩ := Option.map_eq_some_iff.1 hexit
    obtain rfl := (CommandName.handler_enqueues hrun).2.1 (Prod.mk.inj heq).2
    exact hname
  · intro hno
    exact absurd hname (hno name)

lemma dispatchExact_of_key (hline : splitString line = token :: subCommands)
    (hkey : ∀ name : CommandName, commandKey token ≠ commandKey name.text) :
    DispatchExact line token := by
  have hdispatch := (dispatch_eq_unhandled hline).2 hkey
  have hhandle : ∀ h, handleCommand h line = some (.unhandled (unhandledWarning line), h) := by
    intro h
    unfold handleCommand
    rw [hdispatch]
    rfl
  refine ⟨?_, ?_, fun _ => hhandle⟩
  · intro name
    apply iff_of_false
    · rintro ⟨sub, hsub⟩
      rw [hdispatch] at hsub
      exact absurd hsub (by simp)
    · rintro rfl
      exact hkey name rfl
  · intro h handled hexit
    rw [hhandle] at hexit
    have heq := (Prod.mk.inj (Option.some.inj hexit)).2
    exact absurd heq.symm (passMessage_ne h _)

/-- **When the command is chosen by its name.** -/
theorem dispatchExact_iff (hline : splitString line = token :: subCommands) :
    DispatchExact line token ↔
      (∃ name : CommandName, token = name.text) ∨
        ∀ name : CommandName, commandKey token ≠ commandKey name.text := by
  constructor
  · intro hexact
    by_cases hkey : ∃ name : CommandName, commandKey token = commandKey name.text
    · obtain ⟨name, hkey⟩ := hkey
      have hran := (dispatch_eq_ran hline).2 hkey
      exact Or.inl ⟨name, (hexact.runs name).1 ⟨_, hran⟩⟩
    · exact Or.inr (not_exists.1 hkey)
  · rintro (⟨name, hname⟩ | hkey)
    · exact dispatchExact_of_name hline hname
    · exact dispatchExact_of_key hline hkey

end

theorem dispatchExact_iff_reload :
    splitString (ascii "reload scripts") = [ascii "reload", ascii "scripts"] ∧
      DispatchExact (ascii "reload scripts") (ascii "reload") := by
  have hline : splitString (ascii "reload scripts") = [ascii "reload", ascii "scripts"] := by decide
  exact ⟨hline, (dispatchExact_iff hline).2 (Or.inl ⟨.reload, rfl⟩)⟩

/-- `soap` has the key of `quit`, and ends the client. -/
theorem soap_quits :
    ¬ ∀ (line token : Bytes) (subCommands : List Bytes),
      splitString line = token :: subCommands → DispatchExact line token := by
  intro h
  have hexact := h (ascii "soap") (ascii "soap") [] (by decide)
  have hname := (hexact.runs .quit).1 ⟨[], by decide⟩
  exact absurd hname (by decide)

/-! ### The tokens of a line -/

/-- Every token that is read for the line is there, and at most one message is enqueued for it. -/
def TokensInRange (line : Bytes) : Prop :=
  ∀ h : ClientHandler, ∃ handled h' ms, handleCommand h line = some (handled, h') ∧
    h'.inputQueue.received = h.inputQueue.received ++ ms ∧ ms.length ≤ 1

/-- The line is empty or has a token, and a single token does not have the key of `reload`. -/
structure HasTokens (line : Bytes) : Prop where
  notBlank : line = [] ∨ ∃ c ∈ line, isSpace c = false
  argument : ∀ token, splitString line = [token] → commandKey token ≠ commandKey (ascii "reload")

section

variable {line : Bytes}

lemma notBlank_iff : (line = [] ∨ ∃ c ∈ line, isSpace c = false) ↔ dispatch line ≠ none := by
  rw [Ne, dispatch_eq_none, not_and_or, not_not]
  simp only [not_forall, exists_prop, Bool.not_eq_true]

lemma Handled.exists_run {handled : Handled} (h : ClientHandler)
    (hreload : handled ≠ .ran .reload []) :
    ∃ h' ms, handled.run h = some h' ∧ Enqueues h h' ms := by
  cases handled with
  | nothing => exact ⟨h, [], rfl, .nothing⟩
  | unhandled warning => exact ⟨h, [], rfl, .nothing⟩
  | ran name subCommands =>
    cases hrun : name.handler h subCommands with
    | none =>
      obtain ⟨rfl, rfl⟩ := CommandName.handler_eq_none.1 hrun
      exact absurd rfl hreload
    | some h' =>
      obtain ⟨ms, hms⟩ := (CommandName.handler_enqueues hrun).1
      exact ⟨h', ms, hrun, hms⟩

lemma dispatch_eq_reload :
    dispatch line = some (.ran .reload []) ↔
      ∃ token, splitString line = [token] ∧ commandKey token = commandKey (ascii "reload") := by
  cases hs : splitString line with
  | nil =>
    apply iff_of_false
    · unfold dispatch
      rw [hs]
      split <;> simp
    · rintro ⟨token, htoken, -⟩
      exact List.cons_ne_nil _ _ htoken.symm
  | cons token subCommands =>
    constructor
    · intro hd
      obtain rfl := subCommands_of_ran hs hd
      exact ⟨token, rfl, (dispatch_eq_ran hs).1 hd⟩
    · rintro ⟨token', htoken, hkey⟩
      obtain ⟨rfl, rfl⟩ := List.cons.inj htoken
      exact (dispatch_eq_ran hs).2 hkey

/-- **When every token that is read exists.** -/
theorem tokensInRange_iff (line : Bytes) : TokensInRange line ↔ HasTokens line := by
  constructor
  · intro hrange
    obtain ⟨handled, h', ms, hhandle, -, -⟩ := hrange .new
    obtain ⟨handled', hdispatch, hrun⟩ := Option.bind_eq_some_iff.1 hhandle
    refine ⟨?_, ?_⟩
    · rw [notBlank_iff, hdispatch]
      exact Option.some_ne_none _
    · intro token htoken hkey
      rw [dispatch_eq_reload.2 ⟨token, htoken, hkey⟩] at hdispatch
      obtain rfl := Option.some.inj hdispatch
      exact absurd hrun (by simp [Handled.run, CommandName.handler])
  · rintro ⟨hblank, hargument⟩ h
    obtain ⟨handled, hdispatch⟩ := Option.ne_none_iff_exists'.1 (notBlank_iff.1 hblank)
    have hreload : handled ≠ .ran .reload [] := by
      rintro rfl
      obtain ⟨token, htoken, hkey⟩ := dispatch_eq_reload.1 hdispatch
      exact hargument token htoken hkey
    obtain ⟨h', ms, hrun, hms⟩ := Handled.exists_run h hreload
    refine ⟨handled, h', ms, ?_, hms.received⟩
    unfold handleCommand
    rw [hdispatch, Option.bind_some, hrun, Option.map_some]

end

/-- A blank that is followed by nothing. -/
theorem blank_line_out_of_range : ¬ ∀ line : Bytes, TokensInRange line := by
  intro h
  obtain ⟨handled, h', ms, hhandle, -, -⟩ := h (ascii " ") .new
  have hnone : dispatch (ascii " ") = none := by decide
  unfold handleCommand at hhandle
  rw [hnone] at hhandle
  exact absurd hhandle (by simp)

/-! ### The two tests for quitting -/

namespace Program

/-- The main thread handles the line and does not start to read another one. -/
def StopsReading (p : Program) (line : Bytes) : Prop :=
  ∃ p', p.textStep line = some p' ∧ p'.futureAvailable = false

/-- The main thread handles the line and passes the exit message for it. -/
def PassesExit (p : Program) (line : Bytes) : Prop :=
  ∃ p', p.textStep line = some p' ∧ p'.handler = p.handler.passMessage exitRequest

variable {p : Program} {line : Bytes}

lemma textStep_eq_some (hmain : p.main = .console) (hfuture : p.futureAvailable = true)
    {p' : Program} :
    p.textStep line = some p' ↔ ∃ handled h', dispatch (line.map toLower) = some handled ∧
      handled.run p.handler = some h' ∧
      p' = { p with
        handler := h'
        futureAvailable := decide (line.map toLower ≠ ascii "quit")
        main := .drain } := by
  unfold textStep
  rw [if_pos ⟨hmain, hfuture⟩]
  generalize line.map toLower = command
  simp only [handleCommand, Option.map_eq_some_iff, Option.bind_eq_some_iff]
  constructor
  · rintro ⟨r, ⟨handled, hdispatch, h', hrun, rfl⟩, rfl⟩
    exact ⟨handled, h', hdispatch, hrun, rfl⟩
  · rintro ⟨handled, h', hdispatch, hrun, rfl⟩
    exact ⟨(handled, h'), ⟨handled, hdispatch, h', hrun, rfl⟩, rfl⟩

lemma stopsReading_iff (hmain : p.main = .console) (hfuture : p.futureAvailable = true) :
    p.StopsReading line ↔ line.map toLower = ascii "quit" := by
  unfold StopsReading
  simp only [textStep_eq_some hmain hfuture]
  constructor
  · rintro ⟨p', ⟨handled, h', -, -, rfl⟩, hstop⟩
    exact not_not.1 (of_decide_eq_false hstop)
  · intro hquit
    rw [hquit]
    refine ⟨_, ⟨.ran .quit [], _, by decide, rfl, rfl⟩, ?_⟩
    show decide (ascii "quit" ≠ ascii "quit") = false
    decide

lemma passesExit_iff (hmain : p.main = .console) (hfuture : p.futureAvailable = true) :
    p.PassesExit line ↔ ∃ subCommands, dispatch (line.map toLower) = some (.ran .quit subCommands) := by
  unfold PassesExit
  simp only [textStep_eq_some hmain hfuture]
  constructor
  · rintro ⟨p', ⟨handled, h', hdispatch, hrun, rfl⟩, hexit⟩
    cases handled with
    | nothing =>
      obtain rfl := Option.some.inj hrun
      exact absurd hexit.symm (passMessage_ne _ _)
    | unhandled warning =>
      obtain rfl := Option.some.inj hrun
      exact absurd hexit.symm (passMessage_ne _ _)
    | ran name subCommands =>
      obtain rfl := (CommandName.handler_enqueues hrun).2.1 hexit
      exact ⟨subCommands, hdispatch⟩
  · rintro ⟨subCommands, hdispatch⟩
    exact ⟨_, ⟨_, _, hdispatch, rfl, rfl⟩, rfl⟩

/-- **When the two tests agree.** -/
theorem quitTests_iff (hmain : p.main = .console) (hfuture : p.futureAvailable = true)
    (line : Bytes) :
    (p.StopsReading line ↔ p.PassesExit line) ↔
      line.map toLower = ascii "quit" ∨
        ∀ token subCommands, splitString (line.map toLower) = token :: subCommands →
          commandKey token ≠ commandKey (ascii "quit") := by
  rw [stopsReading_iff hmain hfuture, passesExit_iff hmain hfuture]
  generalize line.map toLower = command
  by_cases hquit : command = ascii "quit"
  · subst hquit
    exact iff_of_true (iff_of_true rfl ⟨[], by decide⟩) (Or.inl rfl)
  · rw [iff_false_left hquit, or_iff_right hquit]
    constructor
    · intro hno token subCommands hs hkey
      exact hno ⟨subCommands, (dispatch_eq_ran hs).2 hkey⟩
    · rintro hno ⟨sub, hdispatch⟩
      cases hs : splitString command with
      | nil =>
        unfold dispatch at hdispatch
        rw [hs] at hdispatch
        split at hdispatch <;> simp at hdispatch
      | cons token subCommands =>
        obtain rfl := subCommands_of_ran hs hdispatch
        exact hno token _ hs ((dispatch_eq_ran hs).1 hdispatch)

/-- The client waits at the console. -/
def atConsole : Program := { start with main := .console }

theorem quitTests_iff_ping :
    (atConsole.main = .console ∧ atConsole.futureAvailable = true) ∧
      (atConsole.StopsReading (ascii "ping") ↔ atConsole.PassesExit (ascii "ping")) := by
  refine ⟨⟨rfl, rfl⟩, (quitTests_iff rfl rfl (ascii "ping")).2 (Or.inr ?_)⟩
  intro token subCommands hs
  have hping : splitString ((ascii "ping").map toLower) = [ascii "ping"] := by decide
  rw [hping] at hs
  obtain ⟨rfl, rfl⟩ := List.cons.inj hs
  decide

/-- `quit` with a blank behind it ends the client, and the main thread waits for another line. -/
theorem quit_blank_disagrees :
    ¬ ∀ (p : Program) (line : Bytes), p.main = .console → p.futureAvailable = true →
      (p.StopsReading line ↔ p.PassesExit line) := by
  intro h
  have hagree := h atConsole (ascii "quit ") rfl rfl
  have hpasses : atConsole.PassesExit (ascii "quit ") :=
    (passesExit_iff rfl rfl).2 ⟨[], by decide⟩
  have hstops := (stopsReading_iff rfl rfl).1 (hagree.2 hpasses)
  exact absurd hstops (by decide)

end Program

end NovusHeadless
