import NovusHeadless.Lib.Transition
import NovusHeadless.Console.ClientHandler

/-!
# Pings and the exit

Whatever the console passes and however the two threads are scheduled, the main thread takes one
`PONG!` for every ping passed before the first exit, then the confirmation of the exit, and leaves.

* `PingExit` — the property of a state;
* `RunInv`, `MainInv` — what the places of the two threads say about the two queues;
* `passed_run` — what has been passed in a run is what the lines of the console say;
* `pingExit` — the property holds in every state of every run;
* `printed_run` — what is printed in a run up to its end, by the lines of the console.
-/

namespace NovusHeadless

open Lib

namespace Program

/-! ### What is owed -/

/-- One answer for every ping. -/
def pongs (ms : List Message) : List Message :=
  (ms.filter fun m => decide (m.code = InputMessages.ping.code)).map fun _ => pongMessage

def beforeExit (ms : List Message) : List Message :=
  ms.takeWhile fun m => decide (m.code ≠ InputMessages.exit.code)

/-- The answers to what has been passed before the first exit. -/
def answers (ms : List Message) : List Message := pongs (beforeExit ms)

/-- The texts of messages that are printed. -/
def texts (ms : List Message) : List String := ms.filterMap Message.message

def NoExit (ms : List Message) : Prop := ∀ m ∈ ms, m.code ≠ InputMessages.exit.code

/-- An exit has been passed. -/
def ExitPassed (p : Program) : Prop := ∃ m ∈ p.passed, m.code = InputMessages.exit.code

/-- The property.  `ends`: an exit that has been passed can always be brought to the end of the main
thread. -/
structure PingExit (p : Program) : Prop where
  taken : p.taken <+: answers p.passed ++ [exitMessage]
  produced : p.produced <+: answers p.passed ++ [exitMessage]
  left : p.main = .left →
    p.taken = answers p.passed ++ [exitMessage] ∧ p.printed = texts (answers p.passed)
  ends : p.ExitPassed → ∃ actions p', Lib.run step p actions = some p' ∧ p'.main = .left

section

variable {ms rest : List Message} {m : Message}

lemma pongs_append (ms rest : List Message) : pongs (ms ++ rest) = pongs ms ++ pongs rest := by
  unfold pongs
  rw [List.filter_append, List.map_append]

lemma pongs_ping (h : m.code = InputMessages.ping.code) : pongs (ms ++ [m]) = pongs ms ++ [pongMessage] := by
  rw [pongs_append]
  unfold pongs
  simp [h]

lemma pongs_not_ping (h : m.code ≠ InputMessages.ping.code) : pongs (ms ++ [m]) = pongs ms := by
  rw [pongs_append]
  unfold pongs
  simp [h]

lemma eq_pong_of_mem (h : m ∈ pongs ms) : m = pongMessage := by
  unfold pongs at h
  rw [List.mem_map] at h
  obtain ⟨_, -, rfl⟩ := h
  rfl

lemma exit_ne_pong : exitMessage ≠ pongMessage := by decide

lemma exit_notMem_pongs (ms : List Message) : exitMessage ∉ pongs ms := by
  intro h
  exact exit_ne_pong (eq_pong_of_mem h)

lemma NoExit.append_singleton (h : NoExit ms) (hm : m.code ≠ InputMessages.exit.code) :
    NoExit (ms ++ [m]) := by
  intro x hx
  rcases List.mem_append.1 hx with hx | hx
  · exact h x hx
  · rw [List.mem_singleton.1 hx]
    exact hm

lemma beforeExit_append (h : NoExit ms) (rest : List Message) :
    beforeExit (ms ++ rest) = ms ++ beforeExit rest := by
  unfold beforeExit
  apply List.takeWhile_append_of_pos
  intro m hm
  exact decide_eq_true (h m hm)

lemma beforeExit_exit (h : m.code = InputMessages.exit.code) (rest : List Message) :
    beforeExit (m :: rest) = [] := by
  unfold beforeExit
  rw [List.takeWhile_cons_of_neg]
  simp [h]

/-- What has been handled without an exit has been answered by a part of the answers. -/
lemma pongs_le_answers (h : NoExit ms) (hms : ms <+: rest) : pongs ms <+: answers rest := by
  obtain ⟨later, rfl⟩ := hms
  unfold answers
  rw [beforeExit_append h, pongs_append]
  exact List.prefix_append _ _

/-- The answers are complete at the first exit. -/
lemma pongs_eq_answers (h : NoExit ms) (hm : m.code = InputMessages.exit.code)
    (hms : ms ++ [m] <+: rest) : pongs ms = answers rest := by
  obtain ⟨later, rfl⟩ := hms
  unfold answers
  rw [List.append_assoc, List.singleton_append, beforeExit_append h, beforeExit_exit hm,
    List.append_nil]

end

/-! ### The client thread -/

/-- What a place of the client thread says about the messages that have been taken out of the input
queue and the messages that have been put into the output queue. -/
def RunInv : RunPc → List Message → List Message → Prop
  | .handle m, handled, produced =>
    ∃ ms, handled = ms ++ [m] ∧ NoExit ms ∧ produced = pongs ms
  | .exiting, handled, produced =>
    ∃ ms m, handled = ms ++ [m] ∧ NoExit ms ∧ m.code = InputMessages.exit.code ∧ produced = pongs ms
  | .ended, handled, produced =>
    ∃ ms m, handled = ms ++ [m] ∧ NoExit ms ∧ m.code = InputMessages.exit.code ∧
      produced = pongs ms ++ [exitMessage]
  | _, handled, produced => NoExit handled ∧ produced = pongs handled

section

variable {h h' : ClientHandler} {pc pc' : RunPc} {m : Message}

lemma runInv_updateBody (hinv : RunInv (.handle m) h.inputQueue.taken h.outputQueue.received)
    (hstep : h.updateBody m = some (pc', h')) :
    RunInv pc' h'.inputQueue.taken h'.outputQueue.received ∧
      h'.inputQueue = h.inputQueue ∧ h'.outputQueue.taken = h.outputQueue.taken := by
  obtain ⟨ms, hhandled, hno, hproduced⟩ := hinv
  unfold ClientHandler.updateBody at hstep
  by_cases hcode : m.code = -1
  · rw [if_pos hcode] at hstep
    exact absurd hstep (by simp)
  rw [if_neg hcode] at hstep
  by_cases hexit : m.code = InputMessages.exit.code
  · rw [if_pos hexit] at hstep
    obtain ⟨rfl, rfl⟩ := Prod.mk.inj (Option.some.inj hstep)
    exact ⟨⟨ms, m, hhandled, hno, hexit, hproduced⟩, rfl, rfl⟩
  rw [if_neg hexit] at hstep
  have hno' : NoExit h.inputQueue.taken := by
    rw [hhandled]
    exact hno.append_singleton hexit
  by_cases hping : m.code = InputMessages.ping.code
  · have hreload : m.code ≠ InputMessages.reloadScripts.code := by
      rw [hping]
      decide
    simp only [if_pos hping, if_neg hreload] at hstep
    obtain ⟨rfl, rfl⟩ := Prod.mk.inj (Option.some.inj hstep)
    refine ⟨⟨hno', ?_⟩, rfl, Fifo.taken_push _ _⟩
    show h.outputQueue.received ++ [pongMessage] = pongs h.inputQueue.taken
    rw [hhandled, pongs_ping hping, hproduced]
  · have hproduced' : h.outputQueue.received = pongs h.inputQueue.taken := by
      rw [hhandled, pongs_not_ping hping, hproduced]
    simp only [if_neg hping] at hstep
    split at hstep
    · obtain ⟨rfl, rfl⟩ := Prod.mk.inj (Option.some.inj hstep)
      exact ⟨⟨hno', hproduced'⟩, rfl, rfl⟩
    · obtain ⟨rfl, rfl⟩ := Prod.mk.inj (Option.some.inj hstep)
      exact ⟨⟨hno', hproduced'⟩, rfl, rfl⟩

/-- **A step of the client thread.** -/
theorem runInv_runStep (hinv : RunInv pc h.inputQueue.taken h.outputQueue.received)
    (hstep : h.runStep pc = some (pc', h')) :
    RunInv pc' h'.inputQueue.taken h'.outputQueue.received ∧
      h'.inputQueue.received = h.inputQueue.received ∧
      h'.outputQueue.taken = h.outputQueue.taken := by
  cases pc with
  | loading | reloading | wait =>
    obtain ⟨rfl, rfl⟩ := Prod.mk.inj (Option.some.inj hstep)
    exact ⟨hinv, rfl, rfl⟩
  | update =>
    unfold ClientHandler.runStep at hstep
    cases hpop : h.inputQueue.tryPop with
    | none =>
      simp only [hpop] at hstep
      obtain ⟨rfl, rfl⟩ := Prod.mk.inj (Option.some.inj hstep)
      exact ⟨hinv, rfl, rfl⟩
    | some r =>
      obtain ⟨m, q⟩ := r
      simp only [hpop] at hstep
      obtain ⟨rfl, rfl⟩ := Prod.mk.inj (Option.some.inj hstep)
      obtain ⟨-, htaken, hreceived⟩ := Fifo.tryPop_eq_some hpop
      exact ⟨⟨h.inputQueue.taken, htaken, hinv.1, hinv.2⟩, hreceived, rfl⟩
  | handle m =>
    obtain ⟨hinv', hin, hout⟩ := runInv_updateBody hinv hstep
    exact ⟨hinv', by rw [hin], hout⟩
  | exiting =>
    obtain ⟨rfl, rfl⟩ := Prod.mk.inj (Option.some.inj hstep)
    obtain ⟨ms, m, hhandled, hno, hexit, hproduced⟩ := hinv
    refine ⟨⟨ms, m, hhandled, hno, hexit, ?_⟩, rfl, Fifo.taken_push _ _⟩
    show h.outputQueue.received ++ [exitMessage] = _
    rw [hproduced]
  | ended => exact absurd hstep (by simp [ClientHandler.runStep])

end

section

variable {pc : RunPc} {handled produced passed : List Message}

/-- Nothing is produced but what is owed. -/
lemma RunInv.owed (h : RunInv pc handled produced) (hp : handled <+: passed) :
    produced <+: answers passed ++ [exitMessage] := by
  have hpart : ∀ ms, NoExit ms → ms <+: passed → pongs ms <+: answers passed ++ [exitMessage] := by
    intro ms hno hms
    exact (pongs_le_answers hno hms).trans (List.prefix_append _ _)
  cases pc with
  | handle m =>
    obtain ⟨ms, rfl, hno, rfl⟩ := h
    exact hpart ms hno ((List.prefix_append _ _).trans hp)
  | exiting =>
    obtain ⟨ms, m, rfl, hno, -, rfl⟩ := h
    exact hpart ms hno ((List.prefix_append _ _).trans hp)
  | ended =>
    obtain ⟨ms, m, rfl, hno, hexit, rfl⟩ := h
    rw [pongs_eq_answers hno hexit hp]
  | _ =>
    obtain ⟨hno, rfl⟩ := h
    exact hpart handled hno hp

/-- The confirmation is the last of what is owed. -/
lemma RunInv.of_exit_mem (h : RunInv pc handled produced) (hp : handled <+: passed)
    (hmem : exitMessage ∈ produced) : pc = .ended ∧ produced = answers passed ++ [exitMessage] := by
  cases pc with
  | handle m =>
    obtain ⟨ms, -, -, rfl⟩ := h
    exact absurd hmem (exit_notMem_pongs ms)
  | exiting =>
    obtain ⟨ms, m, -, -, -, rfl⟩ := h
    exact absurd hmem (exit_notMem_pongs ms)
  | ended =>
    obtain ⟨ms, m, rfl, hno, hexit, rfl⟩ := h
    exact ⟨rfl, by rw [pongs_eq_answers hno hexit hp]⟩
  | _ =>
    obtain ⟨-, rfl⟩ := h
    exact absurd hmem (exit_notMem_pongs handled)

lemma RunInv.mem (h : RunInv pc handled produced) {m : Message} (hm : m ∈ produced) :
    m = pongMessage ∨ m = exitMessage := by
  have hpart := h.owed (List.prefix_refl handled)
  rcases List.mem_append.1 (hpart.subset hm) with hm | hm
  · exact .inl (eq_pong_of_mem hm)
  · exact .inr (List.mem_singleton.1 hm)

end

/-! ### The main thread -/

/-- What a place of the main thread says about the messages that it has taken and the texts that it has
printed. -/
def MainInv : MainPc → List Message → List String → Prop
  | .took m, taken, printed => ∃ ms, taken = ms ++ [m] ∧ exitMessage ∉ ms ∧ printed = texts ms
  | .left, taken, printed =>
    ∃ ms, taken = ms ++ [exitMessage] ∧ exitMessage ∉ ms ∧ printed = texts ms
  | _, taken, printed => exitMessage ∉ taken ∧ printed = texts taken

lemma texts_append (ms : List Message) (m : Message) :
    texts (ms ++ [m]) = texts ms ++ m.message.toList := by
  unfold texts
  rw [List.filterMap_append]
  cases hm : m.message <;> simp [hm]

/-- The invariant of the two threads. -/
structure Inv (p : Program) : Prop where
  run : RunInv p.run p.handler.inputQueue.taken p.produced
  main : MainInv p.main p.taken p.printed
  codes : ∀ m ∈ p.passed, m.code ≠ -1

lemma inv_start : Inv start where
  run := ⟨fun _ hm => absurd hm List.not_mem_nil, rfl⟩
  main := ⟨List.not_mem_nil, rfl⟩
  codes := fun _ hm => absurd hm List.not_mem_nil

lemma mem_of_concat {xs ys part : List Message} {m : Message} (h : xs <+: ys)
    (hlast : xs = part ++ [m]) : m ∈ ys := by
  apply h.subset
  rw [hlast]
  exact List.mem_append_right _ (List.mem_singleton.2 rfl)

section

variable {p p' : Program}

lemma inv_client (hinv : Inv p) (hstep : p.step .client = some p') : Inv p' := by
  unfold step at hstep
  rw [Option.map_eq_some_iff] at hstep
  obtain ⟨⟨pc', h'⟩, hrun, rfl⟩ := hstep
  obtain ⟨hrun', hreceived, htaken⟩ := runInv_runStep hinv.run hrun
  refine ⟨hrun', ?_, ?_⟩
  · show MainInv p.main h'.outputQueue.taken p.printed
    rw [htaken]
    exact hinv.main
  · show ∀ m ∈ h'.inputQueue.received, m.code ≠ -1
    rw [hreceived]
    exact hinv.codes

lemma inv_mainBody {m : Message} (hinv : Inv p) (hpc : p.main = .took m)
    (hstep : p.mainBody m = some p') : Inv p' := by
  have hmain := hinv.main
  rw [hpc] at hmain
  obtain ⟨ms, htaken, hno, hprinted⟩ := hmain
  have hmem : m ∈ p.produced := mem_of_concat p.handler.outputQueue.taken_prefix htaken
  rcases hinv.run.mem hmem with rfl | rfl
  · -- an answer is printed
    obtain rfl : { p with main := .drain, printed := p.printed ++ ["PONG!"] } = p' :=
      Option.some.inj hstep
    refine ⟨hinv.run, ⟨?_, ?_⟩, hinv.codes⟩
    · show exitMessage ∉ p.taken
      rw [htaken, List.mem_append, List.mem_singleton]
      rintro (h | h)
      · exact hno h
      · exact exit_ne_pong h
    · show p.printed ++ ["PONG!"] = texts p.taken
      rw [htaken, texts_append, hprinted]
      rfl
  · obtain rfl : { p with main := .left } = p' := Option.some.inj hstep
    exact ⟨hinv.run, ⟨ms, htaken, hno, hprinted⟩, hinv.codes⟩

lemma inv_main (hinv : Inv p) (hstep : p.step .main = some p') : Inv p' := by
  have hmain := hinv.main
  have hstep' : p.mainStep = some p' := hstep
  unfold mainStep at hstep'
  cases hpc : p.main with
  | drain =>
    rw [hpc] at hmain
    simp only [hpc] at hstep'
    cases hpop : p.handler.outputQueue.tryPop with
    | none =>
      have htry : p.handler.tryGetMessage = none := by
        unfold ClientHandler.tryGetMessage
        rw [hpop]
        rfl
      rw [htry] at hstep'
      obtain rfl := Option.some.inj hstep'
      exact ⟨hinv.run, hmain, hinv.codes⟩
    | some r =>
      obtain ⟨m, q⟩ := r
      have htry : p.handler.tryGetMessage = some (m, { p.handler with outputQueue := q }) := by
        unfold ClientHandler.tryGetMessage
        rw [hpop]
        rfl
      rw [htry] at hstep'
      obtain rfl := Option.some.inj hstep'
      obtain ⟨-, htaken, hreceived⟩ := Fifo.tryPop_eq_some hpop
      refine ⟨?_, ⟨p.taken, htaken, hmain.1, hmain.2⟩, hinv.codes⟩
      show RunInv p.run p.handler.inputQueue.taken q.received
      rw [hreceived]
      exact hinv.run
  | took m =>
    simp only [hpc] at hstep'
    exact inv_mainBody hinv hpc hstep'
  | console =>
    rw [hpc] at hmain
    simp only [hpc] at hstep'
    obtain rfl := Option.some.inj hstep'
    exact ⟨hinv.run, hmain, hinv.codes⟩
  | left =>
    simp only [hpc] at hstep'
    exact absurd hstep' (by simp)

lemma inputQueue_mainStep (hstep : p.step .main = some p') :
    p'.handler.inputQueue = p.handler.inputQueue := by
  have hstep' : p.mainStep = some p' := hstep
  unfold mainStep at hstep'
  split at hstep'
  · split at hstep'
    · obtain rfl := Option.some.inj hstep'
      rfl
    · rename_i m h htry
      obtain rfl := Option.some.inj hstep'
      obtain ⟨r, -, hr⟩ := Option.map_eq_some_iff.1 htry
      obtain ⟨-, rfl⟩ := Prod.mk.inj hr
      rfl
  · unfold mainBody at hstep'
    split_ifs at hstep'
    · obtain rfl := Option.some.inj hstep'
      rfl
    · obtain ⟨text, -, rfl⟩ := Option.map_eq_some_iff.1 hstep'
      rfl
    · obtain rfl := Option.some.inj hstep'
      rfl
  · obtain rfl := Option.some.inj hstep'
    rfl
  · exact absurd hstep' (by simp)

lemma line_eq {line : ConsoleLine} (hstep : p.step (.line line) = some p') :
    p.main = .console ∧ p' = { p with
      handler := line.message.elim p.handler p.handler.passMessage
      futureAvailable := !line.isQuit
      main := .drain } := by
  have hstep' : p.lineStep line = some p' := hstep
  unfold lineStep at hstep'
  rw [Option.ite_none_right_eq_some] at hstep'
  obtain ⟨⟨hpc, -⟩, hstep'⟩ := hstep'
  refine ⟨hpc, ?_⟩
  have hhandler : (line.command.elim id Command.handler) p.handler =
      line.message.elim p.handler p.handler.passMessage := by
    unfold ConsoleLine.message
    cases line.command with
    | none => rfl
    | some command => exact command.handler_eq_message p.handler
  rw [← Option.some.inj hstep', hhandler]

/-- **What a line adds** to what has been passed: the message of its command, if it has one. -/
theorem passed_line {line : ConsoleLine} (hstep : p.step (.line line) = some p') :
    p'.passed = p.passed ++ line.message.toList := by
  obtain ⟨-, rfl⟩ := line_eq hstep
  unfold passed
  cases line.message with
  | none => exact (List.append_nil _).symm
  | some m => rfl

lemma inv_line {line : ConsoleLine} (hinv : Inv p) (hstep : p.step (.line line) = some p') :
    Inv p' := by
  have hpassed := passed_line hstep
  obtain ⟨hpc, rfl⟩ := line_eq hstep
  have hmain := hinv.main
  rw [hpc] at hmain
  cases hmessage : line.message with
  | none => exact ⟨hinv.run, hmain, hinv.codes⟩
  | some m =>
    refine ⟨?_, hmain, ?_⟩
    · show RunInv p.run (p.handler.inputQueue.push [m]).taken p.produced
      rw [Fifo.taken_push]
      exact hinv.run
    · intro x hx
      rw [hmessage] at hpassed
      rw [hpassed] at hx
      rcases List.mem_append.1 hx with hx | hx
      · exact hinv.codes x hx
      · rw [List.mem_singleton.1 hx]
        exact line.code_message hmessage

/-- **The invariant** is kept by every step. -/
theorem inv_step {action : Action} (hinv : Inv p) (hstep : p.step action = some p') : Inv p' := by
  cases action with
  | client => exact inv_client hinv hstep
  | main => exact inv_main hinv hstep
  | line line => exact inv_line hinv hstep

/-- Only a line adds to what has been passed. -/
lemma passed_step {action : Action} (hinv : Inv p) (hstep : p.step action = some p') :
    p'.passed = p.passed ++ action.message.toList := by
  cases action with
  | client =>
    obtain ⟨⟨pc', h'⟩, hrun, rfl⟩ := Option.map_eq_some_iff.1 hstep
    obtain ⟨-, hreceived, -⟩ := runInv_runStep hinv.run hrun
    exact hreceived.trans (List.append_nil _).symm
  | main =>
    have hin := inputQueue_mainStep hstep
    unfold passed
    rw [hin]
    exact (List.append_nil _).symm
  | line line => exact passed_line hstep

lemma passed_of_run {q : Program} {actions : List Action} (hinv : Inv q)
    (hrun : Lib.run step q actions = some p) :
    p.passed = q.passed ++ actions.filterMap Action.message := by
  induction actions generalizing q with
  | nil =>
    obtain rfl := Option.some.inj hrun
    exact (List.append_nil _).symm
  | cons action actions ih =>
    obtain ⟨t, ht, hrun⟩ := run_cons_eq_some.1 hrun
    rw [ih (inv_step hinv ht) hrun, passed_step hinv ht, List.append_assoc]
    cases hmessage : action.message with
    | none => rw [List.filterMap_cons_none hmessage, Option.toList_none, List.nil_append]
    | some m => rw [List.filterMap_cons_some hmessage, Option.toList_some, List.singleton_append]

/-- **What has been passed** in a run is what its lines say. -/
theorem passed_run {actions : List Action} (hrun : Lib.run step start actions = some p) :
    p.passed = actions.filterMap Action.message :=
  passed_of_run inv_start hrun

end

/-! ### The end of the program -/

/-- How far a place of the client thread is from the loop condition of `Update`. -/
def RunPc.distance : RunPc → ℕ
  | .handle _ => 2
  | .loading | .reloading | .wait | .exiting => 1
  | .update | .ended => 0

/-- How far a place of the main thread is from the condition of the inner loop. -/
def MainPc.distance : MainPc → ℕ
  | .took _ | .console => 1
  | .drain | .left => 0

/-- What the client thread has left to do. -/
def clientWork (pc : RunPc) (h : ClientHandler) : ℕ :=
  4 * h.inputQueue.content.length + RunPc.distance pc

/-- What the two threads have left to do; an answer costs the main thread two steps. -/
def work (p : Program) : ℕ :=
  3 * clientWork p.run p.handler +
    (2 * p.handler.outputQueue.content.length + MainPc.distance p.main)

section

variable {p : Program} {h : ClientHandler} {pc : RunPc}

lemma length_content_enqueueOutput (h : ClientHandler) (m : Message) :
    (h.enqueueOutput m).outputQueue.content.length = h.outputQueue.content.length + 1 := by
  show (h.outputQueue.push [m]).content.length = _
  rw [Fifo.content_push, List.length_append]
  rfl

lemma exists_updateBody {m : Message} (hcode : m.code ≠ -1) :
    ∃ pc' h', h.updateBody m = some (pc', h') ∧ RunPc.distance pc' ≤ 1 ∧
      h'.inputQueue = h.inputQueue ∧
      h'.outputQueue.content.length ≤ h.outputQueue.content.length + 1 := by
  have hpong := (length_content_enqueueOutput h pongMessage).le
  unfold ClientHandler.updateBody
  rw [if_neg hcode]
  split_ifs
  · exact ⟨_, _, rfl, le_rfl, rfl, Nat.le_succ _⟩
  · exact ⟨_, _, rfl, le_rfl, rfl, hpong⟩
  · exact ⟨_, _, rfl, Nat.zero_le _, rfl, hpong⟩
  · exact ⟨_, _, rfl, le_rfl, rfl, Nat.le_succ _⟩
  · exact ⟨_, _, rfl, Nat.zero_le _, rfl, Nat.le_succ _⟩

lemma exists_content (hno : NoExit h.inputQueue.taken)
    (hexit : ∃ m ∈ h.inputQueue.received, m.code = InputMessages.exit.code) :
    ∃ m ms, h.inputQueue.content = m :: ms := by
  obtain ⟨m, hm, hcode⟩ := hexit
  rw [← h.inputQueue.taken_append_content, List.mem_append] at hm
  rcases hm with hm | hm
  · exact absurd hcode (hno m hm)
  · exact List.exists_cons_of_ne_nil (List.ne_nil_of_mem hm)

/-- The client thread always has a step that leaves it less to do, up to its end. -/
lemma exists_runStep (hinv : RunInv pc h.inputQueue.taken h.outputQueue.received)
    (hexit : ∃ m ∈ h.inputQueue.received, m.code = InputMessages.exit.code)
    (hcodes : ∀ m ∈ h.inputQueue.received, m.code ≠ -1) (hpc : pc ≠ .ended) :
    ∃ pc' h', h.runStep pc = some (pc', h') ∧ clientWork pc' h' < clientWork pc h ∧
      h'.outputQueue.content.length ≤ h.outputQueue.content.length + 1 := by
  cases pc with
  | loading | reloading | wait =>
    refine ⟨.update, h, rfl, ?_, Nat.le_succ _⟩
    show 4 * h.inputQueue.content.length + 0 < 4 * h.inputQueue.content.length + 1
    omega
  | update =>
    obtain ⟨m, ms, hcontent⟩ := exists_content hinv.1 hexit
    obtain ⟨q, hpop, hq⟩ := Fifo.exists_tryPop hcontent
    refine ⟨.handle m, { h with inputQueue := q }, ?_, ?_, Nat.le_succ _⟩
    · unfold ClientHandler.runStep
      rw [hpop]
    · show 4 * q.content.length + 2 < 4 * h.inputQueue.content.length + 0
      rw [hcontent, hq, List.length_cons]
      omega
  | handle m =>
    obtain ⟨ms, hhandled, -, -⟩ := hinv
    have hmem : m ∈ h.inputQueue.received := mem_of_concat h.inputQueue.taken_prefix hhandled
    obtain ⟨pc', h', hbody, hdist, hin, hout⟩ := exists_updateBody (h := h) (hcodes m hmem)
    refine ⟨pc', h', hbody, ?_, hout⟩
    unfold clientWork
    rw [hin]
    have hhandle : RunPc.distance (.handle m) = 2 := rfl
    omega
  | exiting =>
    refine ⟨.ended, h.enqueueOutput exitMessage, rfl, ?_,
      (length_content_enqueueOutput h exitMessage).le⟩
    show 4 * h.inputQueue.content.length + 0 < 4 * h.inputQueue.content.length + 1
    omega
  | ended => exact absurd rfl hpc

/-- When the client thread has ended, the main thread has a step that leaves it less to do. -/
lemma exists_mainStep (hinv : Inv p) (hpc : p.run = .ended) (hmain : p.main ≠ .left) :
    ∃ p', p.mainStep = some p' ∧ p'.run = p.run ∧
      p'.handler.inputQueue = p.handler.inputQueue ∧
      2 * p'.handler.outputQueue.content.length + MainPc.distance p'.main <
        2 * p.handler.outputQueue.content.length + MainPc.distance p.main := by
  have hrun := hinv.run
  have htaken := hinv.main
  rw [hpc] at hrun
  obtain ⟨ms, m, -, -, -, hproduced⟩ := hrun
  unfold mainStep
  cases hm : p.main with
  | drain =>
    rw [hm] at htaken
    have hmem : exitMessage ∈ p.handler.outputQueue.received :=
      mem_of_concat (List.prefix_refl _) hproduced
    rw [← Fifo.taken_append_content, List.mem_append] at hmem
    have hcontent : p.handler.outputQueue.content ≠ [] := by
      rcases hmem with hmem | hmem
      · exact absurd hmem htaken.1
      · exact List.ne_nil_of_mem hmem
    obtain ⟨x, xs, hcons⟩ := List.exists_cons_of_ne_nil hcontent
    obtain ⟨q, hpop, hq⟩ := Fifo.exists_tryPop hcons
    refine ⟨{ p with handler := { p.handler with outputQueue := q }, main := .took x }, ?_, rfl, rfl,
      ?_⟩
    · simp only [ClientHandler.tryGetMessage, hpop, Option.map_some]
    · show 2 * q.content.length + 1 < 2 * p.handler.outputQueue.content.length + 0
      rw [hcons, hq, List.length_cons]
      omega
  | took x =>
    rw [hm] at htaken
    obtain ⟨taken, htaken, -, -⟩ := htaken
    have hmem : x ∈ p.produced := mem_of_concat p.handler.outputQueue.taken_prefix htaken
    have hlt : 2 * p.handler.outputQueue.content.length + 0 <
        2 * p.handler.outputQueue.content.length + 1 := by omega
    rcases hinv.run.mem hmem with rfl | rfl
    · exact ⟨{ p with main := .drain, printed := p.printed ++ ["PONG!"] }, rfl, rfl, rfl, hlt⟩
    · exact ⟨{ p with main := .left }, rfl, rfl, rfl, hlt⟩
  | console =>
    refine ⟨{ p with main := .drain }, rfl, rfl, rfl, ?_⟩
    show 2 * p.handler.outputQueue.content.length + 0 <
      2 * p.handler.outputQueue.content.length + 1
    omega
  | left => exact absurd hm hmain

/-- **Progress.**  Behind the passing of an exit there is always a step towards the end of the main
thread. -/
theorem progress (p : Program) (hinv : Inv p ∧ p.ExitPassed) (hmain : ¬ p.main = .left) :
    ∃ action p', p.step action = some p' ∧ (Inv p' ∧ p'.ExitPassed) ∧ work p' < work p := by
  obtain ⟨hinv, hexit⟩ := hinv
  by_cases hpc : p.run = .ended
  · obtain ⟨p', hstep, hrun, hin, hlt⟩ := exists_mainStep hinv hpc hmain
    have hstep' : p.step .main = some p' := hstep
    refine ⟨.main, p', hstep', ⟨inv_step hinv hstep', ?_⟩, ?_⟩
    · unfold ExitPassed passed
      rw [hin]
      exact hexit
    · unfold work clientWork
      rw [hrun, hin]
      omega
  · obtain ⟨pc', h', hstep, hlt, hout⟩ := exists_runStep hinv.run hexit hinv.codes hpc
    have hstep' : p.step .client = some { p with run := pc', handler := h' } := by
      unfold step
      rw [hstep]
      rfl
    obtain ⟨-, hreceived, -⟩ := runInv_runStep hinv.run hstep
    refine ⟨.client, _, hstep', ⟨inv_step hinv hstep', ?_⟩, ?_⟩
    · show ∃ m ∈ h'.inputQueue.received, m.code = InputMessages.exit.code
      rw [hreceived]
      exact hexit
    · show 3 * clientWork pc' h' +
          (2 * h'.outputQueue.content.length + MainPc.distance p.main) < work p
      unfold work
      omega

/-- The confirmation is taken once, behind all of the answers. -/
lemma left_of_inv (hinv : Inv p) (hmain : p.main = .left) :
    p.taken = answers p.passed ++ [exitMessage] ∧ p.printed = texts (answers p.passed) := by
  have hleft := hinv.main
  rw [hmain] at hleft
  obtain ⟨ms, htaken, hno, hprinted⟩ := hleft
  have hpart : p.taken <+: p.produced := p.handler.outputQueue.taken_prefix
  have hhandled : p.handler.inputQueue.taken <+: p.passed := p.handler.inputQueue.taken_prefix
  have hmem : exitMessage ∈ p.produced := mem_of_concat hpart htaken
  obtain ⟨-, hproduced⟩ := hinv.run.of_exit_mem hhandled hmem
  rw [htaken, hproduced] at hpart
  have hms : ms = answers p.passed := by
    rcases List.prefix_concat_iff.1 hpart with heq | hshort
    · exact List.append_cancel_right heq
    · have hin : exitMessage ∈ answers p.passed := mem_of_concat hshort rfl
      exact absurd hin (exit_notMem_pongs _)
  rw [htaken, hprinted, hms]
  exact ⟨rfl, rfl⟩

theorem pingExit_of_inv (hinv : Inv p) : PingExit p where
  taken := by
    have howed := hinv.run.owed p.handler.inputQueue.taken_prefix
    exact p.handler.outputQueue.taken_prefix.trans howed
  produced := hinv.run.owed p.handler.inputQueue.taken_prefix
  left := left_of_inv hinv
  ends := fun hexit => exists_run_of_measure work progress ⟨hinv, hexit⟩

end

/-- **Pings and the exit.**  The property holds behind every step of every run of the two threads. -/
theorem pingExit (actions : List Action) : Along step (fun _ _ p => PingExit p) start actions := by
  refine along_of_inv ?_ inv_start actions
  intro p action p' hinv hstep
  have hinv' := inv_step hinv hstep
  exact ⟨hinv', pingExit_of_inv hinv'⟩

/-- **What a run prints**, by the lines of the console: one answer for every ping in front of the first
exit. -/
theorem printed_run {actions : List Action} {p : Program}
    (hrun : Lib.run step start actions = some p) (hleft : p.main = .left) :
    p.taken = answers (actions.filterMap Action.message) ++ [exitMessage] ∧
      p.printed = texts (answers (actions.filterMap Action.message)) := by
  have hstep : ∀ (q : Program) (action : Action) (q' : Program), True → Inv q →
      step q action = some q' → Inv q' := fun _ _ _ _ hinv hstep => inv_step hinv hstep
  have hinv : Inv p := run_inv_of hstep inv_start (fun _ _ => trivial) hrun
  rw [← passed_run hrun]
  exact left_of_inv hinv hleft

/-- A ping, its answer, and the exit. -/
def pingAndQuit : List Action :=
  [.client, .main, .line ⟨some .ping, false⟩, .client, .client, .main, .main, .main,
    .line ⟨some .quit, true⟩, .client, .client, .client, .main, .main]

theorem printed_run_ping :
    ∃ p, Lib.run step start pingAndQuit = some p ∧ p.main = .left ∧ p.printed = ["PONG!"] :=
  ⟨_, rfl, rfl, (@printed_run pingAndQuit _ rfl rfl).2⟩

end Program

end NovusHeadless
