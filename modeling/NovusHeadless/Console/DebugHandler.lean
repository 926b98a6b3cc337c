import NovusHeadless.Lib.FormatString
import NovusHeadless.Lib.Terminated
import NovusHeadless.Console.ConsoleCommands

/-!
# The warning about a line (`Utils/DebugHandler.h`)

`HandleCommand` puts the line behind a text of its own, and `PrintWarning` hands the whole to `printf` as
the format, with no arguments.

* `printf` without arguments reads the format up to its terminator; `none` is a format that takes an
  argument, or has a `%` that begins nothing.
* `printsLiterally_iff` — the line is printed as it is exactly when it has no `%` and no terminator.
-/

namespace NovusHeadless

open Lib FormatString

/-- `printf(format)`. -/
def printf (format : Bytes) : Option Bytes := output (pieces (cString format))

namespace DebugHandler

/-- What `PrintColor` writes. -/
def printColor (message : Bytes) : Option Bytes := printf message

def printWarning (message : Bytes) : Option Bytes := do
  let tag ← printColor (ascii "[Warning]: ")
  let text ← printColor (message ++ ascii "\n")
  return tag ++ text

/-- The warning about the line has no conversion that takes an argument, and is printed as it is. -/
structure PrintsLiterally (line warning : Bytes) : Prop where
  arguments : ∀ piece ∈ pieces (cString (warning ++ ascii "\n")), piece.arguments = 0
  printed : printWarning warning =
    some (ascii "[Warning]: " ++ (ascii "Unhandled command: " ++ line ++ ascii "\n"))

section

variable {s line warning : Bytes}

/-- **A format is printed as it is** exactly when it has no `%` and no terminator. -/
theorem printf_eq_self_iff : printf s = some s ↔ 0x25 ∉ s ∧ 0 ∉ s := by
  unfold printf
  rw [← cString_eq_self_iff]
  constructor
  · intro h
    have hlen : s.length ≤ (cString s).length := length_output_scan h
    have hself : cString s = s := (cString_isPrefix s).eq_of_length_le hlen
    rw [hself, output_pieces_eq_self_iff] at h
    exact ⟨h, hself⟩
  · rintro ⟨hpercent, hself⟩
    rw [hself, output_pieces_eq_self_iff]
    exact hpercent

lemma printWarning_eq_some {text : Bytes} :
    printWarning s = some (ascii "[Warning]: " ++ text) ↔ printf (s ++ ascii "\n") = some text := by
  have htag : printColor (ascii "[Warning]: ") = some (ascii "[Warning]: ") :=
    printf_eq_self_iff.2 (by decide)
  unfold printWarning
  rw [htag]
  show (printf (s ++ ascii "\n")).bind _ = _ ↔ _
  cases printf (s ++ ascii "\n") with
  | none => simp
  | some out => simp

lemma warning_of_dispatch (h : dispatch line = some (.unhandled warning)) :
    warning = unhandledWarning line := by
  cases hs : StringUtils.splitString line with
  | nil =>
    unfold dispatch at h
    rw [hs] at h
    split at h <;> simp at h
  | cons token subCommands =>
    rw [dispatch_of_splitString hs] at h
    cases hfound : commandHandlers (commandKey token) with
    | none =>
      rw [hfound, Option.elim_none, Option.some.injEq, Handled.unhandled.injEq] at h
      exact h.symm
    | some name =>
      rw [hfound] at h
      exact absurd h (by simp)

/-- **When a line is printed as it is.** -/
theorem printsLiterally_iff (h : dispatch line = some (.unhandled warning)) :
    PrintsLiterally line warning ↔ 0x25 ∉ line ∧ 0 ∉ line := by
  obtain rfl := warning_of_dispatch h
  have htext : 0x25 ∉ unhandledWarning line ++ ascii "\n" ∧ 0 ∉ unhandledWarning line ++ ascii "\n" ↔
      0x25 ∉ line ∧ 0 ∉ line := by
    have hpercent : 0x25 ∉ ascii "Unhandled command: " ∧ 0x25 ∉ ascii "\n" := by decide
    have hzero : 0 ∉ ascii "Unhandled command: " ∧ 0 ∉ ascii "\n" := by decide
    unfold unhandledWarning
    simp only [List.mem_append, not_or, hpercent, hzero, not_false_eq_true, true_and, and_true]
  rw [← htext, ← printf_eq_self_iff]
  constructor
  · intro hprints
    exact printWarning_eq_some.1 hprints.printed
  · intro hself
    obtain ⟨hpercent, hzero⟩ := printf_eq_self_iff.1 hself
    refine ⟨?_, printWarning_eq_some.2 hself⟩
    rw [cString_eq_self_iff.2 hzero]
    exact arguments_of_not_mem hpercent

end

theorem printsLiterally_iff_help :
    dispatch (ascii "help") = some (.unhandled (unhandledWarning (ascii "help"))) ∧
      PrintsLiterally (ascii "help") (unhandledWarning (ascii "help")) := by
  have hhelp : dispatch (ascii "help") = some (.unhandled (unhandledWarning (ascii "help"))) := by
    decide
  exact ⟨hhelp, (printsLiterally_iff hhelp).2 (by decide)⟩

/-- The line `%s` takes an argument. -/
theorem line_takes_argument :
    ¬ ∀ line warning : Bytes, dispatch line = some (.unhandled warning) →
      PrintsLiterally line warning := by
  intro h
  have hprints := h (ascii "%s") (unhandledWarning (ascii "%s")) (by decide)
  have harguments := hprints.arguments (.conversion 0 0x73) (by decide)
  exact absurd harguments (by decide)

end DebugHandler

end NovusHeadless
