import ImageTrust.Proofs.CommandLine.Printing
import ImageTrust.Proofs.Disk.Messages

/-! # Runs that agree

What a user sees of a run, its notices left aside: the exit code, what is printed, and the error line.
-/

namespace ImageTrust.CommandLine

open Text

/-! ## Last lines -/

/-- The last line of a text whose lines all have a line end. -/
def lastLine (cs : List Char) : List Char :=
  (cs.dropLast.reverse.takeWhile (· ≠ '\n')).reverse

theorem lastLine_of_not_mem {line : List Char} (h : '\n' ∉ line) : lastLine (line ++ ['\n']) = line := by
  have hline : (line.reverse ++ []).takeWhile (· ≠ '\n') = line.reverse :=
    takeWhile_line (by simpa using h) atLineEnd_nil
  rw [List.append_nil] at hline
  rw [lastLine, List.dropLast_concat, hline, List.reverse_reverse]

/-- The lines before the last one do not matter for it. -/
theorem lastLine_append {log : List Char} (h : Terminated log) (text : List Char) :
    lastLine (log ++ (text ++ ['\n'])) = lastLine (text ++ ['\n']) := by
  have hlog : log.reverse.takeWhile (· ≠ '\n') = [] := by
    rcases h with rfl | h
    · rfl
    · refine takeWhile_eq_nil fun c hc => ?_
      rw [List.head?_reverse, h] at hc
      simp [← Option.some.inj hc]
  rw [lastLine, lastLine, ← List.append_assoc, List.dropLast_concat, List.dropLast_concat,
    List.reverse_append, List.takeWhile_append, hlog, List.append_nil]
  split_ifs with hall
  · rw [(List.takeWhile_prefix _).eq_of_length hall]
  · rfl

/-! ## Error lines -/

/-- The line in which a failed run tells of its error. A run that breaks off does not. -/
def Outcome.errorLine? (outcome : Outcome) : Option (List Char) :=
  if outcome.exitCode = 0 ∨ outcome.crash.isSome then none
  else some (lastLine outcome.stderr.toList)

variable {log log' : String}

theorem errorLine?_failed (hlog : Terminated log.toList) (message : String) :
    (failed log message).errorLine? = some (lastLine (errorLine message).toList) := by
  have hcode : ¬((failed log message).exitCode = 0 ∨ (failed log message).crash.isSome) := by
    simp [failed]
  rw [Outcome.errorLine?, if_neg hcode, failed, String.toList_append, toList_errorLine,
    lastLine_append hlog]

theorem lastLine_errorLine {message : String} (h : '\n' ∉ message.toList) :
    lastLine (errorLine message).toList = errorMark ++ dropSequences message.toList := by
  have hmark : '\n' ∉ errorMark := by decide
  have hmessage : '\n' ∉ dropSequences message.toList :=
    fun hmem => h ((dropSequences_sublist message.toList).subset hmem)
  rw [toList_errorLine, lastLine_of_not_mem]
  simp [hmark, hmessage]

/-! ## Agreement -/

/-- Runs that differ at most in their notices. -/
structure Outcome.Agrees (outcome other : Outcome) : Prop where
  exitCode : outcome.exitCode = other.exitCode
  stdout : outcome.stdout = other.stdout
  crash : outcome.crash = other.crash
  errorLine : outcome.errorLine? = other.errorLine?

theorem Outcome.Agrees.refl (outcome : Outcome) : outcome.Agrees outcome :=
  ⟨rfl, rfl, rfl, rfl⟩

theorem agrees_failed (hlog : Terminated log.toList) (hlog' : Terminated log'.toList)
    (message : String) : (failed log message).Agrees (failed log' message) :=
  ⟨rfl, rfl, rfl, (errorLine?_failed hlog message).trans (errorLine?_failed hlog' message).symm⟩

theorem agrees_crashed (crash : Crash) : (crashed log crash).Agrees (crashed log' crash) :=
  ⟨rfl, rfl, rfl, by simp [Outcome.errorLine?, crashed]⟩

theorem agrees_of_success {outcome other : Outcome} (hcode : outcome.exitCode = 0)
    (hcode' : other.exitCode = 0) (hcrash : outcome.crash = other.crash)
    (hstdout : outcome.stdout = other.stdout) : outcome.Agrees other :=
  ⟨hcode.trans hcode'.symm, hstdout, hcrash, by simp [Outcome.errorLine?, hcode, hcode']⟩

/-- Failures whose messages begin differently are told apart. -/
theorem not_agrees_failed {message message' : String} (hlog : Terminated log.toList)
    (hlog' : Terminated log'.toList) (hline : '\n' ∉ message.toList)
    (hline' : '\n' ∉ message'.toList)
    (h : dropSequences message.toList ≠ dropSequences message'.toList) :
    ¬(failed log message).Agrees (failed log' message') := by
  intro hagrees
  have herror := hagrees.errorLine
  rw [errorLine?_failed hlog, errorLine?_failed hlog', lastLine_errorLine hline,
    lastLine_errorLine hline'] at herror
  exact h (List.append_cancel_left (Option.some.inj herror))

end ImageTrust.CommandLine
