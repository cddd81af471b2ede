import ImageTrust.CommandLine.Run
import ImageTrust.Proofs.Text.Lines

/-! # Printed texts

What the printing of a text keeps of it, and the lines of what a run tells: its notices are lines, and an
error is a line behind them.
-/

namespace ImageTrust.CommandLine

open Text

/-! ## Terminal sequences -/

theorem dropSequences_cons_of_ne {c : Char} (h : c ≠ '\x1b') (cs : List Char) :
    dropSequences (c :: cs) = c :: dropSequences cs := by
  rw [dropSequences]
  rintro rest rfl
  exact absurd rfl h

theorem dropSequences_append_of_not_mem {text : List Char} (h : '\x1b' ∉ text) (cs : List Char) :
    dropSequences (text ++ cs) = text ++ dropSequences cs := by
  induction text with
  | nil => rfl
  | cons c text ih =>
      rw [List.mem_cons, not_or] at h
      rw [List.cons_append, dropSequences_cons_of_ne (Ne.symm h.1), ih h.2, List.cons_append]

/-- Texts that are told apart by a character are told apart when they are printed. -/
theorem dropSequences_ne {front xs ys : List Char} {c d : Char} (hfront : '\x1b' ∉ front)
    (hc : c ≠ '\x1b') (hd : d ≠ '\x1b') (hne : c ≠ d) :
    dropSequences (front ++ c :: xs) ≠ dropSequences (front ++ d :: ys) := by
  intro h
  rw [dropSequences_append_of_not_mem hfront, dropSequences_append_of_not_mem hfront,
    dropSequences_cons_of_ne hc, dropSequences_cons_of_ne hd] at h
  exact hne (List.cons.inj (List.append_cancel_left h)).1

/-- A character that is no part of any sequence. -/
def isOutside (c : Char) : Bool :=
  !(c = '\x1b' || c = '[' || c.isDigit || c = ';' || c = '?' || c.isAlpha)

theorem isOutside_iff {c : Char} :
    isOutside c ↔ c ≠ '\x1b' ∧ c ≠ '[' ∧ (c.isDigit || c = ';' || c = '?') = false ∧
      c.isAlpha = false := by
  simp [isOutside, and_assoc]

theorem afterSequence?_append_cons {c : Char} (h : isOutside c) (cs rest : List Char) :
    afterSequence? (cs ++ c :: rest) = (afterSequence? cs).map (· ++ c :: rest) := by
  obtain ⟨-, -, hinner, hlast⟩ := isOutside_iff.mp h
  induction cs with
  | nil => simp [afterSequence?, hinner, hlast]
  | cons d cs ih =>
      unfold afterSequence? at ih ⊢
      by_cases hd : d.isDigit || d = ';' || d = '?'
      · simpa [List.dropWhile_cons, hd] using ih
      · by_cases halpha : d.isAlpha <;> simp [hd, halpha]

theorem dropSequences_of_after {cs rest : List Char} (h : afterSequence? cs = some rest) :
    dropSequences ('\x1b' :: '[' :: cs) = dropSequences rest := by
  rw [dropSequences]
  split
  · next rest' h' =>
      rw [h] at h'
      rw [Option.some.inj h']
  · next h' =>
      rw [h] at h'
      cases h'

theorem dropSequences_of_no_after {cs : List Char} (h : afterSequence? cs = none) :
    dropSequences ('\x1b' :: '[' :: cs) = '\x1b' :: dropSequences ('[' :: cs) := by
  rw [dropSequences]
  split
  · next rest' h' =>
      rw [h] at h'
      cases h'
  · rfl

theorem dropSequences_append_cons {c : Char} (h : isOutside c) (cs rest : List Char) :
    dropSequences (cs ++ c :: rest) = dropSequences cs ++ c :: dropSequences rest := by
  obtain ⟨hescape, hbracket, -⟩ := isOutside_iff.mp h
  fun_induction dropSequences cs with
  | case1 => exact dropSequences_cons_of_ne hescape rest
  | case2 cs after hafter ih =>
      have happended : afterSequence? (cs ++ c :: rest) = some (after ++ c :: rest) := by
        rw [afterSequence?_append_cons h, hafter, Option.map_some]
      exact (dropSequences_of_after happended).trans ih
  | case3 cs hafter ih =>
      have happended : afterSequence? (cs ++ c :: rest) = none := by
        rw [afterSequence?_append_cons h, hafter, Option.map_none]
      refine (dropSequences_of_no_after happended).trans ?_
      rw [← List.cons_append, ih, List.cons_append]
  | case4 d cs hno ih =>
      have hnone : ∀ more, d = '\x1b' → cs ++ c :: rest ≠ '[' :: more := by
        intro more hd heq
        cases cs with
        | nil => exact hbracket (List.cons.inj heq).1
        | cons e cs =>
            rw [List.cons_append, List.cons.injEq] at heq
            exact hno cs hd (by rw [heq.1])
      rw [List.cons_append, dropSequences, ih, List.cons_append]
      · exact fun more hd => hnone more hd

theorem afterSequence?_suffix {cs rest : List Char} (h : afterSequence? cs = some rest) :
    rest <:+ cs := by
  rw [afterSequence?] at h
  split at h
  · next c after heq =>
      split at h
      · cases h
        exact (List.suffix_cons c rest).trans (heq ▸ List.dropWhile_suffix _)
      · cases h
  · cases h

theorem dropSequences_sublist (cs : List Char) : (dropSequences cs).Sublist cs := by
  fun_induction dropSequences cs with
  | case1 => exact List.Sublist.refl []
  | case2 cs after hafter ih =>
      have hsublist := ih.trans (afterSequence?_suffix hafter).sublist
      exact (hsublist.cons '[').cons '\x1b'
  | case3 cs hafter ih => exact ih.cons_cons '\x1b'
  | case4 c cs hno ih => exact ih.cons_cons c

/-! ## Notices -/

theorem terminated_shown (line : LogLine) : Terminated line.shown.toList := by
  rw [LogLine.shown, String.toList_append]
  exact Terminated.append_cons (.inl rfl) _

theorem terminated_logText (verbose : Bool) (lines : List LogLine) :
    Terminated (logText verbose lines).toList := by
  rw [logText]
  induction lines.filter fun line => verbose || line.level = .warning with
  | nil => exact .inl rfl
  | cons line lines ih =>
      rw [List.map_cons, String.join_cons, String.toList_append]
      exact (terminated_shown line).append ih

theorem terminated_append_logText {log : String} (h : Terminated log.toList) (verbose : Bool)
    (lines : List LogLine) : Terminated (log ++ logText verbose lines).toList := by
  rw [String.toList_append]
  exact h.append (terminated_logText verbose lines)

/-! ## Error lines -/

/-- The word that an error line starts with. -/
def errorMark : List Char :=
  ['E', 'r', 'r', 'o', 'r', ':', ' ']

/-- A text of lines of which one is an error line. -/
def HasErrorLine (text : String) : Prop :=
  Terminated text.toList ∧
    ∃ before message, Terminated before ∧ text.toList = before ++ errorMark ++ message

theorem toList_errorLine (message : String) :
    (errorLine message).toList = errorMark ++ dropSequences message.toList ++ ['\n'] := by
  have hmark : '\x1b' ∉ errorMark := by decide
  have hend : dropSequences [] = [] := by rw [dropSequences]
  have htext : ("Error: " ++ message ++ "\n").toList = errorMark ++ (message.toList ++ ['\n']) := by
    simp [errorMark]
  rw [errorLine, printed, String.toList_ofList, htext, dropSequences_append_of_not_mem hmark,
    dropSequences_append_cons (by decide), hend, List.append_assoc]

theorem hasErrorLine_append {log : String} (h : Terminated log.toList) (message : String) :
    HasErrorLine (log ++ errorLine message) := by
  have htext : (log ++ errorLine message).toList =
      log.toList ++ errorMark ++ (dropSequences message.toList ++ ['\n']) := by
    simp [toList_errorLine]
  exact ⟨.inr (by simp [htext]), log.toList, _, h, htext⟩

end ImageTrust.CommandLine
