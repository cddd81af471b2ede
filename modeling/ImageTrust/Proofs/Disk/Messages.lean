import ImageTrust.Disk
import ImageTrust.Proofs.Text.Lines
import Mathlib.Tactic.SplitIfs

/-! # Messages about files

What a message says about a file stands on a single line, whatever the name of the file is.
-/

namespace ImageTrust

namespace Text

theorem newline_not_mem_hexDigits (width n : Nat) : '\n' ∉ hexDigits width n := by
  rw [hexDigits, List.mem_append, not_or]
  refine ⟨fun h => ?_, newline_not_mem_toDigits (by decide) n⟩
  cases List.eq_of_mem_replicate h

theorem newline_not_mem_quoteChar {quote : Char} (hquote : quote ≠ '\n') (c : Char) :
    '\n' ∉ quoteChar quote c := by
  have hhex := newline_not_mem_hexDigits
  rw [quoteChar]
  split_ifs with hescaped hnewline hreturn htab hprintable hshort hlong
  · rw [Bool.or_eq_true, decide_eq_true_eq, decide_eq_true_eq] at hescaped
    rcases hescaped with rfl | rfl
    · simp [hquote.symm]
    · decide
  · decide
  · decide
  · decide
  · simpa using Ne.symm hnewline
  · simp [hhex]
  · simp [hhex]
  · simp [hhex]

theorem newline_not_mem_quoted (text : String) : '\n' ∉ (quoted text).toList := by
  have hquote : quoteFor text.toList ≠ '\n' := by
    rw [quoteFor]
    split_ifs <;> decide
  have hchars : '\n' ∉ text.toList.flatMap (quoteChar (quoteFor text.toList)) := by
    intro h
    obtain ⟨c, -, hc⟩ := List.mem_flatMap.mp h
    exact newline_not_mem_quoteChar hquote c hc
  rw [quoted, String.toList_ofList]
  simp [hchars, hquote.symm]

theorem newline_not_mem_toString (n : Nat) : '\n' ∉ (toString n).toList := by
  rw [Nat.toString_eq_repr, Nat.toList_repr]
  exact newline_not_mem_toDigits (by decide) n

theorem newline_not_mem_utf8Fault (fault : Utf8Fault) : '\n' ∉ fault.message.toList := by
  have hreason : '\n' ∉ fault.reason.message.toList := by
    cases fault.reason <;> simp [Utf8Reason.message]
  have hbyte := newline_not_mem_hexDigits 2 fault.first.toNat
  have hfirst := newline_not_mem_toString fault.position
  have hlast := newline_not_mem_toString (fault.position + fault.count - 1)
  unfold Utf8Fault.message
  by_cases hcount : fault.count = 1
  · simp only [if_pos hcount, String.toList_append, String.toList_ofList, List.mem_append, hbyte,
      hfirst, hreason, or_false]
    simp
  · simp only [if_neg hcount, String.toList_append, List.mem_append, hfirst, hlast, hreason,
      or_false]
    simp

end Text

theorem newline_not_mem_fileError (e : FileError) : '\n' ∉ e.message.toList := by
  obtain ⟨fault, path⟩ := e
  have hpath := Text.newline_not_mem_quoted path
  cases fault <;> simp [FileError.message, hpath]

end ImageTrust
