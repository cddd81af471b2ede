import ImageTrust.Proofs.Yaml.FlowTokens
import ImageTrust.Proofs.Yaml.Shifting
import ImageTrust.Yaml.Construction

/-! # Comments in front of a text

A line that is a comment changes nothing if it is put in front of a text, unless it takes a byte order
mark from the start of it.
-/

namespace ImageTrust.Yaml

/-- A number sign and characters that a document may hold, up to the end of the line. -/
def IsCommentLine (line : List Char) : Prop :=
  ∃ body, line = '#' :: (body ++ ['\n']) ∧ ∀ c ∈ body, isAllowed c ∧ isBreak c = false

variable {line cs : List Char}

theorem isCommentLine_of_all (body : List Char) (hline : line = '#' :: (body ++ ['\n']))
    (h : (body.all fun c => Yaml.isAllowed c && !isBreak c) = true) : IsCommentLine line :=
  ⟨body, hline, fun c hc => by simpa using List.all_eq_true.mp h c hc⟩

theorem IsCommentLine.isAllowed (h : IsCommentLine line) : ∀ c ∈ line, isAllowed c := by
  obtain ⟨body, rfl, hbody⟩ := h
  intro c hc
  simp only [List.mem_cons, List.mem_append, List.not_mem_nil, or_false] at hc
  rcases hc with rfl | hc | rfl
  · decide
  · exact (hbody c hc).1
  · decide

/-! ## Places -/

theorem Mark.advance_add (m : Mark) (text : List Char) (count : ℕ) (rest : List Char) :
    m.advance (text.length + count) (text ++ rest) =
      (m.advance text.length (text ++ rest)).advance count rest := by
  induction text generalizing m with
  | nil => simp [Mark.advance]
  | cons c text ih =>
      rw [List.length_cons, Nat.succ_add, List.cons_append, Mark.advance, Mark.advance, ih]

theorem IsCommentLine.advance_start (h : IsCommentLine line) (cs : List Char) :
    Mark.start.advance line.length (line ++ cs) = Mark.start.below line.length := by
  obtain ⟨body, rfl, hbody⟩ := h
  have hbreaks : ∀ c ∈ '#' :: body, isBreak c = false := by
    intro c hc
    rcases List.mem_cons.mp hc with rfl | hc
    · decide
    · exact (hbody c hc).2
  have hline : '#' :: (body ++ ['\n']) ++ cs = ('#' :: body) ++ '\n' :: cs := by simp
  have hlength : ('#' :: (body ++ ['\n'])).length = ('#' :: body).length + 1 := by simp
  obtain ⟨hstays, hindex⟩ := Mark.advance_append hbreaks .start ('\n' :: cs)
  rw [hline, hlength, Mark.advance_add, Mark.advance, Mark.advance, Mark.after, hstays, hindex]
  rfl

/-! ## Gaps -/

theorem lineBreak?_length_lt {rest : List Char} {c : Char} (h : lineBreak? cs = some (c, rest)) :
    rest.length < cs.length := by
  unfold lineBreak? at h
  split at h
  · cases h
    exact Nat.lt_succ_of_lt (Nat.lt_succ_self _)
  · split at h
    · cases h
      exact Nat.lt_succ_self _
    · split at h
      · cases h
        exact Nat.lt_succ_self _
      · cases h
  · cases h

/-- Any bounds above the number of characters will do. -/
theorem skipGap_eq_skipGap {bound bound' : ℕ} (h : cs.length < bound) (h' : cs.length < bound') :
    Scan.skipGap bound cs = Scan.skipGap bound' cs := by
  induction bound generalizing cs bound' with
  | zero => cases h
  | succ bound ih =>
      cases bound' with
      | zero => cases h'
      | succ bound' =>
          have hle := (endOfLine_suffix cs).length_le
          unfold Scan.skipGap
          dsimp only
          split
          · next c rest hbreak =>
              have hlt := lineBreak?_length_lt hbreak
              have hrest : Scan.skipGap bound rest = Scan.skipGap bound' rest :=
                ih (by omega) (by omega)
              rw [hrest]
          · rfl

theorem IsCommentLine.skipGap_append (h : IsCommentLine line) (bound : ℕ) (cs : List Char) :
    Scan.skipGap (bound + 1) (line ++ cs) = ((Scan.skipGap bound cs).1, true) := by
  obtain ⟨body, rfl, hbody⟩ := h
  have hline : ('#' :: (body ++ ['\n']) ++ cs).dropWhile (!isBreak ·) = '\n' :: cs := by
    have htext : ∀ c ∈ '#' :: body, (!isBreak c) = true := by
      intro c hc
      rcases List.mem_cons.mp hc with rfl | hc
      · decide
      · simp [(hbody c hc).2]
    have hsplit : '#' :: (body ++ ['\n']) ++ cs = ('#' :: body) ++ '\n' :: cs := by simp
    rw [hsplit, List.dropWhile_append_of_pos htext]
    rfl
  have hspaces : ('#' :: (body ++ ['\n']) ++ cs).dropWhile (· = ' ') =
      '#' :: (body ++ ['\n']) ++ cs := rfl
  have hbreak : lineBreak? ('\n' :: cs) = some ('\n', cs) := rfl
  have hsharp : ('#' :: (body ++ ['\n']) ++ cs).head? = some '#' := rfl
  rw [Scan.skipGap, hspaces, if_pos hsharp, hline, hbreak]

/-! ## Tokens -/

theorem IsCommentLine.skipToToken_append (h : IsCommentLine line) (hmark : cs.head? ≠ some '\uFEFF') :
    (Scan.start (line ++ cs)).skipToToken = (Scan.start cs).skipToToken.below line.length := by
  have hsharp : (Scan.start (line ++ cs)).Unmarked := by
    obtain ⟨body, rfl, -⟩ := h
    exact fun _ => by simp [Scan.start]
  have hunmarked : (Scan.start cs).Unmarked := fun _ => hmark
  have hlength : (line ++ cs).length = line.length + cs.length := List.length_append
  have hpos : 0 < line.length := by
    obtain ⟨body, rfl, -⟩ := h
    exact Nat.succ_pos _
  have hgap : Scan.skipGap ((line ++ cs).length + 1) (line ++ cs) =
      ((Scan.skipGap (cs.length + 1) cs).1, true) := by
    rw [h.skipGap_append, skipGap_eq_skipGap (by omega) (Nat.lt_succ_self cs.length)]
  have hsuffix : (Scan.skipGap (cs.length + 1) cs).1 <:+ cs := ScanOf.skipGap_suffix _ cs
  have hgoTo : (Scan.start (line ++ cs)).goTo (Scan.skipGap (cs.length + 1) cs).1 =
      ((Scan.start cs).goTo (Scan.skipGap (cs.length + 1) cs).1).below line.length := by
    have hcount : (line ++ cs).length - (Scan.skipGap (cs.length + 1) cs).1.length =
        line.length + (cs.length - (Scan.skipGap (cs.length + 1) cs).1.length) := by
      have hle := hsuffix.length_le
      omega
    unfold Scan.goTo Scan.start
    dsimp only
    rw [hcount, Mark.advance_add, h.advance_start, Mark.advance_below]
    rfl
  rw [hsharp.skipToToken_eq, hunmarked.skipToToken_eq]
  change { (Scan.start (line ++ cs)).goTo (Scan.skipGap ((line ++ cs).length + 1) (line ++ cs)).1 with
    keyAllowed := true } = _
  rw [hgap, hgoTo]
  rfl

/-- A comment has no tokens. -/
theorem IsCommentLine.tokens_append (h : IsCommentLine line) (hmark : cs.head? ≠ some '\uFEFF') :
    tokens (line ++ cs) = tokens cs := by
  have hstart := Scan.within_start cs
  have hrun : ∀ bound, (Scan.start (line ++ cs)).run (bound + 1) = (Scan.start cs).run (bound + 1) := by
    intro bound
    refine Scan.run_succ_eq rfl rfl rfl (Scan.next_shifts (h.skipToToken_append hmark)) fun t ht => ?_
    obtain hend | hwithin := hstart.next ht
    · exact Scan.run_below_of_finished hend _ bound
    · exact hwithin.run_below hmark _ bound
  have hall : (line ++ cs).all Yaml.isAllowed = cs.all Yaml.isAllowed := by
    rw [List.all_append, List.all_eq_true.mpr h.isAllowed, Bool.true_and]
  rw [tokens, tokens, hall, hrun]
  split
  · refine Scan.run_eq_run ?_ ?_
    · change cs.length < _
      rw [List.length_append]
      omega
    · change cs.length < _
      omega
  · rfl

theorem IsCommentLine.load_append {line text : String} (h : IsCommentLine line.toList)
    (hmark : text.toList.head? ≠ some '\uFEFF') : load (line ++ text) = load text := by
  have hread : Document.read? (line ++ text) = Document.read? text := by
    rw [Document.read?, String.toList_append, h.tokens_append hmark, Document.read?]
  rw [load, hread, load]

end ImageTrust.Yaml
