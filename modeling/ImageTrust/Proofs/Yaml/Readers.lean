import ImageTrust.Yaml.Block
import ImageTrust.Yaml.Plain
import ImageTrust.Yaml.Quoted

/-! # Readers

What reading the parts of a token can end in: a rest of the text, or a fault. A text is malformed, or it
has an escape that is no character.
-/

namespace ImageTrust.Yaml

variable {α β : Type} {P : α → Prop} {Q : β → Prop} {F G : Fault → Prop}

/-! ## Results -/

/-- A result satisfies the one predicate, a fault the other. -/
def Ends (P : α → Prop) (F : Fault → Prop) : Except Fault α → Prop
  | .ok a => P a
  | .error fault => F fault

theorem Ends.mono {P' : α → Prop} {x : Except Fault α} (h : Ends P F x) (hP : ∀ a, P a → P' a)
    (hF : ∀ fault, F fault → G fault) : Ends P' G x := by
  cases x with
  | ok a => exact hP a h
  | error fault => exact hF fault h

theorem Ends.bind {x : Except Fault α} {next : α → Except Fault β} (h : Ends P F x)
    (hnext : ∀ a, P a → Ends Q F (next a)) : Ends Q F (x >>= next) := by
  cases x with
  | ok a => exact hnext a h
  | error fault => exact h

theorem Ends.map {x : Except Fault α} {f : α → β} (h : Ends (fun a => Q (f a)) F x) :
    Ends Q F (x.map f) := by
  cases x with
  | ok a => exact h
  | error fault => exact h

theorem Ends.ite {p : Prop} [Decidable p] {x y : Except Fault α} (hx : Ends P F x) (hy : Ends P F y) :
    Ends P F (if p then x else y) := by
  split
  · exact hx
  · exact hy

/-! ## Faults of a text -/

/-- A text has an escape that spells a number. -/
def HasEscape (cs : List Char) (number : Nat) : Prop :=
  ∃ c count digits rest, '\\' :: c :: digits <:+ cs ∧ escapeDigits? c = some count ∧
    hexNumber? count digits = some (number, rest)

def TextFault (cs : List Char) (fault : Fault) : Prop :=
  fault = .malformed ∨ ∃ number, fault = .codePoint number ∧ HasEscape cs number

theorem TextFault.mono {cs rest : List Char} {fault : Fault} (h : TextFault rest fault)
    (hrest : rest <:+ cs) : TextFault cs fault := by
  rcases h with rfl | ⟨number, rfl, c, count, digits, after, hsuffix, hcount, hnumber⟩
  · exact .inl rfl
  · exact .inr ⟨number, rfl, c, count, digits, after, hsuffix.trans hrest, hcount, hnumber⟩

/-- Reading ends with a rest of the text or with a fault of it. -/
abbrev Reads (cs : List Char) (x : Except Fault (α × List Char)) : Prop :=
  Ends (fun r => r.2 <:+ cs) (TextFault cs) x

/-- The fault that a token stands for. -/
def Token.fault? : Token → Option Fault
  | .fault f => some f
  | _ => none

/-- The same of a token, which does not stand for a fault. -/
abbrev ReadsToken (cs : List Char) (x : Except Fault (Token × List Char)) : Prop :=
  Ends (fun r => r.2 <:+ cs ∧ r.1.fault? = none) (TextFault cs) x

theorem Reads.mono {cs rest : List Char} {x : Except Fault (α × List Char)} (h : Reads rest x)
    (hrest : rest <:+ cs) : Reads cs x :=
  Ends.mono h (fun _ hr => hr.trans hrest) fun _ hf => hf.mono hrest

theorem ReadsToken.mono {cs rest : List Char} {x : Except Fault (Token × List Char)}
    (h : ReadsToken rest x) (hrest : rest <:+ cs) : ReadsToken cs x :=
  Ends.mono h (fun _ hr => ⟨hr.1.trans hrest, hr.2⟩) fun _ hf => hf.mono hrest

theorem Reads.token {cs : List Char} {x : Except Fault (α × List Char)} (h : Reads cs x)
    {f : α → Token} (hf : ∀ a, (f a).fault? = none) :
    ReadsToken cs (x.map fun (a, rest) => (f a, rest)) :=
  Ends.map (Ends.mono h (fun r hr => ⟨hr, hf r.1⟩) fun _ => id)

theorem Reads.bind {cs : List Char} {x : Except Fault (α × List Char)}
    {next : α × List Char → Except Fault β} (h : Reads cs x)
    (hnext : ∀ a rest, rest <:+ cs → Ends Q (TextFault cs) (next (a, rest))) :
    Ends Q (TextFault cs) (x >>= next) :=
  Ends.bind h fun r hr => hnext r.1 r.2 hr

theorem reads_malformed (cs : List Char) : Reads cs (.error .malformed : Except Fault (α × List Char)) :=
  .inl rfl

/-! ## Parts of a text -/

theorem lineBreak?_suffix {cs rest : List Char} {c : Char} (h : lineBreak? cs = some (c, rest)) :
    rest <:+ cs := by
  unfold lineBreak? at h
  split at h
  · cases h
    exact ⟨['\r', '\n'], rfl⟩
  · split at h
    · cases h
      exact List.suffix_cons _ _
    · split at h
      · cases h
        exact List.suffix_cons _ _
      · cases h
  · cases h

theorem hexNumber?_suffix {count number : Nat} {cs rest : List Char}
    (h : hexNumber? count cs = some (number, rest)) : rest <:+ cs := by
  unfold hexNumber? at h
  split at h
  · cases h
  · obtain ⟨n, -, heq⟩ := Option.map_eq_some_iff.mp h
    cases heq
    exact List.drop_suffix count cs

/-! ## Anchors, tags and directives -/

theorem reads_readAnchor (cs : List Char) : Reads cs (readAnchor cs) := by
  unfold readAnchor
  dsimp only
  split
  · exact .inl rfl
  · exact List.dropWhile_suffix _

theorem reads_readUriEscapes (bound : Nat) (cs : List Char) : Reads cs (readUriEscapes bound cs) := by
  induction bound generalizing cs with
  | zero => exact List.suffix_refl cs
  | succ bound ih =>
      unfold readUriEscapes
      split
      · split
        · exact .inl rfl
        · next hbyte =>
            exact Ends.map ((ih _).mono ((hexNumber?_suffix hbyte).trans (List.suffix_cons _ _)))
      · exact List.suffix_refl cs

theorem reads_readUriChars (bound : Nat) (cs : List Char) : Reads cs (readUriChars bound cs) := by
  induction bound generalizing cs with
  | zero => exact List.suffix_refl cs
  | succ bound ih =>
      unfold readUriChars
      split
      · exact List.suffix_refl _
      · next c rest =>
          split
          · have hescapes := reads_readUriEscapes ((c :: rest).length + 1) (c :: rest)
            split
            · next heq =>
                rw [heq] at hescapes
                exact hescapes
            · next heq =>
                rw [heq] at hescapes
                split
                · exact .inl rfl
                · exact Ends.map ((ih _).mono hescapes)
          · split
            · exact Ends.map ((ih rest).mono (List.suffix_cons c rest))
            · exact List.suffix_refl _

theorem reads_readUri (cs : List Char) : Reads cs (readUri cs) := by
  unfold readUri
  split
  · exact .inl rfl
  · split
    · exact Ends.map (reads_readUriChars _ _)
    · exact .inl rfl

theorem reads_readHandle_cons (rest : List Char) : Reads rest (readHandle ('!' :: rest)) := by
  unfold readHandle
  split
  · next heq =>
      cases heq
      split
      · exact List.suffix_refl rest
      · dsimp only
        split
        · next hrest =>
            have hsuffix := List.dropWhile_suffix (l := rest) isWordChar
            rw [hrest] at hsuffix
            exact (List.suffix_cons _ _).trans hsuffix
        · exact reads_malformed rest
  · exact reads_malformed rest

theorem reads_readHandle (cs : List Char) : Reads cs (readHandle cs) := by
  by_cases hcs : ∃ rest, cs = '!' :: rest
  · obtain ⟨rest, rfl⟩ := hcs
    exact (reads_readHandle_cons rest).mono (List.suffix_cons _ _)
  · unfold readHandle
    split
    · exact absurd ⟨_, rfl⟩ hcs
    · exact reads_malformed cs

/-- What becomes of every tag once it is read. -/
theorem readsToken_tag {cs rest : List Char} (handle : Option String) (suffix : String)
    (hrest : rest <:+ cs) :
    ReadsToken cs (if endsOr isSpaceOrBreak rest then pure (Token.tag handle suffix, rest)
      else throw .malformed) := by
  split
  · exact ⟨hrest, rfl⟩
  · exact .inl rfl

theorem readsToken_suffixed {cs rest : List Char} (handle : String) (hrest : rest <:+ cs) :
    ReadsToken cs (do
      let (suffix, rest) ← readUri rest
      if endsOr isSpaceOrBreak rest then pure (Token.tag (some handle) suffix, rest)
      else throw .malformed) :=
  Reads.bind ((reads_readUri rest).mono hrest) fun suffix _ => readsToken_tag (some handle) suffix

theorem readsToken_readTag (cs : List Char) : ReadsToken cs (readTag cs) := by
  unfold readTag
  split
  · next rest =>
      refine Reads.bind ((reads_readUri rest).mono (List.suffix_cons _ _)) fun uri rest hrest => ?_
      dsimp only
      split
      · next heq =>
          cases heq
          exact readsToken_tag _ _ ((List.suffix_cons _ _).trans hrest)
      · exact .inl rfl
  · split
    · exact readsToken_tag _ _ (List.suffix_refl _)
    · split
      · exact Reads.bind (reads_readHandle_cons _) fun handle _ => readsToken_suffixed handle
      · exact readsToken_suffixed "!" (List.suffix_refl _)

theorem reads_readNumber (cs : List Char) : Reads cs (readNumber cs) := by
  unfold readNumber
  dsimp only
  split
  · exact .inl rfl
  · exact List.dropWhile_suffix _

theorem reads_readVersion (cs : List Char) : Reads cs (readVersion cs) := by
  unfold readVersion
  refine Reads.bind ((reads_readNumber _).mono (List.dropWhile_suffix _)) fun major rest hrest => ?_
  dsimp only
  split
  · next rest =>
      have hafter : rest <:+ cs := (List.suffix_cons _ _).trans hrest
      refine Reads.bind ((reads_readNumber rest).mono hafter) fun minor rest hrest => ?_
      dsimp only
      split
      · exact hrest
      · exact reads_malformed cs
  · exact reads_malformed cs

theorem reads_readHandleExpansion (cs : List Char) : Reads cs (readHandleExpansion cs) := by
  unfold readHandleExpansion
  refine Reads.bind ((reads_readHandle _).mono (List.dropWhile_suffix _)) fun handle rest hrest => ?_
  dsimp only
  split
  · exact reads_malformed cs
  · have hafter : rest.dropWhile (· = ' ') <:+ cs := (List.dropWhile_suffix _).trans hrest
    refine Reads.bind ((reads_readUri _).mono hafter) fun expansion rest hrest => ?_
    dsimp only
    split
    · exact hrest
    · exact reads_malformed cs

/-- The line has to end where a reader has come to. -/
theorem ends_lineBreak {cs rest : List Char} (hrest : rest <:+ cs) :
    Ends (· <:+ cs) (TextFault cs)
      (match lineBreak? rest with
        | some (_, rest) => .ok rest
        | none => if rest.isEmpty then .ok [] else .error .malformed) := by
  split
  · next hbreak => exact (lineBreak?_suffix hbreak).trans hrest
  · split
    · exact List.nil_suffix
    · exact .inl rfl

/-- The spaces that a text starts with are skipped, and a comment behind them. -/
theorem endOfLine_suffix (cs : List Char) :
    (if (cs.dropWhile (· = ' ')).head? = some '#' then
      (cs.dropWhile (· = ' ')).dropWhile (!isBreak ·)
    else cs.dropWhile (· = ' ')) <:+ cs := by
  split
  · exact (List.dropWhile_suffix _).trans (List.dropWhile_suffix _)
  · exact List.dropWhile_suffix _

theorem ends_skipRestOfLine (cs : List Char) :
    Ends (· <:+ cs) (TextFault cs) (skipRestOfLine cs) :=
  ends_lineBreak (endOfLine_suffix cs)

theorem readsToken_readDirective (cs : List Char) : ReadsToken cs (readDirective cs) := by
  have hword : cs.dropWhile isWordChar <:+ cs := List.dropWhile_suffix _
  have hfinish : ∀ directive rest, rest <:+ cs → ReadsToken cs (do
      let rest ← skipRestOfLine rest
      return (Token.directive directive, rest)) := by
    intro directive rest hrest
    exact Ends.bind ((ends_skipRestOfLine rest).mono (fun _ h => h.trans hrest) fun _ h => h.mono hrest)
      fun rest hrest => ⟨hrest, rfl⟩
  unfold readDirective
  dsimp only
  split
  · exact .inl rfl
  · split
    · exact Reads.bind ((reads_readVersion _).mono hword) hfinish
    · split
      · exact Reads.bind ((reads_readHandleExpansion _).mono hword) hfinish
      · exact hfinish _ _ ((List.dropWhile_suffix _).trans hword)

/-! ## Quoted scalars -/

theorem reads_emptyLines (bound : Nat) (cs : List Char) : Reads cs (emptyLines bound cs) := by
  induction bound generalizing cs with
  | zero => exact List.suffix_refl cs
  | succ bound ih =>
      unfold emptyLines
      split
      · exact reads_malformed cs
      · have hrest := List.dropWhile_suffix (l := cs) fun c => c = ' ' || c = '\t'
        dsimp only
        split
        · exact hrest
        · next hbreak => exact Ends.map ((ih _).mono ((lineBreak?_suffix hbreak).trans hrest))

theorem reads_quotedGap (cs : List Char) : Reads cs (quotedGap cs) := by
  have hrest := List.dropWhile_suffix (l := cs) fun c => c = ' ' || c = '\t'
  unfold quotedGap
  dsimp only
  split
  · exact reads_malformed cs
  · split
    · exact hrest
    · next hbreak =>
        exact Ends.map ((reads_emptyLines _ _).mono ((lineBreak?_suffix hbreak).trans hrest))

/-- The blanks and breaks before the rest of a scalar. -/
theorem reads_gap_append {more : List Char → Except Fault (List Char × List Char)}
    (hmore : ∀ rest, Reads rest (more rest)) (cs : List Char) : Reads cs
      (match quotedGap cs with
        | .error fault => .error fault
        | .ok (gap, rest) => (more rest).map fun (text, rest) => (gap ++ text, rest)) := by
  have hgap := reads_quotedGap cs
  split
  · next heq =>
      rw [heq] at hgap
      exact hgap
  · next heq =>
      rw [heq] at hgap
      exact Ends.map ((hmore _).mono hgap)

theorem reads_singleQuoted (bound : Nat) (cs : List Char) : Reads cs (singleQuoted bound cs) := by
  induction bound generalizing cs with
  | zero => exact reads_malformed cs
  | succ bound ih =>
      unfold singleQuoted
      split
      · exact reads_malformed _
      · exact Ends.map ((ih _).mono ((List.suffix_cons _ _).trans (List.suffix_cons _ _)))
      · exact List.suffix_cons _ _
      · next c rest _ _ =>
          split
          · exact reads_gap_append ih (c :: rest)
          · exact Ends.map ((ih _).mono (List.suffix_cons _ _))

theorem charOf_eq_error {number : Nat} {fault : Fault} (h : charOf number = .error fault) :
    fault = .codePoint number := by
  unfold charOf at h
  by_cases hvalid : number.isValidChar
  · rw [dif_pos hvalid] at h
    cases h
  · rw [dif_neg hvalid] at h
    by_cases hlow : number < 0x110000
    · rw [if_pos hlow] at h
      cases h
    · rw [if_neg hlow] at h
      cases h
      rfl

theorem reads_readEscape (cs : List Char) : Reads ('\\' :: cs) (readEscape cs) := by
  unfold readEscape
  split
  · exact reads_malformed _
  · next c rest =>
      have hafter : rest <:+ '\\' :: c :: rest := (List.suffix_cons _ _).trans (List.suffix_cons _ _)
      split
      · exact hafter
      · next count _ hcount =>
          split
          · exact reads_malformed _
          · next number digits hnumber =>
              cases hchar : charOf number with
              | ok e => exact (hexNumber?_suffix hnumber).trans hafter
              | error fault =>
                  exact .inr ⟨number, charOf_eq_error hchar, c, count, rest, digits,
                    List.suffix_refl _, hcount, hnumber⟩
      · split
        · exact reads_malformed _
        · next hbreak =>
            exact (reads_emptyLines _ _).mono ((lineBreak?_suffix hbreak).trans (List.suffix_cons _ _))

theorem reads_doubleQuoted (bound : Nat) (cs : List Char) : Reads cs (doubleQuoted bound cs) := by
  induction bound generalizing cs with
  | zero => exact reads_malformed cs
  | succ bound ih =>
      unfold doubleQuoted
      split
      · exact reads_malformed _
      · exact List.suffix_cons _ _
      · next rest =>
          have hescape := reads_readEscape rest
          split
          · next heq =>
              rw [heq] at hescape
              exact hescape
          · next heq =>
              rw [heq] at hescape
              exact Ends.map ((ih _).mono hescape)
      · next c rest _ _ =>
          split
          · exact reads_gap_append ih (c :: rest)
          · exact Ends.map ((ih _).mono (List.suffix_cons _ _))

/-! ## Plain scalars -/

theorem plainRun_suffix (flow : Bool) (cs : List Char) : (plainRun flow cs).2 <:+ cs := by
  induction cs with
  | nil => exact List.suffix_refl []
  | cons c rest ih =>
      unfold plainRun
      split
      · exact List.suffix_refl _
      · exact ih.trans (List.suffix_cons c rest)

theorem plainLines_suffix (bound column : Nat) (cs : List Char) :
    (plainLines bound column cs).2.2.1 <:+ cs := by
  induction bound generalizing column cs with
  | zero => exact List.suffix_refl cs
  | succ bound ih =>
      unfold plainLines
      split
      · exact (ih _ _).trans (List.suffix_cons _ _)
      · split
        · exact List.suffix_refl _
        · next hbreak =>
            split
            · exact lineBreak?_suffix hbreak
            · exact (ih _ _).trans (lineBreak?_suffix hbreak)

theorem plainGap_suffix (cs : List Char) : (plainGap cs).rest <:+ cs := by
  have hrest := List.dropWhile_suffix (l := cs) (· = ' ')
  unfold plainGap
  dsimp only
  split
  · exact hrest
  · next hbreak =>
      have hline := (lineBreak?_suffix hbreak).trans hrest
      split
      · exact hline
      · exact (plainLines_suffix _ _ _).trans hline

theorem plainScalar?_suffix {bound : Nat} {flow : Bool} {indent : Int} {cs : List Char}
    {scalar : PlainScalar} (h : plainScalar? bound flow indent cs = some scalar) :
    scalar.rest <:+ cs := by
  induction bound generalizing cs scalar with
  | zero => cases h
  | succ bound ih =>
      have hgap := (plainGap_suffix (plainRun flow cs).2).trans (plainRun_suffix flow cs)
      unfold plainScalar? at h
      dsimp only at h
      split at h
      · cases h
      · split at h
        · cases h
          exact hgap
        · split at h
          · cases h
            exact hgap
          · next hmore =>
              cases h
              exact (ih hmore).trans hgap

/-! ## Block scalars -/

theorem reads_readIndicators (cs : List Char) : Reads cs (readIndicators cs) := by
  unfold readIndicators
  extract_lets digit? sign?
  have hdigit : ∀ cs, (digit? cs).2 <:+ cs := by
    intro cs
    cases cs with
    | nil => exact List.suffix_refl []
    | cons c rest => cases hc : c.isDigit <;> simp [digit?, hc]
  have hsign : ∀ cs, (sign? cs).2 <:+ cs := by
    intro cs
    cases cs with
    | nil => exact List.suffix_refl []
    | cons c rest => cases hc : (chomping? c).isSome <;> simp [sign?, hc]
  clear_value digit? sign?
  have hindicators := (hdigit (sign? cs).2).trans (hsign cs)
  have hlate : ∀ wanted : Bool,
      (if wanted then sign? (digit? (sign? cs).2).2 else (none, (digit? (sign? cs).2).2)).2 <:+ cs := by
    intro wanted
    split
    · exact (hsign _).trans hindicators
    · exact hindicators
  have hend : ∀ (early : Option Chomping) (increment : Option Nat) (late : Option Chomping × List Char),
      late.2 <:+ cs → Reads cs
        (if increment = some 0 then .error .malformed
        else if endsOr isSpaceOrBreak late.2 then
          .ok (⟨(early.or late.1).getD .clip, increment⟩, late.2)
        else .error .malformed : Except Fault (BlockHeader × List Char)) := by
    intro early increment late hlate
    split
    · exact reads_malformed cs
    · split
      · exact hlate
      · exact reads_malformed cs
  exact hend _ _ _ (hlate _)

theorem measureLines_suffix (bound widest column : Nat) (cs : List Char) :
    (measureLines bound widest column cs).2.2.2 <:+ cs := by
  induction bound generalizing widest column cs with
  | zero => exact List.suffix_refl cs
  | succ bound ih =>
      unfold measureLines
      split
      · exact (ih _ _ _).trans (List.suffix_cons _ _)
      · split
        · exact List.suffix_refl _
        · next hbreak => exact (ih _ _ _).trans (lineBreak?_suffix hbreak)

theorem blankLines_suffix (bound indent column : Nat) (cs : List Char) :
    (blankLines bound indent column cs).2.2 <:+ cs := by
  induction bound generalizing column cs with
  | zero => exact List.suffix_refl cs
  | succ bound ih =>
      unfold blankLines
      split
      · split
        · exact (ih _ _).trans (List.suffix_cons _ _)
        · exact List.suffix_refl _
      · split
        · exact List.suffix_refl _
        · next hbreak => exact (ih _ _).trans (lineBreak?_suffix hbreak)

theorem blockLines_suffix (bound : Nat) (folded : Bool) (indent : Nat) (cs : List Char) :
    (blockLines bound folded indent cs).rest <:+ cs := by
  induction bound generalizing cs with
  | zero => exact List.suffix_refl cs
  | succ bound ih =>
      have hrest := List.dropWhile_suffix (l := cs) (!isBreak ·)
      unfold blockLines
      dsimp only
      split
      · exact hrest
      · next rest hbreak =>
          have hlines := (blankLines_suffix (rest.length + 1) indent 0 rest).trans
            ((lineBreak?_suffix hbreak).trans hrest)
          split
          · exact (ih _).trans hlines
          · exact hlines

/-- The text after the empty lines before its first line. -/
theorem reads_blockText {cs : List Char} (bound : Nat) (folded : Bool) (chomping : Chomping)
    (lead : List Char × Nat × Nat × List Char) (hlead : lead.2.2.2 <:+ cs) :
    Reads cs
      (match lead with
        | (breaks, indent, column, rest) =>
          if column = indent && !rest.isEmpty then
            let lines := blockLines bound folded indent rest
            pure (breaks ++ lines.text ++ chomping.ending lines.last lines.trailing, lines.rest)
          else pure (chomping.ending none breaks, rest)) := by
  obtain ⟨breaks, indent, column, rest⟩ := lead
  dsimp only
  split
  · exact (blockLines_suffix _ _ _ _).trans hlead
  · exact hlead

theorem reads_blockScalar (folded : Bool) (parent : Int) (cs : List Char) :
    Reads cs (blockScalar folded parent cs) := by
  unfold blockScalar
  refine Reads.bind (reads_readIndicators cs) fun header rest hrest => ?_
  refine Ends.bind ((ends_skipRestOfLine rest).mono (fun _ h => h.trans hrest) fun _ h => h.mono hrest)
    fun rest hrest => ?_
  extract_lets least bound
  refine reads_blockText bound folded header.chomping _ ?_
  split
  · exact (measureLines_suffix _ _ _ _).trans hrest
  · exact (blankLines_suffix _ _ _ _).trans hrest

end ImageTrust.Yaml
