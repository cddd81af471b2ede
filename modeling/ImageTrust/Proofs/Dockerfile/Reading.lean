import ImageTrust.Proofs.Dockerfile.Continuation

/-! # Reading instructions line by line

A word that stands alone on its line takes the next line as its argument, so what the lines of a text
are read as depends on the lines before them in one respect: whether a word still waits.
-/

namespace ImageTrust.Dockerfile

open Text

/-! ## Lines and words -/

/-- The lines of a text that are not blank. -/
def visibleLines (cs : List Char) : List (List Char) :=
  (splitAt '\n' cs).filter fun line => !(visible line).isEmpty

/-- A single word stands on a line. -/
def isLoneWord (line : List Char) : Bool :=
  let start := line.dropWhile isBlank
  !(start.takeWhile Char.isAlpha).isEmpty && (visible (start.dropWhile Char.isAlpha)).isEmpty

/-- Whether the last one of some lines is a word that waits for its argument. A lone word takes the
next line as its argument, whatever stands there. -/
def waits : List (List Char) → Bool
  | [] => false
  | [line] => isLoneWord line
  | line :: next :: lines => if isLoneWord line then waits lines else waits (next :: lines)

theorem visibleLines_of_not_mem {line : List Char} (h : '\n' ∉ line) :
    visibleLines line = if visible line = [] then [] else [line] := by
  rw [visibleLines, splitAt_of_not_mem h, List.filter_cons, List.filter_nil]
  by_cases hv : visible line = [] <;> simp [hv]

theorem visibleLines_append {line : List Char} (h : '\n' ∉ line) (rest : List Char) :
    visibleLines (line ++ '\n' :: rest) =
      (if visible line = [] then [] else [line]) ++ visibleLines rest := by
  rw [visibleLines, splitAt_append_cons rest h, List.filter_cons]
  by_cases hv : visible line = [] <;> simp [hv, visibleLines]

theorem visibleLines_of_blank {cs : List Char} (h : visible cs = []) : visibleLines cs = [] := by
  induction cs using lines_induction with
  | last line hline => rw [visibleLines_of_not_mem hline, if_pos h]
  | line line rest hline ih =>
      rw [visible_append, List.append_eq_nil_iff] at h
      rw [visibleLines_append hline, if_pos h.1, List.nil_append]
      exact ih h.2

/-- Blank lines do not count, and white space in front of a line only belongs to it. -/
theorem visibleLines_blank_append {blanks line : List Char} (hblanks : visible blanks = [])
    (hline : '\n' ∉ line) (hvisible : visible line ≠ []) (rest : List Char) :
    ∃ first, visibleLines (blanks ++ (line ++ '\n' :: rest)) = first :: visibleLines rest := by
  induction blanks using lines_induction with
  | last indent hindent =>
      refine ⟨indent ++ line, ?_⟩
      have hmem : '\n' ∉ indent ++ line := by simp [hindent, hline]
      rw [← List.append_assoc, visibleLines_append hmem, if_neg]
      · rfl
      · simp [hvisible]
  | line indent more hindent ih =>
      rw [visible_append, List.append_eq_nil_iff] at hblanks
      obtain ⟨first, hfirst⟩ := ih hblanks.2
      refine ⟨first, ?_⟩
      rw [List.append_assoc, List.cons_append, visibleLines_append hindent, if_pos hblanks.1, hfirst]
      rfl

/-! ## The start of an instruction -/

theorem head?_word_append {word : List Char} (hword : ∀ c ∈ word, c.isAlpha) (hne : word ≠ [])
    (rest : List Char) : ∀ c, (word ++ rest).head? = some c → isBlank c = false := by
  intro c hc
  cases word with
  | nil => exact absurd rfl hne
  | cons d word =>
      cases hc
      exact isBlank_eq_false_of_isAlpha (hword c List.mem_cons_self)

theorem head?_other_append {word : List Char} {c : Char} (hword : ∀ c ∈ word, c.isAlpha)
    (hblank : isBlank c = false) (rest : List Char) :
    ∀ d, (word ++ c :: rest).head? = some d → isBlank d = false := by
  by_cases hne : word = []
  · subst hne
    exact stops_cons hblank rest
  · exact head?_word_append hword hne (c :: rest)

/-- How an instruction starts: white space, its word and the white space after it. -/
structure Opening (indent word gap : List Char) : Prop where
  indent_blank : ∀ c ∈ indent, isBlank c
  word_alpha : ∀ c ∈ word, c.isAlpha
  word_ne_nil : word ≠ []
  gap_blank : ∀ c ∈ gap, isBlank c
  gap_ne_nil : gap ≠ []

variable {indent word gap : List Char}

theorem Opening.gap_append (h : Opening indent word gap) {blanks : List Char}
    (hblanks : ∀ c ∈ blanks, isBlank c) : Opening indent word (gap ++ blanks) := by
  refine { h with gap_blank := ?_, gap_ne_nil := by simp [h.gap_ne_nil] }
  intro c hc
  rcases List.mem_append.mp hc with hc | hc
  · exact h.gap_blank c hc
  · exact hblanks c hc

theorem Opening.head?_word (h : Opening indent word gap) (rest : List Char) :
    ∀ c, (word ++ rest).head? = some c → isBlank c = false :=
  head?_word_append h.word_alpha h.word_ne_nil rest

theorem Opening.head?_gap (h : Opening indent word gap) (rest : List Char) :
    ∀ c, (gap ++ rest).head? = some c → c.isAlpha = false := by
  intro c hc
  obtain ⟨d, blanks, rfl⟩ := List.exists_cons_of_ne_nil h.gap_ne_nil
  cases hc
  exact isAlpha_eq_false_of_isBlank (h.gap_blank c List.mem_cons_self)

theorem Opening.visible_ne_nil (h : Opening indent word gap) (rest : List Char) :
    visible (indent ++ (word ++ rest)) ≠ [] := by
  rw [visible_append, visible_append, visible_eq_self_of_isAlpha h.word_alpha]
  simp [h.word_ne_nil]

theorem Opening.isContent (h : Opening indent word gap) (rest : List Char) :
    isContent (indent ++ (word ++ rest)) := by
  rw [Dockerfile.isContent, dropWhile_run h.indent_blank (h.head?_word rest)]
  obtain ⟨c, letters, rfl⟩ := List.exists_cons_of_ne_nil h.word_ne_nil
  have hc : c ≠ '#' := by
    rintro rfl
    exact absurd (h.word_alpha '#' List.mem_cons_self) (by decide)
  exact decide_eq_true hc

/-- The passes before the reader leave the start of an instruction as it is. -/
theorem Opening.preprocess (h : Opening indent word gap) {c : Char} {text after : List Char}
    (hline : '\n' ∉ indent ++ (word ++ (gap ++ c :: text))) (hc : isBlank c = false)
    (hafter : AtLineEnd after) :
    preprocess (indent ++ (word ++ (gap ++ c :: text)) ++ after) =
      indent ++ (word ++ (gap ++ joinLines (c :: text ++ dropCommentsFrom false after))) := by
  have hcontent := h.isContent (gap ++ c :: text)
  have hstops := stops_cons hc (text ++ dropCommentsFrom false after)
  have hopening : '\n' ∉ indent ++ (word ++ gap) := by
    simp only [List.mem_append, not_or] at hline ⊢
    exact ⟨hline.1, hline.2.1, hline.2.2.1⟩
  rw [Dockerfile.preprocess, dropComments, dropComments_content hline hcontent hafter]
  simpa only [List.append_assoc, List.cons_append] using joinLines_line_append hopening hstops

/-! ## One instruction -/

/-- The reading of a word and the white space after it that has been seen, from the rest of the text
on. -/
def readArgument (word gap rest : List Char) : List Written :=
  ⟨word, gap ++ rest.takeWhile isBlank, (rest.dropWhile isBlank).takeWhile (· ≠ '\n')⟩ ::
    scanFrom false ((rest.dropWhile isBlank).dropWhile (· ≠ '\n'))

theorem readInstruction?_blank_append {blanks : List Char} (h : ∀ c ∈ blanks, isBlank c)
    (cs : List Char) : readInstruction? (blanks ++ cs) = readInstruction? cs := by
  rw [readInstruction?, readInstruction?, List.dropWhile_append_of_pos h]

theorem Opening.readInstruction? (h : Opening indent word gap) (rest : List Char) :
    readInstruction? (indent ++ (word ++ (gap ++ rest))) =
      some (⟨word, gap ++ rest.takeWhile isBlank, (rest.dropWhile isBlank).takeWhile (· ≠ '\n')⟩,
        (rest.dropWhile isBlank).dropWhile (· ≠ '\n')) := by
  rw [Dockerfile.readInstruction?, dropWhile_run h.indent_blank (h.head?_word _)]
  simp only [takeWhile_run h.word_alpha (h.head?_gap rest),
    dropWhile_run h.word_alpha (h.head?_gap rest), List.takeWhile_append_of_pos h.gap_blank,
    List.dropWhile_append_of_pos h.gap_blank]
  simp [h.word_ne_nil, h.gap_ne_nil]

/-- A line whose word is followed by something else, or that has no word, is no instruction. -/
theorem readInstruction?_eq_none {indent word : List Char} {c : Char}
    (hindent : ∀ c ∈ indent, isBlank c) (hword : ∀ c ∈ word, c.isAlpha) (hblank : isBlank c = false)
    (halpha : c.isAlpha = false) (rest : List Char) :
    readInstruction? (indent ++ (word ++ c :: rest)) = none := by
  rw [readInstruction?, dropWhile_run hindent (head?_other_append hword hblank rest)]
  simp only [dropWhile_run hword (stops_cons halpha rest)]
  simp [hblank]

/-- The characters of an instruction. -/
def Written.text (w : Written) : List Char :=
  w.word ++ (w.gap ++ w.argument)

/-- An instruction in front of the rest of a text. The argument goes up to the end of its line, and it is
missing at the end of the text only. -/
structure Written.Precedes (w : Written) (rest : List Char) : Prop where
  opening : Opening [] w.word w.gap
  single : '\n' ∉ w.argument
  start : ∀ c ∈ w.argument.head?, isBlank c = false
  lineEnd : AtLineEnd rest
  rest_eq_nil : w.argument = [] → rest = []

/-- The reader takes the instruction at the first visible character. -/
theorem of_readInstruction? {cs rest : List Char} {w : Written}
    (h : readInstruction? cs = some (w, rest)) :
    w.Precedes rest ∧ cs.dropWhile isBlank = w.text ++ rest := by
  rw [readInstruction?] at h
  split at h
  · cases h
  · next hne =>
      simp only [Bool.or_eq_true, List.isEmpty_iff, not_or] at hne
      cases h
      refine ⟨⟨⟨List.forall_mem_nil _, fun c hc => List.mem_takeWhile_imp hc, hne.1,
        fun c hc => List.mem_takeWhile_imp hc, hne.2⟩, ?_, ?_, atLineEnd_dropWhile _, ?_⟩, ?_⟩
      · exact fun hmem => by simpa using List.mem_takeWhile_imp hmem
      · intro c hc
        rw [List.head?_takeWhile] at hc
        exact head?_dropWhile (Option.eq_some_of_filter_eq_some hc)
      · intro hargument
        cases htail : ((cs.dropWhile isBlank).dropWhile Char.isAlpha).dropWhile isBlank with
        | nil => rfl
        | cons c tail =>
            have hc : isBlank c = false := head?_dropWhile (by rw [htail]; rfl)
            have hnewline : c ≠ '\n' := by
              rintro rfl
              cases hc
            simp [htail, hnewline] at hargument
      · simp only [Written.text, List.append_assoc, List.takeWhile_append_dropWhile]

/-! ## One step -/

theorem scanFrom_nil (lineStart : Bool) : scanFrom lineStart [] = [] := by
  rw [scanFrom]
  cases lineStart <;> rfl

theorem scanFrom_of_some {cs rest : List Char} {w : Written}
    (h : readInstruction? cs = some (w, rest)) : scanFrom true cs = w :: scanFrom false rest := by
  rw [scanFrom]
  split
  · next heq =>
      rw [if_pos rfl, h] at heq
      cases heq
      rfl
  · next heq => simp [h] at heq

theorem scanFrom_cons {lineStart : Bool} {c : Char} {cs : List Char}
    (h : lineStart = true → readInstruction? (c :: cs) = none) :
    scanFrom lineStart (c :: cs) = scanFrom (c = '\n') cs := by
  rw [scanFrom]
  split
  · next heq =>
      split at heq
      · next hstart => simp [h hstart] at heq
      · cases heq
  · rfl

theorem scanFrom_false_append {line : List Char} (h : '\n' ∉ line) (rest : List Char) :
    scanFrom false (line ++ rest) = scanFrom false rest := by
  induction line with
  | nil => rfl
  | cons c line ih =>
      simp only [List.mem_cons, not_or] at h
      rw [List.cons_append, scanFrom_cons (by simp), decide_eq_false (Ne.symm h.1), ih h.2]

theorem scanFrom_false_newline (rest : List Char) :
    scanFrom false ('\n' :: rest) = scanFrom true rest := by
  rw [scanFrom_cons (by simp)]
  rfl

/-! ## One line -/

/-- A line at which no instruction starts is passed over. -/
theorem scanFrom_line_of_none {line : List Char} (hline : '\n' ∉ line) {rest : List Char}
    (h : readInstruction? (line ++ '\n' :: rest) = none) :
    scanFrom true (line ++ '\n' :: rest) = scanFrom true rest := by
  cases line with
  | nil => exact scanFrom_cons fun _ => h
  | cons c line =>
      simp only [List.mem_cons, not_or] at hline
      rw [List.cons_append] at h ⊢
      rw [scanFrom_cons fun _ => h, decide_eq_false (Ne.symm hline.1),
        scanFrom_false_append hline.2, scanFrom_false_newline]

theorem scanFrom_blank_line {line : List Char} (hline : '\n' ∉ line) (h : visible line = [])
    (rest : List Char) : scanFrom true (line ++ '\n' :: rest) = scanFrom true rest := by
  have hread : readInstruction? (line ++ '\n' :: rest) = readInstruction? rest := by
    have hblanks : ∀ c ∈ line ++ ['\n'], isBlank c := by
      rw [← visible_eq_nil_iff, visible_append, h]
      rfl
    rw [← readInstruction?_blank_append hblanks rest, List.append_assoc, List.singleton_append]
  cases hrest : readInstruction? rest with
  | none => exact scanFrom_line_of_none hline (hread.trans hrest)
  | some result => rw [scanFrom_of_some (hread.trans hrest), scanFrom_of_some hrest]

/-- No instruction is read from white space. -/
theorem scanFrom_of_blank {cs : List Char} (h : ∀ c ∈ cs, isBlank c) (lineStart : Bool) :
    scanFrom lineStart cs = [] := by
  induction cs generalizing lineStart with
  | nil => exact scanFrom_nil lineStart
  | cons c cs ih =>
      have hread := readInstruction?_blank_append h []
      rw [List.append_nil] at hread
      rw [scanFrom_cons fun _ => hread, ih fun d hd => h d (List.mem_cons_of_mem _ hd)]

/-! ## The argument of an instruction -/

theorem Opening.scanFrom (h : Opening indent word gap) (rest : List Char) :
    scanFrom true (indent ++ (word ++ (gap ++ rest))) = readArgument word gap rest :=
  scanFrom_of_some (h.readInstruction? rest)

/-- The argument of an instruction that is visible on its line is the rest of the line. -/
theorem readArgument_line {word gap argument rest : List Char} (hargument : '\n' ∉ argument)
    (hvisible : ∃ c, argument.head? = some c ∧ isBlank c = false) (hrest : AtLineEnd rest) :
    readArgument word gap (argument ++ rest) = ⟨word, gap, argument⟩ :: scanFrom false rest := by
  obtain ⟨c, hc, hblank⟩ := hvisible
  have hstops : ∀ d, (argument ++ rest).head? = some d → isBlank d = false := by
    intro d hd
    rw [List.head?_append, hc] at hd
    cases hd
    exact hblank
  rw [readArgument, takeWhile_eq_nil hstops, dropWhile_eq_self hstops,
    takeWhile_line hargument hrest, dropWhile_line hargument hrest, List.append_nil]

/-- A word whose line ends, or is followed by blank lines, still waits. -/
theorem readArgument_blank {word gap blanks : List Char} (h : ∀ c ∈ blanks, isBlank c)
    (rest : List Char) :
    readArgument word gap (blanks ++ rest) = readArgument word (gap ++ blanks) rest := by
  rw [readArgument, readArgument, List.takeWhile_append_of_pos h, List.dropWhile_append_of_pos h,
    List.append_assoc]

theorem readArgument_nil (word gap : List Char) : readArgument word gap [] = [⟨word, gap, []⟩] := by
  simp [readArgument, scanFrom_nil]

/-- An instruction and its argument on one line. -/
theorem Opening.scanFrom_line (h : Opening indent word gap) {argument : List Char}
    (hargument : '\n' ∉ argument) (hvisible : ∃ c, argument.head? = some c ∧ isBlank c = false)
    (rest : List Char) :
    Dockerfile.scanFrom true (indent ++ (word ++ (gap ++ argument)) ++ '\n' :: rest) =
      ⟨word, gap, argument⟩ :: Dockerfile.scanFrom true rest := by
  simp only [List.append_assoc]
  rw [h.scanFrom, readArgument_line hargument hvisible (atLineEnd_cons rest), scanFrom_false_newline]

/-- An instruction on a line of its own is read as it stands. -/
theorem Opening.scanFrom_preprocess_line (h : Opening [] word gap) {argument : List Char}
    (hline : '\n' ∉ word ++ (gap ++ argument))
    (hvisible : ∃ c, argument.head? = some c ∧ isBlank c = false)
    (hlast : ¬EndsInBackslash (word ++ (gap ++ argument))) (rest : List Char) :
    Dockerfile.scanFrom true (Dockerfile.preprocess (word ++ (gap ++ argument) ++ '\n' :: rest)) =
      ⟨word, gap, argument⟩ :: Dockerfile.scanFrom true (Dockerfile.preprocess rest) := by
  have hargument : '\n' ∉ argument := fun hmem => hline (by simp [hmem])
  have hscan := h.scanFrom_line hargument hvisible (Dockerfile.preprocess rest)
  rw [List.nil_append] at hscan
  rw [preprocess_line hline (h.isContent (gap ++ argument)) hlast, hscan]

/-- A word takes its argument from what follows its line. -/
theorem Opening.scanFrom_word (h : Opening indent word (gap ++ ['\n'])) (rest : List Char) :
    Dockerfile.scanFrom true (indent ++ (word ++ gap) ++ '\n' :: rest) =
      readArgument word (gap ++ ['\n']) rest := by
  have hscan := h.scanFrom rest
  simp only [List.append_assoc, List.singleton_append] at hscan ⊢
  exact hscan

/-! ## Shapes of a line -/

/-- What a line is to the reader: blank, a lone word, an instruction with the start of its argument, or
something else. -/
inductive Shape : List Char → Prop
  | blank {line : List Char} (h : visible line = []) : Shape line
  | word {indent word gap : List Char} (h : Opening indent word (gap ++ ['\n'])) :
      Shape (indent ++ (word ++ gap))
  | instruction {indent word gap text : List Char} {c : Char} (h : Opening indent word gap)
      (hc : isBlank c = false) : Shape (indent ++ (word ++ (gap ++ c :: text)))
  | other {indent word text : List Char} {c : Char} (hindent : ∀ c ∈ indent, isBlank c)
      (hword : ∀ c ∈ word, c.isAlpha) (hc : isBlank c = false) (halpha : c.isAlpha = false) :
      Shape (indent ++ (word ++ c :: text))

theorem shape (line : List Char) : Shape line := by
  have hindent : ∀ c ∈ line.takeWhile isBlank, isBlank c := fun c hc => List.mem_takeWhile_imp hc
  have hsplit := List.takeWhile_append_dropWhile (p := isBlank) (l := line)
  generalize line.takeWhile isBlank = indent at hindent hsplit
  have hstart : ∀ c, (line.dropWhile isBlank).head? = some c → isBlank c = false :=
    fun c hc => head?_dropWhile hc
  generalize line.dropWhile isBlank = start at hstart hsplit
  have hword : ∀ c ∈ start.takeWhile Char.isAlpha, c.isAlpha := fun c hc => List.mem_takeWhile_imp hc
  have hafter : ∀ c, (start.dropWhile Char.isAlpha).head? = some c → c.isAlpha = false :=
    fun c hc => head?_dropWhile hc
  have hsplit' := List.takeWhile_append_dropWhile (p := Char.isAlpha) (l := start)
  generalize start.takeWhile Char.isAlpha = word at hword hsplit'
  generalize start.dropWhile Char.isAlpha = tail at hafter hsplit'
  subst hsplit' hsplit
  by_cases hvisible : visible tail = []
  · by_cases hne : word = []
    · subst hne
      refine .blank ?_
      rw [visible_append, visible_append, hvisible, visible_eq_nil_iff.mpr hindent]
      rfl
    · have hgap : ∀ c ∈ tail ++ ['\n'], isBlank c := by
        rw [← visible_eq_nil_iff, visible_append, hvisible]
        rfl
      exact .word ⟨hindent, hword, hne, hgap, by simp⟩
  · obtain ⟨gap, c, text, rfl, hgap, hc⟩ := exists_visible hvisible
    cases gap with
    | nil => exact .other hindent hword hc (hafter c rfl)
    | cons d gap =>
        have hd : isBlank d = true := hgap d List.mem_cons_self
        refine .instruction ⟨hindent, hword, ?_, hgap, List.cons_ne_nil d gap⟩ hc
        rintro rfl
        rw [hstart d rfl] at hd
        cases hd

theorem isLoneWord_append {indent word tail : List Char} (hindent : ∀ c ∈ indent, isBlank c)
    (hword : ∀ c ∈ word, c.isAlpha) (hstart : ∀ c, (word ++ tail).head? = some c → isBlank c = false)
    (hstops : ∀ c, tail.head? = some c → c.isAlpha = false) :
    isLoneWord (indent ++ (word ++ tail)) = (!word.isEmpty && (visible tail).isEmpty) := by
  rw [isLoneWord, dropWhile_run hindent hstart, takeWhile_run hword hstops,
    dropWhile_run hword hstops]

theorem Opening.isLoneWord_word (h : Opening indent word (gap ++ ['\n'])) :
    isLoneWord (indent ++ (word ++ gap)) = true := by
  have hgap : ∀ c ∈ gap, isBlank c := fun c hc => h.gap_blank c (List.mem_append_left _ hc)
  have hstops : ∀ c, gap.head? = some c → c.isAlpha = false := by
    intro c hc
    exact isAlpha_eq_false_of_isBlank (hgap c (List.mem_of_head? hc))
  rw [isLoneWord_append h.indent_blank h.word_alpha (h.head?_word gap) hstops,
    visible_eq_nil_iff.mpr hgap]
  simp [h.word_ne_nil]

theorem Opening.isLoneWord_line (h : Opening indent word gap) {c : Char} (hc : isBlank c = false)
    (text : List Char) : isLoneWord (indent ++ (word ++ (gap ++ c :: text))) = false := by
  rw [isLoneWord_append h.indent_blank h.word_alpha (h.head?_word _) (h.head?_gap _), visible_append,
    visible_cons_of_not_blank hc]
  simp

theorem isLoneWord_other {indent word text : List Char} {c : Char}
    (hindent : ∀ c ∈ indent, isBlank c) (hword : ∀ c ∈ word, c.isAlpha) (hc : isBlank c = false)
    (halpha : c.isAlpha = false) : isLoneWord (indent ++ (word ++ c :: text)) = false := by
  rw [isLoneWord_append hindent hword (head?_other_append hword hc text) (stops_cons halpha text),
    visible_cons_of_not_blank hc]
  simp

theorem waits_cons {line : List Char} (h : isLoneWord line = false) (lines : List (List Char)) :
    waits (line :: lines) = waits lines := by
  cases lines with
  | nil => exact h
  | cons next lines => rw [waits, h, if_neg Bool.false_ne_true]

theorem waits_cons_cons {line : List Char} (h : isLoneWord line = true) (next : List Char)
    (lines : List (List Char)) : waits (line :: next :: lines) = waits lines := by
  rw [waits, if_pos h]

/-! ## Whole texts -/

/-- How reading goes on after a text: at the start of a line, or in front of the argument of a word
that waits. -/
def resume : Option (List Char × List Char) → List Char → List Written
  | none, rest => scanFrom true rest
  | some (word, gap), rest => readArgument word gap rest

/-- The instructions of a text, and the word that waits for its argument after it. The rules go line by
line and do not invoke the reader. -/
inductive Reads : List Char → List Written → Option (List Char × List Char) → Prop
  | nil : Reads [] [] none
  | blank {line rest front waiting} (hline : '\n' ∉ line) (h : visible line = []) :
      Reads rest front waiting → Reads (line ++ '\n' :: rest) front waiting
  | other {indent word text c rest front waiting} (hline : '\n' ∉ indent ++ (word ++ c :: text))
      (hindent : ∀ c ∈ indent, isBlank c) (hword : ∀ c ∈ word, c.isAlpha) (hc : isBlank c = false)
      (halpha : c.isAlpha = false) : Reads rest front waiting →
      Reads (indent ++ (word ++ c :: text) ++ '\n' :: rest) front waiting
  | instruction {indent word gap text c rest front waiting}
      (hline : '\n' ∉ indent ++ (word ++ (gap ++ c :: text))) (h : Opening indent word gap)
      (hc : isBlank c = false) : Reads rest front waiting →
      Reads (indent ++ (word ++ (gap ++ c :: text)) ++ '\n' :: rest)
        (⟨word, gap, c :: text⟩ :: front) waiting
  | word {indent word gap blanks} (hline : '\n' ∉ indent ++ (word ++ gap))
      (h : Opening indent word (gap ++ ['\n'])) (hblanks : ∀ c ∈ blanks, isBlank c) :
      Reads (indent ++ (word ++ gap) ++ '\n' :: blanks) [] (some (word, gap ++ ['\n'] ++ blanks))
  | argument {indent word gap blanks line rest front waiting}
      (hword : '\n' ∉ indent ++ (word ++ gap)) (h : Opening indent word (gap ++ ['\n']))
      (hblanks : ∀ c ∈ blanks, isBlank c) (hline : '\n' ∉ line)
      (hstart : ∃ c, line.head? = some c ∧ isBlank c = false) :
      Reads rest front waiting →
      Reads (indent ++ (word ++ gap) ++ '\n' :: (blanks ++ (line ++ '\n' :: rest)))
        (⟨word, gap ++ ['\n'] ++ blanks, line⟩ :: front) waiting

theorem exists_reads {cs : List Char} (h : Terminated cs) :
    ∃ front waiting, Reads cs front waiting := by
  induction hn : cs.length using Nat.strong_induction_on generalizing cs with
  | h n ih =>
      by_cases hmem : '\n' ∈ cs
      · obtain ⟨line, more, rfl, hline⟩ := List.eq_append_cons_of_mem hmem
        have hlength : more.length < n := by
          rw [← hn, List.length_append, List.length_cons]
          omega
        obtain ⟨front, waiting, hmore⟩ := ih _ hlength h.of_append_cons rfl
        cases shape line with
        | blank hblank => exact ⟨_, _, .blank hline hblank hmore⟩
        | other hindent hword hc halpha => exact ⟨_, _, .other hline hindent hword hc halpha hmore⟩
        | instruction hopening hc => exact ⟨_, _, .instruction hline hopening hc hmore⟩
        | word hopening =>
            by_cases hblank : visible more = []
            · exact ⟨_, _, .word hline hopening (visible_eq_nil_iff.mp hblank)⟩
            · obtain ⟨blanks, next, rest, rfl, hblanks, hnext, hstart⟩ :=
                h.of_append_cons.exists_line hblank
              have hlength' : rest.length < n := by
                simp only [List.length_append, List.length_cons] at hlength
                omega
              obtain ⟨front, waiting, hrest⟩ :=
                ih _ hlength' h.of_append_cons.of_append.of_append_cons rfl
              exact ⟨_, _, .argument hline hopening hblanks hnext hstart hrest⟩
      · rw [h.eq_nil_of_not_mem hmem]
        exact ⟨_, _, .nil⟩

variable {cs : List Char} {front : List Written} {waiting : Option (List Char × List Char)}

/-- Only the word that waits acts on the reading of what follows a text. -/
theorem Reads.scanFrom_append (h : Reads cs front waiting) (rest : List Char) :
    scanFrom true (cs ++ rest) = front ++ resume waiting rest := by
  induction h with
  | nil => rfl
  | blank hline hblank _ ih =>
      rw [List.append_assoc, List.cons_append, scanFrom_blank_line hline hblank, ih]
  | @other _ _ text _ more _ _ hline hindent hword hc halpha _ ih =>
      have hnone := readInstruction?_eq_none hindent hword hc halpha (text ++ '\n' :: (more ++ rest))
      rw [List.append_assoc, List.cons_append, scanFrom_line_of_none hline, ih]
      simpa only [List.append_assoc, List.cons_append] using hnone
  | @instruction _ _ _ text c _ _ _ hline hopening hc _ ih =>
      have htext : '\n' ∉ c :: text := fun hmem => hline (by simp [hmem])
      rw [List.append_assoc, List.cons_append, hopening.scanFrom_line htext ⟨c, rfl, hc⟩, ih]
      rfl
  | word _ hopening hblanks =>
      rw [List.append_assoc, List.cons_append, hopening.scanFrom_word, readArgument_blank hblanks]
      rfl
  | @argument _ _ _ blanks line _ _ _ _ hopening hblanks hline hstart _ ih =>
      rw [List.append_assoc, List.cons_append, hopening.scanFrom_word, List.append_assoc blanks,
        readArgument_blank hblanks, List.append_assoc line, List.cons_append,
        readArgument_line hline hstart (atLineEnd_cons _), scanFrom_false_newline, ih]
      rfl

/-- Whether a word waits can be told from the lines of a text. -/
theorem Reads.isSome_waiting (h : Reads cs front waiting) :
    waiting.isSome = waits (visibleLines cs) := by
  induction h with
  | nil => rfl
  | blank hline hblank _ ih => rw [visibleLines_append hline, if_pos hblank, List.nil_append, ih]
  | other hline hindent hword hc halpha _ ih =>
      rw [visibleLines_append hline, if_neg (by simp [visible_cons_of_not_blank hc]),
        List.singleton_append, waits_cons (isLoneWord_other hindent hword hc halpha), ih]
  | instruction hline hopening hc _ ih =>
      rw [visibleLines_append hline, if_neg (hopening.visible_ne_nil _), List.singleton_append,
        waits_cons (hopening.isLoneWord_line hc _), ih]
  | word hline hopening hblanks =>
      rw [visibleLines_append hline, if_neg (hopening.visible_ne_nil _), List.singleton_append,
        visibleLines_of_blank (visible_eq_nil_iff.mpr hblanks)]
      exact hopening.isLoneWord_word.symm
  | argument hword hopening hblanks hline hstart _ ih =>
      obtain ⟨first, hfirst⟩ := visibleLines_blank_append (visible_eq_nil_iff.mpr hblanks) hline
        (visible_ne_nil_of_head? hstart) _
      rw [visibleLines_append hword, if_neg (hopening.visible_ne_nil _), List.singleton_append,
        hfirst, waits_cons_cons hopening.isLoneWord_word, ih]

end ImageTrust.Dockerfile
