import ImageTrust.Proofs.Dockerfile.ExecForm

/-! # Instructions as they stand in a text

What an instruction looks like, and where the instructions of a Dockerfile stand in its text. The two
together leave the reader no choice.
-/

namespace ImageTrust.Dockerfile

open Text

/-- A word and, if there is more, white space behind it and an argument on one line. -/
structure SpellsInstruction (text : List Char) : Prop where
  trimmed : Trimmed text
  word_ne_nil : text.takeWhile Char.isAlpha ≠ []
  word_ends : ∀ c ∈ (text.dropWhile Char.isAlpha).head?, isBlank c
  single : '\n' ∉ trim (text.dropWhile Char.isAlpha)

/-- The text of an instruction is a word and an argument, and tells the rest of it. -/
structure WellFormed (i : Instruction) : Prop where
  spells : SpellsInstruction i.raw.toList
  keyword_ne_nil : i.keyword.toList ≠ []
  keyword_capitals : ∀ c ∈ i.keyword.toList, c.isUpper
  keyword_eq : i.keyword.toList = (i.raw.toList.takeWhile Char.isAlpha).map Char.toUpper
  arguments_eq : i.arguments = argumentsOf i.keyword i.argumentText

/-- A text that begins with an instruction, white space before it included. -/
def StartsInstruction (cs : List Char) : Prop :=
  ∃ indent word gap rest, cs = indent ++ (word ++ (gap ++ rest)) ∧ Opening indent word gap

/-- The texts of instructions that stand in a text in order and without overlap. Each has nothing but white
space around it from the start of a line to the end of one, and no line between them starts an instruction.
A text without an argument comes at the very end only. -/
inductive LaidOut : List (List Char) → List Char → Prop
  | last {line : List Char} (hline : '\n' ∉ line) (h : ¬ StartsInstruction line) : LaidOut [] line
  | line {texts : List (List Char)} {line rest : List Char} (hline : '\n' ∉ line)
      (h : ¬ StartsInstruction (line ++ ['\n'])) : LaidOut texts rest →
      LaidOut texts (line ++ '\n' :: rest)
  | word {indent word gap : List Char} (h : Opening indent word gap) :
      LaidOut [word] (indent ++ (word ++ gap))
  | text {indent text blanks after : List Char} {texts : List (List Char)}
      (hindent : ∀ c ∈ indent, isBlank c) (hargument : ∃ c ∈ text, isBlank c)
      (hblanks : ∀ c ∈ blanks, isBlank c) (hline : '\n' ∉ blanks) (hafter : AtLineEnd after) :
      LaidOut texts (after.drop 1) → LaidOut (text :: texts) (indent ++ (text ++ (blanks ++ after)))

/-- Instructions that are all there is to read in a text: well-formed ones, all but the last one with an
argument, laid out in the text. -/
structure Exhibits (cs : List Char) (is : List Instruction) : Prop where
  wellFormed : ∀ i ∈ is, WellFormed i
  last_of_argumentText : ∀ k i, is[k]? = some i → i.argumentText = [] → k + 1 = is.length
  laidOut : LaidOut (is.map fun i => i.raw.toList) cs

variable {cs rest line text : List Char} {w : Written} {ws : List Written} {i j : Instruction}
  {is : List Instruction} {texts : List (List Char)}

/-! ## The shape of an instruction -/

theorem Written.Precedes.wellFormed (h : w.Precedes rest) : WellFormed w.instruction := by
  obtain ⟨tail, htext, htail, -⟩ := h.exists_trim_text
  have hstops : ∀ c, tail.head? = some c → c.isAlpha = false :=
    fun c hc => isAlpha_eq_false_of_isBlank (htail c hc)
  have hword : w.instruction.raw.toList.takeWhile Char.isAlpha = w.word := by
    rw [toList_raw_instruction, htext, takeWhile_run h.opening.word_alpha hstops]
  have hkeyword : w.instruction.keyword.toList = w.word.map Char.toUpper := String.toList_ofList
  constructor
  case spells =>
    refine ⟨?_, hword ▸ h.opening.word_ne_nil, ?_, ?_⟩
    · rw [toList_raw_instruction]
      exact trimmed_trim w.text
    · rw [toList_raw_instruction, htext, dropWhile_run h.opening.word_alpha hstops]
      exact htail
    · obtain ⟨blanks, hsplit, -⟩ := exists_trim_append h.start
      change '\n' ∉ w.instruction.argumentText
      rw [h.argumentText_eq]
      exact fun hmem => h.single (hsplit ▸ List.mem_append_left blanks hmem)
  case keyword_ne_nil =>
    rw [hkeyword, ne_eq, List.map_eq_nil_iff]
    exact h.opening.word_ne_nil
  case keyword_capitals =>
    intro c hc
    rw [hkeyword] at hc
    obtain ⟨d, hd, rfl⟩ := List.mem_map.mp hc
    exact isUpper_toUpper (h.opening.word_alpha d hd)
  case keyword_eq => rw [hkeyword, hword]
  case arguments_eq =>
    rw [h.argumentText_eq]
    rfl

/-- The text of an instruction tells what it is. -/
theorem eq_of_wellFormed (hi : WellFormed i) (hj : WellFormed j) (hraw : i.raw = j.raw) : i = j := by
  have hkeyword : i.keyword = j.keyword :=
    String.toList_inj.mp (by rw [hi.keyword_eq, hj.keyword_eq, hraw])
  have harguments : i.arguments = j.arguments := by
    rw [hi.arguments_eq, hj.arguments_eq, hkeyword, Instruction.argumentText, hraw]
    rfl
  cases i
  cases j
  rw [Instruction.mk.injEq]
  exact ⟨hkeyword, harguments, hraw⟩

/-! ## Instructions without an argument -/

theorem Written.Precedes.argument_eq_nil (h : w.Precedes rest)
    (hargument : w.instruction.argumentText = []) : w.argument = [] := by
  rw [h.argumentText_eq, ← List.head?_eq_none_iff, head?_trim h.start] at hargument
  exact List.head?_eq_none_iff.mp hargument

/-- An argument is missing at the end of a text only, where no other instruction follows. -/
theorem ReadOff.last_of_argument (h : ReadOff cs ws) :
    ∀ k w, ws[k]? = some w → w.argument = [] → k + 1 = ws.length := by
  induction h with
  | nil => exact fun k w hk => by simp at hk
  | @cons cs rest v ws hv hsuffix hrest ih =>
      intro k w hk hargument
      cases k with
      -- the text is at its end behind an instruction without an argument
      | zero =>
          cases hk
          have hnil := hv.rest_eq_nil hargument
          cases ws with
          | nil => rfl
          | cons u us => exact absurd hnil hrest.ne_nil
      | succ k => rw [ih k w hk hargument, List.length_cons]

/-! ## Places in a text -/

theorem StartsInstruction.append (h : StartsInstruction cs) (more : List Char) :
    StartsInstruction (cs ++ more) := by
  obtain ⟨indent, word, gap, rest, rfl, hopening⟩ := h
  exact ⟨indent, word, gap, rest ++ more, by simp, hopening⟩

theorem readInstruction?_eq_none_iff : readInstruction? cs = none ↔ ¬ StartsInstruction cs := by
  constructor
  · rintro hnone ⟨indent, word, gap, rest, rfl, hopening⟩
    rw [hopening.readInstruction?] at hnone
    cases hnone
  · intro hstart
    rw [Option.eq_none_iff_forall_ne_some]
    rintro ⟨w, rest⟩ hread
    obtain ⟨hw, htext⟩ := of_readInstruction? hread
    refine hstart ⟨cs.takeWhile isBlank, w.word, w.gap, w.argument ++ rest, ?_,
      { hw.opening with indent_blank := fun c hc => List.mem_takeWhile_imp hc }⟩
    rw [← List.append_assoc w.gap, ← List.append_assoc w.word]
    exact List.takeWhile_append_dropWhile.symm.trans (congrArg _ htext)

theorem scanFrom_last_line (hline : '\n' ∉ line) (h : ¬ StartsInstruction line) :
    scanFrom true line = [] := by
  have hread := readInstruction?_eq_none_iff.mpr h
  cases line with
  | nil => exact scanFrom_nil true
  | cons c line =>
      simp only [List.mem_cons, not_or] at hline
      have hrest := scanFrom_false_append hline.2 []
      rw [List.append_nil] at hrest
      rw [scanFrom_cons fun _ => hread, decide_eq_false (Ne.symm hline.1), hrest, scanFrom_nil]

/-- Whether an instruction starts on a line can be told without the lines after it. -/
theorem scanFrom_other_line (hline : '\n' ∉ line) (h : ¬ StartsInstruction (line ++ ['\n']))
    (rest : List Char) : scanFrom true (line ++ '\n' :: rest) = scanFrom true rest := by
  cases shape line with
  | blank hblank => exact scanFrom_blank_line hline hblank rest
  | @word indent word gap hopening =>
      exact absurd ⟨indent, word, gap ++ ['\n'], [], by simp, hopening⟩ h
  | @instruction indent word gap text c hopening hc =>
      exact absurd ⟨indent, word, gap, c :: text ++ ['\n'], by simp, hopening⟩ h
  | @other indent word text c hindent hword hc halpha =>
      have hnone := readInstruction?_eq_none hindent hword hc halpha (text ++ '\n' :: rest)
      refine scanFrom_line_of_none hline ?_
      simpa only [List.append_assoc, List.cons_append] using hnone

theorem scanFrom_false_of_atLineEnd (h : AtLineEnd rest) :
    scanFrom false rest = scanFrom true (rest.drop 1) := by
  rcases h with rfl | ⟨more, rfl⟩
  · rw [List.drop_nil, scanFrom_nil, scanFrom_nil]
  · exact scanFrom_false_newline more

/-! ## What the reader finds -/

theorem LaidOut.eq_nil (h : LaidOut texts []) : texts = [] := by
  generalize hcs : [] = cs at h
  cases h with
  | last => rfl
  | line => simp at hcs
  | word hopening => exact absurd hcs (by simp [hopening.word_ne_nil])
  | text hindent hargument =>
      obtain ⟨c, hc, -⟩ := hargument
      exact absurd hcs (by simp [List.ne_nil_of_mem hc])

theorem Written.Precedes.laidOut (h : w.Precedes rest) {indent : List Char}
    (hindent : ∀ c ∈ indent, isBlank c) (hlater : LaidOut texts (rest.drop 1)) :
    LaidOut (trim w.text :: texts) (indent ++ (w.text ++ rest)) := by
  by_cases hargument : w.argument = []
  · have hrest := h.rest_eq_nil hargument
    rw [hrest, List.drop_nil] at hlater
    rw [h.trim_text_of_nil hargument, hlater.eq_nil, hrest, List.append_nil, Written.text, hargument,
      List.append_nil]
    exact .word { h.opening with indent_blank := hindent }
  · have hcomplete := h.complete hargument
    obtain ⟨blanks, hsplit, hblanks⟩ := exists_trim_append h.start
    have htext : w.text = trim w.text ++ blanks := by
      calc
        w.text = w.word ++ (w.gap ++ (trim w.argument ++ blanks)) := by rw [← hsplit, Written.text]
        _ = trim w.text ++ blanks := by
          rw [hcomplete.trim_text]
          simp [Written.text, Written.tidy]
    obtain ⟨c, gap, hgap⟩ := List.exists_cons_of_ne_nil h.opening.gap_ne_nil
    have hblank : ∃ c ∈ trim w.text, isBlank c := by
      refine ⟨c, ?_, h.opening.gap_blank c (hgap ▸ List.mem_cons_self)⟩
      rw [hcomplete.trim_text, Written.text, Written.tidy, hgap]
      simp
    have hline : '\n' ∉ blanks := fun hmem => h.single (hsplit ▸ List.mem_append_right _ hmem)
    have hlaid := LaidOut.text hindent hblank hblanks hline h.lineEnd hlater
    rwa [← List.append_assoc (trim w.text), ← htext] at hlaid

/-- The reader goes line by line or, where an instruction starts, up to the end of its last line. -/
theorem laidOut_scanFrom (cs : List Char) :
    LaidOut ((scanFrom true cs).map fun w => trim w.text) cs := by
  induction hn : cs.length using Nat.strong_induction_on generalizing cs with
  | h n ih =>
      cases hread : readInstruction? cs with
      | none =>
          have hstart := readInstruction?_eq_none_iff.mp hread
          by_cases hmem : '\n' ∈ cs
          · obtain ⟨line, rest, rfl, hline⟩ := List.eq_append_cons_of_mem hmem
            have hlength : rest.length < n := by
              rw [← hn, List.length_append, List.length_cons]
              omega
            rw [scanFrom_line_of_none hline hread]
            refine .line hline (fun hopens => hstart ?_) (ih _ hlength rest rfl)
            simpa using hopens.append rest
          · rw [scanFrom_last_line hmem hstart]
            exact .last hmem hstart
      | some result =>
          obtain ⟨w, rest⟩ := result
          obtain ⟨hw, htext⟩ := of_readInstruction? hread
          have hlength : (rest.drop 1).length < n := by
            have hshorter := readInstruction?_length hread
            rw [List.length_drop]
            omega
          have hlater := ih _ hlength (rest.drop 1) rfl
          rw [← scanFrom_false_of_atLineEnd hw.lineEnd] at hlater
          have hindent : ∀ c ∈ cs.takeWhile isBlank, isBlank c := fun c hc => List.mem_takeWhile_imp hc
          have hlaid := hw.laidOut hindent hlater
          rw [← htext, List.takeWhile_append_dropWhile] at hlaid
          rw [scanFrom_of_some hread, List.map_cons]
          exact hlaid

/-! ## Nothing else can be found -/

/-- A text with white space in it has an argument. -/
theorem SpellsInstruction.exists_parts (h : SpellsInstruction text) (hblank : ∃ c ∈ text, isBlank c) :
    ∃ word gap c argument, text = word ++ (gap ++ c :: argument) ∧ Opening [] word gap ∧
      isBlank c = false ∧ '\n' ∉ c :: argument := by
  have hletters : ∀ c ∈ text.takeWhile Char.isAlpha, c.isAlpha := fun c hc => List.mem_takeWhile_imp hc
  have hsplit := List.takeWhile_append_dropWhile (p := Char.isAlpha) (l := text)
  obtain ⟨htrimmed, hne, hends, hsingle⟩ := h
  generalize text.takeWhile Char.isAlpha = word at hletters hsplit hne
  generalize text.dropWhile Char.isAlpha = tail at hsplit hends hsingle
  subst hsplit
  have htail : tail ≠ [] := by
    rintro rfl
    obtain ⟨c, hc, hblank⟩ := hblank
    rw [List.append_nil] at hc
    rw [isBlank_eq_false_of_isAlpha (hletters c hc)] at hblank
    cases hblank
  have hlast : ∀ c ∈ tail.getLast?, isBlank c = false := by
    intro c hc
    refine htrimmed.2 c ?_
    rw [List.getLast?_append, hc]
    rfl
  have hvisible : visible tail ≠ [] := by
    intro hnone
    obtain ⟨c, hc⟩ := Option.isSome_iff_exists.mp (List.getLast?_isSome.mpr htail)
    cases (hlast c hc).symm.trans (visible_eq_nil_iff.mp hnone c (List.mem_of_getLast? hc))
  obtain ⟨gap, c, argument, rfl, hgap, hc⟩ := exists_visible hvisible
  refine ⟨word, gap, c, argument, rfl, ⟨List.forall_mem_nil _, hletters, hne, hgap, ?_⟩, hc, ?_⟩
  · rintro rfl
    cases hc.symm.trans (hends c rfl)
  -- the argument ends visibly as the whole text does, so nothing is trimmed behind the gap
  · have hargument : Trimmed (c :: argument) := by
      refine ⟨stops_cons hc argument, fun d hd => hlast d ?_⟩
      rw [List.getLast?_append, hd]
      rfl
    rwa [trim_blank_append hgap, trim_of_trimmed hargument] at hsingle

theorem LaidOut.texts_eq (h : LaidOut texts cs) (htexts : ∀ text ∈ texts, SpellsInstruction text) :
    (scanFrom true cs).map (fun w => trim w.text) = texts := by
  induction h with
  | last hline hstart => rw [scanFrom_last_line hline hstart, List.map_nil]
  | line hline hstart _ ih => rw [scanFrom_other_line hline hstart, ih htexts]
  | @word indent word gap hopening =>
      have hscan := hopening.scanFrom []
      have hw := (of_readInstruction? (hopening.readInstruction? [])).1
      rw [List.append_nil, readArgument_nil] at hscan
      simp only [List.takeWhile_nil, List.dropWhile_nil, List.append_nil] at hw
      rw [hscan, List.map_singleton, hw.trim_text_of_nil rfl]
  | @text indent text blanks after texts hindent hargument hblanks hline hafter _ ih =>
      obtain ⟨hspells, hlater⟩ := List.forall_mem_cons.mp htexts
      obtain ⟨word, gap, c, argument, htext, hopening, hc, hsingle⟩ := hspells.exists_parts hargument
      have hscan := ({ hopening with indent_blank := hindent } : Opening indent word gap).scanFrom
        (c :: argument ++ blanks ++ after)
      have hmem : '\n' ∉ c :: argument ++ blanks := fun hmem =>
        (List.mem_append.mp hmem).elim hsingle hline
      rw [readArgument_line hmem ⟨c, rfl, hc⟩ hafter, scanFrom_false_of_atLineEnd hafter] at hscan
      have hcs : indent ++ (text ++ (blanks ++ after)) =
          indent ++ (word ++ (gap ++ (c :: argument ++ blanks ++ after))) := by
        simp [htext]
      have htrim : trim (Written.text ⟨word, gap, c :: argument ++ blanks⟩) = text := by
        have hwhole : Written.text ⟨word, gap, c :: argument ++ blanks⟩ = text ++ blanks := by
          simp [Written.text, htext]
        rw [hwhole, trim_append_blank hblanks, trim_of_trimmed hspells.trimmed]
      rw [hcs, hscan, List.map_cons, htrim, ih hlater]

theorem eq_of_map_raw {js : List Instruction} (his : ∀ i ∈ is, WellFormed i)
    (hjs : ∀ j ∈ js, WellFormed j) (h : is.map Instruction.raw = js.map Instruction.raw) : is = js := by
  induction is generalizing js with
  | nil => exact (List.map_eq_nil_iff.mp h.symm).symm
  | cons i is ih =>
      obtain ⟨j, js, rfl, hraw, hlater⟩ := List.map_eq_cons_iff.mp h.symm
      obtain ⟨hi, his⟩ := List.forall_mem_cons.mp his
      obtain ⟨hj, hjs⟩ := List.forall_mem_cons.mp hjs
      rw [eq_of_wellFormed hi hj hraw.symm, ih his hjs hlater.symm]

/-! ## Public theorem -/

theorem exhibits_instructions (content : String) :
    Exhibits (preprocess content.toList) (instructions content) := by
  have hread := readOff_scanFrom true (preprocess content.toList)
  have hlaid := laidOut_scanFrom (preprocess content.toList)
  rw [instructions]
  refine ⟨fun i hi => ?_, fun k i hi hargument => ?_, ?_⟩
  · obtain ⟨w, hw, rfl⟩ := List.mem_map.mp hi
    obtain ⟨rest, hprecedes⟩ := hread.exists_precedes w hw
    exact hprecedes.wellFormed
  · rw [List.getElem?_map, Option.map_eq_some_iff] at hi
    obtain ⟨w, hw, rfl⟩ := hi
    obtain ⟨rest, hprecedes⟩ := hread.exists_precedes w (List.mem_of_getElem? hw)
    rw [List.length_map]
    exact hread.last_of_argument k w hw (hprecedes.argument_eq_nil hargument)
  · rw [List.map_map]
    simpa only [Function.comp_def, toList_raw_instruction] using hlaid

/-- The instructions of a Dockerfile, and no others, are what its text exhibits when comments are dropped and
continued lines are joined. -/
theorem exhibits_preprocess_iff (content : String) (is : List Instruction) :
    Exhibits (preprocess content.toList) is ↔ is = instructions content := by
  have hread := exhibits_instructions content
  constructor
  · intro h
    have hspells : ∀ text ∈ is.map fun i => i.raw.toList, SpellsInstruction text := by
      intro text htext
      obtain ⟨i, hi, rfl⟩ := List.mem_map.mp htext
      exact (h.wellFormed i hi).spells
    have htexts : (instructions content).map (fun i => i.raw.toList) = is.map fun i => i.raw.toList := by
      rw [← h.laidOut.texts_eq hspells, instructions, List.map_map]
      exact List.map_congr_left fun w _ => toList_raw_instruction w
    refine eq_of_map_raw h.wellFormed hread.wellFormed ?_
    have hofList := congrArg (List.map String.ofList) htexts.symm
    simpa [Function.comp_def] using hofList
  · rintro rfl
    exact hread

/-- A word takes a later line as its argument, and a word at the end has none. -/
example :
    (instructions "a-b\nEOF\n \n-x \nrUn\t\n\n").map (fun i => (i.keyword, i.argumentText)) =
      [("EOF", "-x".toList), ("RUN", [])] := by
  decide +kernel

end ImageTrust.Dockerfile
