import ImageTrust.Proofs.Dockerfile.FromLine
import ImageTrust.Proofs.Dockerfile.Rereading
import ImageTrust.Proofs.Json.TextArrays
import ImageTrust.Proofs.Text.Words
import Mathlib.Data.List.Forall2

/-! # Arguments written as arrays

An argument that is written as an array of strings is taken apart into its strings, whatever they hold. Any
other argument is one text, or the words of one behind a FROM.
-/

namespace ImageTrust

/-- The argument of an instruction, as its text has it behind the word. -/
def Instruction.argumentText (i : Instruction) : List Char :=
  Text.trim (i.raw.toList.dropWhile Char.isAlpha)

namespace Dockerfile

open Text

/-- An argument between square brackets. -/
def Bracketed (argument : List Char) : Prop :=
  argument.head? = some '[' ∧ argument.getLast? = some ']'

instance (argument : List Char) : Decidable (Bracketed argument) :=
  inferInstanceAs (Decidable (_ ∧ _))

/-- An array of strings that spell some texts, with escapes or without. -/
def Encodes (encoding : List Char) (texts : List String) : Prop :=
  ∃ unitLists, Json.TextArray encoding unitLists ∧
    List.Forall₂ (fun units text => Json.UnitsOf units text.toList) unitLists texts

/-- The strings of the arrays in a Dockerfile spell characters, never half of a pair of surrogates. -/
def SpellsCharacters (content : String) : Prop :=
  ∀ i ∈ instructions content, ∀ unitLists, Json.TextArray i.argumentText unitLists →
    Encodes i.argumentText i.arguments

variable {word encoding argument : List Char} {texts : List String} {keyword : String}

/-! ## Reading an argument -/

theorem Encodes.bracketed (h : Encodes encoding texts) : Bracketed encoding :=
  h.elim fun _ h => ⟨h.1.head?_eq, h.1.getLast?_eq⟩

theorem isArray_iff : isArray argument ↔ Bracketed argument := by
  simp [isArray, Bracketed]

theorem argumentsOf_of_bracketed (h : Bracketed argument) (keyword : String) :
    argumentsOf keyword argument =
      match (Json.read? argument).bind Json.texts? with
      | some texts => texts.map String.ofList
      | none => [String.ofList argument] := by
  unfold argumentsOf
  exact if_pos (isArray_iff.mpr h)

theorem joinSurrogates_of_forall₂ {unitLists : List (List ℕ)}
    (h : List.Forall₂ (fun units text => Json.UnitsOf units text.toList) unitLists texts) :
    (unitLists.map Json.joinSurrogates).map String.ofList = texts := by
  induction h with
  | nil => rfl
  | cons hunits h ih => simp [hunits.joinSurrogates_eq, ih]

theorem Encodes.argumentsOf_eq (h : Encodes encoding texts) (keyword : String) :
    argumentsOf keyword encoding = texts := by
  have hbracketed := h.bracketed
  obtain ⟨unitLists, harray, htexts⟩ := h
  have hread := (Json.texts?_read?_iff hbracketed.1 hbracketed.2).mpr ⟨unitLists, harray, rfl⟩
  rw [argumentsOf_of_bracketed hbracketed, hread]
  exact joinSurrogates_of_forall₂ htexts

theorem argumentsOf_of_not_textArray (h : ∀ unitLists, ¬ Json.TextArray argument unitLists)
    (keyword : String) :
    argumentsOf keyword argument =
      if keyword = "FROM" ∧ ¬ Bracketed argument then wordsOf argument
      else [String.ofList argument] := by
  by_cases hbracketed : Bracketed argument
  · have hnone : (Json.read? argument).bind Json.texts? = none := by
      rw [Option.eq_none_iff_forall_ne_some]
      intro found hfound
      obtain ⟨unitLists, harray, -⟩ := (Json.texts?_read?_iff hbracketed.1 hbracketed.2).mp hfound
      exact h unitLists harray
    rw [argumentsOf_of_bracketed hbracketed, hnone, if_neg fun hfrom => hfrom.2 hbracketed]
  · rw [argumentsOf, if_neg (isArray_iff.not.mpr hbracketed)]
    simp only [hbracketed, not_false_eq_true, and_true]
    rfl

/-! ## Instructions of a text -/

theorem Written.Precedes.argumentText_eq {w : Written} {rest : List Char} (h : w.Precedes rest) :
    w.instruction.argumentText = trim w.argument := by
  obtain ⟨tail, htext, htail, htrim⟩ := h.exists_trim_text
  have hstops : ∀ c, tail.head? = some c → c.isAlpha = false :=
    fun c hc => isAlpha_eq_false_of_isBlank (htail c hc)
  rw [Instruction.argumentText, toList_raw_instruction, htext,
    dropWhile_run h.opening.word_alpha hstops, htrim]

theorem ReadOff.exists_precedes {cs : List Char} {ws : List Written} (h : ReadOff cs ws) :
    ∀ w ∈ ws, ∃ rest, w.Precedes rest := by
  induction h with
  | nil => exact List.forall_mem_nil _
  | cons hw hsuffix h ih => exact List.forall_mem_cons.mpr ⟨⟨_, hw⟩, ih⟩

/-- The arguments of an instruction are told by its word and its argument. -/
theorem arguments_eq_argumentsOf {content : String} {i : Instruction} (hi : i ∈ instructions content) :
    i.arguments = argumentsOf i.keyword i.argumentText := by
  obtain ⟨w, hw, rfl⟩ := List.mem_map.mp hi
  obtain ⟨rest, hprecedes⟩ := (readOff_scanFrom true (preprocess content.toList)).exists_precedes w hw
  rw [hprecedes.argumentText_eq]
  rfl

/-- The passes before the reader change nothing in a single line that is an instruction. -/
theorem Opening.instructions_eq {gap : List Char} (h : Opening [] word gap)
    (hline : '\n' ∉ word ++ (gap ++ argument))
    (hstart : ∃ c, argument.head? = some c ∧ isBlank c = false) :
    instructions (String.ofList (word ++ (gap ++ argument))) =
      [Written.instruction ⟨word, gap, argument⟩] := by
  obtain ⟨c, hc, hblank⟩ := hstart
  obtain ⟨text, rfl⟩ := List.head?_eq_some_iff.mp hc
  have hargument : '\n' ∉ c :: text := fun hmem =>
    hline (List.mem_append_right _ (List.mem_append_right _ hmem))
  have hpreprocess : Dockerfile.preprocess (word ++ (gap ++ c :: text)) = word ++ (gap ++ c :: text) := by
    have hjoined := h.preprocess hline hblank atLineEnd_nil
    rw [dropCommentsFrom_nil, List.append_nil, List.append_nil, joinLines_line hargument] at hjoined
    exact hjoined
  have hscan : Dockerfile.scanFrom true (word ++ (gap ++ c :: text)) = [⟨word, gap, c :: text⟩] := by
    have hread : readArgument word gap (c :: text ++ []) = [⟨word, gap, c :: text⟩] := by
      rw [readArgument_line hargument ⟨c, hc, hblank⟩ atLineEnd_nil, scanFrom_nil]
    rw [List.append_nil] at hread
    exact (h.scanFrom (c :: text)).trans hread
  rw [instructions_ofList, hpreprocess, hscan, List.map_singleton]

theorem Encodes.instructions_eq (h : Encodes encoding texts) (hne : word ≠ [])
    (hword : ∀ c ∈ word, c.isAlpha) (hline : '\n' ∉ encoding) :
    instructions (String.ofList (word ++ ' ' :: encoding)) =
      [⟨String.ofList (word.map Char.toUpper), texts, String.ofList (word ++ ' ' :: encoding)⟩] := by
  have hbracketed := h.bracketed
  have hopening : Opening [] word [' '] :=
    ⟨List.forall_mem_nil _, hword, hne, List.forall_mem_singleton.mpr rfl, List.cons_ne_nil _ _⟩
  have hsingle : '\n' ∉ word ++ ([' '] ++ encoding) := by
    have hletters : '\n' ∉ word := fun hmem => absurd (hword _ hmem) (by decide)
    simp [hletters, hline]
  have hcomplete : Written.Complete ⟨word, [' '], encoding⟩ := ⟨hopening, hline, '[', hbracketed.1, rfl⟩
  have htrim : trim encoding = encoding := by
    refine trim_of_trimmed ⟨fun c hc => ?_, fun c hc => ?_⟩
    · cases hbracketed.1.symm.trans hc
      rfl
    · cases hbracketed.2.symm.trans hc
      rfl
  have hraw : trim (word ++ [' '] ++ encoding) = word ++ ' ' :: encoding := by
    have htext := hcomplete.trim_text
    rw [Written.tidy, htrim, Written.text] at htext
    simpa using htext
  have hread := hopening.instructions_eq hsingle hcomplete.start
  rw [List.singleton_append] at hread
  rw [hread, Written.instruction, Written.keyword, htrim, h.argumentsOf_eq, hraw]

/-! ## Public theorem -/

/-- What is written as an array of strings on the line of a word is read back as the strings, whatever
escapes the array has and whatever the strings hold. An argument of an instruction that is no such array is
a single text, or the words of it behind a FROM. -/
theorem arguments_exec_form :
    (∀ (word encoding : List Char) (texts : List String), word ≠ [] → (∀ c ∈ word, c.isAlpha) →
      '\n' ∉ encoding → Encodes encoding texts →
        instructions (String.ofList (word ++ ' ' :: encoding)) =
          [⟨String.ofList (word.map Char.toUpper), texts, String.ofList (word ++ ' ' :: encoding)⟩]) ∧
    ∀ content, ∀ i ∈ instructions content,
      (∀ unitLists, ¬ Json.TextArray i.argumentText unitLists) →
        i.arguments =
          if i.keyword = "FROM" ∧ ¬ Bracketed i.argumentText then wordsOf i.argumentText
          else [String.ofList i.argumentText] := by
  refine ⟨fun word encoding texts hne hword hline hencodes => ?_, fun content i hi hnone => ?_⟩
  · exact hencodes.instructions_eq hne hword hline
  · rw [arguments_eq_argumentsOf hi, argumentsOf_of_not_textArray hnone]

/-- A number sign, a quote, a backslash, a line end and a character beyond the first plane. -/
def troublesome : List Char :=
  ['#', '"', '\\', '\n', Char.ofNat 0x1F600]

/-- The same as they may stand in a string. -/
def troublesomeBody : List Char :=
  ['#', '\\', '"', '\\', '\\', '\\', 'n', '\\', 'u', 'D', '8', '3', 'd', '\\', 'u', 'd', 'e', '0', '0']

/-- The code points and surrogates of both. -/
def troublesomeUnits : List ℕ :=
  ['#'.toNat, '"'.toNat, '\\'.toNat, '\n'.toNat, 0xD83D, 0xDE00]

def troublesomeEncoding : List Char :=
  '[' :: [' '] ++ ('"' :: troublesomeBody ++ '"' :: [] ++ ',' :: ['\t'] ++
    ('"' :: ['[', ']'] ++ '"' :: [' '] ++ [']']))

theorem encodes_troublesome : Encodes troublesomeEncoding [String.ofList troublesome, "[]"] := by
  have hfirst : Json.Body troublesomeBody troublesomeUnits :=
    .raw (by decide) (by decide) (by decide)
      (.escape rfl (.escape rfl (.escape rfl (.number rfl (.number rfl .nil)))))
  have hsecond : Json.Body ['[', ']'] ['['.toNat, ']'.toNat] :=
    .raw (by decide) (by decide) (by decide) (.raw (by decide) (by decide) (by decide) .nil)
  have hnone : ∀ c ∈ ([] : List Char), Json.isSpace c := List.forall_mem_nil _
  have hspace : ∀ c ∈ [' '], Json.isSpace c := List.forall_mem_singleton.mpr rfl
  have htab : ∀ c ∈ ['\t'], Json.isSpace c := List.forall_mem_singleton.mpr rfl
  have hunits : Json.UnitsOf troublesomeUnits (String.ofList troublesome).toList := by
    have hlarge : 0x10000 ≤ (Char.ofNat 0x1F600).toNat := by decide
    rw [String.toList_ofList]
    exact .single '#' (.single '"' (.single '\\' (.single '\n' (.pair hlarge .nil))))
  have hunits' : Json.UnitsOf ['['.toNat, ']'.toNat] "[]".toList := .single '[' (.single ']' .nil)
  exact ⟨_, .items hspace (.cons hfirst hnone htab (.last hsecond hspace)), .cons hunits (.cons hunits' .nil)⟩

/-- An array that holds a number is no array of strings. -/
theorem not_textArray_mixed (unitLists : List (List ℕ)) :
    ¬ Json.TextArray "[\"a\", 1]".toList unitLists := by
  intro h
  have hread := (Json.texts?_read?_iff h.head?_eq h.getLast?_eq).mpr ⟨unitLists, h, rfl⟩
  have hnone : (Json.read? "[\"a\", 1]".toList).bind Json.texts? = none := by decide +kernel
  rw [hnone] at hread
  cases hread

theorem arguments_exec_form_troublesome :
    instructions (String.ofList ("rUn".toList ++ ' ' :: troublesomeEncoding)) =
        [⟨"RUN", [String.ofList troublesome, "[]"],
          String.ofList ("rUn".toList ++ ' ' :: troublesomeEncoding)⟩] ∧
      ∀ i ∈ instructions "FROM [\"a\", 1]", i.arguments = ["[\"a\", 1]"] := by
  refine ⟨arguments_exec_form.1 "rUn".toList troublesomeEncoding _ (by decide)
    (List.all_eq_true.mp (by decide)) (by decide) encodes_troublesome, fun i hi => ?_⟩
  have hread : instructions "FROM [\"a\", 1]" = [⟨"FROM", ["[\"a\", 1]"], "FROM [\"a\", 1]"⟩] := by
    decide +kernel
  have htext : i.argumentText = "[\"a\", 1]".toList := by
    rw [hread, List.mem_singleton] at hi
    rw [hi]
    decide
  have harguments := arguments_exec_form.2 _ i hi (htext ▸ not_textArray_mixed)
  rw [htext, if_neg fun hfrom => hfrom.2 (by decide), String.ofList_toList] at harguments
  exact harguments

end Dockerfile

end ImageTrust
