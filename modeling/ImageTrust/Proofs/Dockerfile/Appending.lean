import ImageTrust.Proofs.Dockerfile.Grouping
import ImageTrust.Proofs.Dockerfile.Reading

/-! # Texts after a Dockerfile

A text in which no line can begin with FROM may be put after a Dockerfile: the base image stays what it
is, whatever word the Dockerfile ends in.
-/

namespace ImageTrust.Dockerfile

open Text

/-! ## Lines that open no stage -/

/-- A character that begins neither FROM nor a comment and is no backslash. -/
def IsOtherStart (c : Char) : Prop :=
  c.toUpper ≠ 'F' ∧ c ≠ '#' ∧ c ≠ '\\'

instance : DecidablePred IsOtherStart :=
  fun c => inferInstanceAs (Decidable (c.toUpper ≠ 'F' ∧ c ≠ '#' ∧ c ≠ '\\'))

/-- The first visible character of a text, if there is one, opens no stage. -/
def StartsOther (cs : List Char) : Prop :=
  ∀ c, (cs.dropWhile isBlank).head? = some c → IsOtherStart c

/-- Every line of a text but the first starts in this way. -/
def LaterLinesOther (cs : List Char) : Prop :=
  ∀ rest, '\n' :: rest <:+ cs → StartsOther rest

theorem startsOther_of_visible_eq_nil {cs : List Char} (h : visible cs = []) : StartsOther cs := by
  intro c hc
  rw [List.dropWhile_eq_nil_iff.mpr (visible_eq_nil_iff.mp h)] at hc
  cases hc

theorem startsOther_append {blanks rest : List Char} {c : Char} (hblanks : ∀ c ∈ blanks, isBlank c)
    (hc : isBlank c = false) (hother : IsOtherStart c) :
    StartsOther (blanks ++ c :: rest) := by
  intro d hd
  rw [dropWhile_run hblanks (stops_cons hc rest)] at hd
  cases hd
  exact hother

/-- A line that begins visibly and opens no stage. -/
structure OtherLine (line : List Char) : Prop where
  single : '\n' ∉ line
  head : ∃ c, line.head? = some c ∧ isBlank c = false ∧ IsOtherStart c

theorem OtherLine.startsOther {line blanks : List Char} (h : OtherLine line)
    (hblanks : ∀ c ∈ blanks, isBlank c) (rest : List Char) :
    StartsOther (blanks ++ (line ++ rest)) := by
  obtain ⟨c, hhead, hc, hother⟩ := h.head
  obtain ⟨tail, rfl⟩ := List.head?_eq_some_iff.mp hhead
  exact startsOther_append hblanks hc hother

/-- A text that is not blank starts as it goes on. -/
theorem StartsOther.exists_visible {cs : List Char} (h : StartsOther cs) (hvisible : visible cs ≠ []) :
    ∃ blanks c tail, cs = blanks ++ c :: tail ∧ (∀ x ∈ blanks, isBlank x) ∧ isBlank c = false ∧
      IsOtherStart c := by
  obtain ⟨blanks, c, tail, rfl, hblanks, hc⟩ := Text.exists_visible hvisible
  refine ⟨blanks, c, tail, rfl, hblanks, hc, h c ?_⟩
  rw [dropWhile_run hblanks (stops_cons hc tail)]
  rfl

theorem StartsOther.afterComment? {cs : List Char} (h : StartsOther cs) : afterComment? cs = none :=
  afterComment?_eq_none fun hc => (h '#' hc).2.1 rfl

theorem joinLines_of_visible_eq_nil {cs : List Char} (h : visible cs = []) : joinLines cs = cs := by
  rw [visible_eq_nil_iff] at h
  induction cs with
  | nil => rw [joinLines]
  | cons c cs ih =>
      have hc : c ≠ '\\' := by
        rintro rfl
        exact absurd (h '\\' List.mem_cons_self) (by decide)
      rw [joinLines_cons_of_ne hc, ih fun d hd => h d (List.mem_cons_of_mem c hd)]

theorem joinLines_blank_append {blanks : List Char} (h : ∀ c ∈ blanks, isBlank c) (cs : List Char) :
    joinLines (blanks ++ cs) = blanks ++ joinLines cs := by
  rw [joinLines_append (not_endsInBackslash_of_blank h),
    joinLines_of_visible_eq_nil (visible_eq_nil_iff.mpr h)]

theorem StartsOther.joinLines {cs : List Char} (h : StartsOther cs) : StartsOther (joinLines cs) := by
  by_cases hvisible : visible cs = []
  · rw [joinLines_of_visible_eq_nil hvisible]
    exact h
  · obtain ⟨blanks, c, tail, rfl, hblanks, hc, hother⟩ := h.exists_visible hvisible
    rw [joinLines_blank_append hblanks, joinLines_cons_of_ne hother.2.2]
    exact startsOther_append hblanks hc hother

/-! ## Texts line by line -/

theorem laterLinesOther_nil : LaterLinesOther [] :=
  behind_of_not_mem List.not_mem_nil

theorem laterLinesOther_cons_iff {c : Char} {cs : List Char} :
    LaterLinesOther (c :: cs) ↔ (c = '\n' → StartsOther cs) ∧ LaterLinesOther cs :=
  behind_cons_iff

theorem LaterLinesOther.suffix {cs rest : List Char} (h : LaterLinesOther cs) (hrest : rest <:+ cs) :
    LaterLinesOther rest :=
  Behind.suffix h hrest

theorem laterLinesOther_line_append {line rest : List Char} (hline : '\n' ∉ line)
    (h : LaterLinesOther rest) : LaterLinesOther (line ++ rest) :=
  behind_append_of_not_mem hline h

/-! ## The passes before the reader -/

theorem LaterLinesOther.dropCommentsFrom {cs : List Char} (h : LaterLinesOther cs) {lineStart : Bool}
    (hstart : lineStart = true → StartsOther cs) : dropCommentsFrom lineStart cs = cs :=
  CommentFree.dropCommentsFrom (fun rest hrest => (h rest hrest).afterComment?)
    fun hline => (hstart hline).afterComment?

theorem LaterLinesOther.joinLines {cs : List Char} (h : LaterLinesOther cs) :
    LaterLinesOther (joinLines cs) :=
  behind_newline_joinLines h fun _ _ hrest => hrest.joinLines

/-! ## Reading -/

/-- The word of an instruction starts with the first visible character of its line. -/
theorem StartsOther.keyword_ne {cs rest : List Char} {w : Written} (h : StartsOther cs)
    (hread : readInstruction? cs = some (w, rest)) : w.keyword ≠ "FROM" := by
  obtain ⟨hw, hstart⟩ := of_readInstruction? hread
  obtain ⟨c, letters, hword⟩ := List.exists_cons_of_ne_nil hw.opening.word_ne_nil
  have hhead : (cs.dropWhile isBlank).head? = some c := by
    rw [hstart, Written.text, hword]
    rfl
  intro hkeyword
  have hletters := congrArg String.toList hkeyword
  rw [Written.keyword, String.toList_ofList, hword] at hletters
  exact (h c hhead).1 (List.cons.inj hletters).1

theorem suffix_of_readInstruction? {cs rest : List Char} {w : Written}
    (h : readInstruction? cs = some (w, rest)) : rest <:+ cs := by
  have hsuffix : rest <:+ cs.dropWhile isBlank := by
    rw [(of_readInstruction? h).2]
    exact List.suffix_append _ _
  exact hsuffix.trans (List.dropWhile_suffix _)

theorem LaterLinesOther.keyword_ne {cs : List Char} (h : LaterLinesOther cs) {lineStart : Bool}
    (hstart : lineStart = true → StartsOther cs) :
    ∀ w ∈ scanFrom lineStart cs, w.keyword ≠ "FROM" := by
  induction lineStart, cs using scanFrom.induct with
  | case1 lineStart cs w rest hread ih =>
      split at hread
      · next hline =>
          subst hline
          rw [scanFrom_of_some hread]
          intro v hv
          rcases List.mem_cons.mp hv with rfl | hv
          · exact (hstart rfl).keyword_ne hread
          · exact ih (h.suffix (suffix_of_readInstruction? hread)) (by simp) v hv
      · cases hread
  | case2 lineStart hread => simp [scanFrom_nil]
  | case3 lineStart c rest hread ih =>
      rw [laterLinesOther_cons_iff] at h
      rw [scanFrom_cons fun hline => by simpa [hline] using hread]
      exact ih h.2 fun hc => h.1 (of_decide_eq_true hc)

/-- A text none of whose lines can open a stage. -/
structure FromFree (cs : List Char) : Prop where
  first : StartsOther cs
  later : LaterLinesOther cs

theorem fromFree_nil : FromFree [] :=
  ⟨startsOther_of_visible_eq_nil rfl, laterLinesOther_nil⟩

theorem FromFree.line_append {line rest : List Char} (hline : '\n' ∉ line)
    (hstart : StartsOther (line ++ '\n' :: rest)) (h : FromFree rest) :
    FromFree (line ++ '\n' :: rest) :=
  ⟨hstart, laterLinesOther_line_append hline (laterLinesOther_cons_iff.mpr ⟨fun _ => h.first, h.later⟩)⟩

theorem FromFree.otherLine_append {line rest : List Char} (hline : OtherLine line)
    (h : FromFree rest) : FromFree (line ++ '\n' :: rest) :=
  h.line_append hline.single (hline.startsOther (List.forall_mem_nil _) _)

theorem FromFree.preprocess {cs : List Char} (h : FromFree cs) : FromFree (preprocess cs) := by
  rw [Dockerfile.preprocess, dropComments, h.later.dropCommentsFrom fun _ => h.first]
  exact ⟨h.first.joinLines, h.later.joinLines⟩

theorem FromFree.keyword_ne_of_mem_scanFrom {cs : List Char} (h : FromFree cs) :
    ∀ w ∈ scanFrom true cs, w.keyword ≠ "FROM" :=
  h.later.keyword_ne fun _ => h.first

/-- A word that waits takes its argument from the text, and nothing after that is a FROM. -/
theorem FromFree.exists_readArgument {cs : List Char} (h : FromFree cs) (word gap : List Char) :
    ∃ gap' argument later, readArgument word gap cs = ⟨word, gap', argument⟩ :: later ∧
      ∀ w ∈ later, w.keyword ≠ "FROM" := by
  have hsuffix := (List.dropWhile_suffix (p := (· ≠ '\n')) (l := cs.dropWhile isBlank)).trans
    (List.dropWhile_suffix (p := isBlank) (l := cs))
  exact ⟨_, _, _, rfl, (h.later.suffix hsuffix).keyword_ne (by simp)⟩

/-! ## The instructions of both texts -/

variable {front rest : List Char}

/-- What a text after a Dockerfile adds to its instructions: others than FROM, and the argument of the
word that the Dockerfile may end in. -/
theorem FromFree.instructions_append (hfront : Terminated front)
    (hlast : ∀ line, (contentLines front).getLast? = some line → ¬ EndsInBackslash line)
    (h : FromFree rest) :
    ∃ before after, (∀ w ∈ after, w.keyword ≠ "FROM") ∧
      ((scanFrom true (Dockerfile.preprocess front) = before ∧
          scanFrom true (Dockerfile.preprocess (front ++ rest)) = before ++ after) ∨
        ∃ word gap gap' argument,
          scanFrom true (Dockerfile.preprocess front) = before ++ [⟨word, gap, []⟩] ∧
          scanFrom true (Dockerfile.preprocess (front ++ rest)) =
            before ++ ⟨word, gap', argument⟩ :: after) := by
  -- the Dockerfile ends between two instructions or in a word that waits for its argument
  obtain ⟨before, waiting, hreads⟩ := exists_reads (terminated_preprocess hfront hlast)
  have hjoin := preprocess_append hfront hlast h.first.afterComment?
  have halone := hreads.scanFrom_append []
  rw [List.append_nil] at halone
  refine ⟨before, ?_⟩
  cases waiting with
  | none =>
      refine ⟨scanFrom true (Dockerfile.preprocess rest), h.preprocess.keyword_ne_of_mem_scanFrom,
        .inl ⟨?_, ?_⟩⟩
      · simpa [resume, scanFrom_nil] using halone
      · rw [hjoin, hreads.scanFrom_append, resume]
  | some waiting =>
      obtain ⟨word, gap⟩ := waiting
      obtain ⟨gap', argument, later, hread, hlater⟩ := h.preprocess.exists_readArgument word gap
      refine ⟨later, hlater, .inr ⟨word, gap, gap', argument, ?_, ?_⟩⟩
      · simpa [resume, readArgument_nil] using halone
      · rw [hjoin, hreads.scanFrom_append, resume, hread]

/-! ## The base image of both texts -/

theorem filter_isFrom_eq_nil {ws : List Written} (h : ∀ w ∈ ws, w.keyword ≠ "FROM") :
    (ws.map Written.instruction).filter Instruction.isFrom = [] := by
  rw [List.filter_eq_nil_iff]
  intro i hi
  obtain ⟨w, hw, rfl⟩ := List.mem_map.mp hi
  exact fun hfrom => h w hw ((isFrom_instruction w).mp hfrom)

theorem preamble_append {is : List Instruction} (h : is.filter Instruction.isFrom ≠ [])
    (later : List Instruction) : preamble (is ++ later) = preamble is := by
  induction is with
  | nil => exact absurd rfl h
  | cons i is ih =>
      cases hi : i.isFrom with
      | true => simp [preamble, hi]
      | false =>
          rw [List.filter_cons_of_neg (by simp [hi])] at h
          have hrest := ih h
          rw [preamble, preamble] at hrest
          simp [preamble, hi, hrest]

theorem filter_isFrom_ne_nil {given : Variables} {content image : String}
    (h : baseImage? given content = some image) :
    (instructions content).filter Instruction.isFrom ≠ [] := by
  intro hnil
  rw [baseImage?, ← lastImage?_map_heading, map_heading_stages, hnil] at h
  cases h

/-- A word FROM at the very end has no image. -/
theorem baseImage?_concat_from (given : Variables) {content : String} {before : List Instruction}
    {word gap : List Char} (hfrom : (Written.instruction ⟨word, gap, []⟩).isFrom)
    (h : instructions content = before ++ [Written.instruction ⟨word, gap, []⟩]) :
    baseImage? given content = some "" := by
  have harguments : (Written.instruction ⟨word, gap, []⟩).arguments = [] := by
    have hkeyword := (isFrom_instruction _).mp hfrom
    rw [Written.instruction, hkeyword, trim_of_trimmed ⟨by simp, by simp⟩]
    simp [argumentsOf, isArray, words]
  have hexpand : ∀ vars, (expandImage vars (stageOf [])).1.image = "" := by
    intro vars
    rw [expandImage]
    simp [stageOf, Template.expand, Template.pieces, Template.valueOf, Except.map]
  rw [baseImage?, ← lastImage?_map_heading, map_heading_stages, h, List.filter_append,
    List.filter_cons_of_pos hfrom, List.filter_nil, List.map_append, List.map_singleton, harguments]
  exact lastImage?_concat_empty _ (hexpand _)

/-- A text none of whose lines can open a stage leaves the base image of a Dockerfile as it is, if the
Dockerfile has one that is not empty under some variables. -/
theorem FromFree.baseImage?_append {content rest : String} (h : FromFree rest.toList)
    (hcontent : Terminated content.toList)
    (hlast : ∀ line, (contentLines content.toList).getLast? = some line → ¬ EndsInBackslash line)
    {given : Variables} {image : String} (himage : baseImage? given content = some image)
    (hne : image ≠ "") (other : Variables) :
    baseImage? other (content ++ rest) = baseImage? other content := by
  obtain ⟨before, after, hafter, hcases⟩ := h.instructions_append hcontent hlast
  have hsome := filter_isFrom_ne_nil himage
  have hnone := filter_isFrom_eq_nil hafter
  rcases hcases with ⟨halone, hboth⟩ | ⟨word, gap, gap', argument, halone, hboth⟩
  · have hinstructions : instructions content = before.map Written.instruction := by
      rw [instructions, halone]
    have hall : instructions (content ++ rest) =
        before.map Written.instruction ++ after.map Written.instruction := by
      rw [instructions, String.toList_append, hboth, List.map_append]
    rw [hinstructions] at hsome
    refine baseImage?_congr ?_ ?_
    · rw [hall, hinstructions, preamble_append hsome]
    · rw [hall, hinstructions, List.filter_append, hnone, List.append_nil]
  · have hinstructions : instructions content =
        before.map Written.instruction ++ [Written.instruction ⟨word, gap, []⟩] := by
      rw [instructions, halone, List.map_append]
      rfl
    have hall : instructions (content ++ rest) = before.map Written.instruction ++
        Written.instruction ⟨word, gap', argument⟩ :: after.map Written.instruction := by
      rw [instructions, String.toList_append, hboth, List.map_append, List.map_cons]
    have hword : ¬ (Written.instruction ⟨word, gap, []⟩).isFrom := by
      intro hfrom
      rw [baseImage?_concat_from given hfrom hinstructions] at himage
      exact hne (Option.some.inj himage).symm
    -- the argument that the word takes does not make it a FROM
    have hword' : ¬ (Written.instruction ⟨word, gap', argument⟩).isFrom := hword
    rw [hinstructions, List.filter_append, List.filter_cons_of_neg hword, List.filter_nil,
      List.append_nil] at hsome
    refine baseImage?_congr ?_ ?_
    · rw [hall, hinstructions, preamble_append hsome, preamble_append hsome]
    · rw [hall, hinstructions, List.filter_append, List.filter_append, List.filter_cons_of_neg hword,
        List.filter_cons_of_neg hword', hnone, List.filter_nil]

end ImageTrust.Dockerfile
