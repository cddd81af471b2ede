import ImageTrust.Proofs.Dockerfile.FromLine
import ImageTrust.Proofs.Dockerfile.Settled
import ImageTrust.Proofs.Template.Layout
import ImageTrust.Proofs.Text.Words

/-! # The words of a FROM line

A FROM line names the image of a stage and may name the stage, behind an AS. Flags, one of which may ask
for a platform, stand anywhere among these words.
-/

namespace ImageTrust.Dockerfile

open Text

/-! ## Lines and their words -/

/-- Words, each after some spaces and tabs. -/
inductive Spaced : List String → List Char → Prop
  | nil : Spaced [] []
  | cons {gap text : List Char} {words : List String} (word : String)
      (hgap : ∀ c ∈ gap, c = ' ' ∨ c = '\t') (hne : gap ≠ []) (h : Spaced words text) :
      Spaced (word :: words) (gap ++ (word.toList ++ text))

/-- Two lists put together, each of them in its order. -/
inductive Interleaved {α : Type} : List α → List α → List α → Prop
  | nil : Interleaved [] [] []
  | left {x : α} {xs ys zs : List α} (h : Interleaved xs ys zs) : Interleaved (x :: xs) ys (x :: zs)
  | right {y : α} {xs ys zs : List α} (h : Interleaved xs ys zs) : Interleaved xs (y :: ys) (y :: zs)

/-- The image of a stage and, if the stage has a name, an AS and the name. -/
def stageWords (image as : String) : Option String → List String
  | none => [image]
  | some name => [image, as, name]

/-- The platform that some flags ask for. At most one of them does. -/
inductive AsksFor : List String → Option String → Prop
  | nothing {flags : List String} (h : ∀ flag ∈ flags, ¬platformFlag <+: flag.toList) :
      AsksFor flags none
  | platform {before after : List String} (platform : String)
      (hbefore : ∀ flag ∈ before, ¬platformFlag <+: flag.toList)
      (hafter : ∀ flag ∈ after, ¬platformFlag <+: flag.toList) :
      AsksFor (before ++ ("--platform=" ++ platform) :: after) (some platform)

/-- Words that a FROM line is read with as they are written. -/
structure Writable (words : List String) : Prop where
  visible : ∀ word ∈ words, ∀ c ∈ word.toList, isBlank c = false
  backslash : ∀ word ∈ words, '\\' ∉ word.toList
  bracket : ∀ word ∈ words.head?, word.toList.head? ≠ some '['

/-- The words of a FROM line that opens a stage, with flags anywhere and an AS in small or capital
letters. -/
structure Describes (image as : String) (name platform : Option String) (flags words : List String) :
    Prop where
  interleaved : Interleaved (stageWords image as name) flags words
  as_upper : as.toList.map Char.toUpper = "AS".toList
  image_ne_empty : image ≠ ""
  image_unflagged : isFlag image = false
  name_ne_empty : ∀ word ∈ name, word ≠ ""
  name_unflagged : ∀ word ∈ name, isFlag word = false
  flagged : ∀ flag ∈ flags, isFlag flag
  platform : AsksFor flags platform
  writable : Writable words
  dollar : '$' ∉ image.toList

/-! ## Words put together -/

section Interleaved

variable {α β : Type} {xs ys zs : List α}

theorem Interleaved.mem (h : Interleaved xs ys zs) {z : α} (hz : z ∈ zs) : z ∈ xs ∨ z ∈ ys := by
  induction h with
  | nil => cases hz
  | left h ih =>
      rcases List.mem_cons.mp hz with rfl | hz
      · exact .inl List.mem_cons_self
      · exact (ih hz).imp_left (List.mem_cons_of_mem _)
  | right h ih =>
      rcases List.mem_cons.mp hz with rfl | hz
      · exact .inr List.mem_cons_self
      · exact (ih hz).imp_right (List.mem_cons_of_mem _)

theorem Interleaved.ne_nil (h : Interleaved xs ys zs) (hne : xs ≠ []) : zs ≠ [] := by
  cases h with
  | nil => exact hne
  | left h => exact List.cons_ne_nil _ _
  | right h => exact List.cons_ne_nil _ _

/-- A test that tells the two lists apart gives the first one back. -/
theorem Interleaved.filter_eq (h : Interleaved xs ys zs) {p : α → Bool} (hxs : ∀ x ∈ xs, p x)
    (hys : ∀ y ∈ ys, p y = false) : zs.filter p = xs := by
  induction h with
  | nil => rfl
  | left h ih =>
      rw [List.filter_cons_of_pos (hxs _ List.mem_cons_self),
        ih (fun x hx => hxs x (List.mem_cons_of_mem _ hx)) hys]
  | right h ih =>
      have hy := hys _ List.mem_cons_self
      rw [List.filter_cons_of_neg (by simp [hy]), ih hxs fun y hy => hys y (List.mem_cons_of_mem _ hy)]

theorem Interleaved.filterMap_eq (h : Interleaved xs ys zs) {f : α → Option β}
    (hxs : ∀ x ∈ xs, f x = none) : zs.filterMap f = ys.filterMap f := by
  induction h with
  | nil => rfl
  | left h ih =>
      rw [List.filterMap_cons_none (hxs _ List.mem_cons_self)]
      exact ih fun x hx => hxs x (List.mem_cons_of_mem _ hx)
  | right h ih => rw [List.filterMap_cons, List.filterMap_cons, ih hxs]

end Interleaved

/-! ## The word AS -/

theorem exists_letters_of_as {as : String} (h : as.toList.map Char.toUpper = "AS".toList) :
    ∃ a s, as.toList = [a, s] ∧ (a = 'A' ∨ a = 'a') ∧ (s = 'S' ∨ s = 's') := by
  obtain ⟨a, tail, hsplit, ha, htail⟩ := List.map_eq_cons_iff.mp h
  obtain ⟨s, rest, rfl, hs, hrest⟩ := List.map_eq_cons_iff.mp htail
  obtain rfl := List.map_eq_nil_iff.mp hrest
  exact ⟨a, s, hsplit, (eq_or_isLower_of_toUpper ha).imp_right fun h => Char.toNat_inj.mp h.2,
    (eq_or_isLower_of_toUpper hs).imp_right fun h => Char.toNat_inj.mp h.2⟩

theorem lowercase_eq_as {as : String} (h : as.toList.map Char.toUpper = "AS".toList) :
    lowercase as = "as" := by
  obtain ⟨a, s, hletters, ha, hs⟩ := exists_letters_of_as h
  rw [lowercase, hletters]
  rcases ha with rfl | rfl <;> rcases hs with rfl | rfl <;> rfl

theorem isFlag_as {as : String} (h : as.toList.map Char.toUpper = "AS".toList) :
    isFlag as = false := by
  obtain ⟨a, s, hletters, ha, -⟩ := exists_letters_of_as h
  rw [isFlag, hletters]
  rcases ha with rfl | rfl <;> rfl

/-! ## Flags -/

theorem platform?_eq_none {word : String} (h : ¬platformFlag <+: word.toList) :
    platform? word = none := by
  rw [platform?, if_neg]
  rwa [List.isPrefixOf_iff_prefix]

theorem platform?_platformFlag (platform : String) :
    platform? ("--platform=" ++ platform) = some platform := by
  have htext : ("--platform=" ++ platform).toList = platformFlag ++ platform.toList := by
    rw [String.toList_append]
    rfl
  rw [platform?, htext, if_pos (List.isPrefixOf_iff_prefix.mpr (List.prefix_append _ _)),
    List.drop_left, String.ofList_toList]

theorem isFlag_of_platformFlag {word : String} (h : platformFlag <+: word.toList) : isFlag word := by
  have hstart : "--".toList <+: platformFlag := ⟨"platform=".toList, by decide⟩
  exact List.isPrefixOf_iff_prefix.mpr (hstart.trans h)

theorem AsksFor.getLast?_eq {flags : List String} {platform : Option String} (h : AsksFor flags platform) :
    (flags.filterMap platform?).getLast? = platform := by
  have hnone : ∀ flags : List String, (∀ flag ∈ flags, ¬platformFlag <+: flag.toList) →
      flags.filterMap platform? = [] := by
    intro flags hflags
    exact List.filterMap_eq_nil_iff.mpr fun flag hflag => platform?_eq_none (hflags flag hflag)
  cases h with
  | nothing h => rw [hnone _ h, List.getLast?_nil]
  | platform platform hbefore hafter =>
      rw [List.filterMap_append, hnone _ hbefore, List.nil_append,
        List.filterMap_cons_some (platform?_platformFlag platform), hnone _ hafter,
        List.getLast?_singleton]

/-! ## The stage of some words -/

section Describes

variable {image as : String} {name platform : Option String} {flags words : List String}
variable {keyword text ending : List Char}

theorem Describes.isFlag_stageWords (h : Describes image as name platform flags words) :
    ∀ word ∈ stageWords image as name, isFlag word = false := by
  have himage := h.image_unflagged
  have has := isFlag_as h.as_upper
  cases name with
  | none => simp [stageWords, himage]
  | some name => simp [stageWords, himage, has, h.name_unflagged name rfl]

theorem Describes.ne_empty (h : Describes image as name platform flags words) :
    ∀ word ∈ words, word ≠ "" := by
  have has : as ≠ "" := by
    rintro rfl
    cases h.as_upper
  have hplain : ∀ word ∈ stageWords image as name, word ≠ "" := by
    cases name with
    | none => simp [stageWords, h.image_ne_empty]
    | some name => simp [stageWords, h.image_ne_empty, has, h.name_ne_empty name rfl]
  intro word hword
  rcases h.interleaved.mem hword with hword | hflag
  · exact hplain word hword
  · rintro rfl
    cases h.flagged "" hflag

theorem stageName?_stageWords (image : String) (has : as.toList.map Char.toUpper = "AS".toList)
    (name : Option String) : stageName? (stageWords image as name) = name := by
  cases name with
  | none => rfl
  | some name =>
      have hreverse : (stageWords image as (some name)).reverse = [name, as, image] := rfl
      rw [stageName?, hreverse]
      exact if_pos (lowercase_eq_as has)

theorem Describes.stageOf_eq (h : Describes image as name platform flags words) :
    stageOf words = ⟨image, name, platform, []⟩ := by
  have hplain := h.isFlag_stageWords
  have hfilter : words.filter (!isFlag ·) = stageWords image as name := by
    refine h.interleaved.filter_eq (fun word hword => ?_) fun flag hflag => ?_
    · simp [hplain word hword]
    · simp [h.flagged flag hflag]
  have hplatform : words.filterMap platform? = flags.filterMap platform? := by
    refine h.interleaved.filterMap_eq fun word hword => platform?_eq_none fun hstart => ?_
    cases (hplain word hword).symm.trans (isFlag_of_platformFlag hstart)
  have himage : (stageWords image as name).headD "" = image := by cases name <;> rfl
  rw [stageOf, hfilter, hplatform, himage, stageName?_stageWords image h.as_upper,
    h.platform.getLast?_eq]

/-! ## Reading the line -/

theorem isBlank_of_space_or_tab {c : Char} (h : c = ' ' ∨ c = '\t') : isBlank c := by
  rcases h with rfl | rfl <;> rfl

theorem Spaced.head? (h : Spaced words text) (hending : ∀ c ∈ ending, isBlank c) :
    ∀ c ∈ (text ++ ending).head?, isBlank c := by
  intro c hc
  cases h with
  | nil => exact hending c (List.mem_of_head? hc)
  | cons word hgap hne h =>
      obtain ⟨d, gap, rfl⟩ := List.exists_cons_of_ne_nil hne
      cases hc
      exact isBlank_of_space_or_tab (hgap c List.mem_cons_self)

/-- Words that are spaced out are read as they are. -/
theorem Spaced.wordsOf_append (h : Spaced words text) (hne : ∀ word ∈ words, word ≠ "")
    (hvisible : ∀ word ∈ words, ∀ c ∈ word.toList, isBlank c = false)
    (hending : ∀ c ∈ ending, isBlank c) : wordsOf (text ++ ending) = words := by
  induction h with
  | nil => rw [List.nil_append, wordsOf, words_of_blank hending, List.map_nil]
  | cons word hgap hgap_ne h ih =>
      have hword : word.toList ≠ [] := by simpa using hne word List.mem_cons_self
      have hrest := ih (fun word hword => hne word (List.mem_cons_of_mem _ hword))
        fun word hword => hvisible word (List.mem_cons_of_mem _ hword)
      rw [List.append_assoc, List.append_assoc, wordsOf,
        words_blank_append fun c hc => isBlank_of_space_or_tab (hgap c hc),
        words_word_append hword (hvisible word List.mem_cons_self) (h.head? hending), List.map_cons,
        String.ofList_toList]
      rw [wordsOf] at hrest
      rw [hrest]

theorem Spaced.forall_mem (h : Spaced words text) {p : Char → Prop} (hspace : p ' ') (htab : p '\t')
    (hwords : ∀ word ∈ words, ∀ c ∈ word.toList, p c) : ∀ c ∈ text, p c := by
  induction h with
  | nil => simp
  | cons word hgap hne h ih =>
      intro c hc
      rcases List.mem_append.mp hc with hc | hc
      · rcases hgap c hc with rfl | rfl
        · exact hspace
        · exact htab
      rcases List.mem_append.mp hc with hc | hc
      · exact hwords word List.mem_cons_self c hc
      · exact ih (fun word hword => hwords word (List.mem_cons_of_mem _ hword)) c hc

theorem argumentsOf_from {argument : List Char} (hstart : ∀ c ∈ argument.head?, isBlank c = false)
    (hbracket : argument.head? ≠ some '[') :
    argumentsOf "FROM" (trim argument) = wordsOf argument := by
  rw [← head?_trim hstart] at hbracket
  rw [argumentsOf, isArray_eq_false hbracket, if_neg Bool.false_ne_true, if_pos rfl, words_trim, wordsOf]

theorem instruction_from (hkeyword : keyword.map Char.toUpper = "FROM".toList) (gap : List Char)
    {argument : List Char} (hstart : ∀ c ∈ argument.head?, isBlank c = false)
    (hbracket : argument.head? ≠ some '[') :
    Written.instruction ⟨keyword, gap, argument⟩ =
      ⟨"FROM", wordsOf argument, String.ofList (trim (keyword ++ gap ++ argument))⟩ := by
  have hfrom : Written.keyword ⟨keyword, gap, argument⟩ = "FROM" := by
    rw [Written.keyword, hkeyword, String.ofList_toList]
  rw [Written.instruction, hfrom, argumentsOf_from hstart hbracket]

/-- A FROM line with nothing visible after it is read as an instruction with the words of the line. -/
theorem exists_instructions_eq {gap argument : List Char} (hopening : Opening [] keyword gap)
    (hkeyword : keyword.map Char.toUpper = "FROM".toList)
    (hline : '\n' ∉ keyword ++ (gap ++ argument)) (hbackslash : '\\' ∉ keyword ++ (gap ++ argument))
    (hstart : ∃ c, argument.head? = some c ∧ isBlank c = false) (hbracket : argument.head? ≠ some '[')
    (hending : ∀ c ∈ ending, isBlank c) :
    ∃ raw, instructions (String.ofList (keyword ++ (gap ++ argument) ++ ending)) =
      [⟨"FROM", wordsOf argument, raw⟩] := by
  have hsettled := settled_append_blank hline hbackslash (hopening.isContent (gap ++ argument)) hending
  -- What is left of the line belongs to the argument; the lines after it are blank.
  obtain ⟨blanks, after, rfl, hblanks, hstop⟩ :
      ∃ blanks after, ending = blanks ++ after ∧ '\n' ∉ blanks ∧ AtLineEnd after :=
    ⟨_, _, List.takeWhile_append_dropWhile.symm, fun hmem => by simpa using List.mem_takeWhile_imp hmem,
      atLineEnd_dropWhile ending⟩
  obtain ⟨c, hc, hvisible⟩ := hstart
  have hhead : (argument ++ blanks).head? = some c := by rw [List.head?_append, hc, Option.some_or]
  have hargument : '\n' ∉ argument ++ blanks := by
    simp only [List.mem_append, not_or] at hline ⊢
    exact ⟨hline.2.2, hblanks⟩
  have hwords : wordsOf (argument ++ blanks) = wordsOf argument := by
    rw [wordsOf, words_append_blank fun d hd => hending d (List.mem_append_left _ hd), wordsOf]
  have hscan : scanFrom true (keyword ++ (gap ++ argument) ++ (blanks ++ after)) =
      [⟨keyword, gap, argument ++ blanks⟩] := by
    have hread := hopening.scanFrom (argument ++ blanks ++ after)
    rw [readArgument_line hargument ⟨c, hhead, hvisible⟩ hstop,
      scanFrom_of_blank fun d hd => hending d (List.mem_append_right _ hd)] at hread
    simpa using hread
  refine ⟨String.ofList (trim (keyword ++ gap ++ (argument ++ blanks))), ?_⟩
  rw [instructions_ofList, hsettled.preprocess_eq, hscan, List.map_singleton,
    instruction_from hkeyword gap, hwords]
  · simp [hhead, hvisible]
  · rwa [hhead, ← hc]

theorem Spaced.exists_instructions_eq (h : Spaced words text) (hwords : Writable words)
    (hne : words ≠ []) (hne_empty : ∀ word ∈ words, word ≠ "")
    (hkeyword : keyword.map Char.toUpper = "FROM".toList) (hending : ∀ c ∈ ending, isBlank c) :
    ∃ raw, instructions (String.ofList (keyword ++ text ++ ending)) = [⟨"FROM", words, raw⟩] := by
  have halpha := isAlpha_of_map_toUpper hkeyword
  have htext : ∀ c ∈ text, c ≠ '\n' ∧ c ≠ '\\' := by
    refine h.forall_mem (by decide) (by decide) fun word hword c hc => ⟨?_, ?_⟩
    · rintro rfl
      cases hwords.visible word hword _ hc
    · rintro rfl
      exact hwords.backslash word hword hc
  have hline : ∀ c ∈ keyword ++ text, c ≠ '\n' ∧ c ≠ '\\' := by
    intro c hc
    rcases List.mem_append.mp hc with hc | hc
    · constructor <;> rintro rfl <;> cases halpha _ hc
    · exact htext c hc
  have hread := h.wordsOf_append hne_empty hwords.visible (List.forall_mem_nil _)
  cases h with
  | nil => exact absurd rfl hne
  | @cons gap tail others word hgap hgap_ne h =>
      have hblank : ∀ c ∈ gap, isBlank c := fun c hc => isBlank_of_space_or_tab (hgap c hc)
      have hopening : Opening [] keyword gap :=
        ⟨by simp, halpha, ne_nil_of_map_toUpper hkeyword, hblank, hgap_ne⟩
      rw [List.append_nil, wordsOf, words_blank_append hblank, ← wordsOf] at hread
      rw [← hread]
      obtain ⟨c, letters, hletters⟩ : ∃ c letters, word.toList = c :: letters :=
        List.exists_cons_of_ne_nil (by simpa using hne_empty word List.mem_cons_self)
      have hhead : (word.toList ++ tail).head? = word.toList.head? := by rw [hletters]; rfl
      have hvisible : isBlank c = false :=
        hwords.visible word List.mem_cons_self c (hletters ▸ List.mem_cons_self)
      refine Dockerfile.exists_instructions_eq hopening hkeyword (fun hmem => (hline _ hmem).1 rfl)
        (fun hmem => (hline _ hmem).2 rfl) ⟨c, ?_, hvisible⟩ ?_ hending
      · rw [hhead, hletters, List.head?_cons]
      · rw [hhead]
        exact hwords.bracket word rfl

/-! ## Stages -/

theorem expandImage_of_dollar_not_mem {stage : Stage} (h : '$' ∉ stage.image.toList)
    (vars : Variables) : expandImage vars stage = (stage, none) := by
  have hliteral : Template.IsLiteral stage.image.toList :=
    fun hopens => h (hopens.subset List.mem_cons_self)
  rw [expandImage, Template.expand_of_isLiteral hliteral]

/-- A single FROM instruction opens a single stage. -/
theorem checkedStages_from {given : Variables} {content raw : String}
    (hread : instructions content = [⟨"FROM", words, raw⟩]) (hdollar : '$' ∉ (stageOf words).image.toList) :
    checkedStages given content = [(stageOf words, none)] := by
  have hgroups : groups [⟨"FROM", words, raw⟩] = [(⟨"FROM", words, raw⟩, [])] := rfl
  have hstage : stageOfGroup (stageVariables given [⟨"FROM", words, raw⟩]) (⟨"FROM", words, raw⟩, []) =
      expandImage (stageVariables given [⟨"FROM", words, raw⟩]) (stageOf words) := rfl
  rw [checkedStages, hread, hgroups, List.map_singleton, hstage, expandImage_of_dollar_not_mem hdollar]

end Describes

/-! ## Public theorem -/

/-- A FROM line is decoded exactly, whatever letters its FROM and its AS have, wherever its flags stand,
and whatever separates its words. White space after the line does not matter. -/
theorem stages_of_describes {image as : String} {name platform : Option String}
    {flags words : List String} {keyword text ending : List Char} (given : Variables)
    (hkeyword : keyword.map Char.toUpper = "FROM".toList)
    (hwords : Describes image as name platform flags words) (htext : Spaced words text)
    (hending : ∀ c ∈ ending, isBlank c) :
    stages given (String.ofList (keyword ++ text ++ ending)) = [⟨image, name, platform, []⟩] ∧
      warnings given (String.ofList (keyword ++ text ++ ending)) = [] := by
  have hne : words ≠ [] := hwords.interleaved.ne_nil (by cases name <;> simp [stageWords])
  have hstage := hwords.stageOf_eq
  have hdollar : '$' ∉ (stageOf words).image.toList := by
    rw [hstage]
    exact hwords.dollar
  obtain ⟨raw, hread⟩ :=
    htext.exists_instructions_eq hwords.writable hne hwords.ne_empty hkeyword hending
  rw [stages, warnings, checkedStages_from hread hdollar, hstage]
  exact ⟨rfl, rfl⟩

/-- An image and a stage that are both called as the word between them, with flags on both sides of
the image. -/
theorem stages_of_describes_as :
    stages [] "fRoM \t--platform=linux/arm64 as --quiet\tAs as\n" =
      [⟨"as", some "as", some "linux/arm64", []⟩] := by
  have hwords : Describes "as" "As" (some "as") (some "linux/arm64")
      ["--platform=" ++ "linux/arm64", "--quiet"]
      ["--platform=" ++ "linux/arm64", "as", "--quiet", "As", "as"] := by
    have hplatform : AsksFor (["--platform=" ++ "linux/arm64", "--quiet"]) (some "linux/arm64") :=
      .platform "linux/arm64" (List.forall_mem_nil _) (by decide)
    have hvisible : ∀ word ∈ ["--platform=" ++ "linux/arm64", "as", "--quiet", "As", "as"],
        word.toList.all (!isBlank ·) := by decide
    exact ⟨.right (.left (.right (.left (.left .nil)))), by decide, by decide, rfl, by decide, by decide,
      by decide, hplatform, ⟨fun word hword => isBlank_eq_false_of_all (hvisible word hword), by decide,
        by decide⟩, by decide⟩
  have hspace : ∀ c ∈ [' '], c = ' ' ∨ c = '\t' := by simp
  have htab : ∀ c ∈ ['\t'], c = ' ' ∨ c = '\t' := by simp
  have hboth : ∀ c ∈ [' ', '\t'], c = ' ' ∨ c = '\t' := by simp
  have htext := Spaced.cons ("--platform=" ++ "linux/arm64") hboth (by decide) <|
    .cons "as" hspace (by decide) <| .cons "--quiet" hspace (by decide) <|
    .cons "As" htab (by decide) <| .cons "as" hspace (by decide) .nil
  have hkeyword : "fRoM".toList.map Char.toUpper = "FROM".toList := by decide
  have hending : ∀ c ∈ ['\n'], isBlank c := List.forall_mem_singleton.mpr rfl
  have hread := (stages_of_describes [] hkeyword hwords htext hending).1
  simpa using hread

end ImageTrust.Dockerfile
