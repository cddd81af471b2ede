import ImageTrust.Proofs.Dockerfile.Grouping
import ImageTrust.Proofs.Lookup
import ImageTrust.Proofs.Template.Expansion
import ImageTrust.Proofs.Text.Pieces

/-! # Where declarations of variables count

A FROM line sees the variables that are given from outside and, behind them, the defaults that were
declared before the first FROM. What is declared later, or under a name that is given, does not count.
-/

namespace ImageTrust.Dockerfile

open Text

variable {given : Variables} {content other : String} {is js : List Instruction} {i : Instruction}

/-! ## Declarations -/

/-- An ARG instruction declares a name, with the text of a default after an equals sign or without
one. -/
inductive Declares (i : Instruction) : String → Option (List Char) → Prop
  | default {name text : List Char} {more : List String} (hkeyword : i.keyword = "ARG")
      (harguments : i.arguments = String.ofList (name ++ '=' :: text) :: more) (hname : '=' ∉ name) :
      Declares i (String.ofList (trim name)) (some text)
  | bare {name : List Char} {more : List String} (hkeyword : i.keyword = "ARG")
      (harguments : i.arguments = String.ofList name :: more) (hname : '=' ∉ name) :
      Declares i (String.ofList (trim name)) none

/-- The value of a default: its text without the white space around it, and then without the quotes
around that. -/
def defaultValue (text : List Char) : String :=
  String.ofList (dropAround (fun c => c = '"' || c = '\'') (trim text))

/-- The value that a name has in FROM lines behind some instructions: the one that is given, or else the
default of its last declaration that has one. -/
inductive InForce (given : Variables) (front : List Instruction) (name : String) : String → Prop
  | given {value : String} (h : given.lookup name = some value) : InForce given front name value
  | default {before after : List Instruction} {i : Instruction} {text : List Char}
      (hgiven : name ∉ given.map Prod.fst) (hfront : front = before ++ i :: after)
      (hi : Declares i name (some text)) (hlast : ∀ j ∈ after, ∀ text, ¬ Declares j name (some text)) :
      InForce given front name (defaultValue text)

theorem Declares.declaration?_eq {name : String} {default : Option (List Char)}
    (h : Declares i name default) : declaration? i = default.map fun text => (name, defaultValue text) := by
  cases h with
  | default hkeyword harguments hname =>
      simp [declaration?, hkeyword, harguments, cutAt_append_cons hname, defaultValue]
  | bare hkeyword harguments hname =>
      simp [declaration?, hkeyword, harguments, cutAt_of_not_mem hname]

theorem declaration?_eq_some_iff {name value : String} :
    declaration? i = some (name, value) ↔
      ∃ text, Declares i name (some text) ∧ value = defaultValue text := by
  refine ⟨fun h => ?_, ?_⟩
  · rw [declaration?] at h
    split at h
    · next hkeyword =>
        split at h
        · cases h
        · next argument more harguments =>
            by_cases hmem : '=' ∈ argument.toList
            · obtain ⟨front, text, hsplit, hfront⟩ := List.eq_append_cons_of_mem hmem
              rw [hsplit, cutAt_append_cons hfront] at h
              cases h
              have hargument : argument = String.ofList (front ++ '=' :: text) := by
                rw [← hsplit, String.ofList_toList]
              exact ⟨text, .default hkeyword (hargument ▸ harguments) hfront, rfl⟩
            · rw [cutAt_of_not_mem hmem] at h
              cases h
    · cases h
  · rintro ⟨text, hi, rfl⟩
    rw [hi.declaration?_eq, Option.map_some]

/-- The last declaration with a default counts. -/
theorem lookup_declarations_iff {name value : String} :
    (declarations is).lookup name = some value ↔
      ∃ before j after text, is = before ++ j :: after ∧ Declares j name (some text) ∧
        (∀ k ∈ after, ∀ text, ¬ Declares k name (some text)) ∧ value = defaultValue text := by
  rw [List.lookup_eq_some_iff]
  refine ⟨?_, ?_⟩
  · rintro ⟨later, earlier, hsplit, hlater⟩
    have hread : is.filterMap declaration? = earlier.reverse ++ (name, value) :: later.reverse := by
      rw [List.reverse_eq_iff.mp hsplit]
      simp
    obtain ⟨before, rest, rfl, -, hrest⟩ := List.filterMap_eq_append_iff.mp hread
    obtain ⟨passed, j, after, rfl, -, hj, hafter⟩ := List.filterMap_eq_cons_iff.mp hrest
    obtain ⟨text, hdeclares, rfl⟩ := declaration?_eq_some_iff.mp hj
    refine ⟨before ++ passed, j, after, text, by simp, hdeclares, fun k hk text' hk' => ?_, rfl⟩
    have hmem : (name, defaultValue text') ∈ after.filterMap declaration? :=
      List.mem_filterMap.mpr ⟨k, hk, declaration?_eq_some_iff.mpr ⟨text', hk', rfl⟩⟩
    rw [hafter, List.mem_reverse] at hmem
    simpa using hlater _ hmem
  · rintro ⟨before, j, after, text, rfl, hj, hafter, rfl⟩
    refine ⟨(after.filterMap declaration?).reverse, (before.filterMap declaration?).reverse, ?_, ?_⟩
    · simp [declarations, hj.declaration?_eq]
    · rintro ⟨other, value⟩ hmem
      rw [List.mem_reverse, List.mem_filterMap] at hmem
      obtain ⟨k, hk, hread⟩ := hmem
      obtain ⟨text', hk', -⟩ := declaration?_eq_some_iff.mp hread
      rw [bne_iff_ne]
      rintro rfl
      exact hafter k hk text' hk'

/-- The variables of FROM lines are those in force. -/
theorem lookup_stageVariables_iff {name value : String} :
    (stageVariables given is).lookup name = some value ↔ InForce given (preamble is) name value := by
  rw [stageVariables, List.lookup_append, Option.or_eq_some_iff, lookup_declarations_iff,
    lookup_eq_none_iff_key]
  refine ⟨?_, ?_⟩
  · rintro (h | ⟨hgiven, before, j, after, text, hfront, hj, hlast, rfl⟩)
    · exact .given h
    · exact .default hgiven hfront hj hlast
  · rintro (h | ⟨hgiven, hfront, hj, hlast⟩)
    · exact .inl h
    · exact .inr ⟨hgiven, _, _, _, _, hfront, hj, hlast, rfl⟩

/-! ## Declarations of names that are given -/

/-- Instructions that are the same but for declarations of some names, which may be put in, taken out and
changed. -/
inductive SameBesides (names : List String) : List Instruction → List Instruction → Prop
  | nil : SameBesides names [] []
  | cons (i : Instruction) {is js : List Instruction} :
      SameBesides names is js → SameBesides names (i :: is) (i :: js)
  | left {i : Instruction} {is js : List Instruction} {name : String} {default : Option (List Char)}
      (hi : Declares i name default) (hname : name ∈ names) :
      SameBesides names is js → SameBesides names (i :: is) js
  | right {j : Instruction} {is js : List Instruction} {name : String} {default : Option (List Char)}
      (hj : Declares j name default) (hname : name ∈ names) :
      SameBesides names is js → SameBesides names is (j :: js)

theorem lookup_declarations_cons {name : String} (i : Instruction) (is : List Instruction) :
    (declarations (i :: is)).lookup name =
      ((declarations is).lookup name).or ((declaration? i).toList.lookup name) := by
  rw [← List.lookup_append, declarations, declarations]
  cases hi : declaration? i <;> simp [hi]

theorem Declares.lookup_declarations_cons {bound name : String} {default : Option (List Char)}
    (hi : Declares i bound default) (hname : name ≠ bound) (is : List Instruction) :
    (declarations (i :: is)).lookup name = (declarations is).lookup name := by
  have hnone : (declaration? i).toList.lookup name = none := by
    rw [hi.declaration?_eq]
    cases default with
    | none => rfl
    | some text => simp [List.lookup_cons, beq_false_of_ne hname]
  rw [Dockerfile.lookup_declarations_cons, hnone, Option.or_none]

theorem SameBesides.lookup_declarations {names : List String} (h : SameBesides names is js) {name : String}
    (hname : name ∉ names) : (declarations is).lookup name = (declarations js).lookup name := by
  induction h with
  | nil => rfl
  | cons i _ ih => rw [lookup_declarations_cons, lookup_declarations_cons, ih]
  | left hi hbound _ ih => rw [hi.lookup_declarations_cons (ne_of_mem_of_not_mem hbound hname).symm, ih]
  | right hj hbound _ ih => rw [hj.lookup_declarations_cons (ne_of_mem_of_not_mem hbound hname).symm, ih]

/-- Declarations of names that are given leave the variables of FROM lines as they are. -/
theorem SameBesides.lookup_stageVariables
    (h : SameBesides (given.map Prod.fst) (preamble is) (preamble js)) (name : String) :
    (stageVariables given is).lookup name = (stageVariables given js).lookup name :=
  lookup_append_congr h.lookup_declarations

/-! ## Public theorem -/

/-- The images, names and platforms of the stages, the warnings and the base image hang on the
instructions before the first FROM and on the FROM instructions only, and not on declarations of names that
are given. A FROM line is expanded with the variables in force at the first FROM. -/
theorem stages_scoped (given : Variables) (content : String) :
    (∀ other, preamble (instructions content) = preamble (instructions other) →
      (instructions content).filter Instruction.isFrom = (instructions other).filter Instruction.isFrom →
      (stages given content).map Stage.heading = (stages given other).map Stage.heading ∧
        warnings given content = warnings given other ∧
        baseImage? given content = baseImage? given other) ∧
    (∀ other, SameBesides (given.map Prod.fst) (preamble (instructions content))
        (preamble (instructions other)) →
      (instructions content).filter Instruction.isFrom = (instructions other).filter Instruction.isFrom →
      (stages given content).map Stage.heading = (stages given other).map Stage.heading ∧
        warnings given content = warnings given other ∧
        baseImage? given content = baseImage? given other) ∧
    ∃ vars : Variables,
      (∀ name value, vars.lookup name = some value ↔
        InForce given (preamble (instructions content)) name value) ∧
      (checkedStages given content).map (fun (stage, warning) => (stage.heading, warning)) =
        ((instructions content).filter Instruction.isFrom).map fun i =>
          expandImage vars (stageOf i.arguments) := by
  refine ⟨fun other hpreamble hfrom => ?_, fun other hsame hfrom => ?_, ?_⟩
  · have hvars : stageVariables given (instructions content) = stageVariables given (instructions other) := by
      rw [stageVariables, stageVariables, hpreamble]
    exact stages_of_lookup (fun name => by rw [hvars]) hfrom
  · exact stages_of_lookup hsame.lookup_stageVariables hfrom
  · exact ⟨stageVariables given (instructions content), fun name value => lookup_stageVariables_iff,
      map_heading_checkedStages given content⟩

/-- A name that is given and declared as well, a default in quotes that a bare declaration leaves in force,
and declarations inside a stage. -/
def scopedText : String :=
  "ARG TAG=1\nARG BASE=a\nARG TAG =  \"'2'\" \nARG TAG\nFROM $\x7bBASE\x7d:$\x7bTAG\x7d AS b\nARG TAG=3\nRUN c\nFROM b\n"

/-- The same FROM instructions with other ones in their stages, and with other declarations of the name
that is given. -/
def otherScopedText : String :=
  "ARG TAG=1\nARG TAG =  \"'2'\" \nARG TAG\nARG BASE\nFROM $\x7bBASE\x7d:$\x7bTAG\x7d AS b\nFROM b\nARG BASE=d\n"

theorem stages_scoped_given :
    (SameBesides ["BASE"] (preamble (instructions scopedText)) (preamble (instructions otherScopedText)) ∧
      (instructions scopedText).filter Instruction.isFrom =
        (instructions otherScopedText).filter Instruction.isFrom) ∧
    (stages [("BASE", "alpine")] scopedText).map Stage.heading =
        [⟨"alpine:2", some "b", none, []⟩, ⟨"b", none, none, []⟩] ∧
      (stages [("BASE", "alpine")] scopedText).map Stage.heading =
        (stages [("BASE", "alpine")] otherScopedText).map Stage.heading ∧
      warnings [("BASE", "alpine")] scopedText = warnings [("BASE", "alpine")] otherScopedText ∧
      baseImage? [("BASE", "alpine")] scopedText = baseImage? [("BASE", "alpine")] otherScopedText := by
  have hpreamble : preamble (instructions scopedText) =
      [⟨"ARG", ["TAG=1"], "ARG TAG=1"⟩, ⟨"ARG", ["BASE=a"], "ARG BASE=a"⟩,
        ⟨"ARG", ["TAG =  \"'2'\""], "ARG TAG =  \"'2'\""⟩, ⟨"ARG", ["TAG"], "ARG TAG"⟩] := by
    decide +kernel
  have hother : preamble (instructions otherScopedText) =
      [⟨"ARG", ["TAG=1"], "ARG TAG=1"⟩, ⟨"ARG", ["TAG =  \"'2'\""], "ARG TAG =  \"'2'\""⟩,
        ⟨"ARG", ["TAG"], "ARG TAG"⟩, ⟨"ARG", ["BASE"], "ARG BASE"⟩] := by
    decide +kernel
  have hfrom : (instructions scopedText).filter Instruction.isFrom =
      (instructions otherScopedText).filter Instruction.isFrom := by
    decide +kernel
  have hdefault : Declares ⟨"ARG", ["BASE=a"], "ARG BASE=a"⟩ (String.ofList (trim "BASE".toList))
      (some ['a']) :=
    .default rfl rfl (by decide)
  have hbare : Declares ⟨"ARG", ["BASE"], "ARG BASE"⟩ (String.ofList (trim "BASE".toList)) none :=
    .bare rfl rfl (by decide)
  have hsame : SameBesides ["BASE"] (preamble (instructions scopedText))
      (preamble (instructions otherScopedText)) := by
    rw [hpreamble, hother]
    exact .cons _ (.left hdefault (by decide) (.cons _ (.cons _ (.right hbare (by decide) .nil))))
  exact ⟨⟨hsame, hfrom⟩, by decide +kernel,
    (stages_scoped [("BASE", "alpine")] scopedText).2.1 otherScopedText hsame hfrom⟩

end ImageTrust.Dockerfile
