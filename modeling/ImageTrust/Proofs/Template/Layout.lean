import ImageTrust.Proofs.Template.Sealed
import ImageTrust.Proofs.Text.Lines

/-! # Templates as they are written

A template in which literal texts and placeholders alternate expands to the literal texts and what the
placeholders stand for. A template without a text of the form of a placeholder stays as it is.
-/

namespace ImageTrust.Template

open Text

variable {vars : Variables} {p : Placeholder}

/-! ## Placeholders as they are written -/

def Use.source : Use → List Char
  | .required => []
  | .orElse alternative => ':' :: '-' :: alternative
  | .ifSet text => ':' :: '+' :: text

def Placeholder.source (p : Placeholder) : List Char :=
  '$' :: '{' :: (p.name ++ (p.use.source ++ ['}']))

/-- A placeholder that can be written: its name is not empty and has no closing brace or colon, its
alternative has no closing brace. -/
structure Placeholder.Proper (p : Placeholder) : Prop where
  name_ne_nil : p.name ≠ []
  name_char : ∀ c ∈ p.name, c ≠ '}' ∧ c ≠ ':'
  use_char : '}' ∉ p.use.source

theorem isNameChar_iff {c : Char} : isNameChar c = true ↔ c ≠ '}' ∧ c ≠ ':' := by
  simp [isNameChar]

instance (p : Placeholder) : Decidable p.Proper :=
  decidable_of_iff (p.name ≠ [] ∧ p.name.all isNameChar ∧ '}' ∉ p.use.source) <| by
    rw [List.all_eq_true]
    exact ⟨fun ⟨hne, hname, huse⟩ => ⟨hne, fun c hc => isNameChar_iff.mp (hname c hc), huse⟩,
      fun h => ⟨h.name_ne_nil, fun c hc => isNameChar_iff.mpr (h.name_char c hc), h.use_char⟩⟩

theorem readAlternative?_append {alternative : List Char} (h : '}' ∉ alternative)
    (rest : List Char) : readAlternative? (alternative ++ '}' :: rest) = some (alternative, rest) := by
  have hinside : ∀ c ∈ alternative, decide (c ≠ '}') = true :=
    fun c hc => decide_eq_true fun heq => h (heq ▸ hc)
  have hstops := stops_cons (p := (· ≠ '}')) (x := '}') (by simp) rest
  rw [readAlternative?, takeWhile_run hinside hstops, dropWhile_run hinside hstops]

theorem of_readAlternative? {cs alternative rest : List Char}
    (h : readAlternative? cs = some (alternative, rest)) :
    '}' ∉ alternative ∧ cs = alternative ++ '}' :: rest := by
  rw [readAlternative?] at h
  split at h
  · cases h
  · next c after hafter =>
      have hc : c = '}' := by
        simpa using head?_dropWhile (p := (· ≠ '}')) (congrArg List.head? hafter)
      have hsplit := List.takeWhile_append_dropWhile (p := (· ≠ '}')) (l := cs)
      rw [hafter, hc] at hsplit
      cases h
      exact ⟨fun hmem => by simpa using List.mem_takeWhile_imp hmem, hsplit.symm⟩

theorem Placeholder.Proper.readPlaceholder? (h : p.Proper) (after : List Char) :
    readPlaceholder? (p.name ++ (p.use.source ++ '}' :: after)) = some (p, after) := by
  obtain ⟨name, use⟩ := p
  have hinside : ∀ c ∈ name, isNameChar c = true := fun c hc => isNameChar_iff.mpr (h.name_char c hc)
  have hstops : ∀ c, (use.source ++ '}' :: after).head? = some c → isNameChar c = false := by
    intro c hc
    cases use <;> cases hc <;> rfl
  rw [Template.readPlaceholder?, takeWhile_run hinside hstops, dropWhile_run hinside hstops,
    if_neg (by simpa using h.name_ne_nil)]
  cases use with
  | required => rfl
  | orElse alternative =>
      have halternative : '}' ∉ alternative := by simpa [Use.source] using h.use_char
      have hread := readAlternative?_append halternative after
      simp [Use.source, hread]
  | ifSet text =>
      have htext : '}' ∉ text := by simpa [Use.source] using h.use_char
      have hread := readAlternative?_append htext after
      simp [Use.source, hread]

theorem of_readPlaceholder? {inner after : List Char} (h : readPlaceholder? inner = some (p, after)) :
    p.Proper ∧ inner = p.name ++ (p.use.source ++ '}' :: after) := by
  have hname : ∀ c ∈ inner.takeWhile isNameChar, c ≠ '}' ∧ c ≠ ':' :=
    fun c hc => isNameChar_iff.mp (List.mem_takeWhile_imp hc)
  have hsplit := List.takeWhile_append_dropWhile (p := isNameChar) (l := inner)
  rw [readPlaceholder?] at h
  generalize inner.takeWhile isNameChar = name at h hname hsplit
  generalize inner.dropWhile isNameChar = rest at h hsplit
  subst hsplit
  split at h
  · cases h
  · next hne =>
      rw [List.isEmpty_iff] at hne
      split at h
      · cases h
        exact ⟨⟨hne, hname, by simp [Use.source]⟩, rfl⟩
      · obtain ⟨⟨alternative, rest⟩, hread, hp⟩ := Option.map_eq_some_iff.mp h
        obtain ⟨halternative, rfl⟩ := of_readAlternative? hread
        cases hp
        exact ⟨⟨hne, hname, by simp [Use.source, halternative]⟩, rfl⟩
      · obtain ⟨⟨text, rest⟩, hread, hp⟩ := Option.map_eq_some_iff.mp h
        obtain ⟨htext, rfl⟩ := of_readAlternative? hread
        cases hp
        exact ⟨⟨hne, hname, by simp [Use.source, htext]⟩, rfl⟩
      · cases h

/-- A template has a placeholder where a proper one is written in it. -/
theorem hasPlaceholder_iff {cs : List Char} :
    HasPlaceholder cs ↔ ∃ p : Placeholder, p.Proper ∧ p.source <:+: cs := by
  refine ⟨?_, ?_⟩
  · rintro ⟨before, after, rfl, inner, rfl, hsome⟩
    obtain ⟨⟨p, rest⟩, hread⟩ := Option.isSome_iff_exists.mp hsome
    obtain ⟨hproper, rfl⟩ := of_readPlaceholder? hread
    exact ⟨p, hproper, before, rest, by simp [Placeholder.source]⟩
  · rintro ⟨p, hproper, before, rest, rfl⟩
    have hread := hproper.readPlaceholder? rest
    refine ⟨before, p.source ++ rest, List.append_assoc .., _, rfl, ?_⟩
    simp [hread]

/-! ## Pieces -/

theorem pieces_source_append (h : p.Proper) (rest : List Char) :
    pieces (p.source ++ rest) = .hole p :: pieces rest := by
  have hread := h.readPlaceholder? rest
  have hsource : p.source ++ rest = '$' :: '{' :: (p.name ++ (p.use.source ++ '}' :: rest)) := by
    simp [Placeholder.source]
  rw [hsource, pieces_of_some hread]

/-- A text in which no placeholder opens. -/
def IsLiteral (cs : List Char) : Prop :=
  ¬ ['$', '{'] <:+: cs

instance : DecidablePred IsLiteral :=
  fun cs => inferInstanceAs (Decidable (¬ ['$', '{'] <:+: cs))

/-- A literal text is read character by character, up to its end or the next placeholder. -/
theorem pieces_literal_append {literal rest : List Char} (h : IsLiteral literal)
    (hrest : rest.head? ≠ some '{') : pieces (literal ++ rest) = literal.map .char ++ pieces rest := by
  induction literal with
  | nil => rfl
  | cons c literal ih =>
      have htail : IsLiteral literal :=
        fun hinside => h (hinside.trans (List.suffix_cons c literal).isInfix)
      rw [List.cons_append, pieces_cons, ih htail, List.map_cons, List.cons_append]
      rintro inner rfl heq
      cases literal with
      | nil => exact hrest (by rw [← List.nil_append rest, heq]; rfl)
      | cons d literal =>
          obtain ⟨rfl, -⟩ := List.cons.inj heq
          exact h ⟨[], literal, rfl⟩

/-- A literal text and placeholders, each with the literal text after it, one after another. -/
def layout (literal : List Char) : List (Placeholder × List Char) → List Char
  | [] => literal
  | (p, next) :: holes => literal ++ (p.source ++ layout next holes)

def layoutPieces (literal : List Char) : List (Placeholder × List Char) → List Piece
  | [] => literal.map .char
  | (p, next) :: holes => literal.map .char ++ .hole p :: layoutPieces next holes

/-- The literal texts open no placeholder, and the placeholders can be written. -/
structure IsLayout (literal : List Char) (holes : List (Placeholder × List Char)) : Prop where
  literal : IsLiteral literal
  holes : ∀ hole ∈ holes, hole.1.Proper ∧ IsLiteral hole.2

instance (literal : List Char) (holes : List (Placeholder × List Char)) :
    Decidable (IsLayout literal holes) :=
  decidable_of_iff (IsLiteral literal ∧ ∀ hole ∈ holes, hole.1.Proper ∧ IsLiteral hole.2)
    ⟨fun ⟨hliteral, hholes⟩ => ⟨hliteral, hholes⟩, fun h => ⟨h.literal, h.holes⟩⟩

theorem pieces_layout {literal : List Char} {holes : List (Placeholder × List Char)}
    (h : IsLayout literal holes) : pieces (layout literal holes) = layoutPieces literal holes := by
  induction holes generalizing literal with
  | nil =>
      have hend : ([] : List Char).head? ≠ some '{' := by simp
      have hread := pieces_literal_append h.literal hend
      rw [List.append_nil, pieces, List.append_nil] at hread
      exact hread
  | cons hole holes ih =>
      obtain ⟨p, next⟩ := hole
      obtain ⟨hproper, hnext⟩ := h.holes (p, next) List.mem_cons_self
      have hholes : IsLayout next holes :=
        ⟨hnext, fun hole hmem => h.holes hole (List.mem_cons_of_mem _ hmem)⟩
      have hhead : (p.source ++ layout next holes).head? ≠ some '{' := by simp [Placeholder.source]
      rw [layout, pieces_literal_append h.literal hhead, pieces_source_append hproper, ih hholes,
        layoutPieces]

def Piece.source : Piece → List Char
  | .char c => [c]
  | .hole p => p.source

/-- Reading a template loses nothing, and finds proper placeholders only. -/
theorem pieces_spec (cs : List Char) :
    (pieces cs).flatMap Piece.source = cs ∧ ∀ p : Placeholder, .hole p ∈ pieces cs → p.Proper := by
  induction cs using pieces.induct with
  | case1 => simp [pieces]
  | case2 inner p after hp ih =>
      obtain ⟨hproper, hinner⟩ := of_readPlaceholder? hp
      rw [pieces_of_some hp, List.flatMap_cons, ih.1]
      refine ⟨by simp [Piece.source, Placeholder.source, hinner], ?_⟩
      intro q hq
      rcases List.mem_cons.mp hq with heq | hq
      · cases heq
        exact hproper
      · exact ih.2 q hq
  | case3 inner hnone ih =>
      rw [pieces_of_none hnone, List.flatMap_cons, ih.1]
      refine ⟨rfl, fun q hq => ih.2 q ?_⟩
      simpa using hq
  | case4 c rest hstart ih =>
      rw [pieces_cons hstart, List.flatMap_cons, ih.1]
      refine ⟨rfl, fun q hq => ih.2 q ?_⟩
      simpa using hq

/-! ## What placeholders stand for -/

/-- The text that a placeholder stands for. The rules do not invoke the expansion. -/
inductive StandsFor (vars : Variables) : Placeholder → List Char → Prop
  | required {name : List Char} {value : String} (h : vars.lookup (String.ofList name) = some value) :
      StandsFor vars ⟨name, .required⟩ value.toList
  | value {name alternative : List Char} {value : String}
      (h : vars.lookup (String.ofList name) = some value) (hne : value ≠ "") :
      StandsFor vars ⟨name, .orElse alternative⟩ value.toList
  | alternative {name alternative : List Char}
      (h : vars.lookup (String.ofList name) = none ∨ vars.lookup (String.ofList name) = some "") :
      StandsFor vars ⟨name, .orElse alternative⟩ alternative
  | shown {name text : List Char} {value : String}
      (h : vars.lookup (String.ofList name) = some value) (hne : value ≠ "") :
      StandsFor vars ⟨name, .ifSet text⟩ text
  | hidden {name text : List Char}
      (h : vars.lookup (String.ofList name) = none ∨ vars.lookup (String.ofList name) = some "") :
      StandsFor vars ⟨name, .ifSet text⟩ []

/-- A placeholder requires a variable that is not set. -/
def Lacks (vars : Variables) (p : Placeholder) : Prop :=
  p.use = .required ∧ vars.lookup (String.ofList p.name) = none

instance (vars : Variables) (p : Placeholder) : Decidable (Lacks vars p) :=
  inferInstanceAs (Decidable (p.use = .required ∧ vars.lookup (String.ofList p.name) = none))

theorem StandsFor.value_eq {text : List Char} (h : StandsFor vars p text) : p.value vars = .ok text := by
  cases h with
  | required h => simp [Placeholder.value, h]
  | value h hne => simp [Placeholder.value, Option.filter, h, hne]
  | alternative h => rcases h with h | h <;> simp [Placeholder.value, Option.filter, h]
  | shown h hne => simp [Placeholder.value, Option.filter, h, hne]
  | hidden h => rcases h with h | h <;> simp [Placeholder.value, Option.filter, h]

theorem Lacks.value_eq (h : Lacks vars p) : p.value vars = .error ⟨String.ofList p.name⟩ := by
  simp [Placeholder.value, h.1, h.2]

theorem StandsFor.not_lacks {text : List Char} (h : StandsFor vars p text) : ¬ Lacks vars p := by
  intro hlacks
  have hvalue := h.value_eq
  rw [hlacks.value_eq] at hvalue
  cases hvalue

/-- A placeholder stands for some text unless it requires a variable that is not set. -/
theorem lacks_or_standsFor (vars : Variables) (p : Placeholder) :
    Lacks vars p ∨ ∃ text, StandsFor vars p text := by
  obtain ⟨name, use⟩ := p
  cases hvalue : vars.lookup (String.ofList name) with
  | none =>
      cases use with
      | required => exact .inl ⟨rfl, hvalue⟩
      | orElse alternative => exact .inr ⟨_, .alternative (.inl hvalue)⟩
      | ifSet text => exact .inr ⟨_, .hidden (.inl hvalue)⟩
  | some value =>
      by_cases hempty : value = ""
      · subst hempty
        cases use with
        | required => exact .inr ⟨_, .required hvalue⟩
        | orElse alternative => exact .inr ⟨_, .alternative (.inr hvalue)⟩
        | ifSet text => exact .inr ⟨_, .hidden (.inr hvalue)⟩
      · cases use with
        | required => exact .inr ⟨_, .required hvalue⟩
        | orElse alternative => exact .inr ⟨_, .value hvalue hempty⟩
        | ifSet text => exact .inr ⟨_, .shown hvalue hempty⟩

/-! ## What layouts stand for -/

variable {literal out : List Char} {holes : List (Placeholder × List Char)} {unset : UnsetVariable}

/-- The text of a layout with its placeholders replaced. -/
inductive Filled (vars : Variables) : List Char → List (Placeholder × List Char) → List Char → Prop
  | literal (literal : List Char) : Filled vars literal [] literal
  | hole {literal next text out : List Char} {p : Placeholder} {holes : List (Placeholder × List Char)}
      (h : StandsFor vars p text) : Filled vars next holes out →
      Filled vars literal ((p, next) :: holes) (literal ++ (text ++ out))

/-- The leftmost variable that a layout requires and that is not set. -/
def FirstUnset (vars : Variables) (holes : List (Placeholder × List Char))
    (unset : UnsetVariable) : Prop :=
  ∃ front p next back, holes = front ++ (p, next) :: back ∧ (∀ hole ∈ front, ¬ Lacks vars hole.1) ∧
    Lacks vars p ∧ unset = ⟨String.ofList p.name⟩

theorem valueOf_literal_append (vars : Variables) (literal : List Char) (ps : List Piece) :
    valueOf vars (literal.map .char ++ ps) = (valueOf vars ps).map (literal ++ ·) := by
  induction literal with
  | nil =>
      rw [List.map_nil, List.nil_append]
      cases valueOf vars ps <;> rfl
  | cons c literal ih =>
      rw [List.map_cons, List.cons_append, valueOf, ih]
      cases valueOf vars ps <;> rfl

theorem Filled.valueOf_eq (h : Filled vars literal holes out) :
    valueOf vars (layoutPieces literal holes) = .ok out := by
  induction h with
  | literal literal =>
      have hvalue := valueOf_literal_append vars literal []
      rwa [List.append_nil, valueOf_nil, Except.map, List.append_nil] at hvalue
  | hole hp _ ih =>
      rw [layoutPieces, valueOf_literal_append, valueOf, Piece.value, hp.value_eq, ih]
      rfl

theorem FirstUnset.valueOf_eq (h : FirstUnset vars holes unset) (literal : List Char) :
    valueOf vars (layoutPieces literal holes) = .error unset := by
  obtain ⟨front, p, next, back, rfl, hfront, hp, rfl⟩ := h
  induction front generalizing literal with
  | nil =>
      rw [List.nil_append, layoutPieces, valueOf_literal_append, valueOf, Piece.value, hp.value_eq]
      rfl
  | cons hole front ih =>
      obtain ⟨q, literal'⟩ := hole
      obtain ⟨text, hq⟩ := (lacks_or_standsFor vars q).resolve_left (hfront _ List.mem_cons_self)
      rw [List.cons_append, layoutPieces, valueOf_literal_append, valueOf, Piece.value, hq.value_eq,
        ih literal' fun hole hmem => hfront hole (List.mem_cons_of_mem _ hmem)]
      rfl

theorem filled_or_firstUnset (vars : Variables) (literal : List Char)
    (holes : List (Placeholder × List Char)) :
    (∃ out, Filled vars literal holes out) ∨ ∃ unset, FirstUnset vars holes unset := by
  induction holes generalizing literal with
  | nil => exact .inl ⟨literal, .literal literal⟩
  | cons hole holes ih =>
      obtain ⟨p, next⟩ := hole
      rcases lacks_or_standsFor vars p with hp | ⟨text, hp⟩
      · exact .inr ⟨_, [], p, next, holes, rfl, List.forall_mem_nil _, hp, rfl⟩
      · rcases ih next with ⟨out, hout⟩ | ⟨unset, front, q, after, back, rfl, hfront, hq, rfl⟩
        · exact .inl ⟨_, .hole hp hout⟩
        · refine .inr ⟨_, (p, next) :: front, q, after, back, rfl, ?_, hq, rfl⟩
          intro hole hmem
          rcases List.mem_cons.mp hmem with rfl | hmem
          · exact hp.not_lacks
          · exact hfront hole hmem

theorem valueOf_layoutPieces (vars : Variables) (literal : List Char)
    (holes : List (Placeholder × List Char)) :
    (∀ out, valueOf vars (layoutPieces literal holes) = .ok out ↔ Filled vars literal holes out) ∧
      ∀ unset, valueOf vars (layoutPieces literal holes) = .error unset ↔ FirstUnset vars holes unset := by
  rcases filled_or_firstUnset vars literal holes with ⟨out, hout⟩ | ⟨unset, hunset⟩
  · have hvalue := hout.valueOf_eq
    refine ⟨fun other => ⟨fun h => ?_, Filled.valueOf_eq⟩,
      fun unset => ⟨fun h => ?_, fun h => h.valueOf_eq literal⟩⟩
    · rw [hvalue] at h
      cases h
      exact hout
    · rw [hvalue] at h
      cases h
  · have hvalue := hunset.valueOf_eq literal
    refine ⟨fun other => ⟨fun h => ?_, Filled.valueOf_eq⟩,
      fun unset => ⟨fun h => ?_, fun h => h.valueOf_eq literal⟩⟩
    · rw [hvalue] at h
      cases h
    · rw [hvalue] at h
      cases h
      exact hunset

/-! ## Templates without placeholders -/

theorem valueOf_of_forall_char {ps : List Piece} (h : ∀ p : Placeholder, .hole p ∉ ps) (vars : Variables) :
    valueOf vars ps = .ok (ps.flatMap Piece.source) := by
  induction ps with
  | nil => rfl
  | cons piece ps ih =>
      have hps := ih fun p hmem => h p (List.mem_cons_of_mem _ hmem)
      cases piece with
      | char c =>
          rw [valueOf, Piece.value, hps]
          rfl
      | hole p => exact absurd List.mem_cons_self (h p)

theorem source_infix_of_hole_mem {cs : List Char} (h : .hole p ∈ pieces cs) : p.source <:+: cs := by
  obtain ⟨before, after, hsplit⟩ := List.append_of_mem h
  have hsource := (pieces_spec cs).1
  rw [hsplit, List.flatMap_append, List.flatMap_cons] at hsource
  exact ⟨_, _, by rw [List.append_assoc]; exact hsource⟩

theorem expand_of_isLiteral {template : String} (h : IsLiteral template.toList) (vars : Variables) :
    expand vars template = .ok template := by
  have hend : ([] : List Char).head? ≠ some '{' := by simp
  have hpieces := pieces_literal_append h hend
  rw [List.append_nil] at hpieces
  rw [expand, hpieces, valueOf_literal_append]
  simp [pieces, valueOf, Except.map]

/-! ## Public theorem -/

/-- A layout expands to its literal texts and what its placeholders stand for, or else the leftmost
variable that it requires and that is not set is reported. A template in which no placeholder is written
stays as it is. -/
theorem expand_layout (vars : Variables) :
    (∀ literal holes, IsLayout literal holes →
      (∀ out, expand vars (String.ofList (layout literal holes)) = .ok out ↔
        Filled vars literal holes out.toList) ∧
      ∀ unset, expand vars (String.ofList (layout literal holes)) = .error unset ↔
        FirstUnset vars holes unset) ∧
    ∀ template : String, (∀ p : Placeholder, p.Proper → ¬ p.source <:+: template.toList) →
      expand vars template = .ok template := by
  refine ⟨fun literal holes hlayout => ?_, fun template hnone => ?_⟩
  · obtain ⟨hok, herror⟩ := valueOf_layoutPieces vars literal holes
    rw [expand, String.toList_ofList, pieces_layout hlayout]
    refine ⟨fun out => ?_, fun unset => ?_⟩
    · rw [← hok]
      cases valueOf vars (layoutPieces literal holes) <;> simp [Except.map, ← String.toList_inj]
    · rw [← herror]
      cases valueOf vars (layoutPieces literal holes) <;> simp [Except.map]
  · have hholes : ∀ p : Placeholder, .hole p ∉ pieces template.toList := fun p hmem =>
      hnone p ((pieces_spec _).2 p hmem) (source_infix_of_hole_mem hmem)
    rw [expand, valueOf_of_forall_char hholes, (pieces_spec _).1, Except.map, String.ofList_toList]

/-- A value and an alternative that look like placeholders are not read again, the first variable that is
not set is reported, and what is not closed or not well formed stays. -/
theorem expand_layout_mixed :
    let vars := [("A", "1"), ("B", "$\x7bA\x7d"), ("E", "")]
    expand vars "$$\x7bB\x7d\x7b$\x7bE:-$\x7bA\n\x7d$$\x7bA:+[\x7d" = .ok "$$\x7bA\x7d\x7b$\x7bA\n$[" ∧
      expand vars "$\x7bE\x7d$\x7bX\x7d$\x7bY\x7d" = .error ⟨"X"⟩ ∧
      expand vars "$\x7b\x7d$\x7bA:x\x7d$\x7bA" = .ok "$\x7b\x7d$\x7bA:x\x7d$\x7bA" := by
  intro vars
  have hfilled : IsLayout "$".toList [(⟨"B".toList, .required⟩, "\x7b".toList),
      (⟨"E".toList, .orElse "$\x7bA\n".toList⟩, "$".toList), (⟨"A".toList, .ifSet "[".toList⟩, [])] := by
    decide
  have hunset : IsLayout [] [(⟨"E".toList, .required⟩, []), (⟨"X".toList, .required⟩, []),
      (⟨"Y".toList, .required⟩, [])] := by
    decide
  have hnone : ¬ HasPlaceholder "$\x7b\x7d$\x7bA:x\x7d$\x7bA".toList := by decide
  have hA : vars.lookup "A" = some "1" := by decide
  have hB : vars.lookup "B" = some "$\x7bA\x7d" := by decide
  have hE : vars.lookup "E" = some "" := by decide
  refine ⟨(((expand_layout vars).1 _ _ hfilled).1 _).mpr ?_,
    (((expand_layout vars).1 _ _ hunset).2 _).mpr ?_,
    (expand_layout vars).2 _ fun p hp hsource => hnone (hasPlaceholder_iff.mpr ⟨p, hp, hsource⟩)⟩
  · exact .hole (.required hB)
      (.hole (.alternative (.inr hE)) (.hole (.shown hA (by decide)) (.literal [])))
  · exact ⟨[(⟨"E".toList, .required⟩, [])], ⟨"X".toList, .required⟩, [], _, rfl, by decide, by decide,
      rfl⟩

end ImageTrust.Template
