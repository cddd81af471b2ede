import ImageTrust.Proofs.Template.Layout

/-! # Templates one after another

Two templates are expanded one after the other, unless a placeholder that opens in the first one reaches
into the second. A placeholder goes on up to a closing brace, so that only what follows the last closing
brace of the first template can still be open.
-/

namespace ImageTrust.Template

/-! ## The open end of a template -/

/-- What follows the last closing brace of a text: all of it, if there is none. -/
def openEnd (cs : List Char) : List Char :=
  (cs.reverse.takeWhile (· ≠ '}')).reverse

/-- No placeholder is open at the end of a text, and none opens where the next text begins. -/
structure Separate (a b : List Char) : Prop where
  closed : IsLiteral (openEnd a)
  seam : ¬ (a.getLast? = some '$' ∧ b.head? = some '{')

instance (a b : List Char) : Decidable (Separate a b) :=
  decidable_of_iff (IsLiteral (openEnd a) ∧ ¬ (a.getLast? = some '$' ∧ b.head? = some '{'))
    ⟨fun ⟨hclosed, hseam⟩ => ⟨hclosed, hseam⟩, fun h => ⟨h.closed, h.seam⟩⟩

variable {a b cs inner after : List Char}

theorem openEnd_eq_self (h : '}' ∉ cs) : openEnd cs = cs := by
  have hall : ∀ c ∈ cs.reverse, decide (c ≠ '}') = true := by
    intro c hc
    refine decide_eq_true ?_
    rintro rfl
    exact h (List.mem_reverse.mp hc)
  rw [openEnd, List.takeWhile_eq_self_iff.mpr hall, List.reverse_reverse]

theorem openEnd_suffix (h : after <:+ cs) : openEnd after <:+ openEnd cs := by
  obtain ⟨front, rfl⟩ := h
  rw [openEnd, openEnd, List.reverse_suffix, List.reverse_append, List.takeWhile_append]
  split
  · next hwhole =>
      rw [List.IsPrefix.eq_of_length (List.takeWhile_prefix _) hwhole]
      exact List.prefix_append ..
  · exact List.prefix_rfl

/-- A placeholder begins in a text and ends in the next one. -/
def Spans (a b : List Char) : Prop :=
  ∃ p : Placeholder, p.Proper ∧ ∃ front inside outside back, p.source = inside ++ outside ∧
    inside ≠ [] ∧ outside ≠ [] ∧ a = front ++ inside ∧ b = outside ++ back

/-- A placeholder that spans a part of the first text spans the whole. -/
theorem Spans.of_suffix (h : Spans after b) (hafter : after <:+ a) : Spans a b := by
  obtain ⟨before, rfl⟩ := hafter
  obtain ⟨p, hproper, front, inside, outside, back, hsource, hinside, houtside, rfl, rfl⟩ := h
  exact ⟨p, hproper, before ++ front, inside, outside, back, hsource, hinside, houtside,
    (List.append_assoc ..).symm, rfl⟩

/-- A placeholder has a closing brace at its end only. -/
theorem Placeholder.Proper.not_mem_of_source {p : Placeholder} {inside outside : List Char}
    (h : p.Proper) (hsource : p.source = inside ++ outside) (houtside : outside ≠ []) : '}' ∉ inside := by
  obtain ⟨more, last, rfl⟩ := (List.eq_nil_or_concat outside).resolve_left houtside
  have hfront : '$' :: '{' :: (p.name ++ p.use.source) = inside ++ more := by
    have heq : ('$' :: '{' :: (p.name ++ p.use.source)) ++ ['}'] = (inside ++ more) ++ [last] := by
      simpa [Placeholder.source] using hsource
    exact (List.append_inj' heq rfl).1
  have hmem : '}' ∉ '$' :: '{' :: (p.name ++ p.use.source) := by
    simp only [List.mem_cons, List.mem_append, not_or]
    exact ⟨by decide, by decide, fun hname => (h.name_char _ hname).1 rfl, h.use_char⟩
  rw [hfront] at hmem
  exact fun hinside => hmem (List.mem_append_left more hinside)

theorem Separate.not_spans (h : Separate a b) : ¬ Spans a b := by
  rintro ⟨p, hproper, front, inside, outside, back, hsource, hinside, houtside, rfl, rfl⟩
  have hopen : inside <:+ openEnd (front ++ inside) := by
    have hsuffix := openEnd_suffix (List.suffix_append front inside)
    rwa [openEnd_eq_self (hproper.not_mem_of_source hsource houtside)] at hsuffix
  rw [Placeholder.source] at hsource
  cases inside with
  | nil => exact hinside rfl
  | cons c more =>
      obtain ⟨rfl, htail⟩ := List.cons.inj hsource
      cases more with
      | nil =>
          obtain rfl : _ = outside := htail
          exact h.seam ⟨List.getLast?_concat .., rfl⟩
      | cons d more =>
          obtain ⟨rfl, -⟩ := List.cons.inj htail
          exact h.closed (List.IsInfix.trans ⟨[], more, rfl⟩ hopen.isInfix)

/-! ## Reading -/

/-- A placeholder that is closed is read the same, whatever comes after it. -/
theorem readPlaceholder?_append {p : Placeholder} (h : readPlaceholder? inner = some (p, after))
    (b : List Char) : readPlaceholder? (inner ++ b) = some (p, after ++ b) := by
  obtain ⟨hproper, rfl⟩ := of_readPlaceholder? h
  simpa using hproper.readPlaceholder? (after ++ b)

/-- What is malformed up to a closing brace stays so, whatever comes after it. -/
theorem readPlaceholder?_append_eq_none (h : readPlaceholder? inner = none) (hmem : '}' ∈ inner)
    (b : List Char) : readPlaceholder? (inner ++ b) = none := by
  cases hread : readPlaceholder? (inner ++ b) with
  | none => rfl
  | some result =>
      obtain ⟨p, rest⟩ := result
      obtain ⟨hproper, hsplit⟩ := of_readPlaceholder? hread
      obtain ⟨front, more, rfl, hfront⟩ := List.eq_append_cons_of_mem hmem
      have hinside : '}' ∉ p.name ++ p.use.source := by
        rw [List.mem_append, not_or]
        exact ⟨fun hname => (hproper.name_char _ hname).1 rfl, hproper.use_char⟩
      -- The first closing brace ends the placeholder, on both readings of the text.
      have hfirst := readAlternative?_append hfront (more ++ b)
      rw [← List.cons_append, ← List.append_assoc, hsplit, ← List.append_assoc,
        readAlternative?_append hinside] at hfirst
      cases hfirst
      rw [List.append_assoc, hproper.readPlaceholder?] at h
      cases h

/-- A placeholder that is closed only after the first text spans both. -/
theorem spans_of_readPlaceholder? {p : Placeholder} (h : readPlaceholder? (inner ++ b) = some (p, after))
    (hopen : '}' ∉ inner) : Spans ('$' :: '{' :: inner) b := by
  obtain ⟨hproper, hsplit⟩ := of_readPlaceholder? h
  rw [← List.append_assoc] at hsplit
  obtain ⟨more, hmore, rfl⟩ : ∃ more, p.name ++ p.use.source = inner ++ more ∧
      b = more ++ '}' :: after := by
    obtain hlonger | ⟨between, rfl, hbetween⟩ := List.append_eq_append_iff.mp hsplit
    · exact hlonger
    · cases between with
      | nil => exact ⟨[], by simp, hbetween.symm⟩
      | cons c between =>
          cases hbetween
          exact absurd (List.mem_append_right _ List.mem_cons_self) hopen
  refine ⟨p, hproper, [], '$' :: '{' :: inner, more ++ ['}'], after, ?_, by simp, by simp, rfl, by simp⟩
  rw [Placeholder.source, ← List.append_assoc, hmore]
  simp

theorem spans_of_dollar {p : Placeholder} (h : readPlaceholder? inner = some (p, after)) :
    Spans ['$'] ('{' :: inner) := by
  obtain ⟨hproper, rfl⟩ := of_readPlaceholder? h
  exact ⟨p, hproper, [], ['$'], '{' :: (p.name ++ (p.use.source ++ ['}'])), after, rfl, by simp, by simp,
    rfl, by simp⟩

/-- The pieces of two templates, one after the other. -/
theorem pieces_append_of_not_spans (h : ¬ Spans a b) : pieces (a ++ b) = pieces a ++ pieces b := by
  induction a using pieces.induct with
  | case1 =>
      rw [pieces]
      rfl
  | case2 inner p after hp ih =>
      obtain ⟨-, hinner⟩ := of_readPlaceholder? hp
      have hafter : after <:+ '$' :: '{' :: inner :=
        ⟨'$' :: '{' :: (p.name ++ (p.use.source ++ ['}'])), by simp [hinner]⟩
      have hread := readPlaceholder?_append hp b
      rw [List.cons_append, List.cons_append, pieces_of_some hread, pieces_of_some hp,
        ih fun hspans => h (hspans.of_suffix hafter), List.cons_append]
  | case3 inner hnone ih =>
      have hread : readPlaceholder? (inner ++ b) = none := by
        by_cases hmem : '}' ∈ inner
        · exact readPlaceholder?_append_eq_none hnone hmem b
        · refine Option.eq_none_iff_forall_ne_some.mpr fun result hsome => ?_
          exact h (spans_of_readPlaceholder? hsome hmem)
      rw [List.cons_append, List.cons_append, pieces_of_none hread, pieces_of_none hnone,
        ← List.cons_append, ih fun hspans => h (hspans.of_suffix (List.suffix_cons _ _)),
        List.cons_append]
  | case4 c rest hstart ih =>
      have hcons : pieces (c :: (rest ++ b)) = .char c :: pieces (rest ++ b) := by
        by_cases hopens : ∃ inner, c = '$' ∧ rest ++ b = '{' :: inner
        · obtain ⟨inner, rfl, hinner⟩ := hopens
          obtain rfl : rest = [] := by
            cases rest with
            | nil => rfl
            | cons d rest =>
                cases hinner
                exact absurd rfl (hstart rest rfl)
          rw [List.nil_append] at hinner ⊢
          subst hinner
          cases hread : readPlaceholder? inner with
          | none => rw [pieces_of_none hread]
          | some result => exact absurd (spans_of_dollar hread) h
        · exact pieces_cons fun inner hc hrest => hopens ⟨inner, hc, hrest⟩
      rw [List.cons_append, hcons, pieces_cons hstart,
        ih fun hspans => h (hspans.of_suffix (List.suffix_cons _ _)), List.cons_append]

theorem Separate.pieces_append (h : Separate a b) : pieces (a ++ b) = pieces a ++ pieces b :=
  pieces_append_of_not_spans h.not_spans

/-! ## Expanding -/

theorem valueOf_append (vars : Variables) (ps qs : List Piece) :
    valueOf vars (ps ++ qs) = do
      let front ← valueOf vars ps
      let back ← valueOf vars qs
      return front ++ back := by
  induction ps with
  | nil =>
      rw [List.nil_append, valueOf_nil]
      cases valueOf vars qs <;> rfl
  | cons piece ps ih =>
      rw [List.cons_append, valueOf, valueOf, ih]
      cases piece.value vars with
      | error unset => rfl
      | ok text =>
          cases valueOf vars ps with
          | error unset => rfl
          | ok front =>
              cases valueOf vars qs with
              | error unset => rfl
              | ok back => simp [Except.map, bind, Except.bind, pure, Except.pure]

/-- A template goes on after one that is expanded. -/
theorem expand_append_of_ok {vars : Variables} {a b text : String} (h : ¬ Spans a.toList b.toList)
    (ha : expand vars a = .ok text) : expand vars (a ++ b) = (expand vars b).map (text ++ ·) := by
  rw [expand] at ha
  cases hvalue : valueOf vars (pieces a.toList) with
  | error unset => cases hvalue ▸ ha
  | ok front =>
      cases hvalue ▸ ha
      rw [expand, String.toList_append, pieces_append_of_not_spans h, valueOf_append, hvalue, expand]
      cases valueOf vars (pieces b.toList) with
      | error unset => rfl
      | ok back => simp [Except.map, bind, Except.bind, pure, Except.pure, String.ofList_append]

/-! ## Public theorem -/

/-- Two templates, no placeholder reaching from the first into the second, are read and expanded one
after the other. A variable that the first one lacks is reported before those of the second. -/
theorem expand_append {a b : String} (h : Separate a.toList b.toList) :
    pieces (a ++ b).toList = pieces a.toList ++ pieces b.toList ∧
      ∀ vars : Variables, expand vars (a ++ b) = do
        let front ← expand vars a
        let back ← expand vars b
        return front ++ back := by
  have hpieces : pieces (a ++ b).toList = pieces a.toList ++ pieces b.toList := by
    rw [String.toList_append, h.pieces_append]
  refine ⟨hpieces, fun vars => ?_⟩
  rw [expand, hpieces, valueOf_append, expand, expand]
  cases valueOf vars (pieces a.toList) with
  | error unset => rfl
  | ok front =>
      cases valueOf vars (pieces b.toList) with
      | error unset => rfl
      | ok back => simp [Except.map, bind, Except.bind, pure, Except.pure, String.ofList_append]

/-- Malformed placeholders with a closing brace at the end, a dollar sign before the seam, and braces
after it. -/
theorem expand_append_malformed :
    Separate "$\x7bA:x\x7d$\x7b\x7d$".toList "A\x7d$\x7bA\x7d\x7b".toList ∧
      ∀ vars : Variables, expand vars ("$\x7bA:x\x7d$\x7b\x7d$" ++ "A\x7d$\x7bA\x7d\x7b") = do
        let front ← expand vars "$\x7bA:x\x7d$\x7b\x7d$"
        let back ← expand vars "A\x7d$\x7bA\x7d\x7b"
        return front ++ back := by
  have h : Separate "$\x7bA:x\x7d$\x7b\x7d$".toList "A\x7d$\x7bA\x7d\x7b".toList := by decide
  exact ⟨h, (expand_append h).2⟩

/-- A placeholder that is left open takes in what comes after it, however many lines it has, and so does
a dollar sign at the seam. -/
example :
    expand [("A\nB", "1"), ("B", "2")] ("$\x7bA\n" ++ "B\x7d") = .ok "1" ∧
      expand [("B", "2")] ("$" ++ "\x7bB\x7d") = .ok "2" := by
  decide +kernel

end ImageTrust.Template
