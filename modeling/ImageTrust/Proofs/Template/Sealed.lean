import ImageTrust.Proofs.Template.Expansion
import Mathlib.Data.List.TakeWhile

/-! # Placeholders in expanded templates

A template is read once, so an expanded template may have the form of a placeholder again: a value may
hold one, or may complete one together with the characters next to it. A sealed text can do neither, and
a template into which only sealed texts are put has no placeholder left.
-/

namespace ImageTrust.Template

/-! ## Texts with placeholders -/

def StartsPlaceholder (cs : List Char) : Prop :=
  ∃ inner, cs = '$' :: '{' :: inner ∧ (readPlaceholder? inner).isSome

def HasPlaceholder (cs : List Char) : Prop :=
  ∃ before after, cs = before ++ after ∧ StartsPlaceholder after

theorem not_hasPlaceholder_nil : ¬ HasPlaceholder [] := by
  rintro ⟨before, after, heq, inner, rfl, -⟩
  simp at heq

theorem hasPlaceholder_cons {c : Char} {cs : List Char} :
    HasPlaceholder (c :: cs) ↔ StartsPlaceholder (c :: cs) ∨ HasPlaceholder cs := by
  refine ⟨?_, ?_⟩
  · rintro ⟨before, after, heq, hstarts⟩
    cases before with
    | nil =>
        rw [List.nil_append] at heq
        exact .inl (heq ▸ hstarts)
    | cons d before =>
        exact .inr ⟨before, after, (List.cons.inj heq).2, hstarts⟩
  · rintro (hstarts | ⟨before, after, rfl, hstarts⟩)
    · exact ⟨[], c :: cs, rfl, hstarts⟩
    · exact ⟨c :: before, after, rfl, hstarts⟩

theorem startsPlaceholder_iff {cs : List Char} :
    StartsPlaceholder cs ↔ cs.take 2 = ['$', '{'] ∧ (readPlaceholder? (cs.drop 2)).isSome := by
  refine ⟨?_, ?_⟩
  · rintro ⟨inner, rfl, hsome⟩
    exact ⟨rfl, hsome⟩
  · rintro ⟨htake, hsome⟩
    exact ⟨cs.drop 2, by rw [← List.take_append_drop 2 cs, htake]; rfl, hsome⟩

instance : DecidablePred StartsPlaceholder :=
  fun _ => decidable_of_iff _ startsPlaceholder_iff.symm

instance decidableHasPlaceholder : DecidablePred HasPlaceholder
  | [] => isFalse not_hasPlaceholder_nil
  | c :: cs =>
    have := decidableHasPlaceholder cs
    decidable_of_iff (StartsPlaceholder (c :: cs) ∨ HasPlaceholder cs) hasPlaceholder_cons.symm

/-! ## The end of a placeholder -/

/-- Whether the text after a name closes a placeholder. -/
def closes : List Char → Bool
  | '}' :: _ => true
  | ':' :: '-' :: rest => rest.contains '}'
  | ':' :: '+' :: rest => rest.contains '}'
  | _ => false

theorem isSome_readAlternative? (cs : List Char) :
    (readAlternative? cs).isSome = cs.contains '}' := by
  induction cs with
  | nil => rfl
  | cons c cs ih =>
      by_cases hc : c = '}'
      · subst hc
        rfl
      · rw [List.contains_cons, beq_false_of_ne (Ne.symm hc), Bool.false_or, ← ih, readAlternative?,
          readAlternative?, List.dropWhile_cons_of_pos (by simpa using hc)]
        cases cs.dropWhile (· ≠ '}') <;> rfl

theorem isSome_readPlaceholder? (cs : List Char) :
    (readPlaceholder? cs).isSome =
      (!(cs.takeWhile isNameChar).isEmpty && closes (cs.dropWhile isNameChar)) := by
  rw [readPlaceholder?]
  cases (cs.takeWhile isNameChar).isEmpty with
  | true => rfl
  | false =>
      simp only [Bool.false_eq_true, if_false, Bool.not_false, Bool.true_and]
      generalize cs.dropWhile isNameChar = rest
      unfold closes
      split <;> simp [isSome_readAlternative?]

theorem isSome_readPlaceholder?_cons {c : Char} (hc : isNameChar c) (cs : List Char) :
    (readPlaceholder? (c :: cs)).isSome = closes (cs.dropWhile isNameChar) := by
  simp [isSome_readPlaceholder?, hc]

theorem readPlaceholder?_cons_eq_none {c : Char} (hc : ¬ isNameChar c) (cs : List Char) :
    readPlaceholder? (c :: cs) = none := by
  simp [readPlaceholder?, hc]

theorem closes_colon {cs : List Char} :
    closes (':' :: cs) ↔ ∃ sign rest, (sign = '-' ∨ sign = '+') ∧ cs = sign :: rest ∧ '}' ∈ rest := by
  refine ⟨?_, ?_⟩
  · intro h
    unfold closes at h
    split at h <;> simp_all
  · rintro ⟨sign, rest, rfl | rfl, rfl, hrest⟩ <;> simpa [closes] using hrest

theorem mem_of_closes {cs : List Char} (h : closes cs) : '}' ∈ cs := by
  unfold closes at h
  split at h <;> simp_all

theorem mem_of_isSome_readPlaceholder? {cs : List Char} (h : (readPlaceholder? cs).isSome) :
    '}' ∈ cs := by
  rw [isSome_readPlaceholder?, Bool.and_eq_true] at h
  exact (List.dropWhile_suffix _).subset (mem_of_closes h.2)

/-! ## Sealed texts -/

/-- A text in which no placeholder opens, and which completes none with the characters before and after
it. -/
structure Sealed (text : List Char) : Prop where
  ne_nil : text ≠ []
  opensNone : ¬ ['$', '{'] <:+: text
  head : ∀ c ∈ text.head?, c ≠ '{' ∧ c ≠ '-' ∧ c ≠ '+'
  last : text.getLast? ≠ some '$'

theorem not_hasPlaceholder_append {text cs : List Char} (hopens : ¬ ['$', '{'] <:+: text)
    (hlast : text.getLast? ≠ some '$') (hcs : ¬ HasPlaceholder cs) : ¬ HasPlaceholder (text ++ cs) := by
  induction text with
  | nil => exact hcs
  | cons c text ih =>
      rw [List.cons_append, hasPlaceholder_cons, not_or]
      refine ⟨?_, ih ?_ ?_⟩
      · rintro ⟨inner, heq, -⟩
        obtain ⟨rfl, htext⟩ := List.cons.inj heq
        cases text with
        | nil => exact hlast rfl
        | cons d text =>
            obtain ⟨rfl, -⟩ := List.cons.inj htext
            exact hopens ⟨[], text, rfl⟩
      · exact fun hinside => hopens (hinside.trans (List.suffix_cons c text).isInfix)
      · cases text with
        | nil => simp
        | cons d text => rwa [List.getLast?_cons_cons] at hlast

/-! ## Expansions with sealed texts -/

/-- The text `out` is the template `cs` with its placeholders replaced, each by a sealed text. -/
inductive ExpandsSealed (vars : Variables) : List Char → List Char → Prop
  | nil : ExpandsSealed vars [] []
  | char {c : Char} {cs out : List Char} (hc : ¬ StartsPlaceholder (c :: cs)) :
      ExpandsSealed vars cs out → ExpandsSealed vars (c :: cs) (c :: out)
  | hole {inner after text out : List Char} {p : Placeholder}
      (hp : readPlaceholder? inner = some (p, after)) (hvalue : p.value vars = .ok text)
      (hsealed : Sealed text) :
      ExpandsSealed vars after out → ExpandsSealed vars ('$' :: '{' :: inner) (text ++ out)

namespace ExpandsSealed

variable {vars : Variables} {cs out : List Char}

theorem of_valueOf (h : valueOf vars (pieces cs) = .ok out)
    (hsealed : ∀ p text, .hole p ∈ pieces cs → p.value vars = .ok text → Sealed text) :
    ExpandsSealed vars cs out := by
  induction cs using pieces.induct generalizing out with
  | case1 =>
      rw [pieces, valueOf_nil, Except.ok.injEq] at h
      subst h
      exact .nil
  | case2 inner p after hp ih =>
      have hpieces := pieces_of_some hp
      rw [hpieces, valueOf_cons_eq_ok_iff] at h
      obtain ⟨text, more, hvalue, hmore, rfl⟩ := h
      rw [hpieces] at hsealed
      exact .hole hp hvalue (hsealed p text List.mem_cons_self hvalue)
        (ih hmore fun q t hq => hsealed q t (List.mem_cons_of_mem _ hq))
  | case3 inner hnone ih =>
      have hpieces := pieces_of_none hnone
      rw [hpieces, valueOf_cons_eq_ok_iff] at h
      obtain ⟨text, more, hvalue, hmore, rfl⟩ := h
      cases hvalue
      rw [hpieces] at hsealed
      refine .char ?_ (ih hmore fun q t hq => hsealed q t (List.mem_cons_of_mem _ hq))
      rintro ⟨inner', heq, hsome⟩
      simp_all
  | case4 c rest hstart ih =>
      have hpieces := pieces_cons hstart
      rw [hpieces, valueOf_cons_eq_ok_iff] at h
      obtain ⟨text, more, hvalue, hmore, rfl⟩ := h
      cases hvalue
      rw [hpieces] at hsealed
      refine .char ?_ (ih hmore fun q t hq => hsealed q t (List.mem_cons_of_mem _ hq))
      rintro ⟨inner, heq, -⟩
      obtain ⟨rfl, rfl⟩ := List.cons.inj heq
      exact hstart inner rfl rfl

/-- An opening brace or the sign of an alternative is never the start of a sealed text. -/
theorem of_cons {c : Char} (h : ExpandsSealed vars cs (c :: out)) (hc : c = '{' ∨ c = '-' ∨ c = '+') :
    ∃ rest, cs = c :: rest ∧ ExpandsSealed vars rest out := by
  generalize hout : c :: out = all at h
  cases h with
  | nil => cases hout
  | char _ hrest =>
      cases hout
      exact ⟨_, rfl, hrest⟩
  | @hole _ _ text _ _ _ _ hsealed _ =>
      obtain ⟨d, text, rfl⟩ := List.exists_cons_of_ne_nil hsealed.ne_nil
      cases hout
      have := hsealed.head c rfl
      simp_all

/-- Without a closing brace there is nothing to expand. -/
theorem eq_of_not_mem (h : ExpandsSealed vars cs out) (hcs : '}' ∉ cs) : out = cs := by
  induction h with
  | nil => rfl
  | char _ _ ih => rw [ih fun hmem => hcs (List.mem_cons_of_mem _ hmem)]
  | @hole inner _ _ _ _ hp _ _ _ _ =>
      have hmem : '}' ∈ inner := mem_of_isSome_readPlaceholder? (by rw [hp]; rfl)
      exact absurd (List.mem_cons_of_mem _ (List.mem_cons_of_mem _ hmem)) hcs

/-- What does not close a placeholder does not close one after expansion. -/
theorem closes_eq_false (h : ExpandsSealed vars cs out)
    (hcs : closes (cs.dropWhile isNameChar) = false) : closes (out.dropWhile isNameChar) = false := by
  induction h with
  | nil => rfl
  | @char c cs out _ hrest ih =>
      by_cases hc : isNameChar c
      · rw [List.dropWhile_cons_of_pos hc] at hcs ⊢
        exact ih hcs
      · rw [List.dropWhile_cons_of_neg hc] at hcs ⊢
        have hcolon : c = ':' := by
          by_contra hcolon
          have hbrace : c = '}' := by simpa [isNameChar, hcolon] using hc
          rw [hbrace] at hcs
          cases hcs
        subst hcolon
        rw [← Bool.not_eq_true] at hcs ⊢
        intro hcloses
        obtain ⟨sign, after, hsign, rfl, hafter⟩ := closes_colon.mp hcloses
        obtain ⟨rest, rfl, hexpands⟩ := hrest.of_cons (.inr hsign)
        have hbrace : '}' ∉ rest := fun hmem => hcs (closes_colon.mpr ⟨sign, rest, hsign, rfl, hmem⟩)
        rw [hexpands.eq_of_not_mem hbrace] at hafter
        exact hbrace hafter
  | @hole inner after _ _ p hp _ _ _ _ =>
      -- a placeholder that opens here would close the one before as well
      have hsome : (readPlaceholder? inner).isSome := by rw [hp]; rfl
      rw [isSome_readPlaceholder?, Bool.and_eq_true] at hsome
      rw [List.dropWhile_cons_of_pos (by decide), List.dropWhile_cons_of_pos (by decide), hsome.2] at hcs
      cases hcs

theorem readPlaceholder?_eq_none (h : ExpandsSealed vars cs out) (hcs : readPlaceholder? cs = none) :
    readPlaceholder? out = none := by
  cases h with
  | nil => rfl
  | @char c cs out _ hrest =>
      by_cases hc : isNameChar c
      · rw [← Option.not_isSome_iff_eq_none, isSome_readPlaceholder?_cons hc, Bool.not_eq_true] at hcs ⊢
        exact hrest.closes_eq_false hcs
      · exact readPlaceholder?_cons_eq_none hc out
  | @hole inner after _ _ p hp _ _ _ =>
      have hsome : (readPlaceholder? inner).isSome := by rw [hp]; rfl
      rw [isSome_readPlaceholder?, Bool.and_eq_true] at hsome
      rw [← Option.not_isSome_iff_eq_none, isSome_readPlaceholder?_cons (by decide),
        List.dropWhile_cons_of_pos (by decide)] at hcs
      exact absurd hsome.2 hcs

theorem not_hasPlaceholder (h : ExpandsSealed vars cs out) : ¬ HasPlaceholder out := by
  induction h with
  | nil => exact not_hasPlaceholder_nil
  | @char c cs out hc hrest ih =>
      rw [hasPlaceholder_cons, not_or]
      refine ⟨?_, ih⟩
      rintro ⟨inner, heq, hsome⟩
      obtain ⟨rfl, rfl⟩ := List.cons.inj heq
      obtain ⟨inner', rfl, hinner⟩ := hrest.of_cons (.inl rfl)
      have hnone : readPlaceholder? inner' = none := by
        rw [← Option.not_isSome_iff_eq_none]
        exact fun hsome' => hc ⟨inner', rfl, hsome'⟩
      rw [hinner.readPlaceholder?_eq_none hnone] at hsome
      cases hsome
  | hole _ _ hsealed _ ih => exact not_hasPlaceholder_append hsealed.opensNone hsealed.last ih

end ExpandsSealed

/-- A placeholder in an expanded template has to do with a text that is not sealed. -/
theorem exists_not_sealed {vars : Variables} {template out : String}
    (h : expand vars template = .ok out) (hout : HasPlaceholder out.toList) :
    ∃ p text, .hole p ∈ pieces template.toList ∧ p.value vars = .ok text ∧ ¬ Sealed text := by
  by_contra hall
  simp only [not_exists, not_and, not_not] at hall
  rw [expand] at h
  cases hvalue : valueOf vars (pieces template.toList) with
  | error unset => simp [hvalue, Except.map] at h
  | ok cs =>
      simp only [hvalue, Except.map, Except.ok.injEq] at h
      rw [← h, String.toList_ofList] at hout
      exact (ExpandsSealed.of_valueOf hvalue hall).not_hasPlaceholder hout

end ImageTrust.Template
