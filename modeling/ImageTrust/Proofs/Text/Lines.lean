import ImageTrust.Text.Blank
import Mathlib.Data.List.TakeWhile

/-! # Lines and visible characters of a text -/

namespace ImageTrust.Text

/-! ## Maximal runs -/

theorem takeWhile_eq_nil {α : Type} {p : α → Bool} {xs : List α}
    (stops : ∀ x, xs.head? = some x → p x = false) : xs.takeWhile p = [] := by
  cases xs with
  | nil => rfl
  | cons x xs => simp [stops x rfl]

theorem dropWhile_eq_self {α : Type} {p : α → Bool} {xs : List α}
    (stops : ∀ x, xs.head? = some x → p x = false) : xs.dropWhile p = xs := by
  cases xs with
  | nil => rfl
  | cons x xs => simp [stops x rfl]

theorem takeWhile_run {α : Type} {p : α → Bool} {run rest : List α} (inside : ∀ x ∈ run, p x)
    (stops : ∀ x, rest.head? = some x → p x = false) : (run ++ rest).takeWhile p = run := by
  rw [List.takeWhile_append_of_pos inside, takeWhile_eq_nil stops, List.append_nil]

theorem dropWhile_run {α : Type} {p : α → Bool} {run rest : List α} (inside : ∀ x ∈ run, p x)
    (stops : ∀ x, rest.head? = some x → p x = false) : (run ++ rest).dropWhile p = rest := by
  rw [List.dropWhile_append_of_pos inside, dropWhile_eq_self stops]

theorem stops_cons {α : Type} {p : α → Bool} {x : α} (h : p x = false) (xs : List α) :
    ∀ y, (x :: xs).head? = some y → p y = false := by
  intro y hy
  cases hy
  exact h

/-- What is left after a run does not go on with it. -/
theorem head?_dropWhile {α : Type} {p : α → Bool} {xs : List α} {x : α}
    (h : (xs.dropWhile p).head? = some x) : p x = false := by
  have hstop := List.head?_dropWhile_not p xs
  rw [h] at hstop
  exact hstop

/-! ## Lines -/

/-- A text of which every line has a line end. -/
def Terminated (cs : List Char) : Prop :=
  cs = [] ∨ cs.getLast? = some '\n'

/-- What can follow a line: nothing, or its line end and other lines. -/
def AtLineEnd (rest : List Char) : Prop :=
  rest = [] ∨ ∃ more, rest = '\n' :: more

theorem atLineEnd_nil : AtLineEnd [] :=
  .inl rfl

theorem atLineEnd_cons (more : List Char) : AtLineEnd ('\n' :: more) :=
  .inr ⟨more, rfl⟩

theorem AtLineEnd.head? {rest : List Char} (h : AtLineEnd rest) {c : Char}
    (hc : rest.head? = some c) : c = '\n' := by
  rcases h with rfl | ⟨more, rfl⟩
  · simp at hc
  · exact (Option.some.inj hc).symm

theorem atLineEnd_dropWhile (cs : List Char) : AtLineEnd (cs.dropWhile (· ≠ '\n')) := by
  cases hrest : cs.dropWhile (· ≠ '\n') with
  | nil => exact atLineEnd_nil
  | cons c more =>
      have hc := head?_dropWhile (p := (· ≠ '\n')) (congrArg List.head? hrest)
      rw [decide_eq_false_iff_not, not_not] at hc
      exact .inr ⟨more, by rw [hc]⟩

theorem ne_newline_of_mem {line : List Char} (h : '\n' ∉ line) :
    ∀ c ∈ line, decide (c ≠ '\n') = true := by
  intro c hc
  exact decide_eq_true fun heq => h (heq ▸ hc)

theorem takeWhile_line {line rest : List Char} (h : '\n' ∉ line) (hrest : AtLineEnd rest) :
    (line ++ rest).takeWhile (· ≠ '\n') = line :=
  takeWhile_run (ne_newline_of_mem h) fun c hc => by simp [hrest.head? hc]

theorem dropWhile_line {line rest : List Char} (h : '\n' ∉ line) (hrest : AtLineEnd rest) :
    (line ++ rest).dropWhile (· ≠ '\n') = rest :=
  dropWhile_run (ne_newline_of_mem h) fun c hc => by simp [hrest.head? hc]

/-- Every text is a single line, or a line and the text after its line end. -/
theorem lines_induction {motive : List Char → Prop}
    (last : ∀ line, '\n' ∉ line → motive line)
    (line : ∀ line rest, '\n' ∉ line → motive rest → motive (line ++ '\n' :: rest))
    (cs : List Char) : motive cs := by
  induction hn : cs.length using Nat.strong_induction_on generalizing cs with
  | h n ih =>
      by_cases hmem : '\n' ∈ cs
      · obtain ⟨first, rest, rfl, hfirst⟩ := List.eq_append_cons_of_mem hmem
        refine line first rest hfirst (ih rest.length ?_ rest rfl)
        simp only [List.length_append, List.length_cons] at hn
        omega
      · exact last cs hmem

theorem splitAt_of_not_mem {separator : Char} {cs : List Char} (h : separator ∉ cs) :
    splitAt separator cs = [cs] := by
  induction cs with
  | nil => rfl
  | cons c cs ih =>
      simp only [List.mem_cons, not_or] at h
      rw [splitAt, if_neg (Ne.symm h.1), ih h.2]

theorem splitAt_append_cons {separator : Char} {piece : List Char} (rest : List Char)
    (h : separator ∉ piece) :
    splitAt separator (piece ++ separator :: rest) = piece :: splitAt separator rest := by
  induction piece with
  | nil => simp [splitAt]
  | cons c piece ih =>
      simp only [List.mem_cons, not_or] at h
      rw [List.cons_append, splitAt, if_neg (Ne.symm h.1), ih h.2]

theorem Terminated.of_append {front rest : List Char} (h : Terminated (front ++ rest)) :
    Terminated rest := by
  cases rest with
  | nil => exact .inl rfl
  | cons c rest =>
      rcases h with h | h
      · simp at h
      · have hlast := List.getLast?_eq_some_getLast (List.cons_ne_nil c rest)
        rw [List.getLast?_append, hlast, Option.some_or] at h
        exact .inr (hlast.trans h)

theorem Terminated.of_append_cons {line rest : List Char}
    (h : Terminated (line ++ '\n' :: rest)) : Terminated rest := by
  rw [← List.singleton_append, ← List.append_assoc] at h
  exact h.of_append

theorem Terminated.append {front rest : List Char} (hfront : Terminated front)
    (hrest : Terminated rest) : Terminated (front ++ rest) := by
  rcases hrest with rfl | hrest
  · rwa [List.append_nil]
  · exact .inr (by rw [List.getLast?_append, hrest, Option.some_or])

theorem Terminated.append_cons {rest : List Char} (h : Terminated rest) (line : List Char) :
    Terminated (line ++ '\n' :: rest) := by
  right
  rcases h with rfl | h
  · simp
  · simp [List.getLast?_cons, h]

theorem Terminated.eq_nil_of_not_mem {line : List Char} (h : Terminated line)
    (hline : '\n' ∉ line) : line = [] := by
  rcases h with h | h
  · exact h
  · exact absurd (List.mem_of_getLast? h) hline

/-! ## Digits -/

theorem digitChar_ne_newline (n : Nat) : Nat.digitChar n ≠ '\n' := by
  by_cases hn : n < 16
  · have hdigits : ∀ k < 16, Nat.digitChar k ≠ '\n' := by decide
    exact hdigits n hn
  · have hother : Nat.digitChar n = '*' := by
      simp [Nat.digitChar, show ∀ k < 16, n ≠ k by omega]
    rw [hother]
    decide

theorem newline_not_mem_toDigits {b : Nat} (hb : 1 < b) (n : Nat) : '\n' ∉ Nat.toDigits b n := by
  induction n using Nat.strongRecOn with
  | _ n ih =>
      by_cases hn : n < b
      · rw [Nat.toDigits_of_lt_base hn, List.mem_singleton]
        exact (digitChar_ne_newline n).symm
      · have hle : b ≤ n := Nat.le_of_not_lt hn
        rw [Nat.toDigits_of_base_le hb hle, List.mem_append, List.mem_singleton, not_or]
        exact ⟨ih _ (Nat.div_lt_self (by omega) hb), (digitChar_ne_newline _).symm⟩

/-! ## Texts behind a separator -/

/-- What follows a separator in a text satisfies `P`, wherever the separator stands. -/
def Behind (separator : Char) (P : List Char → Prop) (cs : List Char) : Prop :=
  ∀ rest, separator :: rest <:+ cs → P rest

section Behind

variable {separator : Char} {P : List Char → Prop} {cs rest : List Char}

theorem behind_of_not_mem (h : separator ∉ cs) : Behind separator P cs :=
  fun _ hrest => absurd (hrest.subset List.mem_cons_self) h

theorem behind_cons_iff {c : Char} :
    Behind separator P (c :: cs) ↔ (c = separator → P cs) ∧ Behind separator P cs := by
  refine ⟨fun h => ⟨?_, fun rest hrest => h rest (hrest.trans (List.suffix_cons c cs))⟩, ?_⟩
  · rintro rfl
    exact h cs (List.suffix_refl _)
  · rintro ⟨hfirst, hlater⟩ rest hrest
    rcases List.suffix_cons_iff.mp hrest with heq | hsuffix
    · cases heq
      exact hfirst rfl
    · exact hlater rest hsuffix

theorem Behind.suffix (h : Behind separator P cs) (hrest : rest <:+ cs) : Behind separator P rest :=
  fun more hmore => h more (hmore.trans hrest)

/-- A part of a text inherits what holds behind its separators, if the front of a text inherits it. -/
theorem Behind.part (h : Behind separator P cs) (hfront : ∀ xs ys, P (xs ++ ys) → P xs)
    {part : List Char} (hpart : part <:+: cs) : Behind separator P part := by
  obtain ⟨before, after, rfl⟩ := hpart
  rintro rest ⟨front, rfl⟩
  exact hfront rest after (h _ ⟨before ++ front, by simp⟩)

theorem Behind.append (h : Behind separator P cs) (hrest : Behind separator P rest)
    (happend : ∀ tail, separator :: tail <:+ cs → P tail → P (tail ++ rest)) :
    Behind separator P (cs ++ rest) := by
  induction cs with
  | nil => exact hrest
  | cons c cs ih =>
      have hcons := behind_cons_iff.mp h
      refine behind_cons_iff.mpr ⟨?_, ih hcons.2 fun tail htail => ?_⟩
      · rintro rfl
        exact happend cs (List.suffix_refl _) (hcons.1 rfl)
      · exact happend tail (htail.trans (List.suffix_cons c cs))

theorem behind_append_of_not_mem (h : separator ∉ cs) (hrest : Behind separator P rest) :
    Behind separator P (cs ++ rest) :=
  (behind_of_not_mem h).append hrest fun _ htail => absurd (htail.subset List.mem_cons_self) h

end Behind

/-! ## Visible characters -/

/-- The characters of a text that are no white space. -/
def visible (cs : List Char) : List Char :=
  cs.filter (!isBlank ·)

@[simp] theorem visible_nil : visible [] = [] :=
  rfl

@[simp] theorem visible_append (xs ys : List Char) : visible (xs ++ ys) = visible xs ++ visible ys :=
  List.filter_append ..

theorem visible_cons_of_blank {c : Char} (h : isBlank c) (cs : List Char) :
    visible (c :: cs) = visible cs := by
  simp [visible, h]

theorem visible_cons_of_not_blank {c : Char} (h : isBlank c = false) (cs : List Char) :
    visible (c :: cs) = c :: visible cs := by
  simp [visible, h]

theorem visible_eq_nil_iff {cs : List Char} : visible cs = [] ↔ ∀ c ∈ cs, isBlank c := by
  simp [visible]

/-- A text that is not blank is white space followed by its first visible character. -/
theorem exists_visible {cs : List Char} (h : visible cs ≠ []) :
    ∃ blanks c tail, cs = blanks ++ c :: tail ∧ (∀ x ∈ blanks, isBlank x) ∧ isBlank c = false := by
  cases hstart : cs.dropWhile isBlank with
  | nil => exact absurd (visible_eq_nil_iff.mpr (List.dropWhile_eq_nil_iff.mp hstart)) h
  | cons c tail =>
      refine ⟨cs.takeWhile isBlank, c, tail, ?_, fun x hx => List.mem_takeWhile_imp hx, ?_⟩
      · rw [← hstart, List.takeWhile_append_dropWhile]
      · exact head?_dropWhile (by rw [hstart]; rfl)

/-- A visible text that ends in a line end is white space, a visible line and the text after it. -/
theorem Terminated.exists_line {cs : List Char} (h : Terminated cs) (hvisible : visible cs ≠ []) :
    ∃ blanks line rest, cs = blanks ++ (line ++ '\n' :: rest) ∧ (∀ c ∈ blanks, isBlank c) ∧
      '\n' ∉ line ∧ ∃ c, line.head? = some c ∧ isBlank c = false := by
  obtain ⟨blanks, c, tail, rfl, hblanks, hc⟩ := exists_visible hvisible
  have hnewline : c ≠ '\n' := by
    rintro rfl
    cases hc
  have hmem : '\n' ∈ tail := by
    rcases h with h | h
    · simp at h
    · rw [List.getLast?_append, List.getLast?_cons] at h
      cases htail : tail.getLast? with
      | none => simp [htail, hnewline] at h
      | some d =>
          simp only [htail, Option.getD_some, Option.some_or, Option.some.injEq] at h
          exact h ▸ List.mem_of_getLast? htail
  obtain ⟨line, rest, rfl, hline⟩ := List.eq_append_cons_of_mem hmem
  refine ⟨blanks, c :: line, rest, rfl, hblanks, ?_, c, rfl, hc⟩
  simp [hline, Ne.symm hnewline]

theorem visible_ne_nil_of_head? {cs : List Char} (h : ∃ c, cs.head? = some c ∧ isBlank c = false) :
    visible cs ≠ [] := by
  obtain ⟨c, hhead, hc⟩ := h
  intro hblank
  rw [visible_eq_nil_iff.mp hblank c (List.mem_of_head? hhead)] at hc
  cases hc

@[simp] theorem visible_dropWhile (cs : List Char) : visible (cs.dropWhile isBlank) = visible cs := by
  have hblank : visible (cs.takeWhile isBlank) = [] :=
    visible_eq_nil_iff.mpr fun c hc => List.mem_takeWhile_imp hc
  calc
    visible (cs.dropWhile isBlank) =
        visible (cs.takeWhile isBlank) ++ visible (cs.dropWhile isBlank) := by
      rw [hblank, List.nil_append]
    _ = visible cs := by rw [← visible_append, List.takeWhile_append_dropWhile]

theorem visible_reverse (cs : List Char) : visible cs.reverse = (visible cs).reverse :=
  List.filter_reverse ..

@[simp] theorem visible_trim (cs : List Char) : visible (trim cs) = visible cs := by
  rw [trim, dropAround, dropEndWhile, visible_reverse, visible_dropWhile, visible_reverse,
    List.reverse_reverse, visible_dropWhile]

/-- A text that is not blank ends in its last visible character and white space. -/
theorem exists_last_visible {cs : List Char} (h : visible cs ≠ []) :
    ∃ front c blanks, cs = front ++ c :: blanks ∧ (∀ x ∈ blanks, isBlank x) ∧ isBlank c = false := by
  have hreverse : visible cs.reverse ≠ [] := by rwa [visible_reverse, ne_eq, List.reverse_eq_nil_iff]
  obtain ⟨blanks, c, tail, hsplit, hblanks, hc⟩ := exists_visible hreverse
  refine ⟨tail.reverse, c, blanks.reverse, ?_, fun x hx => hblanks x (List.mem_reverse.mp hx), hc⟩
  rw [← List.reverse_reverse cs, hsplit]
  simp

/-! ## Letters and digits -/

theorem isBlank_eq_false_of_printable {c : Char} (hlow : 0x21 ≤ c.toNat) (hhigh : c.toNat ≤ 0x7E) :
    isBlank c = false := by
  simp only [isBlank, Bool.or_eq_false_iff, Bool.and_eq_false_imp, decide_eq_true_eq,
    decide_eq_false_iff_not, beq_eq_false_iff_ne]
  omega

theorem isBlank_eq_false_of_isDigit {c : Char} (h : c.isDigit) : isBlank c = false := by
  simp only [Char.isDigit, ge_iff_le, Bool.and_eq_true, decide_eq_true_eq,
    UInt32.le_iff_toNat_le] at h
  have hlow : 48 ≤ c.toNat := h.1
  have hhigh : c.toNat ≤ 57 := h.2
  exact isBlank_eq_false_of_printable (by omega) (by omega)

theorem bounds_of_isAlpha {c : Char} (h : c.isAlpha) :
    (65 ≤ c.toNat ∧ c.toNat ≤ 90) ∨ (97 ≤ c.toNat ∧ c.toNat ≤ 122) := by
  unfold Char.isAlpha Char.isUpper Char.isLower at h
  simpa [UInt32.le_iff_toNat_le] using h

/-- The capital of a letter is a capital. -/
theorem isUpper_toUpper {c : Char} (h : c.isAlpha) : c.toUpper.isUpper := by
  have hall : ∀ n < 123, (Char.ofNat n).isAlpha → (Char.ofNat n).toUpper.isUpper := by decide
  have hbounds := bounds_of_isAlpha h
  rw [← Char.ofNat_toNat c] at h ⊢
  exact hall c.toNat (by omega) h

theorem isBlank_eq_false_of_isAlpha {c : Char} (h : c.isAlpha) : isBlank c = false := by
  rcases bounds_of_isAlpha h with hupper | hlower
  · exact isBlank_eq_false_of_printable (by omega) (by omega)
  · exact isBlank_eq_false_of_printable (by omega) (by omega)

theorem isAlpha_eq_false_of_isBlank {c : Char} (h : isBlank c) : c.isAlpha = false := by
  cases hc : c.isAlpha with
  | false => rfl
  | true => rw [isBlank_eq_false_of_isAlpha hc] at h; cases h

theorem visible_eq_self_of_isAlpha {word : List Char} (h : ∀ c ∈ word, c.isAlpha) :
    visible word = word := by
  rw [visible, List.filter_eq_self]
  intro c hc
  rw [isBlank_eq_false_of_isAlpha (h c hc)]
  rfl

/-! ## Trimmed texts -/

/-- A text with no white space at its two ends. -/
def Trimmed (cs : List Char) : Prop :=
  (∀ c ∈ cs.head?, isBlank c = false) ∧ ∀ c ∈ cs.getLast?, isBlank c = false

theorem trim_of_trimmed {cs : List Char} (h : Trimmed cs) : trim cs = cs := by
  have hend : cs.reverse.dropWhile isBlank = cs.reverse :=
    dropWhile_eq_self fun c hc => h.2 c (List.head?_reverse ▸ hc)
  rw [trim, dropAround, dropWhile_eq_self h.1, dropEndWhile, hend, List.reverse_reverse]

theorem trim_blank_append {blanks : List Char} (h : ∀ c ∈ blanks, isBlank c) (cs : List Char) :
    trim (blanks ++ cs) = trim cs := by
  rw [trim, dropAround, List.dropWhile_append_of_pos h]
  rfl

theorem trim_append_blank {blanks : List Char} (h : ∀ c ∈ blanks, isBlank c) (cs : List Char) :
    trim (cs ++ blanks) = trim cs := by
  have hend : ∀ c ∈ blanks.reverse, isBlank c := fun c hc => h c (List.mem_reverse.mp hc)
  rw [trim, trim, dropAround, dropAround, List.dropWhile_append]
  split
  · next hempty =>
      rw [List.isEmpty_iff] at hempty
      rw [hempty, List.dropWhile_eq_nil_iff.mpr h]
  · rw [dropEndWhile, dropEndWhile, List.reverse_append, List.dropWhile_append_of_pos hend]

theorem dropEndWhile_append {p : Char → Bool} {xs ys : List Char} (hys : ∀ c ∈ ys, p c)
    (hxs : ∀ c ∈ xs.getLast?, p c = false) : dropEndWhile p (xs ++ ys) = xs := by
  have hinside : ∀ c ∈ ys.reverse, p c := fun c hc => hys c (List.mem_reverse.mp hc)
  have hstops : ∀ c, xs.reverse.head? = some c → p c = false := by
    intro c hc
    rw [List.head?_reverse] at hc
    exact hxs c hc
  rw [dropEndWhile, List.reverse_append, dropWhile_run hinside hstops, List.reverse_reverse]

/-- A text that starts visibly is its trimmed text and white space. -/
theorem exists_trim_append {cs : List Char} (h : ∀ c ∈ cs.head?, isBlank c = false) :
    ∃ blanks, cs = trim cs ++ blanks ∧ ∀ c ∈ blanks, isBlank c := by
  refine ⟨(cs.reverse.takeWhile isBlank).reverse, ?_, fun c hc => ?_⟩
  · rw [trim, dropAround, dropWhile_eq_self h, dropEndWhile, ← List.reverse_append,
      List.takeWhile_append_dropWhile, List.reverse_reverse]
  · exact List.mem_takeWhile_imp (List.mem_reverse.mp hc)

theorem head?_trim {cs : List Char} (h : ∀ c ∈ cs.head?, isBlank c = false) :
    (trim cs).head? = cs.head? := by
  obtain ⟨blanks, hsplit, hblanks⟩ := exists_trim_append h
  cases htrim : trim cs with
  | cons c rest =>
      rw [hsplit, htrim]
      rfl
  | nil =>
      rw [htrim, List.nil_append] at hsplit
      cases hhead : cs.head? with
      | none => rfl
      | some c =>
          have hblank := hblanks c (List.mem_of_head? (hsplit ▸ hhead))
          cases (h c hhead).symm.trans hblank

theorem trimmed_trim (cs : List Char) : Trimmed (trim cs) := by
  have hstart : ∀ c ∈ (cs.dropWhile isBlank).head?, isBlank c = false := fun c hc => head?_dropWhile hc
  obtain ⟨blanks, hsplit, -⟩ := exists_trim_append hstart
  have hdrop : trim (cs.dropWhile isBlank) = trim cs := by
    rw [trim, trim, dropAround, dropAround, dropWhile_eq_self hstart]
  rw [hdrop] at hsplit
  refine ⟨fun c hc => hstart c ?_, fun c hc => ?_⟩
  · rw [hsplit, List.head?_append, hc]
    rfl
  · rw [trim, dropAround, dropEndWhile, List.getLast?_reverse] at hc
    exact head?_dropWhile hc

end ImageTrust.Text
