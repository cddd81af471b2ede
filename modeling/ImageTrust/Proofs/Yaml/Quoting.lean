import ImageTrust.Yaml.Quoted
import Mathlib.Algebra.Group.Nat.Defs
import Mathlib.Data.List.TakeWhile

/-! # Texts in double quotes

Any text can be written in double quotes with printable characters of ASCII alone and without a dollar
sign: the other characters are escaped by their numbers. It is read back as it was.
-/

namespace ImageTrust.Yaml

/-! ## Writing -/

/-- A number in a given width of hexadecimal digits. -/
def hexText : Nat → Nat → List Char
  | 0, _ => []
  | width + 1, n => hexText width (n / 16) ++ [(Nat.digitChar (n % 16)).toUpper]

/-- A printable character of ASCII. -/
def isPrintableAscii (c : Char) : Bool :=
  0x20 ≤ c.toNat && c.toNat ≤ 0x7E

/-- A character that stands for itself in double quotes. -/
def isVerbatim (c : Char) : Bool :=
  isPrintableAscii c && c ≠ '"' && c ≠ '\\' && c ≠ '$'

def quoteChar (c : Char) : List Char :=
  if isVerbatim c then [c] else '\\' :: 'U' :: hexText 8 c.toNat

def quoteChars (cs : List Char) : List Char :=
  cs.flatMap quoteChar

/-- A text between double quotes. -/
def quoted (text : String) : List Char :=
  '"' :: quoteChars text.toList ++ ['"']

theorem quoteChars_cons (c : Char) (cs : List Char) :
    quoteChars (c :: cs) = quoteChar c ++ quoteChars cs :=
  List.flatMap_cons

theorem quoteChars_append (cs ds : List Char) :
    quoteChars (cs ++ ds) = quoteChars cs ++ quoteChars ds :=
  List.flatMap_append

theorem quoteChar_of_isVerbatim {c : Char} (h : isVerbatim c) : quoteChar c = [c] :=
  if_pos h

theorem isVerbatim_iff {c : Char} :
    isVerbatim c ↔ isPrintableAscii c ∧ c ≠ '"' ∧ c ≠ '\\' ∧ c ≠ '$' := by
  simp [isVerbatim, and_assoc]

/-! ## Hexadecimal digits -/

theorem hexDigit?_digitChar {d : Nat} (h : d < 16) :
    Text.hexDigit? (Nat.digitChar d).toUpper = some d := by
  have hall : ∀ d < 16, Text.hexDigit? (Nat.digitChar d).toUpper = some d := by decide
  exact hall d h

theorem length_hexText (width n : Nat) : (hexText width n).length = width := by
  induction width generalizing n with
  | zero => rfl
  | succ width ih => rw [hexText, List.length_append, ih, List.length_singleton]

theorem hexNumber?_append_singleton (digits : List Char) (c : Char) :
    Text.hexNumber? (digits ++ [c]) =
      (Text.hexNumber? digits).bind fun n => (Text.hexDigit? c).map (n * 16 + ·) := by
  rw [Text.hexNumber?, List.foldl_append, ← Text.hexNumber?, List.foldl_cons, List.foldl_nil]
  cases Text.hexNumber? digits <;> cases Text.hexDigit? c <;> rfl

theorem hexNumber?_hexText (width n : Nat) :
    Text.hexNumber? (hexText width n) = some (n % 16 ^ width) := by
  induction width generalizing n with
  | zero => rw [Nat.pow_zero, Nat.mod_one]; rfl
  | succ width ih =>
      rw [hexText, hexNumber?_append_singleton, ih, hexDigit?_digitChar (Nat.mod_lt _ (by decide)),
        Option.bind_some, Option.map_some, Nat.pow_succ', Nat.mod_mul, Nat.mul_comm, Nat.add_comm]

theorem mem_hexText {width n : Nat} {c : Char} (h : c ∈ hexText width n) :
    ∃ d < 16, c = (Nat.digitChar d).toUpper := by
  induction width generalizing n with
  | zero => cases h
  | succ width ih =>
      rcases List.mem_append.mp h with h | h
      · exact ih h
      · exact ⟨n % 16, Nat.mod_lt _ (by decide), List.mem_singleton.mp h⟩

/-! ## What is written -/

/-- What is written is printable, and neither a quote nor a dollar sign. -/
theorem of_mem_quoteChar {c d : Char} (h : d ∈ quoteChar c) :
    isPrintableAscii d ∧ d ≠ '"' ∧ d ≠ '$' := by
  unfold quoteChar at h
  split at h
  · next hc =>
      obtain rfl := List.mem_singleton.mp h
      rw [isVerbatim_iff] at hc
      exact ⟨hc.1, hc.2.1, hc.2.2.2⟩
  · have hdigits : ∀ d < 16, isPrintableAscii (Nat.digitChar d).toUpper ∧
        (Nat.digitChar d).toUpper ≠ '"' ∧ (Nat.digitChar d).toUpper ≠ '$' := by decide
    rcases List.mem_cons.mp h with rfl | h
    · decide
    · rcases List.mem_cons.mp h with rfl | h
      · decide
      · obtain ⟨digit, hlt, rfl⟩ := mem_hexText h
        exact hdigits digit hlt

theorem of_mem_quoted {text : String} {c : Char} (h : c ∈ quoted text) :
    isPrintableAscii c ∧ c ≠ '$' := by
  have hquote : isPrintableAscii '"' ∧ '"' ≠ '$' := by decide
  simp only [quoted, List.cons_append, List.mem_cons, List.mem_append, List.not_mem_nil, or_false,
    quoteChars, List.mem_flatMap] at h
  rcases h with rfl | ⟨d, -, h⟩ | rfl
  · exact hquote
  · exact ⟨(of_mem_quoteChar h).1, (of_mem_quoteChar h).2.2⟩
  · exact hquote

theorem isAllowed_of_isPrintableAscii {c : Char} (h : isPrintableAscii c) : isAllowed c := by
  simp only [isPrintableAscii, Bool.and_eq_true, decide_eq_true_eq] at h
  simp [isAllowed, h]

theorem isBreak_of_isPrintableAscii {c : Char} (h : isPrintableAscii c) : isBreak c = false := by
  simp only [isPrintableAscii, Bool.and_eq_true, decide_eq_true_eq] at h
  simp only [isBreak, Bool.or_eq_false_iff, decide_eq_false_iff_not]
  refine ⟨⟨⟨⟨?_, ?_⟩, ?_⟩, ?_⟩, ?_⟩ <;> rintro rfl <;> revert h <;> decide

theorem isGap_of_isPrintableAscii {c : Char} (h : isPrintableAscii c) (hc : c ≠ ' ') :
    isGap c = false := by
  have htab : c ≠ '\t' := by
    rintro rfl
    revert h
    decide
  simp [isGap, isSpaceOrBreak, isBreak_of_isPrintableAscii h, hc, htab]

/-! ## Reading -/

theorem toNat_mod_of_char (c : Char) : c.toNat % 16 ^ 8 = c.toNat := by
  refine Nat.mod_eq_of_lt ?_
  have hvalid : c.toNat < 0xD800 ∨ 0xDFFF < c.toNat ∧ c.toNat < 0x110000 := c.valid
  omega

theorem charOf_toNat (c : Char) : charOf c.toNat = .ok c := by
  unfold charOf
  rw [dif_pos (show c.toNat.isValidChar from c.valid)]
  rfl

theorem readEscape_hexText (c : Char) (rest : List Char) :
    readEscape ('U' :: (hexText 8 c.toNat ++ rest)) = .ok ([c], rest) := by
  have hnumber : hexNumber? 8 (hexText 8 c.toNat ++ rest) = some (c.toNat, rest) := by
    unfold hexNumber?
    rw [if_neg (by rw [List.length_append, length_hexText]; omega),
      List.take_left' (length_hexText 8 c.toNat), List.drop_left' (length_hexText 8 c.toNat),
      hexNumber?_hexText, toNat_mod_of_char]
    rfl
  have hescape : escape? 'U' = none := by decide
  have hdigits : escapeDigits? 'U' = some 8 := rfl
  unfold readEscape
  dsimp only
  rw [hescape, hdigits]
  dsimp only
  rw [hnumber]
  dsimp only
  rw [charOf_toNat]
  rfl

theorem lineBreak?_of_isBreak {c : Char} (hc : isBreak c = false) (rest : List Char) :
    lineBreak? (c :: rest) = none := by
  have hne : c ≠ '\r' ∧ c ≠ '\u2028' ∧ c ≠ '\u2029' := by
    refine ⟨?_, ?_, ?_⟩ <;> rintro rfl <;> revert hc <;> decide
  unfold lineBreak?
  split
  · next heq =>
      cases heq
      exact absurd rfl hne.1
  · next heq =>
      cases heq
      simp [hne.2.1, hne.2.2, hc]
  · next heq => cases heq

/-- Spaces in front of something printable are read as they are. -/
theorem quotedGap_spaces {spaces : List Char} (hspaces : ∀ c ∈ spaces, c = ' ') {d : Char}
    (hd : isPrintableAscii d) (hspace : d ≠ ' ') (rest : List Char) :
    quotedGap (spaces ++ d :: rest) = .ok (spaces, d :: rest) := by
  have hgap : ∀ c ∈ spaces, (decide (c = ' ') || decide (c = '\t')) = true := by
    intro c hc
    simp [hspaces c hc]
  have htab : d ≠ '\t' := by
    rintro rfl
    revert hd
    decide
  unfold quotedGap
  dsimp only
  rw [List.takeWhile_append_of_pos hgap, List.dropWhile_append_of_pos hgap]
  simp [hspace, htab, lineBreak?_of_isBreak (isBreak_of_isPrintableAscii hd)]

/-- What is written of a text that does not start with a space does not start with one either. -/
theorem exists_quoteChars_append_eq {cs : List Char} (h : cs.head? ≠ some ' ') (rest : List Char) :
    ∃ d ds, quoteChars cs ++ '"' :: rest = d :: ds ∧ isPrintableAscii d ∧ d ≠ ' ' := by
  cases cs with
  | nil => exact ⟨'"', rest, rfl, by decide, by decide⟩
  | cons c cs =>
      by_cases hc : isVerbatim c
      · refine ⟨c, quoteChars cs ++ '"' :: rest, ?_, (isVerbatim_iff.mp hc).1, by simpa using h⟩
        rw [quoteChars_cons, quoteChar_of_isVerbatim hc]
        rfl
      · refine ⟨'\\', 'U' :: (hexText 8 c.toNat ++ (quoteChars cs ++ '"' :: rest)), ?_, by decide,
          by decide⟩
        rw [quoteChars_cons, quoteChar, if_neg hc]
        simp

theorem quoteChars_spaces {spaces : List Char} (h : ∀ c ∈ spaces, c = ' ') :
    quoteChars spaces = spaces := by
  induction spaces with
  | nil => rfl
  | cons c spaces ih =>
      obtain rfl : c = ' ' := h c List.mem_cons_self
      rw [quoteChars_cons, ih fun d hd => h d (List.mem_cons_of_mem _ hd)]
      rfl

/-! One step of reading for each way that a text in quotes can go on. -/

theorem doubleQuoted_spaces {spaces : List Char} (hne : spaces ≠ []) (hspaces : ∀ c ∈ spaces, c = ' ')
    {d : Char} (hd : isPrintableAscii d) (hspace : d ≠ ' ') (bound : Nat) (rest : List Char) :
    doubleQuoted (bound + 1) (spaces ++ d :: rest) =
      (doubleQuoted bound (d :: rest)).map fun (text, rest) => (spaces ++ text, rest) := by
  have hgap := quotedGap_spaces hspaces hd hspace rest
  cases spaces with
  | nil => exact absurd rfl hne
  | cons c spaces =>
      obtain rfl : c = ' ' := hspaces c List.mem_cons_self
      rw [List.cons_append] at hgap ⊢
      rw [doubleQuoted, if_pos (by decide), hgap]
      · decide
      · decide

theorem doubleQuoted_verbatim {c : Char} (hc : isVerbatim c) (hspace : c ≠ ' ') (bound : Nat)
    (rest : List Char) : doubleQuoted (bound + 1) (c :: rest) =
      (doubleQuoted bound rest).map fun (text, rest) => (c :: text, rest) := by
  obtain ⟨hprintable, hquote, hbackslash, -⟩ := isVerbatim_iff.mp hc
  rw [doubleQuoted, if_neg (by rw [isGap_of_isPrintableAscii hprintable hspace]; decide)]
  · exact hquote
  · exact fun h => hbackslash h

theorem doubleQuoted_escape (c : Char) (bound : Nat) (rest : List Char) :
    doubleQuoted (bound + 1) ('\\' :: 'U' :: (hexText 8 c.toNat ++ rest)) =
      (doubleQuoted bound rest).map fun (text, rest) => (c :: text, rest) := by
  simp only [doubleQuoted]
  rw [readEscape_hexText]
  rfl

/-- A text in double quotes is read back, whatever follows it. -/
theorem doubleQuoted_quoteChars {bound : Nat} {cs : List Char} (h : cs.length < bound)
    (rest : List Char) : doubleQuoted bound (quoteChars cs ++ '"' :: rest) = .ok (cs, rest) := by
  induction bound generalizing cs with
  | zero => exact absurd h (Nat.not_lt_zero _)
  | succ bound ih =>
      cases cs with
      | nil => rfl
      | cons c cs =>
          have hlength : cs.length < bound := by simpa using h
          by_cases hspace : c = ' '
          · -- a run of spaces is one gap: what is left after it is shorter by at least one space
            subst hspace
            have hsplit := List.takeWhile_append_dropWhile (p := (· = ' ')) (l := ' ' :: cs)
            have hspaces : ∀ d ∈ (' ' :: cs).takeWhile (· = ' '), d = ' ' := by
              intro d hd
              simpa using List.mem_takeWhile_imp hd
            have hne : (' ' :: cs).takeWhile (· = ' ') ≠ [] := by simp
            have hleft : ((' ' :: cs).dropWhile (· = ' ')).length < bound := by
              refine lt_of_le_of_lt ?_ hlength
              rw [List.dropWhile_cons_of_pos (by simp)]
              exact (List.dropWhile_suffix _).length_le
            have hhead : ((' ' :: cs).dropWhile (· = ' ')).head? ≠ some ' ' := by
              intro heq
              have hnot := List.head?_dropWhile_not (fun c : Char => decide (c = ' ')) (' ' :: cs)
              rw [heq] at hnot
              simp at hnot
            obtain ⟨d, ds, hds, hd, hspace⟩ := exists_quoteChars_append_eq hhead rest
            rw [← hsplit, quoteChars_append, quoteChars_spaces hspaces, List.append_assoc, hds,
              doubleQuoted_spaces hne hspaces hd hspace, ← hds, ih hleft]
            rfl
          · by_cases hc : isVerbatim c
            · rw [quoteChars_cons, quoteChar_of_isVerbatim hc, List.singleton_append, List.cons_append,
                doubleQuoted_verbatim hc hspace, ih hlength]
              rfl
            · rw [quoteChars_cons, quoteChar, if_neg hc, List.append_assoc, List.cons_append,
                List.cons_append, doubleQuoted_escape, ih hlength]
              rfl

theorem length_le_length_quoteChars (cs : List Char) : cs.length ≤ (quoteChars cs).length := by
  induction cs with
  | nil => exact Nat.le_refl 0
  | cons c cs ih =>
      have hpos : 1 ≤ (quoteChar c).length := by
        unfold quoteChar
        split <;> simp
      rw [quoteChars_cons, List.length_append, List.length_cons]
      omega

end ImageTrust.Yaml
