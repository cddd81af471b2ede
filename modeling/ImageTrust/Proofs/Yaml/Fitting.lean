import ImageTrust.CommandLine.Run
import ImageTrust.Proofs.Text.Lower
import ImageTrust.Proofs.Text.Pieces
import ImageTrust.Proofs.Yaml.Construction
import ImageTrust.Proofs.Yaml.StandIn
import Mathlib.Data.List.TakeWhile

/-! # Nodes that do not fit their tags

The faults of a place of a document that are not reported as errors. Nearly all of them take a tag that is
written: a text tagged as something that it does not look like, or a mapping tagged as a text.
-/

namespace ImageTrust.Yaml

open CommandLine (isReported)

/-! ## The look of a text -/

namespace Tag

theorem unsigned_suffix (cs : List Char) : unsigned cs <:+ cs := by
  unfold unsigned
  split
  · exact List.suffix_cons _ _
  · exact List.suffix_cons _ _
  · exact List.suffix_refl _

theorem mem_unsigned {cs : List Char} {c : Char} (h : c ∈ cs) (hc : c ≠ '+' ∧ c ≠ '-') :
    c ∈ unsigned cs := by
  unfold unsigned
  split
  · exact (List.mem_cons.mp h).resolve_left hc.1
  · exact (List.mem_cons.mp h).resolve_left hc.2
  · exact h

theorem exists_isDigit_of_startsWithDigit {lead : Char → Bool} {cs : List Char}
    (h : startsWithDigit lead cs) : ∃ c ∈ cs, c.isDigit := by
  cases cs with
  | nil => cases h
  | cons c rest =>
      simp only [startsWithDigit, Bool.and_eq_true] at h
      exact ⟨c, List.mem_cons_self, h.1.1⟩

theorem exists_isDigit_of_looksInt {cs : List Char} (h : looksInt cs) : ∃ c ∈ cs, c.isDigit := by
  have hunsigned : ∃ c ∈ unsigned cs, c.isDigit := by
    unfold looksInt at h
    split at h
    · next heq => exact ⟨'0', by simp [heq], rfl⟩
    · next heq => exact ⟨'0', by simp [heq], rfl⟩
    · next heq => exact ⟨'0', by simp [heq], rfl⟩
    · next heq => exact ⟨'0', by simp [heq], rfl⟩
    · rw [Bool.or_eq_true] at h
      rcases h with h | h
      · exact exists_isDigit_of_startsWithDigit h
      · unfold looksSexagesimal at h
        split at h
        · cases h
        · cases h
        · next piece pieces _ hpieces =>
            rw [Bool.and_eq_true] at h
            obtain ⟨c, hc, hdigit⟩ := exists_isDigit_of_startsWithDigit h.1
            exact ⟨c, Text.mem_of_mem_splitAt (by rw [hpieces]; exact List.mem_cons_self) hc, hdigit⟩
  obtain ⟨c, hc, hdigit⟩ := hunsigned
  exact ⟨c, (unsigned_suffix cs).subset hc, hdigit⟩

theorem mem_of_looksDecimal {cs : List Char} (h : looksDecimal cs) : '.' ∈ cs := by
  unfold looksDecimal at h
  dsimp only at h
  by_contra hmem
  have hnil : cs.dropWhile (· ≠ '.') = [] := by
    rw [List.dropWhile_eq_nil_iff]
    intro c hc
    exact decide_eq_true fun hpoint => hmem (hpoint ▸ hc)
  rw [hnil] at h
  cases h

theorem mem_of_looksFloat {cs : List Char} (h : looksFloat cs) : '.' ∈ cs := by
  unfold looksFloat at h
  simp only [Bool.or_eq_true, Bool.and_eq_true] at h
  rcases h with ((h | h) | h) | h
  · exact (unsigned_suffix cs).subset (mem_of_looksDecimal h)
  · split at h
    · exact List.mem_cons_self
    · cases h
  · exact (unsigned_suffix cs).subset (List.mem_of_mem_head? (by simpa using h.2))
  · rw [List.contains_iff_mem] at h
    have hwords : ∀ word ∈ [".nan", ".NaN", ".NAN"], '.' ∈ word.toList := by decide
    simpa using hwords _ h

/-- What the kind that a plain scalar looks like is told from. -/
def Looks (tag : Tag) (cs : List Char) : Prop :=
  match tag with
  | bool => looksBool cs
  | int => looksInt cs
  | float => looksFloat cs
  | timestamp => looksTimestamp cs
  | _ => True

theorem looks_ofPlain (text : String) : Looks (ofPlain text) (dropFinalBreak text.toList) := by
  unfold ofPlain
  dsimp only
  split
  · split <;> trivial
  · split
    · next h => exact h
    · split
      · next h => exact h
      · split
        · next h => exact h
        · split
          · trivial
          · split
            · trivial
            · split
              · next h => exact h
              · split
                · trivial
                · split <;> trivial

theorem mem_of_mem_dropFinalBreak {cs : List Char} {c : Char} (h : c ∈ dropFinalBreak cs) : c ∈ cs := by
  unfold dropFinalBreak at h
  split at h
  · exact (List.dropLast_sublist cs).subset h
  · exact h

theorem unsigned_filter_ne_nil {cs : List Char} (h : looksInt (dropFinalBreak cs)) :
    unsigned (cs.filter (· ≠ '_')) ≠ [] := by
  obtain ⟨c, hc, hdigit⟩ := exists_isDigit_of_looksInt h
  have hne : c ≠ '_' ∧ c ≠ '+' ∧ c ≠ '-' := by
    refine ⟨?_, ?_, ?_⟩ <;> rintro rfl <;> cases hdigit
  have hkept : c ∈ cs.filter (· ≠ '_') :=
    List.mem_filter.mpr ⟨mem_of_mem_dropFinalBreak hc, decide_eq_true hne.1⟩
  exact List.ne_nil_of_mem (mem_unsigned hkept hne.2)

theorem count_unsigned (cs : List Char) : (unsigned cs).count ':' = cs.count ':' := by
  unfold unsigned
  split <;> simp

/-- A text that looks like a truth value and is none has a line feed at its end. -/
theorem getLast?_of_ofPlain {text : String} (hword : ¬ isBoolWord text) (htag : ofPlain text = .bool) :
    text.toList.getLast? = some '\n' := by
  by_contra hlast
  -- the look goes by spellings of these words, the value by the words in lower case
  have hwords : ∀ word ∈ boolWords.flatMap spellings, isBoolWord word := by decide +kernel
  have hlooks := looks_ofPlain text
  rw [htag, dropFinalBreak, if_neg hlast] at hlooks
  refine hword (hwords text ?_)
  simpa [Looks, looksBool] using hlooks

end Tag

/-! ## Texts -/

/-- How a text does not fit its tag, in a way that is not reported. -/
inductive Scalar.Unfit : Scalar → Fault → Prop
  /-- No truth value. One that a line feed follows only looks like one. -/
  | bool {text : String} (hword : ¬ isBoolWord text)
      (htag : Tag.ofPlain text = .bool → text.toList.getLast? = some '\n') :
      Unfit ⟨.bool, text⟩ (.notBool text)
  /-- Nothing but a sign and low lines. -/
  | int {text : String} (hempty : Tag.unsigned (text.toList.filter (· ≠ '_')) = [])
      (htag : Tag.ofPlain text ≠ .int) : Unfit ⟨.int, text⟩ .emptyNumber
  /-- Nothing but low lines. -/
  | float {text : String} (hempty : text.toList.filter (· ≠ '_') = [])
      (htag : Tag.ofPlain text ≠ .float) : Unfit ⟨.float, text⟩ .emptyNumber
  /-- Too many places, whether the tag is written or not. -/
  | places {text : String} (hplaces : mostPlaces ≤ text.toList.count ':') :
      Unfit ⟨.float, text⟩ .floatRange
  | timestamp {text : String} (hform : Timestamp.read? (Tag.dropFinalBreak text.toList) = none)
      (htag : Tag.ofPlain text ≠ .timestamp) : Unfit ⟨.timestamp, text⟩ .notTimestamp

theorem Scalar.Unfit.isReported {s : Scalar} {fault : Fault} (h : s.Unfit fault) :
    isReported fault = false := by
  cases h <;> rfl

theorem ends_forM {α : Type} {F : Fault → Prop} {xs : List α} {check : α → Except Fault Unit}
    (h : ∀ a ∈ xs, Ends (fun _ => True) F (check a)) : Ends (fun _ => True) F (xs.forM check) := by
  induction xs with
  | nil => trivial
  | cons a xs ih =>
      exact Ends.bind (h a List.mem_cons_self) fun _ _ => ih fun b hb => h b (List.mem_cons_of_mem _ hb)

/-- A check that finds reported faults only, apart from those that a text does not fit its tag by. -/
abbrev Fits (s : Scalar) {α : Type} (x : Except Fault α) : Prop :=
  Ends (fun _ => True) (fun fault => isReported fault ∨ s.Unfit fault) x

theorem fits_checkInteger (text : String) : Fits ⟨.int, text⟩ (checkInteger text) := by
  have hdigits : ∀ base cs, Fits ⟨.int, text⟩ (checkIntegerIn base cs) := by
    intro base cs
    unfold checkIntegerIn
    exact Ends.ite (.inl rfl) (Ends.ite trivial (.inl rfl))
  have hunfit : Tag.unsigned (text.toList.filter (· ≠ '_')) = [] →
      Fits ⟨.int, text⟩ (.error .emptyNumber : Except Fault Unit) := by
    refine fun hempty => .inr (.int hempty fun htag => ?_)
    have hlooks := Tag.looks_ofPlain text
    rw [htag] at hlooks
    exact Tag.unsigned_filter_ne_nil hlooks hempty
  unfold checkInteger
  dsimp only
  split
  · next hempty =>
      rw [List.isEmpty_iff] at hempty
      exact hunfit (by rw [hempty]; rfl)
  · split
    · next hunsigned => exact hunfit hunsigned
    · trivial
    · exact hdigits 2 _
    · exact hdigits 16 _
    · exact hdigits 8 _
    · exact Ends.ite (ends_forM fun cs _ => hdigits 10 cs) (hdigits 10 _)

theorem fits_checkFloat (text : String) : Fits ⟨.float, text⟩ (checkFloat text) := by
  have hnumber : ∀ cs, Fits ⟨.float, text⟩ (checkFloatText cs) := by
    intro cs
    unfold checkFloatText
    exact Ends.ite trivial (.inl rfl)
  unfold checkFloat
  dsimp only
  split
  · next hempty =>
      rw [List.isEmpty_iff] at hempty
      rw [Text.lower_eq_nil_iff] at hempty
      refine .inr (.float hempty fun htag => ?_)
      have hlooks := Tag.looks_ofPlain text
      rw [htag] at hlooks
      have hpoint := Tag.mem_of_mem_dropFinalBreak (Tag.mem_of_looksFloat hlooks)
      exact List.filter_eq_nil_iff.mp hempty '.' hpoint (by decide)
  · refine Ends.ite trivial (Ends.ite ?_ (hnumber _))
    refine Ends.bind (ends_forM fun cs _ => hnumber cs) fun _ _ => ?_
    split
    · next hplaces =>
        rw [Text.length_splitAt, Tag.count_unsigned, Text.count_lower, List.count_filter (by decide)]
          at hplaces
        exact .inr (.places (Nat.lt_succ_iff.mp hplaces))
    · trivial

theorem fits_checkTimestamp (text : String) : Fits ⟨.timestamp, text⟩ (checkTimestamp text) := by
  unfold checkTimestamp
  split
  · next hnone =>
      refine .inr (.timestamp hnone fun htag => ?_)
      have hlooks := Tag.looks_ofPlain text
      rw [htag] at hlooks
      simp [Tag.Looks, Tag.looksTimestamp, hnone] at hlooks
  · next t _ =>
      cases t.check with
      | ok _ => trivial
      | error fault => exact .inl rfl

theorem fits_read (s : Scalar) : Fits s s.read := by
  obtain ⟨tag, text⟩ := s
  unfold Scalar.read
  cases tag with
  | null => trivial
  | str => trivial
  | bool =>
      dsimp only
      split
      · trivial
      · next hword => exact .inr (.bool hword (Tag.getLast?_of_ofPlain hword))
  | int => exact Ends.map ((fits_checkInteger text).mono (fun _ _ => trivial) fun _ h => h)
  | float => exact Ends.map ((fits_checkFloat text).mono (fun _ _ => trivial) fun _ h => h)
  | timestamp => exact Ends.map ((fits_checkTimestamp text).mono (fun _ _ => trivial) fun _ h => h)
  | binary =>
      unfold readBinary
      refine Ends.map (Ends.ite ?_ (.inl rfl))
      split
      · trivial
      · exact .inl rfl
  | _ => exact .inl rfl

/-! ## Places -/

namespace Document

/-- How a place does not fit its tag, in a way that is not reported. -/
inductive Unfit (d : Document) : Item → Fault → Prop
  | leaf {s : Scalar} {fault : Fault} (h : s.Unfit fault) : Unfit d (.leaf s) fault
  /-- The text that stands for a mapping does not fit. -/
  | text {id steps : Nat} {place : Item} {text : String} {fault : Fault}
      (hchain : d.chain steps (.node id) = some place) (htext : place.text? = some text)
      (h : Scalar.Unfit ⟨d.tagOf (.node id), text⟩ fault) : Unfit d (.node id) fault
  /-- A mapping is tagged as a point in time. -/
  | timestamp {id : Nat} (htag : d.tagOf (.node id) = .timestamp) : Unfit d (.node id) .timestampOfMapping
  /-- Mappings stand for a mapping without end. -/
  | endless {id : Nat} (h : ∀ steps, (d.chain steps (.node id)).isSome) :
      Unfit d (.node id) .endlessText

variable {d : Document}

theorem Unfit.isReported {item : Item} {fault : Fault} (h : d.Unfit item fault) :
    isReported fault = false := by
  cases h with
  | leaf h => exact h.isReported
  | text _ _ h => exact h.isReported
  | timestamp _ => rfl
  | endless _ => rfl

theorem ends_textOf (depth : Nat) (item : Item) :
    Ends (fun _ => True) (fun fault => fault = .malformed ∨ fault = .endlessText) (d.textOf depth item) := by
  induction depth generalizing item with
  | zero => exact .inr rfl
  | succ depth ih =>
      unfold textOf
      split
      · trivial
      · trivial
      · split
        · split
          · exact ih _
          · exact .inl rfl
        · exact .inl rfl

/-- A place of a document fits its tag, unless the fault is reported. -/
theorem ends_readScalar (d : Document) (item : Item) :
    Ends (fun _ => True) (fun fault => isReported fault ∨ d.Unfit item fault) (d.readScalar item) := by
  cases item with
  | leaf s => exact (fits_read s).mono (fun _ _ => trivial) fun _ h => h.imp_right .leaf
  | equals number text =>
      -- the key is an ordinary text, or it may not stand for a value
      rw [readScalar, tagOf]
      split
      · trivial
      · exact .inl rfl
  | node id =>
      unfold readScalar
      dsimp only
      split
      · exact .inl rfl
      · have htext := d.ends_textOf (d.collections.length + 1) (.node id)
        split
        · next heq =>
            rw [heq] at htext
            rcases htext with rfl | rfl
            · exact .inl rfl
            · exact .inr (.endless (isSome_chain ((textOf_eq_endlessText_iff _ _).mp heq)))
        · next text heq =>
            split
            · next htag => exact .inr (.timestamp htag)
            · obtain ⟨steps, place, hchain, hplace⟩ := exists_chain_of_textOf_eq_ok heq
              exact (fits_read _).mono (fun _ _ => trivial) fun _ h => h.imp_right (.text hchain hplace)

end Document

end ImageTrust.Yaml
