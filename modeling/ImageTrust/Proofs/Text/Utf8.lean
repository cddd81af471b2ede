import ImageTrust.Text.Utf8
import Mathlib.Data.List.TakeWhile

/-! # The encoding of texts

The reading of bytes is the inverse of their encoding. The sequences of bytes that stand for one
character are listed by their lengths: each is read as one character, and is the encoding of it.
-/

namespace ImageTrust.Text

/-- The bytes of a text. -/
def encode (cs : List Char) : List UInt8 :=
  cs.flatMap String.utf8EncodeChar

/-! ## Sequences -/

/-- A byte that goes on with a character. -/
def Continues (b : UInt8) : Prop :=
  0x80 ≤ b.toNat ∧ b.toNat ≤ 0xBF

/-- Sequences of bytes and the code points they stand for. -/
inductive Spells : List UInt8 → ℕ → Prop
  | one {a : UInt8} (ha : a.toNat < 0x80) : Spells [a] a.toNat
  | two {a b : UInt8} (ha : 0xC2 ≤ a.toNat ∧ a.toNat < 0xE0) (hb : Continues b) :
      Spells [a, b] (a.toNat % 32 * 64 + b.toNat % 64)
  | three {a b c : UInt8} (ha : 0xE0 ≤ a.toNat ∧ a.toNat < 0xF0) (hb : Continues b)
      (hc : Continues c) (hlow : a.toNat = 0xE0 → 0xA0 ≤ b.toNat)
      (hhigh : a.toNat = 0xED → b.toNat ≤ 0x9F) :
      Spells [a, b, c] ((a.toNat % 16 * 64 + b.toNat % 64) * 64 + c.toNat % 64)
  | four {a b c d : UInt8} (ha : 0xF0 ≤ a.toNat ∧ a.toNat < 0xF5) (hb : Continues b)
      (hc : Continues c) (hd : Continues d) (hlow : a.toNat = 0xF0 → 0x90 ≤ b.toNat)
      (hhigh : a.toNat = 0xF4 → b.toNat ≤ 0x8F) :
      Spells [a, b, c, d]
        (((a.toNat % 8 * 64 + b.toNat % 64) * 64 + c.toNat % 64) * 64 + d.toNat % 64)

variable {bytes rest : List UInt8} {n : ℕ}

/-! ## Encoding -/

theorem Spells.isValidChar (h : Spells bytes n) : n.isValidChar := by
  cases h with
  | one ha => exact .inl (by omega)
  | two ha hb => exact .inl (by omega)
  | three ha hb hc hlow hhigh =>
      unfold Continues at hb hc
      unfold Nat.isValidChar
      omega
  | four ha hb hc hd hlow hhigh =>
      unfold Continues at hb hc hd
      unfold Nat.isValidChar
      omega

theorem toNat_ofNat (h : n.isValidChar) : (Char.ofNat n).val.toNat = n := by
  rw [Char.ofNat, dif_pos h]
  rfl

theorem Spells.encode_eq (h : Spells bytes n) : String.utf8EncodeChar (Char.ofNat n) = bytes := by
  have hval := toNat_ofNat h.isValidChar
  rw [String.utf8EncodeChar, hval]
  cases h with
  | one ha => rw [if_pos (by omega), UInt8.ofNat_toNat]
  | @two a b ha hb =>
      unfold Continues at hb
      have h₁ : (a.toNat % 32 * 64 + b.toNat % 64) / 64 % 32 + 192 = a.toNat := by omega
      have h₂ : (a.toNat % 32 * 64 + b.toNat % 64) % 64 + 128 = b.toNat := by omega
      rw [if_neg (by omega), if_pos (by omega), h₁, h₂]
      simp only [UInt8.ofNat_toNat]
  | @three a b c ha hb hc hlow hhigh =>
      unfold Continues at hb hc
      have h₁ : ((a.toNat % 16 * 64 + b.toNat % 64) * 64 + c.toNat % 64) / 4096 % 16 + 224 =
          a.toNat := by omega
      have h₂ : ((a.toNat % 16 * 64 + b.toNat % 64) * 64 + c.toNat % 64) / 64 % 64 + 128 =
          b.toNat := by omega
      have h₃ : ((a.toNat % 16 * 64 + b.toNat % 64) * 64 + c.toNat % 64) % 64 + 128 =
          c.toNat := by omega
      rw [if_neg (by omega), if_neg (by omega), if_pos (by omega), h₁, h₂, h₃]
      simp only [UInt8.ofNat_toNat]
  | @four a b c d ha hb hc hd hlow hhigh =>
      unfold Continues at hb hc hd
      generalize hm : ((a.toNat % 8 * 64 + b.toNat % 64) * 64 + c.toNat % 64) * 64 + d.toNat % 64 = m
      have h₁ : m / 262144 % 8 + 240 = a.toNat := by omega
      have h₂ : m / 4096 % 64 + 128 = b.toNat := by omega
      have h₃ : m / 64 % 64 + 128 = c.toNat := by omega
      have h₄ : m % 64 + 128 = d.toNat := by omega
      rw [if_neg (by omega), if_neg (by omega), if_neg (by omega), h₁, h₂, h₃, h₄]
      simp only [UInt8.ofNat_toNat]

/-- A sequence stands for a code point that is known by another name. -/
theorem Spells.of_eq {m : ℕ} (h : Spells bytes n) (heq : n = m) : Spells bytes m :=
  heq ▸ h

theorem spells_encode (c : Char) : Spells (String.utf8EncodeChar c) c.val.toNat := by
  have hvalid := c.valid
  unfold UInt32.isValidChar Nat.isValidChar at hvalid
  rw [String.utf8EncodeChar]
  generalize c.val.toNat = m at hvalid ⊢
  have hbyte : ∀ k < 256, (UInt8.ofNat k).toNat = k :=
    fun k hk => UInt8.toNat_ofNat_of_lt' hk
  by_cases h₁ : m ≤ 127
  · rw [if_pos h₁]
    have ha := hbyte m (by omega)
    exact (Spells.one (by omega)).of_eq ha
  rw [if_neg h₁]
  by_cases h₂ : m ≤ 2047
  · rw [if_pos h₂]
    have ha := hbyte (m / 64 % 32 + 192) (by omega)
    have hb := hbyte (m % 64 + 128) (by omega)
    exact (Spells.two (by omega) (by unfold Continues; omega)).of_eq (by omega)
  rw [if_neg h₂]
  by_cases h₃ : m ≤ 65535
  · rw [if_pos h₃]
    have ha := hbyte (m / 4096 % 16 + 224) (by omega)
    have hb := hbyte (m / 64 % 64 + 128) (by omega)
    have hc := hbyte (m % 64 + 128) (by omega)
    exact (Spells.three (by omega) (by unfold Continues; omega) (by unfold Continues; omega)
      (by omega) (by omega)).of_eq (by omega)
  · rw [if_neg h₃]
    have ha := hbyte (m / 262144 % 8 + 240) (by omega)
    have hb := hbyte (m / 4096 % 64 + 128) (by omega)
    have hc := hbyte (m / 64 % 64 + 128) (by omega)
    have hd := hbyte (m % 64 + 128) (by omega)
    exact (Spells.four (by omega) (by unfold Continues; omega) (by unfold Continues; omega)
      (by unfold Continues; omega) (by omega) (by omega)).of_eq (by omega)

/-! ## Decoding -/

theorem continuation?_eq (b : UInt8) :
    continuation? b =
      if b.toNat < 0x80 then some (0, 0x80, 0xBF)
      else if b.toNat < 0xC2 then none
      else if b.toNat < 0xE0 then some (1, 0x80, 0xBF)
      else if b.toNat < 0xF0 then
        some (2, if b.toNat = 0xE0 then 0xA0 else 0x80, if b.toNat = 0xED then 0x9F else 0xBF)
      else if b.toNat < 0xF5 then
        some (3, if b.toNat = 0xF0 then 0x90 else 0x80, if b.toNat = 0xF4 then 0x8F else 0xBF)
      else none := by
  simp only [continuation?, UInt8.lt_iff_toNat_lt, ← UInt8.toNat_inj]
  rfl

variable {low high : UInt8} {wanted : ℕ}

theorem le_countContinuation_cons_iff {b : UInt8} :
    wanted + 1 ≤ (countContinuation low high (wanted + 1) (b :: bytes)).1 ↔
      (low.toNat ≤ b.toNat ∧ b.toNat ≤ high.toNat) ∧
        wanted ≤ (countContinuation 0x80 0xBF wanted bytes).1 := by
  rw [countContinuation]
  by_cases hb : low.toNat ≤ b.toNat ∧ b.toNat ≤ high.toNat
  · have hbounds : (decide (low ≤ b) && decide (b ≤ high)) = true := by
      simpa [UInt8.le_iff_toNat_le] using hb
    rw [if_pos hbounds]
    simp [hb]
  · have hbounds : (decide (low ≤ b) && decide (b ≤ high)) = false := by
      simpa [UInt8.le_iff_toNat_le] using hb
    rw [hbounds]
    simp [hb]

theorem not_le_countContinuation_nil :
    ¬wanted + 1 ≤ (countContinuation low high (wanted + 1) []).1 := by
  simp [countContinuation]

/-- A first byte may narrow the bounds of the next one. -/
theorem narrowed_iff {p q : Prop} [Decidable p] [Decidable q] {b : UInt8} (low high : UInt8)
    (hlow : 0x80 ≤ low.toNat) (hhigh : high.toNat ≤ 0xBF) :
    (if p then low else 0x80).toNat ≤ b.toNat ∧ b.toNat ≤ (if q then high else 0xBF).toNat ↔
      Continues b ∧ (p → low.toNat ≤ b.toNat) ∧ (q → b.toNat ≤ high.toNat) := by
  have hleast : (0x80 : UInt8).toNat = 0x80 := rfl
  have hgreatest : (0xBF : UInt8).toNat = 0xBF := rfl
  unfold Continues
  by_cases hp : p <;> by_cases hq : q <;>
    simp only [hp, hq, if_true, if_false, hleast, hgreatest, true_implies, false_implies, and_true,
      true_and] <;>
    omega

theorem decodeFrom_of_continuation {b : UInt8} (position : ℕ)
    (h : continuation? b = some (wanted, low, high))
    (hfound : wanted ≤ (countContinuation low high wanted bytes).1) :
    decodeFrom position (b :: bytes) =
      (decodeFrom (position + wanted + 1) (bytes.drop wanted)).map
        (Char.ofNat (codePoint b wanted bytes) :: ·) := by
  rw [decodeFrom, h]
  simp only [Nat.not_lt.mpr hfound, if_false]
  cases decodeFrom (position + wanted + 1) (bytes.drop wanted) <;> rfl

theorem Spells.decodeFrom_append (h : Spells bytes n) (position : ℕ) (rest : List UInt8) :
    decodeFrom position (bytes ++ rest) =
      (decodeFrom (position + bytes.length) rest).map (Char.ofNat n :: ·) := by
  cases h with
  | @one a ha =>
      have hcont : continuation? a = some (0, 0x80, 0xBF) := by
        rw [continuation?_eq, if_pos ha]
      exact decodeFrom_of_continuation position hcont (Nat.zero_le _)
  | @two a b ha hb =>
      have hcont : continuation? a = some (1, 0x80, 0xBF) := by
        rw [continuation?_eq, if_neg (by omega), if_neg (by omega), if_pos ha.2]
      refine decodeFrom_of_continuation position hcont ?_
      exact le_countContinuation_cons_iff.mpr ⟨hb, Nat.zero_le _⟩
  | @three a b c ha hb hc hlow hhigh =>
      have hcont : continuation? a = some (2, if a.toNat = 0xE0 then 0xA0 else 0x80,
          if a.toNat = 0xED then 0x9F else 0xBF) := by
        rw [continuation?_eq, if_neg (by omega), if_neg (by omega), if_neg (by omega), if_pos ha.2]
      refine decodeFrom_of_continuation position hcont ?_
      have hbounds := (narrowed_iff 0xA0 0x9F (by decide) (by decide)).mpr ⟨hb, hlow, hhigh⟩
      exact le_countContinuation_cons_iff.mpr ⟨hbounds,
        le_countContinuation_cons_iff.mpr ⟨hc, Nat.zero_le _⟩⟩
  | @four a b c d ha hb hc hd hlow hhigh =>
      have hcont : continuation? a = some (3, if a.toNat = 0xF0 then 0x90 else 0x80,
          if a.toNat = 0xF4 then 0x8F else 0xBF) := by
        rw [continuation?_eq, if_neg (by omega), if_neg (by omega), if_neg (by omega),
          if_neg (by omega), if_pos ha.2]
      refine decodeFrom_of_continuation position hcont ?_
      have hbounds := (narrowed_iff 0x90 0x8F (by decide) (by decide)).mpr ⟨hb, hlow, hhigh⟩
      exact le_countContinuation_cons_iff.mpr ⟨hbounds,
        le_countContinuation_cons_iff.mpr ⟨hc,
          le_countContinuation_cons_iff.mpr ⟨hd, Nat.zero_le _⟩⟩⟩

theorem exists_continuation_of_decodeFrom {b : UInt8} {position : ℕ} {cs : List Char}
    (h : decodeFrom position (b :: bytes) = .ok cs) :
    ∃ wanted low high, continuation? b = some (wanted, low, high) ∧
      wanted ≤ (countContinuation low high wanted bytes).1 := by
  rw [decodeFrom] at h
  split at h
  · cases h
  · next wanted low high heq =>
      refine ⟨wanted, low, high, heq, ?_⟩
      by_contra hlt
      simp [Nat.not_le.mp hlt] at h

/-- Bytes of which enough go on with a character start with one that does. -/
theorem exists_cons_of_le_countContinuation
    (h : wanted + 1 ≤ (countContinuation low high (wanted + 1) bytes).1) :
    ∃ b rest, bytes = b :: rest ∧ (low.toNat ≤ b.toNat ∧ b.toNat ≤ high.toNat) ∧
      wanted ≤ (countContinuation 0x80 0xBF wanted rest).1 := by
  cases bytes with
  | nil => exact absurd h not_le_countContinuation_nil
  | cons b rest => exact ⟨b, rest, rfl, le_countContinuation_cons_iff.mp h⟩

theorem exists_spells_of_decodeFrom {b : UInt8} {position : ℕ} {cs : List Char}
    (h : decodeFrom position (b :: bytes) = .ok cs) :
    ∃ first rest n, b :: bytes = first ++ rest ∧ Spells first n := by
  obtain ⟨wanted, low, high, hcont, hfound⟩ := exists_continuation_of_decodeFrom h
  rw [continuation?_eq] at hcont
  by_cases h₁ : b.toNat < 0x80
  · exact ⟨[b], bytes, _, rfl, .one h₁⟩
  rw [if_neg h₁] at hcont
  by_cases h₂ : b.toNat < 0xC2
  · rw [if_pos h₂] at hcont
    cases hcont
  rw [if_neg h₂] at hcont
  by_cases h₃ : b.toNat < 0xE0
  · rw [if_pos h₃] at hcont
    cases hcont
    obtain ⟨c, rest, rfl, hc, -⟩ := exists_cons_of_le_countContinuation hfound
    exact ⟨[b, c], rest, _, rfl, .two (by omega) hc⟩
  rw [if_neg h₃] at hcont
  by_cases h₄ : b.toNat < 0xF0
  · rw [if_pos h₄] at hcont
    cases hcont
    obtain ⟨c, rest, rfl, hbounds, hfound⟩ := exists_cons_of_le_countContinuation hfound
    obtain ⟨d, rest, rfl, hd, -⟩ := exists_cons_of_le_countContinuation hfound
    obtain ⟨hc, hlow, hhigh⟩ := (narrowed_iff _ _ (by decide) (by decide)).mp hbounds
    exact ⟨[b, c, d], rest, _, rfl, .three (by omega) hc hd hlow hhigh⟩
  rw [if_neg h₄] at hcont
  by_cases h₅ : b.toNat < 0xF5
  · rw [if_pos h₅] at hcont
    cases hcont
    obtain ⟨c, rest, rfl, hbounds, hfound⟩ := exists_cons_of_le_countContinuation hfound
    obtain ⟨d, rest, rfl, hd, hfound⟩ := exists_cons_of_le_countContinuation hfound
    obtain ⟨e, rest, rfl, he, -⟩ := exists_cons_of_le_countContinuation hfound
    obtain ⟨hc, hlow, hhigh⟩ := (narrowed_iff _ _ (by decide) (by decide)).mp hbounds
    exact ⟨[b, c, d, e], rest, _, rfl, .four (by omega) hc hd he hlow hhigh⟩
  · rw [if_neg h₅] at hcont
    cases hcont

/-! ## Texts -/

theorem decodeFrom_encode (cs : List Char) (position : ℕ) :
    decodeFrom position (encode cs) = .ok cs := by
  induction cs generalizing position with
  | nil => rw [encode, List.flatMap_nil, decodeFrom]
  | cons c cs ih =>
      have hchar : Char.ofNat c.val.toNat = c := Char.ofNat_toNat c
      rw [encode, List.flatMap_cons, (spells_encode c).decodeFrom_append, ← encode, ih, hchar]
      rfl

/-- Reading takes back encoding: the bytes that are read as a text are its encoding. -/
theorem decodeFrom_eq_ok_iff {cs : List Char} {position : ℕ} :
    decodeFrom position bytes = .ok cs ↔ bytes = encode cs := by
  refine ⟨fun h => ?_, fun h => h ▸ decodeFrom_encode cs position⟩
  -- The rest behind the first character is shorter, and read from a later position.
  induction hlength : bytes.length using Nat.strong_induction_on generalizing bytes cs position with
  | _ size ih =>
      cases bytes with
      | nil =>
          rw [decodeFrom] at h
          cases h
          rfl
      | cons b bs =>
          obtain ⟨first, rest, n, hsplit, hfirst⟩ := exists_spells_of_decodeFrom h
          rw [hsplit, hfirst.decodeFrom_append] at h
          have hshorter : rest.length < size := by
            have hpos : 0 < first.length := by cases hfirst <;> simp
            have := congrArg List.length hsplit
            rw [List.length_append] at this
            omega
          cases hrest : decodeFrom (position + first.length) rest with
          | error fault =>
              rw [hrest] at h
              cases h
          | ok cs' =>
              rw [hrest] at h
              cases h
              rw [hsplit, ih _ hshorter hrest rfl, encode, encode, List.flatMap_cons,
                hfirst.encode_eq]

/-- Bytes are no text if and only if they encode none. -/
theorem forall_ne_encode_iff : (∀ cs, bytes ≠ encode cs) ↔ ∃ fault, ofBytes bytes = .error fault := by
  rw [ofBytes]
  cases h : decodeFrom 0 bytes with
  | error fault =>
      refine iff_of_true (fun cs heq => ?_) ⟨fault, rfl⟩
      cases h.symm.trans (decodeFrom_eq_ok_iff.mpr heq)
  | ok cs =>
      refine iff_of_false (fun hne => hne cs (decodeFrom_eq_ok_iff.mp h)) ?_
      rintro ⟨_, ⟨⟩⟩

/-! ## The bytes of a text -/

theorem toList_loop (bs : ByteArray) (i : ℕ) (read : List UInt8) :
    ByteArray.toList.loop bs i read = read.reverse ++ bs.data.toList.drop i := by
  induction h : bs.size - i generalizing i read with
  | zero =>
      have hi : ¬ i < bs.size := by omega
      have hlength : bs.data.toList.length ≤ i := by
        rw [Array.length_toList]
        exact Nat.le_of_not_lt hi
      rw [ByteArray.toList.loop, if_neg hi, List.drop_eq_nil_of_le hlength, List.append_nil]
  | succ left ih =>
      have hi : i < bs.size := by omega
      have hlength : i < bs.data.toList.length := by
        rw [Array.length_toList]
        exact hi
      have hget : bs.get! i = bs.data.toList[i] := by
        change bs.data[i]! = _
        rw [getElem!_pos bs.data i hi, Array.getElem_toList]
      rw [ByteArray.toList.loop, if_pos hi, ih (i + 1) _ (by omega), List.drop_eq_getElem_cons hlength,
        List.reverse_cons, List.append_assoc, List.singleton_append, hget]

theorem toList_toUTF8 (text : String) : text.toUTF8.toList = encode text.toList := by
  have hdata : text.toUTF8.data.toList = encode text.toList := by
    change text.toByteArray.data.toList = _
    rw [← String.utf8Encode_toList, List.utf8Encode, List.data_toByteArray, encode]
  rw [ByteArray.toList, toList_loop, List.reverse_nil, List.nil_append, List.drop_zero, hdata]

theorem unifyLineEnds_of_not_mem {cs : List Char} (h : '\r' ∉ cs) : unifyLineEnds cs = cs := by
  induction cs with
  | nil => rw [unifyLineEnds]
  | cons c cs ih =>
      have hc : c ≠ '\r' := fun heq => h (heq ▸ List.mem_cons_self)
      rw [unifyLineEnds, ih fun hmem => h (List.mem_cons_of_mem _ hmem)]
      · exact fun rest heq => absurd heq hc
      · exact hc

/-- A text without carriage returns is read back from its bytes. -/
theorem ofBytes_toUTF8 {text : String} (h : '\r' ∉ text.toList) :
    ofBytes text.toUTF8.toList = .ok text := by
  rw [toList_toUTF8, ofBytes, decodeFrom_encode]
  change Except.ok (String.ofList (unifyLineEnds text.toList)) = _
  rw [unifyLineEnds_of_not_mem h, String.ofList_toList]

end ImageTrust.Text
