import ImageTrust.Proofs.Json.Limits

/-! # Arrays of texts

How an array that holds nothing but strings is written, apart from the reader. The reader accepts what is
written so and nothing else as such an array.
-/

namespace ImageTrust.Json

open Text

/-! ## The format -/

/-- What stands between the quotes of a string, and the code points and surrogates that it spells. -/
inductive Body : List Char → List ℕ → Prop
  | nil : Body [] []
  | raw {c : Char} {cs : List Char} {units : List ℕ} (hquote : c ≠ '"') (hbackslash : c ≠ '\\')
      (hcontrol : 0x20 ≤ c.toNat) : Body cs units → Body (c :: cs) (c.toNat :: units)
  | escape {e c : Char} {cs : List Char} {units : List ℕ} (he : escaped? e = some c) :
      Body cs units → Body ('\\' :: e :: cs) (c.toNat :: units)
  | number {c₁ c₂ c₃ c₄ : Char} {n : ℕ} {cs : List Char} {units : List ℕ}
      (hn : hexNumber? [c₁, c₂, c₃, c₄] = some n) :
      Body cs units → Body ('\\' :: 'u' :: c₁ :: c₂ :: c₃ :: c₄ :: cs) (n :: units)

/-- The code points of some characters. One beyond the first plane may be written as two surrogates. -/
inductive UnitsOf : List ℕ → List Char → Prop
  | nil : UnitsOf [] []
  | single (c : Char) {units : List ℕ} {cs : List Char} :
      UnitsOf units cs → UnitsOf (c.toNat :: units) (c :: cs)
  | pair {c : Char} (hc : 0x10000 ≤ c.toNat) {units : List ℕ} {cs : List Char} :
      UnitsOf units cs →
        UnitsOf ((0xD800 + (c.toNat - 0x10000) / 0x400) :: (0xDC00 + (c.toNat - 0x10000) % 0x400) :: units)
          (c :: cs)

/-- Strings with commas between them, up to the bracket that closes the array. -/
inductive Items : List Char → List (List ℕ) → Prop
  | last {body space : List Char} {units : List ℕ} (hbody : Body body units)
      (hspace : ∀ c ∈ space, isSpace c) : Items ('"' :: body ++ '"' :: space ++ [']']) [units]
  | cons {body space gap cs : List Char} {units : List ℕ} {more : List (List ℕ)} (hbody : Body body units)
      (hspace : ∀ c ∈ space, isSpace c) (hgap : ∀ c ∈ gap, isSpace c) :
      Items cs more → Items ('"' :: body ++ '"' :: space ++ ',' :: gap ++ cs) (units :: more)

/-- An array of strings, and what each of them spells. -/
inductive TextArray : List Char → List (List ℕ) → Prop
  | empty {space : List Char} (hspace : ∀ c ∈ space, isSpace c) : TextArray ('[' :: space ++ [']']) []
  | items {space cs : List Char} {unitLists : List (List ℕ)} (hspace : ∀ c ∈ space, isSpace c)
      (hitems : Items cs unitLists) : TextArray ('[' :: space ++ cs) unitLists

variable {cs rest : List Char} {units : List ℕ} {unitLists : List (List ℕ)} {texts : List (List Char)}

/-! ## Strings -/

theorem Body.readUnits?_eq (h : Body cs units) (rest : List Char) :
    readUnits? (cs ++ '"' :: rest) = some (units, rest) := by
  induction h with
  | nil => rw [List.nil_append, readUnits?]
  | @raw c cs units hquote hbackslash hcontrol h ih =>
      rw [List.cons_append, readUnits?, ih, if_neg (by simp [hbackslash]; omega)]
      · rfl
      · exact hquote
      · exact fun _ _ _ _ _ hc => absurd hc hbackslash
      · exact fun _ _ hc => absurd hc hbackslash
  | @escape e c cs units he h ih =>
      have hu : e ≠ 'u' := by
        rintro rfl
        cases he
      rw [List.cons_append, List.cons_append, readUnits?, he, ih]
      exact fun _ _ _ _ _ heq => absurd heq hu
  | number hn h ih =>
      simp only [List.cons_append, readUnits?, hn, ih]

/-- What the reader has gone over is the body of a string. -/
theorem exists_body (h : readUnits? cs = some (units, rest)) :
    ∃ body, cs = body ++ '"' :: rest ∧ Body body units := by
  fun_induction readUnits? cs generalizing units with
  | case1 => cases h
  | case2 =>
      cases h
      exact ⟨[], rfl, .nil⟩
  | case3 c₁ c₂ c₃ c₄ inner n more left hread hn ih =>
      cases h
      obtain ⟨body, rfl, hbody⟩ := ih hread
      exact ⟨_, rfl, .number hn hbody⟩
  | case4 => cases h
  | case5 e inner _ c more left hread he ih =>
      cases h
      obtain ⟨body, rfl, hbody⟩ := ih hread
      exact ⟨_, rfl, .escape he hbody⟩
  | case6 => cases h
  | case7 => cases h
  | case8 c inner hquote _ _ hplain ih =>
      cases hread : readUnits? inner with
      | none =>
          rw [hread] at h
          cases h
      | some result =>
          rw [hread] at h
          cases h
          obtain ⟨body, rfl, hbody⟩ := ih hread
          simp only [Bool.or_eq_true, decide_eq_true_eq, not_or, not_lt] at hplain
          exact ⟨_, rfl, .raw hquote hplain.1 hplain.2 hbody⟩

theorem readString?_eq_some_iff {text : List Char} :
    readString? cs = some (text, rest) ↔
      ∃ body units, cs = body ++ '"' :: rest ∧ Body body units ∧ joinSurrogates units = text := by
  rw [readString?]
  constructor
  · intro h
    cases hread : readUnits? cs with
    | none =>
        rw [hread] at h
        cases h
    | some result =>
        rw [hread] at h
        cases h
        obtain ⟨body, hcs, hbody⟩ := exists_body hread
        exact ⟨body, result.1, hcs, hbody, rfl⟩
  · rintro ⟨body, units, rfl, hbody, rfl⟩
    rw [hbody.readUnits?_eq]
    rfl

/-! ## Characters -/

theorem isValidChar_toNat (c : Char) : c.toNat.isValidChar :=
  c.valid

theorem unitChar_toNat (c : Char) : unitChar c.toNat = c := by
  rw [unitChar, dif_pos (isValidChar_toNat c)]
  rfl

/-- The code point of a character is not joined to what stands behind it. -/
theorem joinSurrogates_toNat_cons (c : Char) (units : List ℕ) :
    joinSurrogates (c.toNat :: units) = c :: joinSurrogates units := by
  cases units with
  | nil => exact congrArg (fun d => [d]) (unitChar_toNat c)
  | cons low units =>
      have hvalid := isValidChar_toNat c
      rw [joinSurrogates, if_neg, unitChar_toNat]
      unfold Nat.isValidChar at hvalid
      simp only [Bool.and_eq_true, decide_eq_true_eq]
      omega

theorem UnitsOf.joinSurrogates_eq (h : UnitsOf units cs) : joinSurrogates units = cs := by
  induction h with
  | nil => rfl
  | single c h ih => rw [joinSurrogates_toNat_cons, ih]
  | @pair c hc units cs h ih =>
      have hvalid := isValidChar_toNat c
      unfold Nat.isValidChar at hvalid
      have hjoined : 0x10000 + (0xD800 + (c.toNat - 0x10000) / 0x400 - 0xD800) * 0x400 +
          (0xDC00 + (c.toNat - 0x10000) % 0x400 - 0xDC00) = c.toNat := by
        omega
      rw [joinSurrogates, if_pos, ih, hjoined, unitChar_toNat]
      simp only [Bool.and_eq_true, decide_eq_true_eq]
      omega

/-! ## Items -/

theorem skipSpace_append {space : List Char} (hspace : ∀ c ∈ space, isSpace c) {c : Char}
    (hc : isSpace c = false) (cs : List Char) : skipSpace (space ++ c :: cs) = c :: cs :=
  dropWhile_run hspace (stops_cons hc cs)

theorem exists_space (cs : List Char) : ∃ space, cs = space ++ skipSpace cs ∧ ∀ c ∈ space, isSpace c :=
  ⟨cs.takeWhile isSpace, List.takeWhile_append_dropWhile.symm, fun _ hc => List.mem_takeWhile_imp hc⟩

theorem readLiteral?_ne_text {text : List Char} : readLiteral? cs ≠ some (.text text, rest) := by
  intro h
  obtain ⟨⟨word, value⟩, hmem, hafter⟩ := List.exists_of_findSome?_eq_some h
  obtain ⟨left, -, hvalue⟩ := Option.map_eq_some_iff.mp hafter
  cases hvalue
  simp [literals] at hmem

theorem ite_error_eq_ok {ε α : Type} {p : Prop} [Decidable p] {e : ε} {x : Except ε α} {a : α}
    (h : (if p then .error e else x) = .ok a) : x = .ok a := by
  split at h
  · cases h
  · exact h

theorem readNumber_ne_text {text : List Char} : readNumber none cs ≠ .ok (.text text, rest) := by
  intro h
  cases ite_error_eq_ok (ite_error_eq_ok h)

/-- Only a string is read as a text. -/
theorem exists_string {depth : ℕ} {text : List Char}
    (h : readValue none depth cs = .ok (.text text, rest)) :
    ∃ body units, cs = '"' :: (body ++ '"' :: rest) ∧ Body body units ∧ joinSurrogates units = text := by
  unfold readValue at h
  split at h
  · cases h
  split at h
  · next inner =>
      split at h
      · cases h
      · next s left hread =>
          cases h
          obtain ⟨body, units, rfl, hbody, rfl⟩ := readString?_eq_some_iff.mp hread
          exact ⟨body, units, rfl, hbody, rfl⟩
  · obtain ⟨limits, -, h⟩ := exists_of_bind_eq_ok h
    dsimp only at h
    split at h
    · cases h
    · obtain ⟨parts, -, h⟩ := exists_of_bind_eq_ok h
      cases h
  · obtain ⟨limits, -, h⟩ := exists_of_bind_eq_ok h
    dsimp only at h
    split at h
    · cases h
    · obtain ⟨parts, -, h⟩ := exists_of_bind_eq_ok h
      cases h
  · split at h
    · next read hliteral =>
        cases h
        exact absurd hliteral readLiteral?_ne_text
    · exact absurd h readNumber_ne_text

theorem Body.readValue_eq {body : List Char} (h : Body body units) (depth : ℕ) (rest : List Char) :
    readValue none (depth + 1) ('"' :: (body ++ '"' :: rest)) =
      .ok (.text (joinSurrogates units), rest) := by
  rw [readValue, readString?_eq_some_iff.mpr ⟨body, units, rfl, h, rfl⟩]

theorem Items.head?_eq (h : Items cs unitLists) : cs.head? = some '"' := by
  cases h <;> rfl

theorem Items.getLast?_eq (h : Items cs unitLists) : cs.getLast? = some ']' := by
  induction h with
  | last => rw [List.getLast?_append, List.getLast?_singleton, Option.some_or]
  | cons hbody hspace hgap h ih => rw [List.getLast?_append, ih, Option.some_or]

theorem Items.length_le (h : Items cs unitLists) : unitLists.length ≤ cs.length := by
  induction h with
  | last => simp
  | cons hbody hspace hgap h ih =>
      simp only [List.length_cons, List.length_append]
      omega

/-- Items are read at any depth that has room for each of them. -/
theorem Items.readItems_eq (h : Items cs unitLists) {depth : ℕ} (hdepth : unitLists.length < depth)
    (rest : List Char) :
    readItems none depth (cs ++ rest) =
      .ok (unitLists.map fun units => .text (joinSurrogates units), rest) := by
  induction h generalizing depth with
  | @last body space units hbody hspace =>
      obtain ⟨depth, rfl⟩ : ∃ d, depth = d + 2 := ⟨depth - 2, by simp at hdepth; omega⟩
      have hcs : '"' :: body ++ '"' :: space ++ [']'] ++ rest =
          '"' :: (body ++ '"' :: (space ++ ']' :: rest)) := by simp
      rw [hcs, readItems, hbody.readValue_eq, ok_bind]
      dsimp only
      rw [skipSpace_append hspace (by decide)]
      rfl
  | @cons body space gap cs units more hbody hspace hgap h ih =>
      obtain ⟨depth, rfl⟩ : ∃ d, depth = d + 2 := ⟨depth - 2, by simp at hdepth; omega⟩
      have hcs : '"' :: body ++ '"' :: space ++ ',' :: gap ++ cs ++ rest =
          '"' :: (body ++ '"' :: (space ++ ',' :: (gap ++ (cs ++ rest)))) := by simp
      obtain ⟨tail, hquote⟩ := List.head?_eq_some_iff.mp h.head?_eq
      have hskip : skipSpace (gap ++ (cs ++ rest)) = cs ++ rest := by
        rw [hquote]
        exact skipSpace_append hgap (by decide) _
      rw [hcs, readItems, hbody.readValue_eq, ok_bind]
      dsimp only
      rw [skipSpace_append hspace (by decide)]
      change (readItems none (depth + 1) (skipSpace (gap ++ (cs ++ rest)))).bind _ = _
      rw [hskip, ih (by simp at hdepth; omega)]
      rfl

theorem exists_items {depth : ℕ} (h : readItems none depth cs = .ok (texts.map .text, rest)) :
    ∃ front unitLists, cs = front ++ rest ∧ Items front unitLists ∧
      unitLists.map joinSurrogates = texts := by
  induction depth generalizing cs texts with
  | zero =>
      rw [readItems] at h
      cases h
  | succ depth ih =>
      rw [readItems] at h
      obtain ⟨⟨item, left⟩, hitem, h⟩ := exists_of_bind_eq_ok h
      obtain ⟨space, hleft, hspace⟩ := exists_space left
      dsimp only at h
      split at h
      · next after hclose =>
          obtain ⟨heq, rfl⟩ := Prod.mk.inj (Except.ok.inj h)
          obtain ⟨text, rfl, rfl⟩ := List.map_eq_singleton_iff.mp heq.symm
          obtain ⟨body, units, rfl, hbody, rfl⟩ := exists_string hitem
          refine ⟨_, [units], ?_, .last hbody hspace, rfl⟩
          rw [hleft, hclose]
          simp
      · next after hcomma =>
          obtain ⟨⟨items, left'⟩, hmore, heq⟩ := exists_of_bind_eq_ok h
          obtain ⟨hparts, rfl⟩ : item :: items = texts.map .text ∧ left' = rest :=
            Prod.mk.inj (Except.ok.inj heq)
          obtain ⟨text, texts, rfl, rfl, rfl⟩ := List.map_eq_cons_iff.mp hparts.symm
          obtain ⟨body, units, rfl, hbody, rfl⟩ := exists_string hitem
          obtain ⟨front, unitLists, hfront, hitems, rfl⟩ := ih hmore
          obtain ⟨gap, hafter, hgap⟩ := exists_space after
          refine ⟨_, units :: unitLists, ?_, .cons hbody hspace hgap hitems, rfl⟩
          rw [hleft, hcomma, hafter, hfront]
          simp
      · cases h

/-! ## Arrays -/

theorem TextArray.head?_eq (h : TextArray cs unitLists) : cs.head? = some '[' := by
  cases h <;> rfl

theorem TextArray.getLast?_eq (h : TextArray cs unitLists) : cs.getLast? = some ']' := by
  cases h with
  | empty => rw [List.getLast?_append, List.getLast?_singleton, Option.some_or]
  | items hspace hitems => rw [List.getLast?_append, hitems.getLast?_eq, Option.some_or]

theorem TextArray.length_le (h : TextArray cs unitLists) : unitLists.length ≤ cs.length := by
  cases h with
  | empty => simp
  | items hspace hitems =>
      have hlength := hitems.length_le
      simp only [List.length_cons, List.length_append]
      omega

theorem TextArray.readValue_eq (h : TextArray cs unitLists) {depth : ℕ}
    (hdepth : unitLists.length < depth) (rest : List Char) :
    readValue none (depth + 1) (cs ++ rest) =
      .ok (.array (unitLists.map fun units => .text (joinSurrogates units)), rest) := by
  cases h with
  | @empty space hspace =>
      have hcs : '[' :: space ++ [']'] ++ rest = '[' :: (space ++ ']' :: rest) := by simp
      rw [hcs, readValue, Limits.descend, ok_bind, skipSpace_append hspace (by decide)]
      rfl
  | @items space cs _ hspace hitems =>
      obtain ⟨tail, rfl⟩ := List.head?_eq_some_iff.mp hitems.head?_eq
      have hcs : '[' :: space ++ '"' :: tail ++ rest = '[' :: (space ++ '"' :: (tail ++ rest)) := by simp
      have hread := hitems.readItems_eq hdepth rest
      rw [List.cons_append] at hread
      rw [hcs, readValue, Limits.descend, ok_bind, skipSpace_append hspace (by decide)]
      change (readItems none depth ('"' :: (tail ++ rest))).bind _ = _
      rw [hread]
      rfl

/-- Behind its opening bracket an array of strings goes on with a quote, or it is empty. -/
theorem TextArray.head?_skipSpace {inner : List Char} (h : TextArray cs unitLists) (hcs : cs = '[' :: inner) :
    (skipSpace inner).head? = some ']' ∨ (skipSpace inner).head? = some '"' := by
  cases h with
  | @empty space hspace =>
      have hinner : inner = space ++ [']'] := (List.cons.inj hcs).2.symm
      rw [hinner, skipSpace_append hspace (by decide)]
      exact .inl rfl
  | @items space _ _ hspace hitems =>
      obtain ⟨tail, rfl⟩ := List.head?_eq_some_iff.mp hitems.head?_eq
      have hinner : inner = space ++ '"' :: tail := (List.cons.inj hcs).2.symm
      rw [hinner, skipSpace_append hspace (by decide)]
      exact .inr rfl

theorem IsInteger.not_textArray {digits : List Char} (h : IsInteger digits) :
    ¬TextArray ('[' :: (digits ++ [']'])) unitLists := by
  intro harray
  have hhead := harray.head?_skipSpace rfl
  rw [h.skipSpace_append] at hhead
  obtain ⟨c, others, rfl, -⟩ := h.head
  have hc := h.digit c List.mem_cons_self
  rcases hhead with heq | heq
  · cases heq
    cases hc
  · cases heq
    cases hc

theorem exists_textArray {depth : ℕ} {inner : List Char}
    (h : readValue none (depth + 1) ('[' :: inner) = .ok (.array (texts.map .text), rest)) :
    ∃ front unitLists, '[' :: inner = front ++ rest ∧ TextArray front unitLists ∧
      unitLists.map joinSurrogates = texts := by
  obtain ⟨space, hinner, hspace⟩ := exists_space inner
  rw [readValue] at h
  obtain ⟨limits, hlimits, h⟩ := exists_of_bind_eq_ok h
  cases hlimits
  dsimp only at h
  split at h
  · next after hclose =>
      obtain ⟨heq, rfl⟩ := Prod.mk.inj (Except.ok.inj h)
      obtain rfl : texts = [] := List.map_eq_nil_iff.mp (Json.array.inj heq).symm
      refine ⟨_, [], ?_, .empty hspace, rfl⟩
      rw [hinner, hclose]
      simp
  · obtain ⟨⟨items, left⟩, hread, heq⟩ := exists_of_bind_eq_ok h
    obtain ⟨harray, rfl⟩ : Json.array items = .array (texts.map .text) ∧ left = rest :=
      Prod.mk.inj (Except.ok.inj heq)
    obtain rfl := Json.array.inj harray
    obtain ⟨front, unitLists, hfront, hitems, rfl⟩ := exists_items hread
    refine ⟨_, unitLists, ?_, .items hspace hitems, rfl⟩
    rw [hinner, hfront]
    simp

/-! ## Whole texts -/

theorem texts?_eq_some_iff {value : Json} :
    texts? value = some texts ↔ value = .array (texts.map .text) := by
  cases value with
  | array items =>
      rw [Json.array.injEq, texts?]
      induction items generalizing texts with
      | nil => simp [eq_comm]
      | cons item items ih =>
          rw [List.mapM_cons]
          cases texts with
          | nil => cases item <;> simp [Option.bind_eq_some_iff]
          | cons first texts =>
              cases item with
              | text cs => simp [Option.bind_eq_some_iff, ih, and_comm, and_assoc]
              | _ => simp
  | _ => simp [texts?]

/-- Behind an array that ends with its bracket nothing is left. -/
theorem eq_nil_of_space {front : List Char} (hclosed : (front ++ rest).getLast? = some ']')
    (hspace : skipSpace rest = []) : rest = [] := by
  by_contra hne
  have hblank : ∀ c ∈ rest, isSpace c := List.dropWhile_eq_nil_iff.mp hspace
  obtain ⟨c, hc⟩ := Option.isSome_iff_exists.mp (List.getLast?_isSome.mpr hne)
  rw [List.getLast?_append, hc, Option.some_or] at hclosed
  cases hclosed
  cases hblank _ (List.mem_of_getLast? hc)

theorem toOption_eq_some_iff {α : Type} {x : Except Stop α} {a : α} : x.toOption = some a ↔ x = .ok a := by
  cases x with
  | error stop => exact iff_of_false nofun nofun
  | ok b => exact ⟨fun h => congrArg Except.ok (Option.some.inj h), fun h => congrArg some (Except.ok.inj h)⟩

theorem read?_eq_some_iff {value : Json} :
    read? cs = some value ↔
      ∃ rest, readValue none (2 * cs.length + 1) (skipSpace cs) = .ok (value, rest) ∧
        skipSpace rest = [] := by
  rw [read?, toOption_eq_some_iff, read]
  constructor
  · intro h
    obtain ⟨⟨found, rest⟩, hread, h⟩ := exists_of_bind_eq_ok h
    dsimp only at h
    split at h
    · next hrest =>
        cases h
        exact ⟨rest, hread, List.isEmpty_iff.mp hrest⟩
    · cases h
  · rintro ⟨rest, hread, hrest⟩
    rw [hread]
    change (if (skipSpace rest).isEmpty then _ else _) = _
    rw [hrest]
    rfl

/-- A text in brackets is read as an array of texts if it is one, and only then. -/
theorem texts?_read?_iff (hopen : cs.head? = some '[') (hclosed : cs.getLast? = some ']') :
    (read? cs).bind texts? = some texts ↔
      ∃ unitLists, TextArray cs unitLists ∧ unitLists.map joinSurrogates = texts := by
  obtain ⟨inner, rfl⟩ := List.head?_eq_some_iff.mp hopen
  have hstart : skipSpace ('[' :: inner) = '[' :: inner := dropWhile_eq_self (stops_cons (by decide) inner)
  rw [Option.bind_eq_some_iff]
  constructor
  · rintro ⟨value, hread, htexts⟩
    rw [texts?_eq_some_iff.mp htexts, read?_eq_some_iff, hstart] at hread
    obtain ⟨rest, hvalue, hrest⟩ := hread
    obtain ⟨front, unitLists, hfront, harray, hjoined⟩ := exists_textArray hvalue
    obtain rfl := eq_nil_of_space (hfront ▸ hclosed) hrest
    rw [List.append_nil] at hfront
    exact ⟨unitLists, hfront ▸ harray, hjoined⟩
  · rintro ⟨unitLists, harray, rfl⟩
    have hlength := harray.length_le
    rw [List.length_cons] at hlength
    have hdepth : unitLists.length < 2 * ('[' :: inner).length := by
      rw [List.length_cons]
      omega
    have hvalue := harray.readValue_eq hdepth []
    refine ⟨_, read?_eq_some_iff.mpr ⟨[], ?_, rfl⟩, texts?_eq_some_iff.mpr rfl⟩
    rw [hstart, List.map_map]
    rw [List.append_nil] at hvalue
    exact hvalue

end ImageTrust.Json
