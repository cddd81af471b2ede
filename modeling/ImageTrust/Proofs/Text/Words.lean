import ImageTrust.Proofs.Text.Lines

/-! # Words of a text -/

namespace ImageTrust.Text

/-! ## Reading one word -/

theorem words_nil : words [] = [] := by
  rw [words]
  rfl

theorem words_cons_of_blank {c : Char} (h : isBlank c) (cs : List Char) :
    words (c :: cs) = words cs := by
  rw [words, words, List.dropWhile_cons_of_pos h]

theorem words_blank_append {blanks : List Char} (h : ∀ c ∈ blanks, isBlank c) (cs : List Char) :
    words (blanks ++ cs) = words cs := by
  induction blanks with
  | nil => rfl
  | cons c blanks ih =>
      rw [List.cons_append, words_cons_of_blank (h c List.mem_cons_self),
        ih fun d hd => h d (List.mem_cons_of_mem _ hd)]

/-- A run of visible characters is a word if nothing visible follows it. -/
theorem words_word_append {word rest : List Char} (hne : word ≠ [])
    (hword : ∀ c ∈ word, isBlank c = false) (hrest : ∀ c ∈ rest.head?, isBlank c) :
    words (word ++ rest) = word :: words rest := by
  obtain ⟨c, more, rfl⟩ := List.exists_cons_of_ne_nil hne
  have hstart : ((c :: more) ++ rest).dropWhile isBlank = c :: (more ++ rest) :=
    dropWhile_eq_self (stops_cons (hword c List.mem_cons_self) _)
  have hmore : ∀ d ∈ more, (!isBlank d) = true := fun d hd => by
    simp [hword d (List.mem_cons_of_mem _ hd)]
  have hstops : ∀ d, rest.head? = some d → (!isBlank d) = false := fun d hd => by
    simp [hrest d hd]
  rw [words]
  split
  · next heq =>
      rw [hstart] at heq
      cases heq
  · next heq =>
      rw [hstart] at heq
      obtain ⟨rfl, rfl⟩ := List.cons.inj heq
      rw [takeWhile_run hmore hstops, dropWhile_run hmore hstops]

theorem words_of_visible {word : List Char} (hne : word ≠ [])
    (hword : ∀ c ∈ word, isBlank c = false) : words word = [word] := by
  have hend : ∀ c ∈ ([] : List Char).head?, isBlank c := by simp
  have hwords := words_word_append hne hword hend
  rwa [List.append_nil, words_nil] at hwords

/-! ## Words of joined texts -/

/-- A text is blank, or it is white space, a word and a rest that does not go on with the word. -/
theorem exists_first_word (cs : List Char) :
    (∀ c ∈ cs, isBlank c) ∨ ∃ blanks word rest, cs = blanks ++ (word ++ rest) ∧
      (∀ c ∈ blanks, isBlank c) ∧ word ≠ [] ∧ (∀ c ∈ word, isBlank c = false) ∧
        ∀ c ∈ rest.head?, isBlank c := by
  by_cases hvisible : visible cs = []
  · exact .inl (visible_eq_nil_iff.mp hvisible)
  · obtain ⟨blanks, c, tail, rfl, hblanks, hc⟩ := exists_visible hvisible
    refine .inr ⟨blanks, c :: tail.takeWhile (!isBlank ·), tail.dropWhile (!isBlank ·), ?_, hblanks,
      List.cons_ne_nil _ _, ?_, ?_⟩
    · rw [List.cons_append, List.takeWhile_append_dropWhile]
    · intro d hd
      rcases List.mem_cons.mp hd with rfl | hd
      · exact hc
      · simpa using List.mem_takeWhile_imp hd
    · intro d hd
      simpa using head?_dropWhile hd

/-- A text is read word by word. -/
theorem words_induction {motive : List Char → Prop}
    (blank : ∀ cs, (∀ c ∈ cs, isBlank c) → motive cs)
    (word : ∀ blanks word rest, (∀ c ∈ blanks, isBlank c) → word ≠ [] →
      (∀ c ∈ word, isBlank c = false) → (∀ c ∈ rest.head?, isBlank c) → motive rest →
        motive (blanks ++ (word ++ rest)))
    (cs : List Char) : motive cs := by
  induction hn : cs.length using Nat.strong_induction_on generalizing cs with
  | h n ih =>
      rcases exists_first_word cs with hblank | ⟨blanks, first, rest, rfl, hblanks, hne, hfirst, hrest⟩
      · exact blank cs hblank
      · refine word blanks first rest hblanks hne hfirst hrest (ih rest.length ?_ rest rfl)
        have hpos := List.length_pos_iff.mpr hne
        simp only [List.length_append] at hn
        omega

theorem words_of_blank {cs : List Char} (h : ∀ c ∈ cs, isBlank c) : words cs = [] := by
  have hwords := words_blank_append h []
  rwa [List.append_nil, words_nil] at hwords

/-- White space between two texts separates their words. -/
theorem words_append_cons {blank : Char} (h : isBlank blank) (xs ys : List Char) :
    words (xs ++ blank :: ys) = words xs ++ words ys := by
  induction xs using words_induction with
  | blank xs hblank =>
      rw [words_blank_append hblank, words_cons_of_blank h, words_of_blank hblank, List.nil_append]
  | word blanks word rest hblanks hne hword hrest ih =>
      have hrest' : ∀ c ∈ (rest ++ blank :: ys).head?, isBlank c := by
        intro c hc
        cases rest with
        | nil =>
            cases hc
            exact h
        | cons d rest => exact hrest c hc
      calc
        words (blanks ++ (word ++ rest) ++ blank :: ys) = words (word ++ (rest ++ blank :: ys)) := by
          rw [List.append_assoc, List.append_assoc, words_blank_append hblanks]
        _ = word :: (words rest ++ words ys) := by rw [words_word_append hne hword hrest', ih]
        _ = words (blanks ++ (word ++ rest)) ++ words ys := by
          rw [words_blank_append hblanks, words_word_append hne hword hrest, List.cons_append]

theorem words_append_blank {blanks : List Char} (h : ∀ c ∈ blanks, isBlank c) (cs : List Char) :
    words (cs ++ blanks) = words cs := by
  cases blanks with
  | nil => rw [List.append_nil]
  | cons blank blanks =>
      rw [words_append_cons (h blank List.mem_cons_self),
        words_of_blank fun c hc => h c (List.mem_cons_of_mem _ hc), List.append_nil]

/-- White space at the two ends of a text belongs to no word. -/
theorem words_trim (cs : List Char) : words (trim cs) = words cs := by
  have hblanks : ∀ c ∈ cs.takeWhile isBlank, isBlank c := fun c hc => List.mem_takeWhile_imp hc
  have hstart : ∀ c ∈ (cs.dropWhile isBlank).head?, isBlank c = false := fun c hc => head?_dropWhile hc
  obtain ⟨ending, hsplit, hending⟩ := exists_trim_append hstart
  have htrim := trim_blank_append hblanks (cs.dropWhile isBlank)
  have hwords := words_blank_append hblanks (cs.dropWhile isBlank)
  rw [List.takeWhile_append_dropWhile] at htrim hwords
  calc
    words (trim cs) = words (trim (cs.dropWhile isBlank) ++ ending) := by
      rw [htrim, words_append_blank hending]
    _ = words cs := by rw [← hsplit, hwords]

/-! ## What words are -/

theorem isBlank_of_mem_words {cs letters : List Char} (h : letters ∈ words cs) :
    ∀ c ∈ letters, isBlank c = false := by
  induction cs using words_induction with
  | blank cs hblank =>
      rw [words_of_blank hblank] at h
      cases h
  | word blanks word rest hblanks hne hword hrest ih =>
      rw [words_blank_append hblanks, words_word_append hne hword hrest] at h
      rcases List.mem_cons.mp h with rfl | hmem
      · exact hword
      · exact ih hmem

theorem isBlank_eq_false_of_all {cs : List Char} (h : cs.all (!isBlank ·)) :
    ∀ c ∈ cs, isBlank c = false := by
  simpa using h

theorem newline_not_mem_of_visible {cs : List Char} (h : ∀ c ∈ cs, isBlank c = false) : '\n' ∉ cs := by
  intro hmem
  exact absurd (h _ hmem) (by decide)

/-- The words of a text, each as a text. -/
def wordsOf (cs : List Char) : List String :=
  (words cs).map String.ofList

theorem wordsOf_append_cons {blank : Char} (h : isBlank blank) (xs ys : List Char) :
    wordsOf (xs ++ blank :: ys) = wordsOf xs ++ wordsOf ys := by
  rw [wordsOf, words_append_cons h, List.map_append, wordsOf, wordsOf]

theorem wordsOf_of_visible {word : String} (hne : word ≠ "")
    (hword : ∀ c ∈ word.toList, isBlank c = false) : wordsOf word.toList = [word] := by
  have hlist : word.toList ≠ [] := by simpa using hne
  rw [wordsOf, words_of_visible hlist hword, List.map_singleton, String.ofList_toList]

theorem isBlank_of_mem_wordsOf {cs : List Char} {word : String} (h : word ∈ wordsOf cs) :
    ∀ c ∈ word.toList, isBlank c = false := by
  obtain ⟨letters, hletters, rfl⟩ := List.mem_map.mp h
  rw [String.toList_ofList]
  exact isBlank_of_mem_words hletters

end ImageTrust.Text
