import ImageTrust.Proofs.Yaml.Scanning

/-! # Progress

Every token but the last one takes at least one character, and the places in the text count what has
been passed. So the bound on the steps does not matter.
-/

namespace ImageTrust.Yaml

/-! ## Places -/

theorem Mark.after_index (m : Mark) (c : Char) (next : Option Char) :
    (m.after c next).index = m.index + 1 := by
  unfold Mark.after
  split
  · rfl
  · split <;> rfl

theorem Mark.advance_index (m : Mark) {count : ℕ} {cs : List Char} (h : count ≤ cs.length) :
    (m.advance count cs).index = m.index + count := by
  induction count generalizing m cs with
  | zero => rfl
  | succ count ih =>
      cases cs with
      | nil => cases h
      | cons c cs =>
          rw [Mark.advance, ih _ (Nat.le_of_succ_le_succ h), Mark.after_index]
          omega

namespace Scan

variable {s t u : Scan} {count : ℕ}

/-! ## Going on -/

/-- A state is in the same place as another one. -/
structure Stays (s t : Scan) : Prop where
  rest : t.rest = s.rest
  mark : t.mark = s.mark

/-- A state has passed at least `count` more characters than another one. -/
structure Passes (count : ℕ) (s t : Scan) : Prop where
  rest : t.rest <:+ s.rest.drop count
  index : t.mark.index + t.rest.length = s.mark.index + s.rest.length

/-- What a step gives if there is no fault. -/
abbrev Gives (P : Scan → Prop) (x : Except Fault Scan) : Prop :=
  Ends P (fun _ => True) x

theorem Stays.refl (s : Scan) : s.Stays s :=
  ⟨rfl, rfl⟩

theorem Stays.trans (h : s.Stays t) (h' : t.Stays u) : s.Stays u :=
  ⟨h'.rest.trans h.rest, h'.mark.trans h.mark⟩

theorem Stays.passes (h : s.Stays t) (h' : t.Passes count u) : s.Passes count u :=
  ⟨h.rest ▸ h'.rest, by rw [h'.index, h.rest, h.mark]⟩

theorem Passes.stays (h : s.Passes count t) (h' : t.Stays u) : s.Passes count u :=
  ⟨h'.rest ▸ h.rest, by rw [h'.rest, h'.mark, h.index]⟩

theorem passes_goTo {rest : List Char} (h : rest <:+ s.rest.drop count) :
    s.Passes count (s.goTo rest) := by
  have hle : rest.length ≤ s.rest.length := (h.trans (List.drop_suffix count s.rest)).length_le
  refine ⟨h, ?_⟩
  rw [goTo, Mark.advance_index s.mark (Nat.sub_le _ _)]
  dsimp only
  omega

theorem passes_take (count : ℕ) (t : Token) : s.Passes 1 (s.take (count + 1) t) := by
  have h : s.rest.drop (count + 1) <:+ s.rest.drop 1 := by
    rw [Nat.add_comm, ← List.drop_drop]
    exact List.drop_suffix count _
  exact ⟨(passes_goTo h).rest, (passes_goTo h).index⟩

theorem passes_skipToToken (s : Scan) : s.Passes 0 s.skipToToken := by
  have hgap : ∀ cs, cs <:+ s.rest → s.Passes 0 (s.goTo (skipGap (cs.length + 1) cs).1) :=
    fun cs hcs => passes_goTo ((ScanOf.skipGap_suffix _ cs).trans hcs)
  have hstart : (if s.mark.index = 0 && s.rest.head? = some '\uFEFF' then s.rest.drop 1 else s.rest) <:+
      s.rest := by
    split
    · exact List.drop_suffix 1 s.rest
    · exact List.suffix_refl _
  exact (hgap _ hstart).stays ⟨rfl, rfl⟩

/-! ## Possible keys and indentation -/

theorem stays_dropStaleKeys (s : Scan) : Gives s.Stays s.dropStaleKeys :=
  .ite trivial ⟨rfl, rfl⟩

theorem stays_dropKey (s : Scan) : Gives s.Stays s.dropKey :=
  .ite trivial ⟨rfl, rfl⟩

theorem stays_markKey (s : Scan) : Gives s.Stays s.markKey :=
  .ite (Ends.bind s.stays_dropKey fun _ h => h.trans ⟨rfl, rfl⟩) (.refl s)

theorem stays_unwind_go (s : Scan) (column : Int) (outer : List Int) (indent : Int)
    (tokens : List Token) : s.Stays (unwind.go s column outer indent tokens) := by
  induction outer generalizing indent tokens with
  | nil =>
      unfold unwind.go
      split <;> exact ⟨rfl, rfl⟩
  | cons next outer ih =>
      unfold unwind.go
      split
      · exact ih next _
      · exact ⟨rfl, rfl⟩

theorem stays_unwind (s : Scan) (column : Int) : s.Stays (s.unwind column) := by
  unfold unwind
  split
  · exact .refl s
  · exact s.stays_unwind_go column _ _ _

theorem stays_openBlock (s : Scan) (token : Token) : Gives s.Stays (s.openBlock token) :=
  .ite (.refl s) (.ite trivial (.ite ⟨rfl, rfl⟩ (.refl s)))

/-! ## Kinds of tokens -/

theorem finished_streamEnd (s : Scan) : Gives (fun t => t.finished = true) s.streamEnd :=
  Ends.bind (stays_dropKey _) fun _ _ => rfl

theorem passes_read {x : Except Fault (Token × List Char)} {cs : List Char} (h : s.Stays t)
    (hx : ReadsToken cs x) (hcs : cs <:+ t.rest.drop 1) : Gives (s.Passes 1) (do
      let (token, rest) ← x
      return { (t.goTo rest).add token with keyAllowed := false }) :=
  Ends.bind (Ends.mono hx (fun _ => id) fun _ _ => trivial) fun _ hr =>
    h.passes ((passes_goTo (hr.1.trans hcs)).stays ⟨rfl, rfl⟩)

theorem passes_directive (s : Scan) : Gives (s.Passes 1) s.directive :=
  Ends.bind (stays_dropKey _) fun _ h =>
    passes_read ((s.stays_unwind (-1)).trans h) (readsToken_readDirective _) (List.suffix_refl _)

theorem passes_documentMark (s : Scan) (token : Token) : Gives (s.Passes 1) (s.documentMark token) :=
  Ends.bind (stays_dropKey _) fun _ h =>
    ((s.stays_unwind (-1)).trans h).passes ((passes_take 2 token).stays ⟨rfl, rfl⟩)

theorem passes_flowStart (s : Scan) (token : Token) : Gives (s.Passes 1) (s.flowStart token) :=
  Ends.bind s.stays_markKey fun _ h => h.passes ((passes_take 0 token).stays ⟨rfl, rfl⟩)

theorem passes_flowEnd (s : Scan) (token : Token) : Gives (s.Passes 1) (s.flowEnd token) :=
  Ends.bind s.stays_dropKey fun _ h => h.passes ((passes_take 0 token).stays ⟨rfl, rfl⟩)

theorem passes_flowEntry (s : Scan) : Gives (s.Passes 1) s.flowEntry :=
  Ends.bind s.stays_dropKey fun _ h => h.passes ((passes_take 0 .flowEntry).stays ⟨rfl, rfl⟩)

theorem passes_blockEntry (s : Scan) : Gives (s.Passes 1) s.blockEntry :=
  Ends.bind (s.stays_openBlock .blockSequenceStart) fun t h => Ends.bind t.stays_dropKey fun _ h' =>
    (h.trans h').passes ((passes_take 0 .blockEntry).stays ⟨rfl, rfl⟩)

theorem passes_explicitKey (s : Scan) : Gives (s.Passes 1) s.explicitKey :=
  Ends.bind (s.stays_openBlock .blockMappingStart) fun t h => Ends.bind t.stays_dropKey fun _ h' =>
    (h.trans h').passes ((passes_take 0 .key).stays ⟨rfl, rfl⟩)

theorem passes_value (s : Scan) : Gives (s.Passes 1) s.value := by
  unfold value
  split
  · next k _ =>
      have htake : ∀ t : Scan, s.Stays t → s.Passes 1 { t.take 1 .value with keyAllowed := false } :=
        fun t h => h.passes ((passes_take 0 .value).stays ⟨rfl, rfl⟩)
      dsimp only
      split
      · exact htake _ ⟨rfl, rfl⟩
      · exact htake _ ⟨rfl, rfl⟩
  · refine Ends.bind (s.stays_openBlock .blockMappingStart) fun t h => ?_
    refine Ends.bind t.stays_dropKey fun _ h' => ?_
    exact (h.trans h').passes ((passes_take 0 .value).stays ⟨rfl, rfl⟩)

theorem passes_node (s : Scan) {read : List Char → Except Fault (Token × List Char)}
    (hread : ∀ cs, ReadsToken cs (read cs)) : Gives (s.Passes 1) (s.node read) :=
  Ends.bind s.stays_markKey fun _ h => passes_read h (hread _) (List.suffix_refl _)

theorem passes_blockScalar (s : Scan) (folded : Bool) : Gives (s.Passes 1) (s.blockScalar folded) :=
  Ends.bind s.stays_dropKey fun t h => Ends.bind
    (Ends.mono (reads_blockScalar folded t.indent (t.rest.drop 1)) (fun _ => id) fun _ _ => trivial)
    fun _ hr => h.passes ((passes_goTo hr).stays ⟨rfl, rfl⟩)

/-- A plain scalar has at least one character. -/
theorem plainScalar?_suffix_drop {bound : ℕ} {flow : Bool} {indent : Int} {cs : List Char}
    {scalar : PlainScalar} (h : plainScalar? bound flow indent cs = some scalar) :
    scalar.rest <:+ cs.drop 1 := by
  cases bound with
  | zero => cases h
  | succ bound =>
      have hrun : (plainRun flow cs).1.isEmpty = false → (plainRun flow cs).2 <:+ cs.drop 1 := by
        intro hrun
        cases cs with
        | nil => cases hrun
        | cons c rest =>
            unfold plainRun at hrun ⊢
            split at hrun
            · cases hrun
            · next hends =>
                rw [if_neg hends]
                exact plainRun_suffix flow rest
      unfold plainScalar? at h
      dsimp only at h
      split at h
      · cases h
      · next hempty =>
          have hgap := (plainGap_suffix (plainRun flow cs).2).trans (hrun (by simp_all))
          split at h
          · cases h
            exact hgap
          · split at h
            · cases h
              exact hgap
            · next hmore =>
                cases h
                exact (plainScalar?_suffix hmore).trans hgap

theorem passes_plain (s : Scan) : Gives (s.Passes 1) s.plain := by
  refine Ends.bind s.stays_markKey fun t h => ?_
  dsimp only
  split
  · exact trivial
  · next scalar hscalar =>
      exact h.passes ((passes_goTo (plainScalar?_suffix_drop hscalar)).stays ⟨rfl, rfl⟩)

/-! ## One token -/

theorem passes_token (s : Scan) :
    Gives (fun t => t.finished = true ∨ s.rest ≠ [] ∧ s.Passes 1 t) s.token := by
  unfold token
  split
  · exact Ends.mono s.finished_streamEnd (fun _ => .inl) fun _ => id
  · next c rest hrest =>
      refine Ends.mono (P := s.Passes 1) ?_ (fun t ht => .inr ⟨by simp [hrest], ht⟩) fun _ => id
      refine .ite s.passes_directive ?_
      refine .ite (s.passes_documentMark _) ?_
      refine .ite (s.passes_documentMark _) ?_
      refine .ite (s.passes_flowStart _) ?_
      refine .ite (s.passes_flowStart _) ?_
      refine .ite (s.passes_flowEnd _) ?_
      refine .ite (s.passes_flowEnd _) ?_
      refine .ite s.passes_flowEntry ?_
      refine .ite s.passes_blockEntry ?_
      refine .ite s.passes_explicitKey ?_
      refine .ite s.passes_value ?_
      refine .ite (s.passes_node ScanOf.readsToken_readAlias) ?_
      refine .ite (s.passes_node ScanOf.readsToken_readAnchorToken) ?_
      refine .ite (s.passes_node readsToken_readTag) ?_
      refine .ite (s.passes_blockScalar false) ?_
      refine .ite (s.passes_blockScalar true) ?_
      refine .ite (s.passes_node ScanOf.readsToken_readSingle) ?_
      refine .ite (s.passes_node ScanOf.readsToken_readDouble) ?_
      exact .ite s.passes_plain trivial

/-- Each step is the last one or goes on by at least one character. -/
theorem passes_next (s : Scan) :
    Gives (fun t => t.finished = true ∨ s.Passes 0 t ∧ t.rest.length < s.rest.length) s.next := by
  refine Ends.bind (stays_dropStaleKeys _) fun t ht => ?_
  have hunwound := (s.passes_skipToToken.stays ht).stays (t.stays_unwind t.mark.column)
  refine Ends.mono (passes_token _) (fun u hu => hu.imp_right fun ⟨hrest, hu⟩ => ?_) fun _ => id
  have hle := hunwound.rest.length_le
  have hlt := hu.rest.length_le
  have hpos := List.length_pos_iff.mpr hrest
  rw [List.length_drop] at hle hlt
  refine ⟨⟨?_, hu.index.trans hunwound.index⟩, by omega⟩
  exact (hu.rest.trans (List.drop_suffix 1 _)).trans hunwound.rest

/-! ## All tokens -/

theorem run_of_finished (h : s.finished = true) (bound : ℕ) : s.run bound = s.tokens.reverse := by
  unfold run
  rw [if_pos h]

/-- Any bounds above the number of characters that are left will do. -/
theorem run_eq_run {bound bound' : ℕ} (h : s.rest.length < bound) (h' : s.rest.length < bound') :
    s.run bound = s.run bound' := by
  induction bound generalizing s bound' with
  | zero => cases h
  | succ bound ih =>
      cases bound' with
      | zero => cases h'
      | succ bound' =>
          have hnext := s.passes_next
          unfold run
          split
          · rfl
          · dsimp only
            split
            · next t heq =>
                rw [heq] at hnext
                obtain hfinished | ⟨-, hlt⟩ := hnext
                · rw [run_of_finished hfinished, run_of_finished hfinished]
                · exact ih (by omega) (by omega)
            · rfl

end Scan

end ImageTrust.Yaml
