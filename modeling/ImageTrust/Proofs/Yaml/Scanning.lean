import ImageTrust.Proofs.Yaml.Readers
import ImageTrust.Yaml.TokenStream
import Mathlib.Data.List.InsertIdx

/-! # The faults of a text

Where a text cannot be cut into tokens, it is malformed or has an escape that is no character.
-/

namespace ImageTrust.Yaml

/-- A state between two tokens of a text: what is left is a rest of the text, and no token so far is a
fault. -/
structure ScanOf (cs : List Char) (s : Scan) : Prop where
  rest : s.rest <:+ cs
  tokens : ∀ t ∈ s.tokens, t.fault? = none

/-- A step from one such state to the next. -/
abbrev Scans (cs : List Char) (x : Except Fault Scan) : Prop :=
  Ends (ScanOf cs) (TextFault cs) x

namespace ScanOf

variable {cs : List Char} {s : Scan}

theorem congr (h : ScanOf cs s) {s' : Scan} (hrest : s'.rest = s.rest) (htokens : s'.tokens = s.tokens) :
    ScanOf cs s' := by
  refine ⟨?_, ?_⟩
  · rw [hrest]
    exact h.rest
  · rw [htokens]
    exact h.tokens

/-! ## Moving on -/

theorem goTo (h : ScanOf cs s) {rest : List Char} (hrest : rest <:+ cs) : ScanOf cs (s.goTo rest) :=
  ⟨hrest, h.tokens⟩

theorem add (h : ScanOf cs s) {t : Token} (ht : t.fault? = none) : ScanOf cs (s.add t) := by
  refine ⟨h.rest, fun u hu => ?_⟩
  rcases List.mem_cons.mp hu with rfl | hu
  · exact ht
  · exact h.tokens u hu

theorem take (h : ScanOf cs s) (count : Nat) {t : Token} (ht : t.fault? = none) :
    ScanOf cs (s.take count t) :=
  (h.goTo ((List.drop_suffix count s.rest).trans h.rest)).add ht

theorem insert (h : ScanOf cs s) (position : Nat) {t : Token} (ht : t.fault? = none) :
    ScanOf cs (s.insert position t) := by
  refine ⟨h.rest, fun u hu => ?_⟩
  rcases List.eq_or_mem_of_mem_insertIdx hu with rfl | hu
  · exact ht
  · exact h.tokens u hu

/-- What is skipped of a line goes on with the next line. -/
theorem skipLine_suffix {bound : Nat} (hskip : ∀ cs, (Scan.skipGap bound cs).1 <:+ cs)
    {cs rest : List Char} (hrest : rest <:+ cs) :
    (match lineBreak? rest with
      | some (_, rest) => ((Scan.skipGap bound rest).1, true)
      | none => (rest, false)).1 <:+ cs := by
  split
  · next hbreak => exact (hskip _).trans ((lineBreak?_suffix hbreak).trans hrest)
  · exact hrest

theorem skipGap_suffix (bound : Nat) (cs : List Char) : (Scan.skipGap bound cs).1 <:+ cs := by
  induction bound generalizing cs with
  | zero => exact List.suffix_refl cs
  | succ bound ih => exact skipLine_suffix ih (endOfLine_suffix cs)

theorem skipToToken (h : ScanOf cs s) : ScanOf cs s.skipToToken := by
  have hgap : ∀ cs', cs' <:+ cs → ScanOf cs (s.goTo (Scan.skipGap (cs'.length + 1) cs').1) :=
    fun cs' hcs' => h.goTo ((skipGap_suffix _ cs').trans hcs')
  refine (hgap (if s.mark.index = 0 && s.rest.head? = some '\uFEFF' then s.rest.drop 1 else s.rest)
    ?_).congr rfl rfl
  split
  · exact (List.drop_suffix 1 s.rest).trans h.rest
  · exact h.rest

/-! ## Possible keys and indentation -/

theorem dropStaleKeys (h : ScanOf cs s) : Scans cs s.dropStaleKeys := by
  unfold Scan.dropStaleKeys
  split
  · exact .inl rfl
  · exact h.congr rfl rfl

theorem dropKey (h : ScanOf cs s) : Scans cs s.dropKey := by
  unfold Scan.dropKey
  split
  · exact .inl rfl
  · exact h.congr rfl rfl

theorem markKey (h : ScanOf cs s) : Scans cs s.markKey := by
  unfold Scan.markKey
  split
  · exact Ends.bind h.dropKey fun s h => h.congr rfl rfl
  · exact h

theorem unwind_go (h : ScanOf cs s) {column : Int} (outer : List Int) (indent : Int)
    {tokens : List Token} (htokens : ∀ t ∈ tokens, t.fault? = none) :
    ScanOf cs (Scan.unwind.go s column outer indent tokens) := by
  induction outer generalizing indent tokens with
  | nil =>
      unfold Scan.unwind.go
      split <;> exact ⟨h.rest, htokens⟩
  | cons next outer ih =>
      unfold Scan.unwind.go
      split
      · exact ih next (by simpa [Token.fault?] using htokens)
      · exact ⟨h.rest, htokens⟩

theorem unwind (h : ScanOf cs s) (column : Int) : ScanOf cs (s.unwind column) := by
  unfold Scan.unwind
  split
  · exact h
  · exact h.unwind_go _ _ h.tokens

/-! ## Kinds of tokens -/

theorem streamEnd (h : ScanOf cs s) : Scans cs s.streamEnd := by
  refine Ends.bind (h.unwind (-1)).dropKey fun s h => ?_
  exact (h.add rfl).congr rfl rfl

theorem addToken (h : ScanOf cs s) {x : Except Fault (Token × List Char)} (hx : ReadsToken cs x) :
    Scans cs (do
      let (token, rest) ← x
      return { (s.goTo rest).add token with keyAllowed := false }) := by
  refine Ends.bind hx fun r hr => ?_
  exact ((h.goTo hr.1).add hr.2).congr rfl rfl

theorem directive (h : ScanOf cs s) : Scans cs s.directive := by
  refine Ends.bind (h.unwind (-1)).dropKey fun s h => ?_
  exact h.addToken ((readsToken_readDirective _).mono ((List.drop_suffix 1 s.rest).trans h.rest))

theorem documentMark (h : ScanOf cs s) {token : Token} (ht : token.fault? = none) :
    Scans cs (s.documentMark token) := by
  refine Ends.bind (h.unwind (-1)).dropKey fun s h => ?_
  exact (h.take 3 ht).congr rfl rfl

theorem flowStart (h : ScanOf cs s) {token : Token} (ht : token.fault? = none) :
    Scans cs (s.flowStart token) := by
  refine Ends.bind h.markKey fun s h => ?_
  exact (h.take 1 ht).congr rfl rfl

theorem flowEnd (h : ScanOf cs s) {token : Token} (ht : token.fault? = none) :
    Scans cs (s.flowEnd token) := by
  refine Ends.bind h.dropKey fun s h => ?_
  exact (h.take 1 ht).congr rfl rfl

theorem flowEntry (h : ScanOf cs s) : Scans cs s.flowEntry := by
  refine Ends.bind h.dropKey fun s h => ?_
  exact (h.take 1 rfl).congr rfl rfl

theorem openBlock (h : ScanOf cs s) {token : Token} (ht : token.fault? = none) :
    Scans cs (s.openBlock token) := by
  unfold Scan.openBlock
  split
  · exact h
  · split
    · exact .inl rfl
    · split
      · have hopen : ScanOf cs (s.openAt s.mark.column) := h.congr rfl rfl
        exact hopen.add ht
      · exact h

theorem blockEntry (h : ScanOf cs s) : Scans cs s.blockEntry := by
  refine Ends.bind (h.openBlock rfl) fun s h => ?_
  refine Ends.bind h.dropKey fun s h => ?_
  exact (h.take 1 rfl).congr rfl rfl

theorem explicitKey (h : ScanOf cs s) : Scans cs s.explicitKey := by
  refine Ends.bind (h.openBlock rfl) fun s h => ?_
  refine Ends.bind h.dropKey fun s h => ?_
  exact (h.take 1 rfl).congr rfl rfl

theorem value (h : ScanOf cs s) : Scans cs s.value := by
  unfold Scan.value
  split
  · next k _ =>
      have hkey : ∀ keys, ScanOf cs ({ s with keys }.insert k.position .key) :=
        fun keys => ScanOf.insert (s := { s with keys }) (h.congr rfl rfl) k.position rfl
      have hopen : ∀ keys, ScanOf cs (({ s with keys }.insert k.position .key).openAt k.mark.column) :=
        fun keys => (hkey keys).congr rfl rfl
      dsimp only
      split
      · exact (((hopen _).insert k.position rfl).take 1 rfl).congr rfl rfl
      · exact ((hkey _).take 1 rfl).congr rfl rfl
  · refine Ends.bind (h.openBlock rfl) fun s h => ?_
    refine Ends.bind h.dropKey fun s h => ?_
    exact (h.take 1 rfl).congr rfl rfl

theorem node (h : ScanOf cs s) {read : List Char → Except Fault (Token × List Char)}
    (hread : ∀ cs, ReadsToken cs (read cs)) : Scans cs (s.node read) := by
  refine Ends.bind h.markKey fun s h => ?_
  exact h.addToken ((hread _).mono ((List.drop_suffix 1 s.rest).trans h.rest))

theorem blockScalar (h : ScanOf cs s) (folded : Bool) : Scans cs (s.blockScalar folded) := by
  refine Ends.bind h.dropKey fun s h => ?_
  have hread := (reads_blockScalar folded s.indent _).mono ((List.drop_suffix 1 s.rest).trans h.rest)
  refine Reads.bind hread fun text rest hrest => ?_
  exact ((h.goTo hrest).add rfl).congr rfl rfl

theorem plain (h : ScanOf cs s) : Scans cs s.plain := by
  refine Ends.bind h.markKey fun s h => ?_
  dsimp only
  split
  · exact .inl rfl
  · next scalar hscalar =>
      have hrest := (plainScalar?_suffix hscalar).trans h.rest
      exact ((h.goTo hrest).add rfl).congr rfl rfl

theorem readsToken_readAlias (cs : List Char) : ReadsToken cs (Scan.readAlias cs) :=
  (reads_readAnchor cs).token fun _ => rfl

theorem readsToken_readAnchorToken (cs : List Char) : ReadsToken cs (Scan.readAnchorToken cs) :=
  (reads_readAnchor cs).token fun _ => rfl

theorem readsToken_readSingle (cs : List Char) : ReadsToken cs (Scan.readSingle cs) :=
  (reads_singleQuoted _ cs).token (f := fun text => .scalar (String.ofList text) false) fun _ => rfl

theorem readsToken_readDouble (cs : List Char) : ReadsToken cs (Scan.readDouble cs) :=
  (reads_doubleQuoted _ cs).token (f := fun text => .scalar (String.ofList text) false) fun _ => rfl

/-! ## One token -/

theorem token (h : ScanOf cs s) : Scans cs s.token := by
  unfold Scan.token
  split
  · exact h.streamEnd
  · refine .ite h.directive ?_
    refine .ite (h.documentMark rfl) ?_
    refine .ite (h.documentMark rfl) ?_
    refine .ite (h.flowStart rfl) ?_
    refine .ite (h.flowStart rfl) ?_
    refine .ite (h.flowEnd rfl) ?_
    refine .ite (h.flowEnd rfl) ?_
    refine .ite h.flowEntry ?_
    refine .ite h.blockEntry ?_
    refine .ite h.explicitKey ?_
    refine .ite h.value ?_
    refine .ite (h.node readsToken_readAlias) ?_
    refine .ite (h.node readsToken_readAnchorToken) ?_
    refine .ite (h.node readsToken_readTag) ?_
    refine .ite (h.blockScalar false) ?_
    refine .ite (h.blockScalar true) ?_
    refine .ite (h.node readsToken_readSingle) ?_
    refine .ite (h.node readsToken_readDouble) ?_
    exact .ite h.plain (.inl rfl)

theorem next (h : ScanOf cs s) : Scans cs s.next :=
  Ends.bind h.skipToToken.dropStaleKeys fun s h => (h.unwind s.mark.column).token

/-! ## All tokens -/

theorem mem_run {bound : Nat} (h : ScanOf cs s) {fault : Fault} (hmem : .fault fault ∈ s.run bound) :
    TextFault cs fault := by
  induction bound generalizing s with
  | zero =>
      unfold Scan.run at hmem
      split at hmem
      · cases h.tokens _ (List.mem_reverse.mp hmem)
      · simp only [List.mem_singleton, Token.fault.injEq] at hmem
        exact .inl hmem
  | succ bound ih =>
      have hnext := h.next
      unfold Scan.run at hmem
      split at hmem
      · cases h.tokens _ (List.mem_reverse.mp hmem)
      · dsimp only at hmem
        split at hmem
        · next heq =>
            rw [heq] at hnext
            exact ih hnext hmem
        · next fault' heq =>
            rw [heq] at hnext
            -- the fault is the one that ends the tokens: those before it are of the invariant
            rcases List.mem_append.mp hmem with hcertain | hlast
            · cases h.tokens _ (List.mem_reverse.mp (List.mem_of_mem_take hcertain))
            · simp only [List.mem_singleton, Token.fault.injEq] at hlast
              exact hlast ▸ hnext

end ScanOf

/-- The fault that cuts the tokens of a text short is one of the text. -/
theorem textFault_of_mem_tokens {cs : List Char} {fault : Fault} (h : .fault fault ∈ tokens cs) :
    TextFault cs fault := by
  unfold tokens at h
  split at h
  · exact ScanOf.mem_run ⟨List.suffix_refl cs, List.forall_mem_nil _⟩ h
  · simp only [List.mem_singleton, Token.fault.injEq] at h
    exact .inl h

end ImageTrust.Yaml
