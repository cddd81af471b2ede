import ImageTrust.Proofs.Yaml.Scanning
import ImageTrust.Yaml.Grammar

/-! # The faults of tokens

Where tokens make up no document, they are malformed or cut short by a fault.
-/

namespace ImageTrust.Yaml

variable {α β : Type}

/-- A step that goes on to a rest of the tokens, unless they are malformed or it comes to a fault. -/
def Consumes (m : Grammar α) : Prop :=
  ∀ c : GrammarState, Ends (fun r => r.2.tokens <:+ c.tokens)
    (fun fault => fault = .malformed ∨ .fault fault ∈ c.tokens) (m.run c)

namespace Consumes

/-! ## Single steps -/

theorem pure (a : α) : Consumes (pure a : Grammar α) :=
  fun c => List.suffix_refl c.tokens

theorem malformed : Consumes (Grammar.malformed : Grammar α) :=
  fun _ => .inl rfl

theorem bind {m : Grammar α} {next : α → Grammar β} (hm : Consumes m)
    (hnext : ∀ a, Consumes (next a)) : Consumes (m >>= next) := by
  intro c
  refine Ends.bind (hm c) fun r hr => ?_
  refine (hnext r.1 r.2).mono (fun _ h => h.trans hr) ?_
  rintro fault (rfl | hmem)
  · exact .inl rfl
  · exact .inr (hr.subset hmem)

theorem get : Consumes (get : Grammar GrammarState) :=
  fun c => List.suffix_refl c.tokens

theorem modify {f : GrammarState → GrammarState} (hf : ∀ c, (f c).tokens = c.tokens) :
    Consumes (modify f : Grammar Unit) :=
  fun c => (hf c).symm ▸ List.suffix_refl c.tokens

theorem ite {p : Prop} [Decidable p] {m n : Grammar α} (hm : Consumes m) (hn : Consumes n) :
    Consumes (if p then m else n) := by
  split
  · exact hm
  · exact hn

theorem advance : Consumes Grammar.advance :=
  fun c => List.drop_suffix 1 c.tokens

theorem peek : Consumes Grammar.peek := by
  rintro ⟨tokens, handles, anchors, collections, count⟩
  cases tokens with
  | nil => exact List.suffix_refl []
  | cons t rest =>
      cases t with
      | fault fault => exact .inr List.mem_cons_self
      | _ => exact List.suffix_refl _

theorem nextIs (ts : List Token) : Consumes (Grammar.nextIs ts) :=
  peek.bind fun _ => pure _

theorem expect (t : Token) : Consumes (Grammar.expect t) :=
  (nextIs [t]).bind fun _ => ite advance malformed

/-! ## Nodes -/

theorem readProperties : Consumes Grammar.readProperties := by
  refine peek.bind fun t => ?_
  split
  · refine advance.bind fun _ => peek.bind fun t => ?_
    split
    · exact advance.bind fun _ => pure _
    · exact pure _
  · refine advance.bind fun _ => peek.bind fun t => ?_
    split
    · exact advance.bind fun _ => pure _
    · exact pure _
  · exact pure _

theorem expandTag (tag : Option (Option String × String)) : Consumes (Grammar.expandTag tag) := by
  unfold Grammar.expandTag
  split
  · exact pure _
  · exact pure _
  · refine get.bind fun c => ?_
    split
    · exact pure _
    · exact malformed

theorem checkAnchor (anchor : Option String) : Consumes (Grammar.checkAnchor anchor) := by
  unfold Grammar.checkAnchor
  split
  · exact pure _
  · exact get.bind fun c => ite malformed (pure _)

theorem setAnchor (anchor : Option String) (item : Item) : Consumes (Grammar.setAnchor anchor item) := by
  unfold Grammar.setAnchor
  split
  · exact pure _
  · exact modify fun _ => rfl

theorem leaf (anchor tag : Option String) (plain : Bool) (text : String) :
    Consumes (Grammar.leaf anchor tag plain text) :=
  (checkAnchor anchor).bind fun _ => get.bind fun _ => (setAnchor anchor _).bind fun _ => pure _

theorem collection (anchor : Option String) {contents : Grammar Collection} (h : Consumes contents) :
    Consumes (Grammar.collection anchor contents) := by
  refine (checkAnchor anchor).bind fun _ => get.bind fun c => ?_
  refine bind (modify ?_) fun _ => (setAnchor anchor _).bind fun _ => h.bind fun _ =>
    bind (modify ?_) fun _ => pure _
  · exact fun _ => rfl
  · exact fun _ => rfl

theorem emptyNode (anchor tag : Option String) : Consumes (Grammar.emptyNode anchor tag) := by
  unfold Grammar.emptyNode
  exact ite (leaf _ _ _ _) malformed

/-- The steps that read nodes with a given bound. -/
structure Nodes (bound : Nat) : Prop where
  node (block indentless : Bool) : Consumes (Grammar.node bound block indentless)
  nodeUnless (ends : List Token) (block indentless : Bool) :
    Consumes (Grammar.nodeUnless bound ends block indentless)
  blockItems : Consumes (Grammar.blockItems bound)
  indentlessItems : Consumes (Grammar.indentlessItems bound)
  blockEntries : Consumes (Grammar.blockEntries bound)
  blockValue : Consumes (Grammar.blockValue bound)
  flowItems (first : Bool) : Consumes (Grammar.flowItems bound first)
  flowEntries (first : Bool) : Consumes (Grammar.flowEntries bound first)
  flowValue (close : Token) : Consumes (Grammar.flowValue bound close)

variable {bound : Nat}

theorem Nodes.node_succ (h : Nodes bound) (block indentless : Bool) :
    Consumes (Grammar.node (bound + 1) block indentless) := by
  unfold Grammar.node
  refine peek.bind fun t => ?_
  split
  · refine advance.bind fun _ => get.bind fun c => ?_
    split
    · exact pure _
    · exact malformed
  · refine readProperties.bind fun properties => (expandTag _).bind fun tag => ?_
    have hsequence : ∀ {items : Grammar (List Item)}, Consumes items →
        Consumes (Grammar.collection properties.anchor do
          return .sequence (Grammar.collectionTag tag .seq) (← items)) :=
      fun hitems => collection _ (hitems.bind fun _ => pure _)
    have hmapping : ∀ {entries : Grammar (List (Item × Item))}, Consumes entries →
        Consumes (Grammar.collection properties.anchor do
          return .mapping (Grammar.collectionTag tag .map) (← entries)) :=
      fun hentries => collection _ (hentries.bind fun _ => pure _)
    refine peek.bind fun t => ?_
    split
    · exact ite (hsequence h.indentlessItems) (emptyNode _ _)
    · exact (leaf _ _ _ _).bind fun _ => advance.bind fun _ => pure _
    · exact advance.bind fun _ => hsequence (h.flowItems true)
    · exact advance.bind fun _ => hmapping (h.flowEntries true)
    · exact ite (advance.bind fun _ => hsequence h.blockItems) (emptyNode _ _)
    · exact ite (advance.bind fun _ => hmapping h.blockEntries) (emptyNode _ _)
    · exact emptyNode _ _

theorem Nodes.flowItem (h : Nodes bound) :
    Consumes (do
      match ← Grammar.peek with
      | .flowSequenceEnd =>
        Grammar.advance
        return []
      | .key =>
        let item ← Grammar.collection none do
          Grammar.advance
          let key ← Grammar.nodeUnless bound [.value, .flowEntry, .flowSequenceEnd] false false
          let value ← Grammar.flowValue bound .flowSequenceEnd
          return .mapping .map [(key, value)]
        return item :: (← Grammar.flowItems bound false)
      | _ =>
        let item ← Grammar.node bound false false
        return item :: (← Grammar.flowItems bound false)) := by
  refine peek.bind fun t => ?_
  split
  · exact advance.bind fun _ => pure _
  · refine bind (collection none ?_) fun _ => (h.flowItems false).bind fun _ => pure _
    exact advance.bind fun _ => (h.nodeUnless _ _ _).bind fun _ => (h.flowValue _).bind fun _ => pure _
  · exact (h.node false false).bind fun _ => (h.flowItems false).bind fun _ => pure _

theorem Nodes.flowItems_succ (h : Nodes bound) (first : Bool) :
    Consumes (Grammar.flowItems (bound + 1) first) := by
  unfold Grammar.flowItems
  refine (nextIs _).bind fun _ => ite (advance.bind fun _ => pure _) ?_
  split
  · exact h.flowItem
  · exact (expect _).bind fun _ => h.flowItem

theorem Nodes.flowEntry (h : Nodes bound) :
    Consumes (do
      match ← Grammar.peek with
      | .flowMappingEnd =>
        Grammar.advance
        return []
      | .key =>
        Grammar.advance
        let key ← Grammar.nodeUnless bound [.value, .flowEntry, .flowMappingEnd] false false
        let value ← Grammar.flowValue bound .flowMappingEnd
        return (key, value) :: (← Grammar.flowEntries bound false)
      | _ =>
        let key ← Grammar.node bound false false
        return (key, Grammar.empty) :: (← Grammar.flowEntries bound false)) := by
  refine peek.bind fun t => ?_
  split
  · exact advance.bind fun _ => pure _
  · exact advance.bind fun _ => (h.nodeUnless _ _ _).bind fun _ => (h.flowValue _).bind fun _ =>
      (h.flowEntries false).bind fun _ => pure _
  · exact (h.node false false).bind fun _ => (h.flowEntries false).bind fun _ => pure _

theorem Nodes.flowEntries_succ (h : Nodes bound) (first : Bool) :
    Consumes (Grammar.flowEntries (bound + 1) first) := by
  unfold Grammar.flowEntries
  refine (nextIs _).bind fun _ => ite (advance.bind fun _ => pure _) ?_
  split
  · exact h.flowEntry
  · exact (expect _).bind fun _ => h.flowEntry

theorem Nodes.succ (h : Nodes bound) : Nodes (bound + 1) where
  node := h.node_succ
  nodeUnless ends block indentless := by
    unfold Grammar.nodeUnless
    exact (nextIs ends).bind fun _ => ite (pure _) (h.node block indentless)
  blockItems := by
    unfold Grammar.blockItems
    refine (nextIs _).bind fun _ => ite ?_ ((expect _).bind fun _ => pure _)
    exact advance.bind fun _ => (h.nodeUnless _ _ _).bind fun _ => h.blockItems.bind fun _ => pure _
  indentlessItems := by
    unfold Grammar.indentlessItems
    refine (nextIs _).bind fun _ => ite ?_ (pure _)
    exact advance.bind fun _ => (h.nodeUnless _ _ _).bind fun _ => h.indentlessItems.bind fun _ => pure _
  blockEntries := by
    unfold Grammar.blockEntries
    refine (nextIs _).bind fun _ => ite ?_ ((expect _).bind fun _ => pure _)
    exact advance.bind fun _ => (h.nodeUnless _ _ _).bind fun _ => h.blockValue.bind fun _ =>
      h.blockEntries.bind fun _ => pure _
  blockValue := by
    unfold Grammar.blockValue
    exact (nextIs _).bind fun _ => ite (advance.bind fun _ => h.nodeUnless _ _ _) (pure _)
  flowItems := h.flowItems_succ
  flowEntries := h.flowEntries_succ
  flowValue close := by
    unfold Grammar.flowValue
    exact (nextIs _).bind fun _ => ite (advance.bind fun _ => h.nodeUnless _ _ _) (pure _)

theorem nodes (bound : Nat) : Nodes bound := by
  induction bound with
  | zero => constructor <;> intros <;> exact malformed
  | succ bound ih => exact ih.succ

/-! ## Documents -/

theorem directives (bound : Nat) (versioned : Bool) (handles : List (String × String)) :
    Consumes (Grammar.directives bound versioned handles) := by
  induction bound generalizing versioned handles with
  | zero => exact malformed
  | succ bound ih =>
      unfold Grammar.directives
      refine peek.bind fun t => ?_
      split
      · refine advance.bind fun _ => ?_
        split
        · exact ite malformed (ih _ _)
        · exact ite malformed (ih _ _)
        · exact ih _ _
      · exact pure _

theorem skipDocumentEnds (bound : Nat) : Consumes (Grammar.skipDocumentEnds bound) := by
  induction bound with
  | zero => exact pure _
  | succ bound ih => exact (nextIs _).bind fun _ => ite (advance.bind fun _ => ih) (pure _)

theorem documentStart (bound : Nat) : Consumes (Grammar.documentStart bound) := by
  refine (skipDocumentEnds bound).bind fun _ => (nextIs _).bind fun _ => ite (pure _) ?_
  refine (directives _ _ _).bind fun handles => (expect _).bind fun _ => bind (modify ?_) fun _ => pure _
  exact fun _ => rfl

theorem root (bound : Nat) : Consumes (Grammar.root bound) := by
  have hnode : Consumes (do return some (← Grammar.node bound true false)) :=
    ((nodes bound).node true false).bind fun _ => pure _
  refine peek.bind fun t => ite hnode ((documentStart bound).bind fun _ => ite ?_ (pure _))
  exact peek.bind fun t => ite (pure _) hnode

theorem single (bound : Nat) : Consumes (Grammar.single bound) := by
  refine (root bound).bind fun item => ?_
  split
  · exact pure _
  · exact (documentStart bound).bind fun _ => ite malformed (pure _)

end Consumes

/-- A text that cannot be read is malformed or has an escape that is no character. -/
theorem textFault_of_read?_eq_error {text : String} {fault : Fault}
    (h : Document.read? text = .error fault) : TextFault text.toList fault := by
  have hread : Ends (fun _ => True) (fun fault => fault = .malformed ∨ .fault fault ∈ tokens text.toList)
      (Document.read? text) :=
    Ends.bind ((Consumes.single _ ⟨tokens text.toList, Grammar.defaultHandles, [], [], 0⟩).mono
      (fun _ _ => trivial) fun _ => id) fun _ _ => trivial
  rw [h] at hread
  rcases hread with rfl | hmem
  · exact .inl rfl
  · exact textFault_of_mem_tokens hmem

end ImageTrust.Yaml
