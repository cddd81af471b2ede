import ImageTrust.Proofs.Yaml.FlowTokens
import ImageTrust.Proofs.Yaml.Steps
import Mathlib.Data.List.Forall2

/-! # The document of a mapping in braces

The tokens of a mapping on one line make up a document in which every entry has its places.
-/

namespace ImageTrust.Yaml

/-! ## What the entries stand for -/

def FlowValue.toDatum : FlowValue → Datum
  | null => .null
  | .text t => .text t
  | list texts => .list (texts.map .text)

def textItem (text : String) : Item :=
  .leaf ⟨.str, text⟩

/-- The place of a value, if it is the `id`-th collection. -/
def FlowValue.item (id : Nat) : FlowValue → Item
  | null => .leaf ⟨.null, "null"⟩
  | .text t => textItem t
  | list _ => .node id

def FlowValue.collections (id : Nat) : FlowValue → List (Nat × Collection)
  | list texts => [(id, .sequence .seq (texts.map textItem))]
  | _ => []

/-- The entries of a mapping whose lists are numbered from `id` on. -/
def flowItems (id : Nat) : List (String × FlowValue) → List (Item × Item)
  | [] => []
  | (name, v) :: entries =>
    (textItem name, v.item id) :: flowItems (id + (v.collections id).length) entries

def flowCollections (id : Nat) : List (String × FlowValue) → List (Nat × Collection)
  | [] => []
  | (_, v) :: entries => flowCollections (id + (v.collections id).length) entries ++ v.collections id

def flowDocument (entries : List (String × FlowValue)) : Document where
  root := .node 0
  collections := (0, .mapping .map (flowItems 1 entries)) :: flowCollections 1 entries

/-! ## Reading the tokens -/

theorem length_le_length_entriesBetween (texts : List String) :
    texts.length ≤ (entriesBetween (texts.map fun text => [textToken text])).length := by
  cases texts with
  | nil => exact Nat.le_refl 0
  | cons text more =>
      have hmore : more.length ≤ (more.flatMap fun text => [.flowEntry, textToken text]).length := by
        induction more with
        | nil => exact Nat.le_refl 0
        | cons next more ih =>
            rw [List.flatMap_cons, List.length_append, List.length_cons, List.length_cons]
            omega
      rw [entriesBetween_map_cons, List.length_append, List.length_cons, List.length_singleton]
      omega

theorem length_entryTokens (e : String × FlowValue) :
    (entryTokens e).length = e.2.tokens.length + 3 :=
  rfl

namespace Grammar

variable {α β : Type} {bound id : Nat} {ts : List Token} {handles : List (String × String)}
  {anchors : List (String × Item)} {collections : List (Nat × Collection)}

/-- A scalar that is no equals sign. -/
theorem node_scalar {text : String} {plain : Bool} (htag : leafTag none plain text ≠ .value)
    (block indentless : Bool) :
    (node (bound + 1) block indentless).run ⟨.scalar text plain :: ts, handles, anchors, collections, id⟩ =
      .ok (.leaf ⟨leafTag none plain text, text⟩, ⟨ts, handles, anchors, collections, id⟩) := by
  have hitem : Item.ofScalar (ts.length + 1) ⟨leafTag none plain text, text⟩ =
      .leaf ⟨leafTag none plain text, text⟩ :=
    if_neg htag
  rw [← hitem]
  cases plain <;> rfl

/-- The texts after the first one of a list. -/
theorem flowItems_more {more : List String} (hbound : more.length + 2 ≤ bound) :
    (flowItems bound false).run ⟨(more.flatMap fun text => [.flowEntry, textToken text]) ++
        .flowSequenceEnd :: ts, handles, anchors, collections, id⟩ =
      .ok (more.map textItem, ⟨ts, handles, anchors, collections, id⟩) := by
  induction more generalizing bound with
  | nil =>
      obtain ⟨bound, rfl⟩ := Nat.exists_eq_add_of_le' hbound
      rfl
  | cons text more ih =>
      rw [List.length_cons] at hbound
      obtain ⟨bound, rfl⟩ := Nat.exists_eq_add_of_le' (show 2 ≤ bound by omega)
      exact run_bind_of_ok (ih (show more.length + 2 ≤ bound + 1 by omega))
        fun items => (pure (textItem text :: items) : Grammar (List Item))

section Readings

variable (id ts handles anchors collections)

theorem flowItems_texts {texts : List String} (hbound : texts.length + 2 ≤ bound) :
    (flowItems bound true).run ⟨entriesBetween (texts.map fun text => [textToken text]) ++
        .flowSequenceEnd :: ts, handles, anchors, collections, id⟩ =
      .ok (texts.map textItem, ⟨ts, handles, anchors, collections, id⟩) := by
  obtain ⟨bound, rfl⟩ := Nat.exists_eq_add_of_le' (show 2 ≤ bound by omega)
  cases texts with
  | nil => rfl
  | cons text more =>
      rw [entriesBetween_map_cons]
      rw [List.length_cons] at hbound
      exact run_bind_of_ok (flowItems_more (show more.length + 2 ≤ bound + 1 by omega))
        fun items => (pure (textItem text :: items) : Grammar (List Item))

/-- The value of an entry. -/
theorem node_value {v : FlowValue} (hbound : v.tokens.length + 2 ≤ bound) :
    (node bound false false).run ⟨v.tokens ++ ts, handles, anchors, collections, id⟩ =
      .ok (v.item id, ⟨ts, handles, anchors, v.collections id ++ collections,
        id + (v.collections id).length⟩) := by
  obtain ⟨bound, rfl⟩ := Nat.exists_eq_add_of_le' (show 1 ≤ bound by omega)
  cases v with
  | null =>
      have htag : leafTag none true "null" = .null := rfl
      rw [FlowValue.item, ← htag]
      exact node_scalar (by decide) false false
  | text t =>
      have htag : leafTag none false t ≠ .value := by
        change Tag.str ≠ .value
        decide
      exact node_scalar htag false false
  | list texts =>
      have hlength : texts.length + 2 ≤ bound := by
        have hmore := length_le_length_entriesBetween texts
        simp only [FlowValue.tokens, List.length_cons, List.length_append] at hbound
        omega
      have hitems := flowItems_texts (id + 1) ts handles anchors collections hlength
      rw [FlowValue.tokens, List.cons_append, List.cons_append, List.append_assoc]
      exact run_bind_of_ok (run_bind_of_ok hitems fun items =>
        (pure (.sequence .seq items) : Grammar Collection)) fun collection => (do
          modify fun c => { c with collections := (id, collection) :: c.collections }
          return .node id : Grammar Item)

theorem flowValue_value {v : FlowValue} (hbound : v.tokens.length + 4 ≤ bound) :
    (flowValue bound .flowMappingEnd).run
        ⟨.value :: (v.tokens ++ ts), handles, anchors, collections, id⟩ =
      .ok (v.item id, ⟨ts, handles, anchors, v.collections id ++ collections,
        id + (v.collections id).length⟩) := by
  obtain ⟨bound, rfl⟩ := Nat.exists_eq_add_of_le' (show 2 ≤ bound by omega)
  have hnode := node_value id ts handles anchors collections (show v.tokens.length + 2 ≤ bound by omega)
  rw [← hnode]
  cases v <;> rfl

/-- An entry with a comma before it, unless it is the first one. -/
theorem flowEntries_entry (first : Bool) {e : String × FlowValue} {items : List (Item × Item)}
    {c : GrammarState} (hbound : e.2.tokens.length + 4 ≤ bound)
    (hmore : (flowEntries bound false).run ⟨ts, handles, anchors, e.2.collections id ++ collections,
      id + (e.2.collections id).length⟩ = .ok (items, c)) :
    (flowEntries (bound + 1) first).run ⟨(if first then [] else [.flowEntry]) ++ entryTokens e ++ ts,
        handles, anchors, collections, id⟩ =
      .ok ((textItem e.1, e.2.item id) :: items, c) := by
  obtain ⟨bound, rfl⟩ := Nat.exists_eq_add_of_le' (show 2 ≤ bound by omega)
  have hvalue := flowValue_value id ts handles anchors collections hbound
  have hrest : ∀ value, (do
      return (textItem e.1, value) :: (← flowEntries (bound + 2) false) : Grammar _).run
        ⟨ts, handles, anchors, e.2.collections id ++ collections, id + (e.2.collections id).length⟩ =
      .ok ((textItem e.1, value) :: items, c) :=
    fun value => run_bind_of_ok hmore fun items =>
      (pure ((textItem e.1, value) :: items) : Grammar (List (Item × Item)))
  rw [← hrest (e.2.item id)]
  cases first <;>
    exact run_bind_of_ok hvalue fun value => (do
      return (textItem e.1, value) :: (← flowEntries (bound + 2) false) : Grammar _)

/-- The entries after the first one. -/
theorem flowEntries_more {more : List (String × FlowValue)}
    (hbound : (more.flatMap fun e => .flowEntry :: entryTokens e).length + 4 ≤ bound) :
    (flowEntries bound false).run ⟨(more.flatMap fun e => .flowEntry :: entryTokens e) ++
        .flowMappingEnd :: ts, handles, anchors, collections, id⟩ =
      .ok (Yaml.flowItems id more, ⟨ts, handles, anchors, flowCollections id more ++ collections,
        id + (flowCollections id more).length⟩) := by
  induction more generalizing bound id collections with
  | nil =>
      obtain ⟨bound, rfl⟩ := Nat.exists_eq_add_of_le' (show 1 ≤ bound by omega)
      rfl
  | cons e more ih =>
      simp only [List.flatMap_cons, List.cons_append, List.length_cons, List.length_append,
        length_entryTokens] at hbound
      obtain ⟨bound, rfl⟩ := Nat.exists_eq_add_of_le' (show 1 ≤ bound by omega)
      have hmore := ih (id + (e.2.collections id).length) (e.2.collections id ++ collections)
        (show (more.flatMap fun e => Token.flowEntry :: entryTokens e).length + 4 ≤ bound by omega)
      have hentry := flowEntries_entry _ _ _ _ _ false (by omega) hmore
      simpa [Yaml.flowItems, flowCollections, Nat.add_assoc, Nat.add_comm, Nat.add_left_comm] using hentry

/-- All entries up to the closing brace. -/
theorem flowEntries_entries {entries : List (String × FlowValue)}
    (hbound : (entriesBetween (entries.map entryTokens)).length + 6 ≤ bound) :
    (flowEntries bound true).run ⟨entriesBetween (entries.map entryTokens) ++ .flowMappingEnd :: ts,
        handles, anchors, collections, id⟩ =
      .ok (Yaml.flowItems id entries, ⟨ts, handles, anchors, flowCollections id entries ++ collections,
        id + (flowCollections id entries).length⟩) := by
  obtain ⟨bound, rfl⟩ := Nat.exists_eq_add_of_le' (show 1 ≤ bound by omega)
  cases entries with
  | nil => rfl
  | cons e more =>
      rw [entriesBetween_map_cons] at hbound ⊢
      rw [List.length_append, length_entryTokens] at hbound
      have hmore := flowEntries_more (id + (e.2.collections id).length) ts handles anchors
        (e.2.collections id ++ collections)
        (show (more.flatMap fun e => Token.flowEntry :: entryTokens e).length + 4 ≤ bound by omega)
      have hentry := flowEntries_entry _ _ _ _ _ true (by omega) hmore
      simpa [Yaml.flowItems, flowCollections, Nat.add_assoc, Nat.add_comm, Nat.add_left_comm] using hentry

end Readings

end Grammar

/-- The tokens of a mapping on one line make up its document. -/
theorem Document.ofTokens?_flowMappingTokens (entries : List (String × FlowValue)) :
    Document.ofTokens? (flowMappingTokens entries ++ [.streamEnd]) = .ok (some (flowDocument entries)) := by
  obtain ⟨bound, hbound, hentries⟩ : ∃ bound,
      4 * (flowMappingTokens entries ++ [Token.streamEnd]).length + 4 = bound + 2 ∧
      (entriesBetween (entries.map entryTokens)).length + 6 ≤ bound + 1 := by
    refine ⟨4 * (flowMappingTokens entries ++ [Token.streamEnd]).length + 2, rfl, ?_⟩
    simp only [flowMappingTokens, List.length_append, List.length_cons]
    omega
  have hentries := Grammar.flowEntries_entries 1 [.streamEnd] Grammar.defaultHandles [] [] hentries
  have hnode : (Grammar.node (bound + 2) true false).run
      ⟨flowMappingTokens entries ++ [.streamEnd], Grammar.defaultHandles, [], [], 0⟩ =
      .ok (.node 0, ⟨[.streamEnd], Grammar.defaultHandles, [], (flowDocument entries).collections,
        1 + (flowCollections 1 entries).length⟩) := by
    rw [List.append_nil] at hentries
    rw [flowMappingTokens, List.cons_append, List.cons_append, List.append_assoc]
    exact run_bind_of_ok (run_bind_of_ok hentries fun entries =>
      (pure (.mapping .map entries) : Grammar Collection)) fun collection => (do
        modify fun c => { c with collections := (0, collection) :: c.collections }
        return .node 0 : Grammar Item)
  have hroot : (Grammar.root (bound + 2)).run
      ⟨flowMappingTokens entries ++ [.streamEnd], Grammar.defaultHandles, [], [], 0⟩ =
      .ok (some (.node 0), ⟨[.streamEnd], Grammar.defaultHandles, [], (flowDocument entries).collections,
        1 + (flowCollections 1 entries).length⟩) :=
    run_bind_of_ok hnode fun item => (pure (some item) : Grammar (Option Item))
  have hsingle : (Grammar.single (bound + 2)).run
      ⟨flowMappingTokens entries ++ [.streamEnd], Grammar.defaultHandles, [], [], 0⟩ =
      .ok (some (.node 0), ⟨[.streamEnd], Grammar.defaultHandles, [], (flowDocument entries).collections,
        1 + (flowCollections 1 entries).length⟩) := by
    rw [Grammar.single, run_bind_of_ok hroot]
    rfl
  rw [Document.ofTokens?, hbound]
  change ((Grammar.single (bound + 2)).run _).bind _ = _
  rw [hsingle]
  rfl

/-! ## The places of the document -/

/-- A place of a document with some collections holds a value. -/
def Stands (collections : List (Nat × Collection)) (item : Item) : FlowValue → Prop
  | .null => item = .leaf ⟨.null, "null"⟩
  | .text t => item = textItem t
  | .list texts => ∃ id, item = .node id ∧
      collections.lookup id = some (.sequence .seq (texts.map textItem))

/-- The places of an entry hold its key and its value. -/
def StandsEntry (collections : List (Nat × Collection)) (places : Item × Item)
    (e : String × FlowValue) : Prop :=
  places.1 = textItem e.1 ∧ Stands collections places.2 e.2

theorem le_of_mem_flowCollections {id : Nat} {entries : List (String × FlowValue)}
    {c : Nat × Collection} (h : c ∈ flowCollections id entries) : id ≤ c.1 := by
  induction entries generalizing id with
  | nil => cases h
  | cons e entries ih =>
      rcases List.mem_append.mp h with h | h
      · exact (Nat.le_add_right _ _).trans (ih h)
      · obtain ⟨name, v⟩ := e
        cases v with
        | null => cases h
        | text t => cases h
        | list texts =>
            obtain rfl := List.mem_singleton.mp h
            exact Nat.le_refl _

theorem lookup_append_of_lt {id : Nat} {before after : List (Nat × Collection)}
    (h : ∀ c ∈ before, id < c.1) : (before ++ after).lookup id = after.lookup id := by
  have hnone : before.lookup id = none := by
    rw [List.lookup_eq_none_iff]
    intro c hc
    have hlt := h c hc
    simp only [bne_iff_ne, ne_eq]
    omega
  rw [List.lookup_append, hnone, Option.none_or]

/-- Every place holds its value: the lists have numbers of their own. -/
theorem forall₂_standsEntry {id : Nat} (hid : 1 ≤ id) (root : Collection)
    (entries : List (String × FlowValue)) (others : List (Nat × Collection)) :
    List.Forall₂ (StandsEntry ((0, root) :: (flowCollections id entries ++ others)))
      (flowItems id entries) entries := by
  induction entries generalizing id others with
  | nil => exact .nil
  | cons e entries ih =>
      obtain ⟨name, v⟩ := e
      refine .cons ⟨rfl, ?_⟩ ?_
      · cases v with
        | null => rfl
        | text t => rfl
        | list texts =>
            refine ⟨id, rfl, ?_⟩
            have hne : (id == 0) = false := by
              rw [beq_eq_false_iff_ne]
              omega
            rw [List.lookup_cons, hne, flowCollections, List.append_assoc]
            dsimp only
            rw [lookup_append_of_lt]
            · simp [FlowValue.collections]
            · exact fun c hc => le_of_mem_flowCollections hc
      · rw [flowCollections, List.append_assoc]
        exact ih (by omega) _

end ImageTrust.Yaml
