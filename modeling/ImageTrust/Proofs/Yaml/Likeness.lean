import ImageTrust.Proofs.Yaml.Lockstep
import ImageTrust.Proofs.Yaml.StandIn
import ImageTrust.Yaml.Grammar

/-! # Like tokens make up like documents

Two sequences of tokens are alike if they differ only in scalars that show a mark, none of which looks like
a merge key. The grammar does not look at the texts of scalars, so such sequences make up documents of the same
form, which differ only in those scalars.
-/

namespace ImageTrust.Yaml

variable {mark : Char} {shows : Item → Prop} {changed : Nat → Prop}

/-! ## Likeness -/

/-- The token of a scalar in which the mark shows. -/
def Token.Shows (mark : Char) : Token → Prop
  | .scalar text _ => mark ∈ text.toList
  | _ => False

/-- A token, or another scalar in the place of one that shows the mark. -/
inductive Token.Alike (mark : Char) : Token → Token → Prop
  | same (t : Token) : Alike mark t t
  | scalar {text text' : String} {plain plain' : Bool} (h : mark ∈ text.toList)
      (hmerge : Tag.ofPlain text ≠ .merge) (hmerge' : Tag.ofPlain text' ≠ .merge) :
      Alike mark (.scalar text plain) (.scalar text' plain')

/-- Neither a merge key nor a collection. -/
def Tag.IsInner (tag : Tag) : Prop :=
  tag ≠ .merge ∧ tag.isCollection = false

/-- The same tag, or two that make no difference to the places around theirs. -/
def Tag.Alike (tag tag' : Tag) : Prop :=
  tag = tag' ∨ tag.IsInner ∧ tag'.IsInner

/-- A scalar in a place where scalars may differ, by the numbers of those that may. -/
def Item.IsLoose (changed : Nat → Prop) : Item → Prop
  | .leaf _ => True
  | .equals number _ => changed number
  | .node _ => False

/-- The tag that a scalar is written with. -/
def Item.written : Item → Tag
  | .leaf s => s.tag
  | .equals _ _ => .value
  | .node _ => .unknown

/-- A place, or another scalar in the place of one that shows something. -/
inductive Item.Alike (shows : Item → Prop) (changed : Nat → Prop) : Item → Item → Prop
  | leaf (s : Scalar) : Alike shows changed (.leaf s) (.leaf s)
  | fixed {item : Item} (h : ¬item.IsLoose changed) : Alike shows changed item item
  | scalar {item item' : Item} (hshows : shows item) (hloose : item.IsLoose changed)
      (hloose' : item'.IsLoose changed) (htag : item.written.Alike item'.written) :
      Alike shows changed item item'

/-- The scalar of a place shows the mark. -/
def Item.Shows (mark : Char) (item : Item) : Prop :=
  ∃ text, item.text? = some text ∧ mark ∈ text.toList

def EntryAlike (shows : Item → Prop) (changed : Nat → Prop) (entry entry' : Item × Item) : Prop :=
  entry.1.Alike shows changed entry'.1 ∧ entry.2.Alike shows changed entry'.2

abbrev ItemsAlike (shows : Item → Prop) (changed : Nat → Prop) : List Item → List Item → Prop :=
  List.Forall₂ (Item.Alike shows changed)

abbrev EntriesAlike (shows : Item → Prop) (changed : Nat → Prop) :
    List (Item × Item) → List (Item × Item) → Prop :=
  List.Forall₂ (EntryAlike shows changed)

inductive Collection.Alike (shows : Item → Prop) (changed : Nat → Prop) : Collection → Collection → Prop
  | sequence {tag : Tag} {items items' : List Item} (h : ItemsAlike shows changed items items') :
      Alike shows changed (.sequence tag items) (.sequence tag items')
  | mapping {tag : Tag} {entries entries' : List (Item × Item)}
      (h : EntriesAlike shows changed entries entries') :
      Alike shows changed (.mapping tag entries) (.mapping tag entries')

def CollectionsAlike (shows : Item → Prop) (changed : Nat → Prop) :
    List (Nat × Collection) → List (Nat × Collection) → Prop :=
  List.Forall₂ fun c c' => c.1 = c'.1 ∧ c.2.Alike shows changed c'.2

/-- Documents with like places, in which the same keys have become ordinary texts where scalars may not
differ. -/
structure Document.Alike (shows : Item → Prop) (changed : Nat → Prop) (d d' : Document) : Prop where
  root : d.root.Alike shows changed d'.root
  collections : CollectionsAlike shows changed d.collections d'.collections
  ordinary : ∀ item : Item, ¬item.IsLoose changed → (item ∈ d.ordinary ↔ item ∈ d'.ordinary)

/-- The next token is a scalar in which the mark shows. -/
def StartsMarked (mark : Char) : List Token → Prop
  | [] => False
  | t :: _ => t.Shows mark

/-- Like tokens are left, and like nodes have been read. Scalars are numbered by the tokens that are left
at them. -/
structure GrammarState.Alike (mark : Char) (changed : Nat → Prop) (c c' : GrammarState) : Prop where
  tokens : List.Forall₂ (Token.Alike mark) c.tokens c'.tokens
  numbers : ∀ rest, rest <:+ c.tokens → (changed rest.length ↔ StartsMarked mark rest)
  handles : c.handles = c'.handles
  anchors : List.Forall₂ (fun a a' => a.1 = a'.1 ∧ a.2.Alike (Item.Shows mark) changed a'.2)
    c.anchors c'.anchors
  collections : CollectionsAlike (Item.Shows mark) changed c.collections c'.collections
  count : c.count = c'.count

/-- The first bindings of a name are related, if there are any. -/
theorem lookup_of_forall₂_key {α β : Type} [BEq α] [LawfulBEq α] {R : α → β → β → Prop}
    {xs ys : List (α × β)} (h : List.Forall₂ (fun x y => x.1 = y.1 ∧ R x.1 x.2 y.2) xs ys) (key : α) :
    (xs.lookup key = none ∧ ys.lookup key = none) ∨
      ∃ x y, xs.lookup key = some x ∧ ys.lookup key = some y ∧ R key x y := by
  induction h with
  | nil => exact .inl ⟨rfl, rfl⟩
  | @cons x y xs ys hxy _ ih =>
      obtain ⟨name, x⟩ := x
      obtain ⟨name', y⟩ := y
      obtain ⟨rfl, hxy⟩ := hxy
      rw [List.lookup_cons, List.lookup_cons]
      cases hkey : key == name with
      | true => exact .inr ⟨x, y, rfl, rfl, beq_iff_eq.mp hkey ▸ hxy⟩
      | false => exact ih

theorem lookup_of_forall₂ {α β : Type} [BEq α] [LawfulBEq α] {R : β → β → Prop} {xs ys : List (α × β)}
    (h : List.Forall₂ (fun x y => x.1 = y.1 ∧ R x.2 y.2) xs ys) (key : α) :
    (xs.lookup key = none ∧ ys.lookup key = none) ∨
      ∃ x y, xs.lookup key = some x ∧ ys.lookup key = some y ∧ R x y :=
  lookup_of_forall₂_key (R := fun _ => R) h key

/-! ## Scalars -/

theorem isCollection_ofPlain (text : String) : (Tag.ofPlain text).isCollection = false := by
  unfold Tag.ofPlain
  dsimp only
  repeat' split
  all_goals rfl

theorem Tag.Alike.refl (tag : Tag) : tag.Alike tag :=
  .inl rfl

/-- Where a tag is written it is the same for both scalars; where it hangs on the text, neither is a merge
key. -/
theorem leafTag_alike {text text' : String} (hmerge : Tag.ofPlain text ≠ .merge)
    (hmerge' : Tag.ofPlain text' ≠ .merge) (tag : Option String) (plain plain' : Bool) :
    (Grammar.leafTag tag plain text).Alike (Grammar.leafTag tag plain' text') := by
  have hplain : (Tag.ofPlain text).IsInner := ⟨hmerge, isCollection_ofPlain text⟩
  have hplain' : (Tag.ofPlain text').IsInner := ⟨hmerge', isCollection_ofPlain text'⟩
  have hstr : Tag.str.IsInner := ⟨by decide, rfl⟩
  cases tag with
  | none =>
      right
      constructor
      · cases plain
        · exact hstr
        · exact hplain
      · cases plain'
        · exact hstr
        · exact hplain'
  | some name =>
      by_cases hname : name = "!"
      · simpa [Grammar.leafTag, hname] using .inr ⟨hplain, hplain'⟩
      · simpa [Grammar.leafTag, hname] using Tag.Alike.refl _

@[simp] theorem written_ofScalar (number : Nat) (s : Scalar) : (Item.ofScalar number s).written = s.tag := by
  unfold Item.ofScalar
  split
  · next h => exact h.symm
  · rfl

@[simp] theorem text?_ofScalar (number : Nat) (s : Scalar) :
    (Item.ofScalar number s).text? = some s.text := by
  unfold Item.ofScalar
  split <;> rfl

theorem isLoose_ofScalar {number : Nat} (h : changed number) (s : Scalar) :
    (Item.ofScalar number s).IsLoose changed := by
  unfold Item.ofScalar
  split
  · exact h
  · trivial

theorem Item.Alike.ofScalar_same {number : Nat} (h : ¬changed number) (s : Scalar) :
    (Item.ofScalar number s).Alike shows changed (Item.ofScalar number s) := by
  unfold Item.ofScalar
  split
  · exact .fixed h
  · exact .leaf s

theorem Item.Alike.ofScalar_shows {number : Nat} {s s' : Scalar} (h : changed number)
    (hmark : mark ∈ s.text.toList) (htag : s.tag.Alike s'.tag) :
    (Item.ofScalar number s).Alike (Item.Shows mark) changed (Item.ofScalar number s') := by
  apply Item.Alike.scalar
  · exact ⟨s.text, text?_ofScalar number s, hmark⟩
  · exact isLoose_ofScalar h s
  · exact isLoose_ofScalar h s'
  · simpa using htag

/-! ## Steps side by side -/

variable {α β : Type} {R : α → α → Prop} {S : β → β → Prop}

/-- From like states two steps of the grammar end in like states, and in values that `R` relates. -/
abbrev Parallel (mark : Char) (changed : Nat → Prop) (R : α → α → Prop) (m m' : Grammar α) : Prop :=
  Lockstep (GrammarState.Alike mark changed) R m m'

/-- The same of one step that finds the same in like states. -/
abbrev Blind (mark : Char) (changed : Nat → Prop) (m : Grammar α) : Prop :=
  Parallel mark changed Eq m m

/-- Like states, of which it is known whether a scalar in which the mark shows is next. -/
def Facing (mark : Char) (changed : Nat → Prop) (marked : Prop) (c c' : GrammarState) : Prop :=
  c.Alike mark changed c' ∧ (StartsMarked mark c.tokens ↔ marked)

/-- The same as `Parallel`, where it is known whether a scalar in which the mark shows is next. -/
abbrev ParallelAt (mark : Char) (changed : Nat → Prop) (marked : Prop) (R : α → α → Prop)
    (m m' : Grammar α) : Prop :=
  Coupled (Facing mark changed marked) m m' fun a a' c c' => R a a' ∧ c.Alike mark changed c'

namespace Lockstep

theorem malformed {m : Grammar α} : Parallel mark changed R Grammar.malformed m :=
  throw _ m

theorem at_next {marked : Prop} {m m' : Grammar α} (h : Parallel mark changed R m m') :
    ParallelAt mark changed marked R m m' :=
  h.mono (fun _ _ hc => hc.1) fun _ _ _ _ hr => hr

/-- What is next need not be known if a step leaves it as it is. -/
theorem of_facing {m m' : Grammar α} (h : ∀ marked, Lockstep (Facing mark changed marked) R m m') :
    Parallel mark changed R m m' := by
  intro c c' hc
  exact (h (StartsMarked mark c.tokens) c c' ⟨hc, Iff.rfl⟩).mono fun _ _ hr => ⟨hr.1, hr.2.1⟩

theorem facing_at {marked : Prop} {m m' : Grammar α} (h : Lockstep (Facing mark changed marked) R m m') :
    ParallelAt mark changed marked R m m' :=
  h.mono (fun _ _ hc => hc) fun _ _ _ _ hr => ⟨hr.1, hr.2.1⟩

/-! ## Single steps -/

theorem peek : Coupled (GrammarState.Alike mark changed) Grammar.peek Grammar.peek
    fun t t' c c' => t.Alike mark t' ∧ Facing mark changed (t.Shows mark) c c' := by
  rintro ⟨tokens, handles, anchors, collections, count⟩
    ⟨tokens', handles', anchors', collections', count'⟩ hc
  have htokens := hc.tokens
  dsimp only at htokens
  cases htokens with
  | nil => exact ⟨.same _, hc, Iff.rfl⟩
  | cons ht _ =>
      cases ht with
      | same =>
          rename_i t _ _ _
          cases t with
          | fault fault => trivial
          | _ => exact ⟨.same _, hc, Iff.rfl⟩
      | scalar h hmerge hmerge' => exact ⟨.scalar h hmerge hmerge', hc, Iff.rfl⟩

theorem advance : Blind mark changed Grammar.advance :=
  modify fun c _ hc => { hc with
    tokens := List.forall₂_drop 1 hc.tokens
    numbers := fun rest hrest => hc.numbers rest (hrest.trans (List.drop_suffix 1 c.tokens)) }

/-- What is done with the next token, if scalars in which the mark shows are treated alike. -/
theorem peekThen {next : Token → Grammar α} (hsame : ∀ t, Parallel mark changed R (next t) (next t))
    (hscalar : ∀ text text' plain plain', mark ∈ text.toList →
      Parallel mark changed R (next (.scalar text plain)) (next (.scalar text' plain'))) :
    Parallel mark changed R (Grammar.peek >>= next) (Grammar.peek >>= next) := by
  refine Coupled.bind peek fun t t' => .assume fun ht => ?_
  cases ht with
  | same t => exact at_next (hsame t)
  | scalar h _ _ => exact at_next (hscalar _ _ _ _ h)

/-- The same, where scalars are told apart by their numbers. -/
theorem peekAt {next : Token → Grammar α}
    (hsame : ∀ t, ¬t.Shows mark → ParallelAt mark changed False R (next t) (next t))
    (hscalar : ∀ text text' plain plain', mark ∈ text.toList →
      (∀ tag : Option String, (Grammar.leafTag tag (plain && tag.isNone) text).Alike
        (Grammar.leafTag tag (plain' && tag.isNone) text')) →
      ParallelAt mark changed True R (next (.scalar text plain)) (next (.scalar text' plain'))) :
    Parallel mark changed R (Grammar.peek >>= next) (Grammar.peek >>= next) := by
  refine Coupled.bind peek fun t t' => .assume fun ht => ?_
  cases ht with
  | same t =>
      by_cases hshows : t.Shows mark
      · have hfacing : ∀ c c', Facing mark changed (t.Shows mark) c c' → Facing mark changed True c c' :=
          fun c c' hc => ⟨hc.1, hc.2.trans (iff_true_intro hshows)⟩
        cases t with
        | scalar text plain =>
            exact (hscalar text text plain plain hshows fun _ => .refl _).mono hfacing fun _ _ _ _ hr => hr
        | _ => exact hshows.elim
      · have hfacing : ∀ c c', Facing mark changed (t.Shows mark) c c' → Facing mark changed False c c' :=
          fun c c' hc => ⟨hc.1, hc.2.trans (iff_false_intro hshows)⟩
        exact (hsame t hshows).mono hfacing fun _ _ _ _ hr => hr
  | @scalar text text' plain plain' h hmerge hmerge' =>
      have hfacing : ∀ c c', Facing mark changed (Token.Shows mark (.scalar text plain)) c c' →
          Facing mark changed True c c' :=
        fun c c' hc => ⟨hc.1, hc.2.trans (iff_true_intro h)⟩
      exact (hscalar text text' plain plain' h fun tag => leafTag_alike hmerge hmerge' tag _ _).mono hfacing
        fun _ _ _ _ hr => hr

/-- Whether an indicator is next does not depend on the texts of scalars. -/
theorem nextIs {ts : List Token} (hts : ∀ text plain, Token.scalar text plain ∉ ts) :
    Blind mark changed (Grammar.nextIs ts) := by
  refine peekThen (fun t => pure rfl) fun text text' plain plain' _ => ?_
  have hnot : ∀ text plain, ts.contains (Token.scalar text plain) = false := by
    intro text plain
    simpa using hts text plain
  rw [hnot, hnot]
  exact pure rfl

theorem expect {t : Token} (ht : ∀ text plain, Token.scalar text plain ≠ t) :
    Blind mark changed (Grammar.expect t) :=
  bindEq (nextIs fun text plain => by simpa using ht text plain) fun _ => ite advance malformed

/-! ## Nodes -/

theorem readProperties : Blind mark changed Grammar.readProperties := by
  refine peekThen (fun t => ?_) fun _ _ _ _ _ => pure rfl
  split
  · refine bindEq advance fun _ => peekThen (fun t => ?_) fun _ _ _ _ _ => pure rfl
    split
    · exact bindEq advance fun _ => pure rfl
    · exact pure rfl
  · refine bindEq advance fun _ => peekThen (fun t => ?_) fun _ _ _ _ _ => pure rfl
    split
    · exact bindEq advance fun _ => pure rfl
    · exact pure rfl
  · exact pure rfl

theorem expandTag (tag : Option (Option String × String)) : Blind mark changed (Grammar.expandTag tag) := by
  unfold Grammar.expandTag
  split
  · exact pure rfl
  · exact pure rfl
  · refine bind get fun c c' hc => ?_
    rw [hc.handles]
    split
    · exact pure rfl
    · exact malformed

theorem checkAnchor_facing (marked : Prop) (anchor : Option String) :
    Lockstep (Facing mark changed marked) Eq (Grammar.checkAnchor anchor) (Grammar.checkAnchor anchor) := by
  unfold Grammar.checkAnchor
  split
  · exact pure rfl
  · refine bind get fun c c' hc => ?_
    rename_i name
    have hsome : (c.anchors.lookup name).isSome = (c'.anchors.lookup name).isSome := by
      rcases lookup_of_forall₂ hc.1.anchors name with ⟨h, h'⟩ | ⟨x, y, h, h', -⟩
      · rw [h, h']
      · rw [h, h', Option.isSome_some, Option.isSome_some]
    rw [hsome]
    exact ite (throw _ _) (pure rfl)

theorem setAnchor_facing (marked : Prop) (anchor : Option String) {item item' : Item}
    (h : item.Alike (Item.Shows mark) changed item') :
    Lockstep (Facing mark changed marked) Eq (Grammar.setAnchor anchor item)
      (Grammar.setAnchor anchor item') := by
  unfold Grammar.setAnchor
  split
  · exact pure rfl
  · exact modify fun _ _ hc => ⟨{ hc.1 with anchors := .cons ⟨rfl, h⟩ hc.1.anchors }, hc.2⟩

theorem checkAnchor (anchor : Option String) : Blind mark changed (Grammar.checkAnchor anchor) :=
  of_facing fun marked => checkAnchor_facing marked anchor

theorem setAnchor (anchor : Option String) {item item' : Item}
    (h : item.Alike (Item.Shows mark) changed item') :
    Parallel mark changed Eq (Grammar.setAnchor anchor item) (Grammar.setAnchor anchor item') :=
  of_facing fun marked => setAnchor_facing marked anchor h

/-- Scalars that are alike whatever number they get here. -/
theorem leaf_of_alike {marked : Prop} {anchor tag : Option String} {plain plain' : Bool} {text text' : String}
    (h : ∀ number, (changed number ↔ marked) →
      (Item.ofScalar number ⟨Grammar.leafTag tag plain text, text⟩).Alike (Item.Shows mark) changed
        (Item.ofScalar number ⟨Grammar.leafTag tag plain' text', text'⟩)) :
    ParallelAt mark changed marked (Item.Alike (Item.Shows mark) changed)
      (Grammar.leaf anchor tag plain text) (Grammar.leaf anchor tag plain' text') := by
  refine facing_at (bindEq (checkAnchor_facing marked anchor) fun _ => bind get fun c c' hc => ?_)
  rw [← hc.1.tokens.length_eq]
  have hitem := h c.tokens.length ((hc.1.numbers _ List.suffix_rfl).trans hc.2)
  exact bind (setAnchor_facing marked anchor hitem) fun _ _ _ => pure hitem

theorem leaf (anchor tag : Option String) (plain : Bool) (text : String) :
    ParallelAt mark changed False (Item.Alike (Item.Shows mark) changed)
      (Grammar.leaf anchor tag plain text) (Grammar.leaf anchor tag plain text) :=
  leaf_of_alike fun _ hnumber => .ofScalar_same hnumber.mp _

/-- A scalar in the place of one that shows the mark. -/
theorem leaf_of_mem (anchor tag : Option String) {plain plain' : Bool} {text text' : String}
    (h : mark ∈ text.toList)
    (htag : (Grammar.leafTag tag plain text).Alike (Grammar.leafTag tag plain' text')) :
    ParallelAt mark changed True (Item.Alike (Item.Shows mark) changed)
      (Grammar.leaf anchor tag plain text) (Grammar.leaf anchor tag plain' text') :=
  leaf_of_alike fun _ hnumber => .ofScalar_shows (hnumber.mpr trivial) h htag

theorem collection (anchor : Option String) {contents : Grammar Collection}
    (h : Parallel mark changed (Collection.Alike (Item.Shows mark) changed) contents contents) :
    Parallel mark changed (Item.Alike (Item.Shows mark) changed) (Grammar.collection anchor contents)
      (Grammar.collection anchor contents) := by
  have hnode : ∀ id, (Item.node id).Alike (Item.Shows mark) changed (.node id) := fun _ => .fixed not_false
  refine bindEq (checkAnchor anchor) fun _ => bind get fun c c' hc => ?_
  rw [← hc.count]
  refine bindEq (modify fun _ _ hc => { hc with count := rfl }) fun _ => ?_
  refine bindEq (setAnchor anchor (hnode _)) fun _ => bind h fun collection collection' hcollection => ?_
  exact bind (modify fun _ _ hc => { hc with collections := .cons ⟨rfl, hcollection⟩ hc.collections })
    fun _ _ _ => pure (hnode _)

/-- A node that has an anchor or a tag only, where no scalar follows that shows the mark. -/
theorem emptyNode (anchor tag : Option String) :
    ParallelAt mark changed False (Item.Alike (Item.Shows mark) changed) (Grammar.emptyNode anchor tag)
      (Grammar.emptyNode anchor tag) := by
  unfold Grammar.emptyNode
  split
  · exact leaf _ _ _ _
  · exact at_next malformed

/-! ## Items and entries -/

theorem consItem {first : Grammar Item} {more : Grammar (List Item)}
    (hfirst : Parallel mark changed (Item.Alike (Item.Shows mark) changed) first first)
    (hmore : Parallel mark changed (ItemsAlike (Item.Shows mark) changed) more more) :
    Parallel mark changed (ItemsAlike (Item.Shows mark) changed) (do let item ← first; return item :: (← more))
      (do let item ← first; return item :: (← more)) :=
  bind hfirst fun _ _ hitem => bind hmore fun _ _ hitems => pure (.cons hitem hitems)

theorem consEntry {key value : Grammar Item} {more : Grammar (List (Item × Item))}
    (hkey : Parallel mark changed (Item.Alike (Item.Shows mark) changed) key key)
    (hvalue : Parallel mark changed (Item.Alike (Item.Shows mark) changed) value value)
    (hmore : Parallel mark changed (EntriesAlike (Item.Shows mark) changed) more more) :
    Parallel mark changed (EntriesAlike (Item.Shows mark) changed)
      (do let key ← key; let value ← value; return (key, value) :: (← more))
      (do let key ← key; let value ← value; return (key, value) :: (← more)) :=
  bind hkey fun _ _ hkey => bind hvalue fun _ _ hvalue =>
    bind hmore fun _ _ hmore => pure (.cons ⟨hkey, hvalue⟩ hmore)

/-- The steps that read nodes with a given bound. -/
structure Nodes (mark : Char) (changed : Nat → Prop) (bound : Nat) : Prop where
  node (block indentless : Bool) : Parallel mark changed (Item.Alike (Item.Shows mark) changed)
    (Grammar.node bound block indentless) (Grammar.node bound block indentless)
  nodeUnless {ends : List Token} (hends : ∀ text plain, Token.scalar text plain ∉ ends)
    (block indentless : Bool) : Parallel mark changed (Item.Alike (Item.Shows mark) changed)
    (Grammar.nodeUnless bound ends block indentless) (Grammar.nodeUnless bound ends block indentless)
  blockItems : Parallel mark changed (ItemsAlike (Item.Shows mark) changed) (Grammar.blockItems bound) (Grammar.blockItems bound)
  indentlessItems :
    Parallel mark changed (ItemsAlike (Item.Shows mark) changed) (Grammar.indentlessItems bound) (Grammar.indentlessItems bound)
  blockEntries :
    Parallel mark changed (EntriesAlike (Item.Shows mark) changed) (Grammar.blockEntries bound) (Grammar.blockEntries bound)
  blockValue : Parallel mark changed (Item.Alike (Item.Shows mark) changed) (Grammar.blockValue bound) (Grammar.blockValue bound)
  flowItems (first : Bool) :
    Parallel mark changed (ItemsAlike (Item.Shows mark) changed) (Grammar.flowItems bound first) (Grammar.flowItems bound first)
  flowEntries (first : Bool) :
    Parallel mark changed (EntriesAlike (Item.Shows mark) changed) (Grammar.flowEntries bound first) (Grammar.flowEntries bound first)
  flowValue {close : Token} (hclose : ∀ text plain, Token.scalar text plain ≠ close) :
    Parallel mark changed (Item.Alike (Item.Shows mark) changed) (Grammar.flowValue bound close) (Grammar.flowValue bound close)

variable {bound : Nat}

theorem Nodes.node_succ (h : Nodes mark changed bound) (block indentless : Bool) :
    Parallel mark changed (Item.Alike (Item.Shows mark) changed) (Grammar.node (bound + 1) block indentless)
      (Grammar.node (bound + 1) block indentless) := by
  unfold Grammar.node
  refine peekThen (fun t => ?_) fun _ _ _ _ _ => ?_
  split
  · next name =>
      refine bindEq advance fun _ => bind get fun c c' hc => ?_
      rcases lookup_of_forall₂ hc.anchors name with ⟨hx, hy⟩ | ⟨x, y, hx, hy, hxy⟩
      · rw [hx, hy]
        exact malformed
      · rw [hx, hy]
        exact pure hxy
  -- a scalar that shows the mark is no alias either, so both times the node is written here
  all_goals
    refine bindEq readProperties fun properties => bindEq (expandTag _) fun tag => ?_
    have hsequence : ∀ {items : Grammar (List Item)}, Parallel mark changed (ItemsAlike (Item.Shows mark) changed) items items →
        Parallel mark changed (Item.Alike (Item.Shows mark) changed)
          (Grammar.collection properties.anchor do
            return .sequence (Grammar.collectionTag tag .seq) (← items))
          (Grammar.collection properties.anchor do
            return .sequence (Grammar.collectionTag tag .seq) (← items)) :=
      fun hitems => collection _ (bind hitems fun _ _ h => pure (.sequence h))
    have hmapping : ∀ {entries : Grammar (List (Item × Item))},
        Parallel mark changed (EntriesAlike (Item.Shows mark) changed) entries entries →
        Parallel mark changed (Item.Alike (Item.Shows mark) changed)
          (Grammar.collection properties.anchor do
            return .mapping (Grammar.collectionTag tag .map) (← entries))
          (Grammar.collection properties.anchor do
            return .mapping (Grammar.collectionTag tag .map) (← entries)) :=
      fun hentries => collection _ (bind hentries fun _ _ h => pure (.mapping h))
    refine peekAt (fun t _ => ?_) fun _ _ _ _ hmark htag => ?_
    · split
      · exact Coupled.ite (at_next (hsequence h.indentlessItems)) (emptyNode _ _)
      · exact Coupled.bind (leaf _ _ _ _) fun _ _ => .assume fun hitem =>
          bindEq advance fun _ => pure hitem
      · exact at_next (bindEq advance fun _ => hsequence (h.flowItems true))
      · exact at_next (bindEq advance fun _ => hmapping (h.flowEntries true))
      · exact Coupled.ite (at_next (bindEq advance fun _ => hsequence h.blockItems)) (emptyNode _ _)
      · exact Coupled.ite (at_next (bindEq advance fun _ => hmapping h.blockEntries)) (emptyNode _ _)
      · exact emptyNode _ _
    · exact Coupled.bind (leaf_of_mem _ _ hmark (htag tag)) fun _ _ => .assume fun hitem =>
        bindEq advance fun _ => pure hitem

/-- A pair of a sequence in brackets is a mapping of its own. -/
theorem Nodes.flowPair (h : Nodes mark changed bound) :
    Parallel mark changed (Item.Alike (Item.Shows mark) changed)
      (Grammar.collection none do
        Grammar.advance
        let key ← Grammar.nodeUnless bound [.value, .flowEntry, .flowSequenceEnd] false false
        let value ← Grammar.flowValue bound .flowSequenceEnd
        return .mapping .map [(key, value)])
      (Grammar.collection none do
        Grammar.advance
        let key ← Grammar.nodeUnless bound [.value, .flowEntry, .flowSequenceEnd] false false
        let value ← Grammar.flowValue bound .flowSequenceEnd
        return .mapping .map [(key, value)]) :=
  collection none (bindEq advance fun _ => bind (h.nodeUnless (by simp) false false) fun _ _ hkey =>
    bind (h.flowValue (by simp)) fun _ _ hvalue => pure (.mapping (.cons ⟨hkey, hvalue⟩ .nil)))

theorem Nodes.flowItems_succ (h : Nodes mark changed bound) (first : Bool) :
    Parallel mark changed (ItemsAlike (Item.Shows mark) changed) (Grammar.flowItems (bound + 1) first)
      (Grammar.flowItems (bound + 1) first) := by
  have hnode := consItem (h.node false false) (h.flowItems false)
  unfold Grammar.flowItems
  refine bindEq (nextIs (by simp)) fun _ => ite (bindEq advance fun _ => pure .nil) ?_
  cases first
  case' false => refine bindEq (expect (by simp)) fun _ => ?_
  all_goals
    refine peekThen (fun t => ?_) fun _ _ _ _ _ => hnode
    split
    · exact bindEq advance fun _ => pure .nil
    · exact consItem h.flowPair (h.flowItems false)
    · exact hnode

theorem Nodes.flowEntries_succ (h : Nodes mark changed bound) (first : Bool) :
    Parallel mark changed (EntriesAlike (Item.Shows mark) changed) (Grammar.flowEntries (bound + 1) first)
      (Grammar.flowEntries (bound + 1) first) := by
  have hnode : Parallel mark changed (EntriesAlike (Item.Shows mark) changed)
      (do
        let key ← Grammar.node bound false false
        return (key, Grammar.empty) :: (← Grammar.flowEntries bound false))
      (do
        let key ← Grammar.node bound false false
        return (key, Grammar.empty) :: (← Grammar.flowEntries bound false)) :=
    bind (h.node false false) fun _ _ hkey => bind (h.flowEntries false) fun _ _ hmore =>
      pure (.cons ⟨hkey, .leaf _⟩ hmore)
  unfold Grammar.flowEntries
  refine bindEq (nextIs (by simp)) fun _ => ite (bindEq advance fun _ => pure .nil) ?_
  cases first
  case' false => refine bindEq (expect (by simp)) fun _ => ?_
  all_goals
    refine peekThen (fun t => ?_) fun _ _ _ _ _ => hnode
    split
    · exact bindEq advance fun _ => pure .nil
    · exact bindEq advance fun _ => consEntry (h.nodeUnless (by simp) false false) (h.flowValue (by simp))
        (h.flowEntries false)
    · exact hnode

theorem Nodes.succ (h : Nodes mark changed bound) : Nodes mark changed (bound + 1) where
  node := h.node_succ
  nodeUnless hends block indentless := by
    unfold Grammar.nodeUnless
    exact bindEq (nextIs hends) fun _ => ite (pure (.leaf _)) (h.node block indentless)
  blockItems := by
    unfold Grammar.blockItems
    refine bindEq (nextIs (by simp)) fun _ => ite ?_ (bindEq (expect (by simp)) fun _ => pure .nil)
    exact bindEq advance fun _ => consItem (h.nodeUnless (by simp) true false) h.blockItems
  indentlessItems := by
    unfold Grammar.indentlessItems
    refine bindEq (nextIs (by simp)) fun _ => ite ?_ (pure .nil)
    exact bindEq advance fun _ => consItem (h.nodeUnless (by simp) true false) h.indentlessItems
  blockEntries := by
    unfold Grammar.blockEntries
    refine bindEq (nextIs (by simp)) fun _ => ite ?_ (bindEq (expect (by simp)) fun _ => pure .nil)
    exact bindEq advance fun _ => consEntry (h.nodeUnless (by simp) true true) h.blockValue h.blockEntries
  blockValue := by
    unfold Grammar.blockValue
    exact bindEq (nextIs (by simp)) fun _ =>
      ite (bindEq advance fun _ => h.nodeUnless (by simp) true true) (pure (.leaf _))
  flowItems := h.flowItems_succ
  flowEntries := h.flowEntries_succ
  flowValue hclose := by
    unfold Grammar.flowValue
    exact bindEq (nextIs (by simp)) fun _ =>
      ite (bindEq advance fun _ => h.nodeUnless (by simpa using hclose) false false) (pure (.leaf _))

theorem nodes (bound : Nat) : Nodes mark changed bound := by
  induction bound with
  | zero => constructor <;> intros <;> exact malformed
  | succ bound ih => exact ih.succ

/-! ## Documents -/

theorem directives (bound : Nat) (versioned : Bool) (handles : List (String × String)) :
    Blind mark changed (Grammar.directives bound versioned handles) := by
  induction bound generalizing versioned handles with
  | zero => exact malformed
  | succ bound ih =>
      unfold Grammar.directives
      refine peekThen (fun t => ?_) fun _ _ _ _ _ => pure rfl
      split
      · refine bindEq advance fun _ => ?_
        split
        · exact ite malformed (ih _ _)
        · exact ite malformed (ih _ _)
        · exact ih _ _
      · exact pure rfl

theorem skipDocumentEnds (bound : Nat) : Blind mark changed (Grammar.skipDocumentEnds bound) := by
  induction bound with
  | zero => exact pure rfl
  | succ bound ih =>
      exact bindEq (nextIs (by simp)) fun _ => ite (bindEq advance fun _ => ih) (pure rfl)

theorem documentStart (bound : Nat) : Blind mark changed (Grammar.documentStart bound) := by
  refine bindEq (skipDocumentEnds bound) fun _ => bindEq (nextIs (by simp)) fun _ => ite (pure rfl) ?_
  refine bindEq (directives _ _ _) fun handles => bindEq (expect (by simp)) fun _ => ?_
  exact bindEq (modify fun _ _ hc => { hc with handles := rfl }) fun _ => pure rfl

/-- The roots of two documents, if there are any. -/
abbrev RootsAlike (mark : Char) (changed : Nat → Prop) : Option Item → Option Item → Prop :=
  Option.Rel (Item.Alike (Item.Shows mark) changed)

theorem root (bound : Nat) :
    Parallel mark changed (RootsAlike mark changed) (Grammar.root bound) (Grammar.root bound) := by
  have hnode : Parallel mark changed (RootsAlike mark changed) (do return some (← Grammar.node bound true false))
      (do return some (← Grammar.node bound true false)) :=
    bind ((nodes bound).node true false) fun _ _ h => pure (.some h)
  refine peekThen (fun t => ite hnode ?_) fun _ _ _ _ _ => hnode
  refine bindEq (documentStart bound) fun _ => ite ?_ (pure .none)
  exact peekThen (fun t => ite (pure (.some (.leaf _))) hnode) fun _ _ _ _ _ => hnode

theorem single (bound : Nat) :
    Parallel mark changed (RootsAlike mark changed) (Grammar.single bound) (Grammar.single bound) := by
  refine bind (root bound) fun root root' hroot => ?_
  cases hroot with
  | none => exact pure .none
  | some h => exact bindEq (documentStart bound) fun _ => ite malformed (pure (.some h))

end Lockstep

/-! ## Public theorem -/

/-- The numbers of the scalars in which the mark shows: the tokens that are left at them. -/
def MarkedAt (mark : Char) (ts : List Token) (number : Nat) : Prop :=
  StartsMarked mark (ts.drop (ts.length - number))

/-- Like tokens make up like documents, if both make up one. -/
theorem Document.ofTokens?_alike {ts ts' : List Token} (h : List.Forall₂ (Token.Alike mark) ts ts') :
    EndsAlike (Option.Rel (Document.Alike (Item.Shows mark) (MarkedAt mark ts)))
      (Document.ofTokens? ts) (Document.ofTokens? ts') := by
  have hnumbers : ∀ rest, rest <:+ ts → (MarkedAt mark ts rest.length ↔ StartsMarked mark rest) := by
    intro rest hrest
    rw [MarkedAt, ← List.suffix_iff_eq_drop.mp hrest]
  have hstart : GrammarState.Alike mark (MarkedAt mark ts) ⟨ts, Grammar.defaultHandles, [], [], 0⟩
      ⟨ts', Grammar.defaultHandles, [], [], 0⟩ :=
    ⟨h, hnumbers, rfl, .nil, .nil, rfl⟩
  unfold Document.ofTokens?
  rw [h.length_eq]
  refine (Lockstep.single _ _ _ hstart).bind fun r r' hr => ?_
  obtain ⟨root, c⟩ := r
  obtain ⟨root', c'⟩ := r'
  obtain ⟨hroot, hc⟩ := hr
  cases hroot with
  | none => exact .none
  | some h => exact .some ⟨h, hc.collections, fun _ _ => Iff.rfl⟩

end ImageTrust.Yaml
