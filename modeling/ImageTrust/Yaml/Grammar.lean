import ImageTrust.Yaml.Document
import ImageTrust.Yaml.TokenStream

/-! # Documents from tokens

The grammar of documents. An alias refers to the node with its anchor, which may still be open; an
anchor is defined once.
-/

namespace ImageTrust.Yaml

/-- What is known between two tokens. -/
structure GrammarState where
  tokens : List Token
  /-- What tag handles stand for. -/
  handles : List (String × String)
  anchors : List (String × Item)
  /-- The complete collections. -/
  collections : List (Nat × Collection)
  /-- The number of collections begun so far. -/
  count : Nat

/-- A step that consumes tokens and may find a fault. -/
abbrev Grammar := StateT GrammarState (Except Fault)

namespace Grammar

def malformed {α : Type} : Grammar α :=
  throw .malformed

/-! ## Tokens -/

/-- The next token. -/
def peek : Grammar Token := do
  match (← get).tokens with
  | [] => return .streamEnd
  | .fault f :: _ => throw f
  | t :: _ => return t

/-- Go on to the token after the next one. -/
def advance : Grammar Unit :=
  modify fun c => { c with tokens := c.tokens.drop 1 }

/-- Whether one of some tokens is next. -/
def nextIs (ts : List Token) : Grammar Bool := do
  return ts.contains (← peek)

/-- Consume a token that has to be next. -/
def expect (t : Token) : Grammar Unit := do
  if ← nextIs [t] then advance else malformed

/-! ## Nodes -/

/-- What may be written before a node. -/
structure Properties where
  anchor : Option String
  tag : Option (Option String × String)

def readProperties : Grammar Properties := do
  match ← peek with
  | .anchor name =>
    advance
    match ← peek with
    | .tag handle suffix => do
      advance
      return ⟨some name, some (handle, suffix)⟩
    | _ => return ⟨some name, none⟩
  | .tag handle suffix =>
    advance
    match ← peek with
    | .anchor name => do
      advance
      return ⟨some name, some (handle, suffix)⟩
    | _ => return ⟨none, some (handle, suffix)⟩
  | _ => return ⟨none, none⟩

/-- The full name of a tag. -/
def expandTag : Option (Option String × String) → Grammar (Option String)
  | none => return none
  | some (none, name) => return some name
  | some (some handle, suffix) => do
    match (← get).handles.lookup handle with
    | some expansion => return some (expansion ++ suffix)
    | none => malformed

/-- Check that an anchor is new. -/
def checkAnchor (anchor : Option String) : Grammar Unit := do
  match anchor with
  | none => return ()
  | some name => if ((← get).anchors.lookup name).isSome then malformed

/-- Let an anchor stand for a node. -/
def setAnchor (anchor : Option String) (item : Item) : Grammar Unit :=
  match anchor with
  | none => return ()
  | some name => modify fun c => { c with anchors := (name, item) :: c.anchors }

/-- A single exclamation mark asks for the kind that the text looks like. -/
def leafTag (tag : Option String) (plain : Bool) (text : String) : Tag :=
  match tag with
  | none => if plain then Tag.ofPlain text else .str
  | some name => if name = "!" then Tag.ofPlain text else Tag.ofName name

def collectionTag (tag : Option String) (default : Tag) : Tag :=
  match tag with
  | none => default
  | some name => if name = "!" then default else Tag.ofName name

/-- A scalar, before its token is consumed. The number of tokens that are left tells it apart from all
others. -/
def leaf (anchor tag : Option String) (plain : Bool) (text : String) : Grammar Item := do
  checkAnchor anchor
  let item := Item.ofScalar (← get).tokens.length ⟨leafTag tag plain text, text⟩
  setAnchor anchor item
  return item

/-- A node that is not written. -/
def empty : Item :=
  .leaf ⟨.null, ""⟩

/-- A collection whose contents are read by `contents`. -/
def collection (anchor : Option String) (contents : Grammar Collection) : Grammar Item := do
  checkAnchor anchor
  let id := (← get).count
  modify fun c => { c with count := id + 1 }
  setAnchor anchor (.node id)
  let collection ← contents
  modify fun c => { c with collections := (id, collection) :: c.collections }
  return .node id

mutual

/-- The next node. `block` allows block collections, `indentless` allows a sequence that is not indented
further than the mapping it is in. -/
def node (bound : Nat) (block indentless : Bool) : Grammar Item := do
  match bound with
  | 0 => malformed
  | bound + 1 =>
    match ← peek with
    | .aliasOf name =>
      advance
      match (← get).anchors.lookup name with
      | some item => return item
      | none => malformed
    | _ =>
      let properties ← readProperties
      let tag ← expandTag properties.tag
      let anchor := properties.anchor
      let sequence (items : Grammar (List Item)) : Grammar Item :=
        collection anchor (return .sequence (collectionTag tag .seq) (← items))
      let mapping (entries : Grammar (List (Item × Item))) : Grammar Item :=
        collection anchor (return .mapping (collectionTag tag .map) (← entries))
      match ← peek with
      | .blockEntry =>
        if indentless then sequence (indentlessItems bound)
        else emptyNode anchor tag
      | .scalar text plain =>
        let item ← leaf anchor tag (plain && tag.isNone) text
        advance
        return item
      | .flowSequenceStart =>
        advance
        sequence (flowItems bound true)
      | .flowMappingStart =>
        advance
        mapping (flowEntries bound true)
      | .blockSequenceStart =>
        if block then
          advance
          sequence (blockItems bound)
        else emptyNode anchor tag
      | .blockMappingStart =>
        if block then
          advance
          mapping (blockEntries bound)
        else emptyNode anchor tag
      | _ => emptyNode anchor tag

/-- A node that has an anchor or a tag only. -/
def emptyNode (anchor tag : Option String) : Grammar Item :=
  if anchor.isSome || tag.isSome then leaf anchor tag tag.isNone "" else malformed

/-- The node after an indicator, empty if one of some tokens follows. -/
def nodeUnless (bound : Nat) (ends : List Token) (block indentless : Bool) : Grammar Item := do
  match bound with
  | 0 => malformed
  | bound + 1 => if ← nextIs ends then return empty else node bound block indentless

/-- The items of a block sequence up to its end. -/
def blockItems (bound : Nat) : Grammar (List Item) := do
  match bound with
  | 0 => malformed
  | bound + 1 =>
    if ← nextIs [.blockEntry] then
      advance
      let item ← nodeUnless bound [.blockEntry, .blockEnd] true false
      return item :: (← blockItems bound)
    else
      expect .blockEnd
      return []

/-- The items of a sequence that is not indented. -/
def indentlessItems (bound : Nat) : Grammar (List Item) := do
  match bound with
  | 0 => malformed
  | bound + 1 =>
    if ← nextIs [.blockEntry] then
      advance
      let item ← nodeUnless bound [.blockEntry, .key, .value, .blockEnd] true false
      return item :: (← indentlessItems bound)
    else return []

/-- The entries of a block mapping up to its end. -/
def blockEntries (bound : Nat) : Grammar (List (Item × Item)) := do
  match bound with
  | 0 => malformed
  | bound + 1 =>
    if ← nextIs [.key] then
      advance
      let key ← nodeUnless bound [.key, .value, .blockEnd] true true
      let value ← blockValue bound
      return (key, value) :: (← blockEntries bound)
    else
      expect .blockEnd
      return []

/-- The value of an entry of a block mapping. -/
def blockValue (bound : Nat) : Grammar Item := do
  match bound with
  | 0 => malformed
  | bound + 1 =>
    if ← nextIs [.value] then
      advance
      nodeUnless bound [.key, .value, .blockEnd] true true
    else return empty

/-- The items of a sequence in brackets up to its end. -/
def flowItems (bound : Nat) (first : Bool) : Grammar (List Item) := do
  match bound with
  | 0 => malformed
  | bound + 1 =>
    if ← nextIs [.flowSequenceEnd] then
      advance
      return []
    else
      unless first do expect .flowEntry
      match ← peek with
      | .flowSequenceEnd =>
        advance
        return []
      | .key =>
        let item ← collection none do
          advance
          let key ← nodeUnless bound [.value, .flowEntry, .flowSequenceEnd] false false
          let value ← flowValue bound .flowSequenceEnd
          return .mapping .map [(key, value)]
        return item :: (← flowItems bound false)
      | _ =>
        let item ← node bound false false
        return item :: (← flowItems bound false)

/-- The entries of a mapping in braces up to its end. -/
def flowEntries (bound : Nat) (first : Bool) : Grammar (List (Item × Item)) := do
  match bound with
  | 0 => malformed
  | bound + 1 =>
    if ← nextIs [.flowMappingEnd] then
      advance
      return []
    else
      unless first do expect .flowEntry
      match ← peek with
      | .flowMappingEnd =>
        advance
        return []
      | .key =>
        advance
        let key ← nodeUnless bound [.value, .flowEntry, .flowMappingEnd] false false
        let value ← flowValue bound .flowMappingEnd
        return (key, value) :: (← flowEntries bound false)
      | _ =>
        let key ← node bound false false
        return (key, empty) :: (← flowEntries bound false)

/-- The value of an entry inside brackets that `close` closes. -/
def flowValue (bound : Nat) (close : Token) : Grammar Item := do
  match bound with
  | 0 => malformed
  | bound + 1 =>
    if ← nextIs [.value] then
      advance
      nodeUnless bound [.flowEntry, close] false false
    else return empty

end

/-! ## Documents -/

/-- What the two short tag handles stand for where nothing else is said. -/
def defaultHandles : List (String × String) :=
  [("!", "!"), ("!!", Tag.base)]

/-- The directives before a document. -/
def directives (bound : Nat) (versioned : Bool) (handles : List (String × String)) :
    Grammar (List (String × String)) := do
  match bound with
  | 0 => malformed
  | bound + 1 =>
    match ← peek with
    | .directive d =>
      advance
      match d with
      | .version major =>
        if versioned || major ≠ 1 then malformed else directives bound true handles
      | .handle handle expansion =>
        if (handles.lookup handle).isSome then malformed
        else directives bound versioned ((handle, expansion) :: handles)
      | .unknown => directives bound versioned handles
    | _ => return handles

def skipDocumentEnds (bound : Nat) : Grammar Unit := do
  match bound with
  | 0 => return ()
  | bound + 1 =>
    if ← nextIs [.documentEnd] then
      advance
      skipDocumentEnds bound

/-- The start of an explicit document; whether there is one. -/
def documentStart (bound : Nat) : Grammar Bool := do
  skipDocumentEnds bound
  if ← nextIs [.streamEnd] then return false
  else
    let handles ← directives bound false []
    expect .documentStart
    modify fun c => { c with handles := handles ++ defaultHandles }
    return true

/-- Whether an explicit document ends before a token. -/
def endsDocument : Token → Bool
  | .directive _ | .documentStart | .documentEnd | .streamEnd => true
  | _ => false

/-- Whether a document starts with its first node, without directives and marks. -/
def startsBare : Token → Bool
  | .directive _ | .documentStart | .streamEnd => false
  | _ => true

/-- The root of the first document, if there is one. -/
def root (bound : Nat) : Grammar (Option Item) := do
  if startsBare (← peek) then return some (← node bound true false)
  else if ← documentStart bound then
    if endsDocument (← peek) then return some empty else return some (← node bound true false)
  else return none

/-- The root of the only document. -/
def single (bound : Nat) : Grammar (Option Item) := do
  match ← root bound with
  | none => return none
  | some item => if ← documentStart bound then malformed else return some item

end Grammar

/-- The document that some tokens make up, if there is one. -/
def Document.ofTokens? (ts : List Token) : Except Fault (Option Document) := do
  let start : GrammarState := ⟨ts, Grammar.defaultHandles, [], [], 0⟩
  let (root, c) ← (Grammar.single (4 * ts.length + 4)).run start
  return root.map fun item => { root := item, collections := c.collections }

/-- The document of a text, if the text holds one. -/
def Document.read? (text : String) : Except Fault (Option Document) :=
  Document.ofTokens? (tokens text.toList)

end ImageTrust.Yaml
