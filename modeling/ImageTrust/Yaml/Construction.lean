import ImageTrust.Yaml.Grammar
import ImageTrust.Yaml.Merging

/-! # The values of a document

Values are built level by level. A scalar is built where it is first come to; a collection waits until the
collections that were come to before it are built. Building a mapping changes the document, so a value
depends on what was built before it; once it is built it stays as it is.
-/

namespace ImageTrust.Yaml

/-- What a collection holds once it is built. -/
inductive Contents
  | items (items : List Item)
  | pairs (entries : List (Item × Item))
  | fields (entries : List (Item × Item))
  /-- The keys of a set. -/
  | members (keys : List Item)
  deriving DecidableEq, Repr

structure Construction where
  /-- The document as it stands. -/
  document : Document
  /-- The values of the collections that are tagged as scalars. -/
  scalars : List (Nat × Datum) := []
  contents : List (Nat × Contents) := []
  /-- The places that wait to be built, each of which is a collection or is tagged as one. -/
  waiting : List Item := []
  /-- The collections that have waited or still wait. -/
  met : List Nat := []

/-- A step that builds values and may find a fault. -/
abbrev Building := StateT Construction (Except Fault)

namespace Building

def malformed {α : Type} : Building α :=
  throw .malformed

/-- Carry out a step on the document. -/
def onDocument {α : Type} (step : Merging α) : Building α := do
  let c ← get
  let (a, document) ← step.run c.document
  set { c with document }
  return a

/-- Come to a place. A collection waits once; a scalar that is tagged as one waits to be found at
fault. -/
def meet (item : Item) : Building Unit := do
  let c ← get
  match item with
  | .node id =>
    if (c.document.tagOf item).isCollection then
      unless c.met.contains id do
        set { c with waiting := c.waiting ++ [item], met := id :: c.met }
    else if (c.scalars.lookup id).isNone then
      let value ← c.document.readScalar item
      set { c with scalars := (id, value) :: c.scalars }
  | _ =>
    if (c.document.tagOf item).isCollection then
      set { c with waiting := c.waiting ++ [item] }
    else
      let _ ← c.document.readScalar item

/-- Come to an entry of a mapping or a set. Its key may not be a collection. -/
def meetEntry (entry : Item × Item) : Building Unit := do
  meet entry.1
  if ((← get).document.tagOf entry.1).isCollection then malformed
  meet entry.2

/-- Come to an item of a sequence of pairs, which has to be a mapping of one entry. -/
def meetPair (item : Item) : Building (Item × Item) := do
  match (← get).document.pair? item with
  | none => malformed
  | some (key, value) =>
    meet key
    meet value
    return (key, value)

/-- Come to the entries of a mapping, after other mappings have been merged into it. -/
def meetEntries (id : Nat) : Building (List (Item × Item)) := do
  let entries ← onDocument do
    Merging.flatten ((← get).size + 1) id
    Merging.entriesOf id
  entries.forM meetEntry
  return entries

/-- What a collection holds, after the places in it have been come to. -/
def contentsOf (id : Nat) : Building Contents := do
  match (← get).document.collection? id with
  | some (.sequence .seq items) =>
    items.forM meet
    return .items items
  | some (.sequence .omap items) | some (.sequence .pairs items) =>
    return .pairs (← items.mapM meetPair)
  | some (.mapping .map _) => return .fields (← meetEntries id)
  | some (.mapping .set _) => return .members ((← meetEntries id).map Prod.fst)
  | _ => malformed

/-- Build a collection. -/
def build (id : Nat) : Building Unit := do
  let contents ← contentsOf id
  modify fun c => { c with contents := (id, contents) :: c.contents }

/-- Build the collections that wait, and those inside them after all that wait. -/
def buildAll : Nat → Building Unit
  | 0 => return ()
  | bound + 1 => do
    match (← get).waiting with
    | [] => return ()
    | .node id :: waiting =>
      modify fun c => { c with waiting }
      build id
      buildAll bound
    | _ :: _ => malformed

end Building

/-- Build the values of a document, each collection at most once. -/
def Document.construct (d : Document) : Except Fault Construction := do
  let step : Building Unit := do
    Building.meet d.root
    Building.buildAll (d.collections.length + 1)
  return (← step.run { document := d }).2

namespace Construction

/-! ## Data -/

/-- The value of a place that is tagged as a scalar. -/
def scalar? (c : Construction) : Item → Option Datum
  | .leaf s => s.read.toOption
  | .equals _ text => some (.text text)
  | .node id => c.scalars.lookup id

/-- Whether two keys of a set are the same. -/
def sameKey (c : Construction) (a b : Item) : Bool :=
  match c.scalar? a, c.scalar? b with
  | some .null, some .null => true
  | some (.text s), some (.text t) => s = t
  | some (.bytes s), some (.bytes t) => s = t
  | _, _ => a = b

/-- The first of each group of equal keys. -/
def distinctKeys (c : Construction) (keys : List Item) : List Item :=
  keys.foldl (fun kept key => if kept.any (c.sameKey key) then kept else kept ++ [key]) []

/-- The value of a place, down to collections at a depth below which values are cut off. Keys that are
no texts are left out. -/
def datum (c : Construction) (depth : Nat) (item : Item) : Datum :=
  match c.scalar? item with
  | some value => value
  | none =>
    match depth, item with
    | depth + 1, .node id =>
      match c.contents.lookup id with
      | some (.items items) => .list (items.map (c.datum depth))
      | some (.pairs entries) =>
        .list (entries.map fun (key, value) => .list [c.datum depth key, c.datum depth value])
      | some (.fields entries) =>
        .record (entries.filterMap fun (key, value) =>
          match c.scalar? key with
          | some (.text name) => some (name, c.datum depth value)
          | _ => none)
      | some (.members keys) => .list ((c.distinctKeys keys).map (c.datum depth))
      | none => .other
    | _, _ => .other

end Construction

/-- How many levels of a document are looked at. -/
def Document.levels : Nat :=
  4

/-- The data of a text; an empty text stands for nothing. -/
def load (text : String) : Except Fault Datum := do
  match ← Document.read? text with
  | none => return .null
  | some d => do
    let c ← d.construct
    return c.datum Document.levels d.root

end ImageTrust.Yaml
