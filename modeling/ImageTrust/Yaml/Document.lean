import ImageTrust.Yaml.Scalar

/-! # Documents

A document is a graph of nodes: an alias may stand for a node that contains it. Most scalars are held where
they stand. Sequences and mappings are numbered, so that every place that refers to one refers to the same
one; and so are the scalars that are tagged as equals signs, for their tags change while values are built.
-/

namespace ImageTrust.Yaml

/-- A place in a document. -/
inductive Item
  | leaf (scalar : Scalar)
  /-- A scalar that is written with the tag of an equals sign. -/
  | equals (number : Nat) (text : String)
  /-- The collection of a number. -/
  | node (id : Nat)
  deriving DecidableEq, Repr

inductive Collection
  | sequence (tag : Tag) (items : List Item)
  | mapping (tag : Tag) (entries : List (Item × Item))
  deriving DecidableEq, Repr

structure Document where
  root : Item
  collections : List (Nat × Collection)
  /-- The keys with the tag of an equals sign that have become ordinary texts. -/
  ordinary : List Item := []
  deriving Repr

/-- The place of a scalar that is the `number`-th one. -/
def Item.ofScalar (number : Nat) (s : Scalar) : Item :=
  if s.tag = .value then .equals number s.text else .leaf s

def Collection.tag : Collection → Tag
  | sequence tag _ => tag
  | mapping tag _ => tag

/-- The number of places inside a collection. -/
def Collection.size : Collection → Nat
  | sequence _ items => items.length
  | mapping _ entries => entries.length

namespace Document

def collection? (d : Document) (id : Nat) : Option Collection :=
  d.collections.lookup id

/-- The number of places inside all collections. -/
def size (d : Document) : Nat :=
  d.collections.foldl (fun n (_, c) => n + c.size) 0

/-- The tag of a place. -/
def tagOf (d : Document) : Item → Tag
  | .leaf s => s.tag
  | .equals number text => if d.ordinary.contains (.equals number text) then .str else .value
  | .node id =>
    if d.ordinary.contains (.node id) then .str
    else ((d.collection? id).map Collection.tag).getD .unknown

/-- The document after a key with the tag of an equals sign, if it is one, has become an ordinary text. -/
def settle (d : Document) (key : Item) : Document :=
  if d.tagOf key = .value then { d with ordinary := key :: d.ordinary } else d

/-- The document after the entries of a mapping have been replaced. -/
def setEntries (d : Document) (id : Nat) (tag : Tag) (entries : List (Item × Item)) : Document :=
  { d with collections := (id, .mapping tag entries) :: d.collections }

/-- The entry of a mapping that has only one. -/
def pair? (d : Document) : Item → Option (Item × Item)
  | .node id =>
    match d.collection? id with
    | some (.mapping _ [entry]) => some entry
    | _ => none
  | _ => none

/-! ## Scalars made of mappings -/

/-- The text of a place: its scalar, or that of the entry of a mapping whose key is an equals sign. -/
def textOf (d : Document) (depth : Nat) (item : Item) : Except Fault String :=
  match depth with
  | 0 => .error .endlessText
  | depth + 1 =>
    match item with
    | .leaf s => .ok s.text
    | .equals _ text => .ok text
    | .node id =>
      match d.collection? id with
      | some (.mapping _ entries) =>
        match entries.find? fun (key, _) => d.tagOf key = .value with
        | some (_, value) => d.textOf depth value
        | none => .error .malformed
      | _ => .error .malformed

/-- The value of a place that is tagged as a scalar. -/
def readScalar (d : Document) (item : Item) : Except Fault Datum :=
  let tag := d.tagOf item
  match item with
  | .leaf s => s.read
  | .equals _ text => Scalar.read ⟨tag, text⟩
  | .node _ =>
    if tag = .unknown || tag = .merge || tag = .value then .error .malformed
    else
      match d.textOf (d.collections.length + 1) item with
      | .error fault => .error fault
      | .ok text =>
        if tag = .timestamp then .error .timestampOfMapping else Scalar.read ⟨tag, text⟩

end Document

end ImageTrust.Yaml
