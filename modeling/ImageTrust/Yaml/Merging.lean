import ImageTrust.Yaml.Document

/-! # Merging

Before the value of a mapping is built, the mappings that its merge keys bring in are merged into it. Its
merge keys are taken out, its keys that are equals signs become ordinary texts, and the entries that are
brought in are put in front of its own. All this happens in the document itself, so every other place that
refers to the mapping, or to one that is merged, finds it changed.
-/

namespace ImageTrust.Yaml

/-- A step that changes a document and may find a fault. -/
abbrev Merging := StateT Document (Except Fault)

namespace Merging

abbrev Entries := List (Item × Item)

def malformed {α : Type} : Merging α :=
  throw .malformed

/-- The tag and the entries of a mapping as it stands. -/
def mapping (id : Nat) : Merging (Tag × Entries) := do
  match (← get).collection? id with
  | some (.mapping tag entries) => return (tag, entries)
  | _ => malformed

/-- The entries of a mapping as it stands. -/
def entriesOf (id : Nat) : Merging Entries := do
  return (← mapping id).2

/-- Replace the entries of a mapping. -/
def setEntries (id : Nat) (entries : Entries) : Merging Unit := do
  let (tag, _) ← mapping id
  modify (·.setEntries id tag entries)

/-- The entries that mappings bring in, of which the first has the last word. `flatten` prepares a
mapping. -/
def bring (flatten : Nat → Merging Unit) : List Item → Merging Entries
  | [] => return []
  | .node id :: items => do
    flatten id
    let first ← entriesOf id
    let others ← bring flatten items
    return others ++ first
  | _ :: _ => malformed

/-- The entries that the value of a merge key brings in: those of a mapping, or those of a sequence of
mappings. -/
def bringValue (flatten : Nat → Merging Unit) (value : Item) : Merging Entries := do
  match value with
  | .node id =>
    match (← get).collection? id with
    | some (.sequence _ items) => bring flatten items
    | _ => bring flatten [.node id]
  | _ => malformed

/-- The entries that the merge keys of a mapping bring in. Its entries are looked at from `index` on; a
merge key is taken out first, so that the mapping stands without it where it brings in itself. After
`steps` entries nothing is left to look at, also where such a round has already merged the rest. -/
def gather (flatten : Nat → Merging Unit) (id : Nat) : Nat → Nat → Merging Entries
  | 0, _ => return []
  | steps + 1, index => do
    match (← entriesOf id)[index]? with
    | none => return []
    | some (key, value) =>
      if (← get).tagOf key = .merge then
        setEntries id ((← entriesOf id).eraseIdx index)
        let first ← bringValue flatten value
        let others ← gather flatten id steps index
        return first ++ others
      else
        modify (·.settle key)
        gather flatten id steps (index + 1)

/-- Merge into a mapping what its merge keys bring in. Every merge key is taken out before the mappings
that it brings in are prepared, so `depth` need not be more than the number of entries of all mappings. -/
def flatten : Nat → Nat → Merging Unit
  | 0, _ => malformed
  | depth + 1, id => do
    let merged ← gather (flatten depth) id (← entriesOf id).length 0
    unless merged.isEmpty do
      setEntries id (merged ++ (← entriesOf id))

end Merging

end ImageTrust.Yaml
