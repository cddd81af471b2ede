/-! # Templates

Texts with placeholders for variables: `${name}`, `${name:-alternative}` for a variable that may be
unset or empty, and `${name:+text}` for a text that appears only beside a non-empty variable. A template
is read once, from left to right; values and alternatives are not read again. Whatever does not have
the form of a placeholder stands for itself.
-/

namespace ImageTrust

/-- Variables with their values. The first binding of a name counts. -/
abbrev Variables := List (String × String)

/-- The name of a variable without a value. -/
structure UnsetVariable where
  name : String
  deriving DecidableEq, Repr

def UnsetVariable.message (unset : UnsetVariable) : String :=
  "Variable " ++ unset.name ++ " is not set"

namespace Template

/-- What a placeholder stands for. -/
inductive Use
  /-- The variable, which has to be set. -/
  | required
  /-- The variable unless it is unset or empty, else the alternative. -/
  | orElse (alternative : List Char)
  /-- The text if the variable is set and not empty, else nothing. -/
  | ifSet (text : List Char)
  deriving DecidableEq, Repr

structure Placeholder where
  name : List Char
  use : Use
  deriving DecidableEq, Repr

/-- A template is a sequence of characters and placeholders. -/
inductive Piece
  | char (c : Char)
  | hole (placeholder : Placeholder)
  deriving DecidableEq, Repr

/-! ## Reading -/

def isNameChar (c : Char) : Bool :=
  c ≠ '}' && c ≠ ':'

/-- An alternative up to its closing brace, and the rest after the brace. -/
def readAlternative? (cs : List Char) : Option (List Char × List Char) :=
  match cs.dropWhile (· ≠ '}') with
  | [] => none
  | _ :: rest => some (cs.takeWhile (· ≠ '}'), rest)

/-- A placeholder whose opening `${` has been read, and the rest after its closing brace. -/
def readPlaceholder? (cs : List Char) : Option (Placeholder × List Char) :=
  let name := cs.takeWhile isNameChar
  if name.isEmpty then none
  else
    match cs.dropWhile isNameChar with
    | '}' :: rest => some (⟨name, .required⟩, rest)
    | ':' :: '-' :: rest => (readAlternative? rest).map fun (alt, rest) => (⟨name, .orElse alt⟩, rest)
    | ':' :: '+' :: rest => (readAlternative? rest).map fun (alt, rest) => (⟨name, .ifSet alt⟩, rest)
    | _ => none

theorem readAlternative?_length {cs alt rest : List Char}
    (h : readAlternative? cs = some (alt, rest)) : rest.length < cs.length := by
  have hle := (List.dropWhile_suffix (p := fun c : Char => decide (c ≠ '}')) (l := cs)).length_le
  unfold readAlternative? at h
  split at h
  · simp at h
  · next heq =>
    simp only [Option.some.injEq, Prod.mk.injEq] at h
    rw [heq, List.length_cons] at hle
    rw [← h.2]
    omega

theorem readPlaceholder?_length {cs : List Char} {p : Placeholder} {rest : List Char}
    (h : readPlaceholder? cs = some (p, rest)) : rest.length < cs.length := by
  have hle := (List.dropWhile_suffix (p := isNameChar) (l := cs)).length_le
  unfold readPlaceholder? at h
  dsimp only at h
  split at h
  · simp at h
  split at h
  · next heq =>
    simp only [Option.some.injEq, Prod.mk.injEq] at h
    rw [heq, List.length_cons] at hle
    rw [← h.2]
    omega
  · next heq =>
    obtain ⟨⟨alt, r⟩, hr, hp⟩ := Option.map_eq_some_iff.1 h
    have := readAlternative?_length hr
    simp only [Prod.mk.injEq] at hp
    rw [heq, List.length_cons, List.length_cons] at hle
    rw [← hp.2]
    omega
  · next heq =>
    obtain ⟨⟨alt, r⟩, hr, hp⟩ := Option.map_eq_some_iff.1 h
    have := readAlternative?_length hr
    simp only [Prod.mk.injEq] at hp
    rw [heq, List.length_cons, List.length_cons] at hle
    rw [← hp.2]
    omega
  · simp at h

/-- The pieces of a template. -/
def pieces : List Char → List Piece
  | [] => []
  | '$' :: '{' :: inner =>
    match _h : readPlaceholder? inner with
    | some (p, after) => .hole p :: pieces after
    | none => .char '$' :: pieces ('{' :: inner)
  | c :: rest => .char c :: pieces rest
termination_by cs => cs.length
decreasing_by
  · have := readPlaceholder?_length _h
    simp only [List.length_cons]
    omega
  all_goals simp only [List.length_cons]; omega

/-! ## Expanding -/

/-- The text that a placeholder is replaced by. -/
def Placeholder.value (vars : Variables) (p : Placeholder) : Except UnsetVariable (List Char) :=
  let value := vars.lookup (String.ofList p.name)
  let filled := value.filter (· ≠ "")
  match p.use with
  | .required =>
    match value with
    | some v => .ok v.toList
    | none => .error ⟨String.ofList p.name⟩
  | .orElse alternative => .ok ((filled.map String.toList).getD alternative)
  | .ifSet text => .ok (if filled.isSome then text else [])

def Piece.value (vars : Variables) : Piece → Except UnsetVariable (List Char)
  | .char c => .ok [c]
  | .hole p => p.value vars

/-- The text of a sequence of pieces, or the leftmost variable that is required and not set. -/
def valueOf (vars : Variables) : List Piece → Except UnsetVariable (List Char)
  | [] => .ok []
  | piece :: rest =>
    match piece.value vars with
    | .error unset => .error unset
    | .ok text => (valueOf vars rest).map (text ++ ·)

/-- A template with its placeholders replaced. -/
def expand (vars : Variables) (template : String) : Except UnsetVariable String :=
  (valueOf vars (pieces template.toList)).map String.ofList

end ImageTrust.Template
