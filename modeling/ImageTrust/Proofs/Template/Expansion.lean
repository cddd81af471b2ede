import ImageTrust.Template

/-! # Expansions of templates -/

namespace ImageTrust.Template

/-! ## Reading one piece -/

theorem pieces_of_some {inner after : List Char} {p : Placeholder}
    (h : readPlaceholder? inner = some (p, after)) :
    pieces ('$' :: '{' :: inner) = .hole p :: pieces after := by
  rw [pieces]
  split
  · next heq =>
      rw [h] at heq
      cases heq
      rfl
  · next heq => simp [h] at heq

theorem pieces_of_none {inner : List Char} (h : readPlaceholder? inner = none) :
    pieces ('$' :: '{' :: inner) = .char '$' :: pieces ('{' :: inner) := by
  rw [pieces]
  split
  · next heq => simp [h] at heq
  · rfl

theorem pieces_cons {c : Char} {cs : List Char} (h : ∀ inner, c = '$' → cs ≠ '{' :: inner) :
    pieces (c :: cs) = .char c :: pieces cs := by
  rw [pieces]
  exact fun inner hc hcs => h inner hc hcs

/-! ## Values of pieces -/

theorem valueOf_nil (vars : Variables) : valueOf vars [] = .ok [] :=
  rfl

/-- A sequence of pieces has a value if each of them has one. -/
theorem valueOf_cons_eq_ok_iff {vars : Variables} {piece : Piece} {rest : List Piece}
    {value : List Char} :
    valueOf vars (piece :: rest) = .ok value ↔
      ∃ text more, piece.value vars = .ok text ∧ valueOf vars rest = .ok more ∧
        value = text ++ more := by
  rw [valueOf]
  cases piece.value vars with
  | error unset => simp
  | ok text => cases valueOf vars rest <;> simp [Except.map, eq_comm]

/-! ## Variables that are mentioned -/

def Piece.name? : Piece → Option String
  | .char _ => none
  | .hole p => some (String.ofList p.name)

/-- The variables that a template has placeholders for. -/
def mentioned (template : String) : List String :=
  (pieces template.toList).filterMap Piece.name?

theorem Piece.value_congr {vars others : Variables} {piece : Piece}
    (h : ∀ name, piece.name? = some name → vars.lookup name = others.lookup name) :
    piece.value vars = piece.value others := by
  cases piece with
  | char c => rfl
  | hole p => rw [Piece.value, Piece.value, Placeholder.value, Placeholder.value, h _ rfl]

theorem valueOf_congr {vars others : Variables} {ps : List Piece}
    (h : ∀ name ∈ ps.filterMap Piece.name?, vars.lookup name = others.lookup name) :
    valueOf vars ps = valueOf others ps := by
  induction ps with
  | nil => rfl
  | cons piece ps ih =>
      have hpiece : piece.value vars = piece.value others := by
        refine Piece.value_congr fun name hname => h name ?_
        rw [List.filterMap_cons, hname]
        exact List.mem_cons_self
      have hps : ∀ name ∈ ps.filterMap Piece.name?, vars.lookup name = others.lookup name := by
        intro name hname
        refine h name ?_
        rw [List.filterMap_cons]
        split
        · exact hname
        · exact List.mem_cons_of_mem _ hname
      rw [valueOf, valueOf, hpiece, ih hps]

/-- Only the variables that a template mentions count. -/
theorem expand_congr {vars others : Variables} {template : String}
    (h : ∀ name ∈ mentioned template, vars.lookup name = others.lookup name) :
    expand vars template = expand others template := by
  rw [expand, expand, valueOf_congr h]

end ImageTrust.Template
