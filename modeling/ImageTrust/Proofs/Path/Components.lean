import ImageTrust.Path
import ImageTrust.Proofs.Text.Pieces

/-! # Paths and their components

An absolute path is its slashes at the beginning and the names of its components with slashes between
them. The directory of such a path, and a path seen from that directory, are told from the names.
-/

namespace ImageTrust.Path

open Text

/-- A component that is the name of an entry. -/
structure IsName (c : String) : Prop where
  ne_empty : c ≠ ""
  ne_dot : c ≠ "."
  ne_dots : c ≠ ".."
  slash : '/' ∉ c.toList

/-- The slashes at the beginning of an absolute path. -/
def IsRoot (root : List Char) : Prop :=
  root = ['/'] ∨ root = ['/', '/']

variable {path : String} {names cs kept : List String} {root : List Char}

theorem IsName.exists_cons {c : String} (h : IsName c) :
    ∃ first rest, c.toList = first :: rest ∧ first ≠ '/' := by
  obtain ⟨first, rest, htext⟩ := List.exists_cons_of_ne_nil (mt String.toList_eq_nil_iff.mp h.ne_empty)
  refine ⟨first, rest, htext, ?_⟩
  rintro rfl
  exact h.slash (htext ▸ List.mem_cons_self)

/-! ## Components -/

theorem components_root_append (hroot : IsRoot root) (hne : names ≠ [])
    (hslash : ∀ c ∈ names, '/' ∉ c.toList) :
    ∃ empties : List String, (∀ c ∈ empties, c = "") ∧
      components (String.ofList (root ++ ['/'].intercalate (names.map String.toList))) =
        empties ++ names := by
  have hnames : splitAt '/' (['/'].intercalate (names.map String.toList)) = names.map String.toList :=
    splitAt_intercalate (by simpa using hne) (by simpa using hslash)
  have hback : (names.map String.toList).map String.ofList = names := by simp
  rcases hroot with rfl | rfl
  · exact ⟨[""], by simp, by simp [components, splitAt, hnames]⟩
  · exact ⟨["", ""], by simp, by simp [components, splitAt, hnames]⟩

/-- Names are kept, each before the ones that come after it. -/
theorem simplify_append (h : ∀ c ∈ names, IsName c) :
    simplify kept (names ++ cs) = simplify (names.reverse ++ kept) cs := by
  induction names generalizing kept with
  | nil => rfl
  | cons c names ih =>
      have hc := h c List.mem_cons_self
      have hlater := fun d hd => h d (List.mem_cons_of_mem c hd)
      rw [List.cons_append, simplify, if_neg (by simp [hc.ne_empty, hc.ne_dot]), if_neg hc.ne_dots,
        ih hlater, List.reverse_cons, List.append_assoc]
      rfl

/-! ## The beginning of a path -/

/-- The slashes that an absolute path keeps at its beginning: two if there are exactly two, else one. -/
def rootOf (path : String) : String :=
  match path.toList with
  | '/' :: '/' :: '/' :: _ => "/"
  | '/' :: '/' :: _ => "//"
  | _ => "/"

theorem rootOf_eq (path : String) : rootOf path = "/" ∨ rootOf path = "//" := by
  rw [rootOf]
  split
  · exact .inl rfl
  · exact .inr rfl
  · exact .inl rfl

theorem rootOf_of_single (h : ∀ rest, path.toList ≠ '/' :: '/' :: rest) : rootOf path = "/" := by
  rw [rootOf]
  split
  · next heq => exact absurd heq (h _)
  · next heq => exact absurd heq (h _)
  · rfl

theorem rootOf_of_relative (h : ¬ isAbsolute path) : rootOf path = "/" := by
  refine rootOf_of_single fun rest heq => h ?_
  rw [isAbsolute, heq]
  rfl

theorem absolute_eq (directory path : String) :
    absolute directory path = rootOf (join directory path) ++
      String.intercalate "/" (simplify [] (components (join directory path))) :=
  rfl

/-! ## Entries of a directory -/

/-- What stands before the entries of a directory in their paths. -/
def stem (root : List Char) (names : List String) : List Char :=
  root ++ names.flatMap fun c => c.toList ++ ['/']

theorem isRoot_rootOf (path : String) : IsRoot (rootOf path).toList := by
  rcases rootOf_eq path with h | h
  · exact .inl (by rw [h]; rfl)
  · exact .inr (by rw [h]; rfl)

theorem toList_intercalate_concat (root : String) (names : List String) (last : String) :
    (root ++ String.intercalate "/" (names ++ [last])).toList =
      stem root.toList names ++ last.toList := by
  have hslash : "/".toList = ['/'] := rfl
  rw [String.toList_append, String.toList_intercalate, List.map_append, List.map_singleton, hslash,
    intercalate_concat, stem, List.flatMap_map, List.append_assoc]

theorem stem_concat (root : List Char) (names : List String) (last : String) :
    stem root (names ++ [last]) = stem root names ++ last.toList ++ ['/'] := by
  simp [stem]

theorem getLast?_stem (h : IsRoot root) (names : List String) : (stem root names).getLast? = some '/' := by
  rcases List.eq_nil_or_concat names with rfl | ⟨front, last, rfl⟩
  · rcases h with rfl | rfl <;> rfl
  · rw [List.concat_eq_append, stem_concat, List.getLast?_concat]

theorem not_mem_stem {x : Char} (hroot : IsRoot root) (hx : x ≠ '/') (h : ∀ c ∈ names, x ∉ c.toList) :
    x ∉ stem root names := by
  have hroot' : x ∉ root := by rcases hroot with rfl | rfl <;> simp [hx]
  rw [stem, List.mem_append, List.mem_flatMap, not_or]
  refine ⟨hroot', ?_⟩
  rintro ⟨c, hc, hmem⟩
  rw [List.mem_append, List.mem_singleton] at hmem
  exact hmem.elim (h c hc) hx

theorem components_stem (hslash : ∀ c ∈ names, '/' ∉ c.toList) (rest : List Char) :
    components (String.ofList (stem ['/'] names ++ rest)) =
      "" :: names ++ components (String.ofList rest) := by
  have hnames : ∀ rest : List Char,
      splitAt '/' ((names.flatMap fun c => c.toList ++ ['/']) ++ rest) =
        names.map String.toList ++ splitAt '/' rest := by
    intro rest
    induction names with
    | nil => rfl
    | cons c names ih =>
        have hlater := fun d hd => hslash d (List.mem_cons_of_mem c hd)
        have hcut := splitAt_append_cons ((names.flatMap fun d => d.toList ++ ['/']) ++ rest)
          (hslash c List.mem_cons_self)
        rw [ih hlater] at hcut
        simpa using hcut
  have hroot : splitAt '/' (stem ['/'] names ++ rest) =
      [] :: splitAt '/' ((names.flatMap fun c => c.toList ++ ['/']) ++ rest) := by
    simp [stem, splitAt]
  rw [components, String.toList_ofList, hroot, hnames, components, String.toList_ofList]
  simp

/-- A path as seen from a directory stands behind the stem of the directory. -/
theorem toList_join (hroot : IsRoot root) (hnames : ∀ c ∈ names, IsName c) (hpath : ¬ isAbsolute path) :
    (join (String.ofList (root ++ ['/'].intercalate (names.map String.toList))) path).toList =
      stem root names ++ path.toList := by
  rw [join, if_neg hpath]
  rcases List.eq_nil_or_concat names with rfl | ⟨front, last, rfl⟩
  · rcases hroot with rfl | rfl <;> simp [stem]
  · rw [List.concat_eq_append, List.map_append, List.map_singleton, intercalate_concat, List.flatMap_map]
    have hlast : IsName last := hnames last (by simp)
    have hend : last.toList.getLast? ≠ some '/' := fun heq => hlast.slash (List.mem_of_getLast? heq)
    have hsome : last.toList.getLast?.isSome := by simp [hlast.ne_empty]
    obtain ⟨c, hc⟩ := Option.isSome_iff_exists.mp hsome
    have hslash : c ≠ '/' := fun heq => hend (heq ▸ hc)
    have hnonempty : root ≠ [] := by rcases hroot with rfl | rfl <;> simp
    rw [if_neg]
    · simp [stem]
    · simp [List.getLast?_append, hc, hslash, hnonempty]

/-- The directory of an entry. -/
theorem parent_stem (hroot : IsRoot root) (hnames : ∀ c ∈ names, IsName c) {last : List Char}
    (hlast : '/' ∉ last) :
    parent (String.ofList (stem root names ++ last)) =
      String.ofList (root ++ ['/'].intercalate (names.map String.toList)) := by
  have hinside : ∀ c ∈ last, decide (c ≠ '/') = true :=
    fun c hc => decide_eq_true fun heq => hlast (heq ▸ hc)
  have hstops : ∀ c ∈ (stem root names).getLast?, decide (c ≠ '/') = false := by
    intro c hc
    rw [getLast?_stem hroot, Option.mem_some] at hc
    simp [← hc]
  rw [parent, String.toList_ofList, dropEndWhile_append hinside hstops]
  rcases List.eq_nil_or_concat names with rfl | ⟨front, last, rfl⟩
  · rcases hroot with rfl | rfl <;> rfl
  · have hname : IsName last := hnames last (by simp)
    have hend : ∀ c ∈ (stem root front ++ last.toList).getLast?, decide (c = '/') = false := by
      intro c hc
      refine decide_eq_false ?_
      rintro rfl
      have hsome : last.toList.getLast?.isSome := by simp [hname.ne_empty]
      obtain ⟨d, hd⟩ := Option.isSome_iff_exists.mp hsome
      rw [List.getLast?_append, hd, Option.some_or, Option.mem_some] at hc
      exact hname.slash (List.mem_of_getLast? (hc ▸ hd))
    have hslash : ∀ c ∈ ['/'], decide (c = '/') = true := by simp
    rw [List.concat_eq_append, stem_concat, dropEndWhile_append hslash hend, List.map_append,
      List.map_singleton, intercalate_concat, List.flatMap_map, if_neg]
    · simp [stem]
    · simp [hname.ne_empty]

/-! ## Absolute paths -/

/-- The path of a directory below the root, which is the root itself without names. -/
def directoryPath (names : List String) : String :=
  "/" ++ String.intercalate "/" names

theorem directoryPath_eq (names : List String) :
    directoryPath names = String.ofList (['/'] ++ ['/'].intercalate (names.map String.toList)) := by
  have hslash : "/".toList = ['/'] := rfl
  rw [← String.toList_inj, directoryPath, String.toList_append, String.toList_intercalate, hslash,
    String.toList_ofList]

theorem components_join (h : ∀ c ∈ names, IsName c) (hpath : ¬ isAbsolute path) :
    components (join (directoryPath names) path) = "" :: names ++ components path := by
  have hjoin : join (directoryPath names) path = String.ofList (stem ['/'] names ++ path.toList) := by
    rw [← String.toList_inj, directoryPath_eq, toList_join (.inl rfl) h hpath, String.toList_ofList]
  rw [hjoin, components_stem fun c hc => (h c hc).slash, String.ofList_toList]

theorem rootOf_join (h : ∀ c ∈ names, IsName c) (path : String) :
    rootOf (join (directoryPath names) path) = rootOf path := by
  by_cases habsolute : isAbsolute path
  · rw [join, if_pos habsolute]
  rw [rootOf_of_relative habsolute]
  refine rootOf_of_single fun rest heq => ?_
  rw [directoryPath_eq, toList_join (.inl rfl) h habsolute] at heq
  cases names with
  | nil =>
      have hpath : path.toList = '/' :: rest := (List.cons.inj heq).2
      exact habsolute (by rw [isAbsolute, hpath]; rfl)
  | cons first others =>
      obtain ⟨c, letters, htext, hc⟩ := (h first List.mem_cons_self).exists_cons
      simp only [stem, List.flatMap_cons, htext, List.cons_append, List.nil_append, List.cons.injEq] at heq
      exact hc heq.2.1

end ImageTrust.Path
