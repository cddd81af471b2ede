import ImageTrust.Proofs.Path.Components
import ImageTrust.Proofs.Workspace.Placing

/-! # Places and their absolute paths

A workspace has no symbolic links, so where a path leads to is also where its absolute form leads to,
whatever the path looks like. The entries beside a file are then found by their names in the directory of its
absolute path.
-/

namespace ImageTrust.Workspace

open ImageTrust.Path

variable {w : Workspace} {place start next : List String} {cs : List String} {path : String} {e : Entry}

/-! ## Places inside directories -/

/-- A component that can be the name of an entry. -/
structure EntryName (c : String) : Prop extends IsName c where
  nul : '\x00' ∉ c.toList
  short : c.utf8ByteSize ≤ longestName

theorem entryName_iff {c : String} :
    EntryName c ↔ (c ≠ "" ∧ c ≠ "." ∧ c ≠ ".." ∧ '/' ∉ c.toList) ∧ '\x00' ∉ c.toList ∧
      c.utf8ByteSize ≤ longestName := by
  constructor
  · rintro ⟨⟨hempty, hdot, hdots, hslash⟩, hnul, hshort⟩
    exact ⟨⟨hempty, hdot, hdots, hslash⟩, hnul, hshort⟩
  · rintro ⟨⟨hempty, hdot, hdots, hslash⟩, hnul, hshort⟩
    exact ⟨⟨hempty, hdot, hdots, hslash⟩, hnul, hshort⟩

instance (c : String) : Decidable (EntryName c) :=
  decidable_of_iff _ entryName_iff.symm

/-- A place whose names can be those of entries, with directories all the way to it. -/
structure Grounded (w : Workspace) (place : List String) : Prop where
  names : ∀ c ∈ place, EntryName c
  directories : ∀ way, way <+: place → way ≠ place → w.entry? way = some .directory

/-- Every entry stands inside directories. -/
def WellFormed (w : Workspace) : Prop :=
  ∀ place e, w.entry? place = some e → w.Grounded place

theorem entry?_nil (w : Workspace) : w.entry? [] = some .directory :=
  rfl

theorem grounded_nil (w : Workspace) : w.Grounded [] := by
  refine ⟨List.forall_mem_nil _, fun way hway hne => ?_⟩
  exact absurd (List.prefix_nil.mp hway) hne

theorem Grounded.of_prefix (h : w.Grounded place) {front : List String} (hfront : front <+: place) :
    w.Grounded front := by
  refine ⟨fun c hc => h.names c (hfront.subset hc),
    fun way hway hne => h.directories way (hway.trans hfront) ?_⟩
  rintro rfl
  exact hne (hway.eq_of_length_le hfront.length_le)

/-- A name in a directory inside directories. -/
theorem Grounded.concat (h : w.Grounded place) (hentry : w.entry? place = some .directory) {c : String}
    (hname : EntryName c) : w.Grounded (place ++ [c]) := by
  refine ⟨List.forall_mem_append.mpr ⟨h.names, List.forall_mem_singleton.mpr hname⟩,
    fun way hway hne => ?_⟩
  have hplace : way <+: place := (List.prefix_concat_iff.mp hway).resolve_left hne
  by_cases heq : way = place
  · rw [heq, hentry]
  · exact h.directories way hplace heq

/-- The root is well formed without its being among the entries. -/
theorem wellFormed_of_entries (h : ∀ entry ∈ w.entries, w.Grounded entry.1) : w.WellFormed := by
  intro place e hentry
  by_cases hroot : place = []
  · rw [hroot]
    exact grounded_nil w
  · unfold Workspace.entry? at hentry
    rw [if_neg (by simpa using hroot)] at hentry
    obtain ⟨before, after, heq, -⟩ := List.lookup_eq_some_iff.mp hentry
    exact h (place, e) (heq ▸ by simp)

theorem mem_steps_iff {way : List String} : way ∈ steps place ↔ way <+: place ∧ way ≠ [] := by
  rw [steps, List.mem_map]
  constructor
  · rintro ⟨n, hn, rfl⟩
    rw [List.mem_range] at hn
    refine ⟨List.take_prefix _ _, List.ne_nil_of_length_pos ?_⟩
    rw [List.length_take]
    omega
  · rintro ⟨hway, hne⟩
    have hpositive := List.length_pos_of_ne_nil hne
    have hlength := hway.length_le
    refine ⟨way.length - 1, List.mem_range.mpr (by omega), ?_⟩
    rw [Nat.sub_add_cancel hpositive]
    exact (List.prefix_iff_eq_take.mp hway).symm

/-- A workspace with nothing but the directories up to its working directory is well formed. -/
theorem wellFormed_empty {directory : List String} (h : ∀ c ∈ directory, EntryName c) :
    (empty directory).WellFormed := by
  have hdirectories : ∀ way, way <+: directory →
      Workspace.entry? (empty directory) way = some .directory := by
    intro way hway
    by_cases hroot : way = []
    · rw [hroot, entry?_nil]
    · unfold Workspace.entry? empty
      rw [if_neg (by simpa using hroot)]
      exact List.lookup_graph _ (mem_steps_iff.mpr ⟨hway, hroot⟩)
  refine wellFormed_of_entries fun entry hentry => ?_
  obtain ⟨way, hway, rfl⟩ := List.mem_map.mp hentry
  have hbelow := (mem_steps_iff.mp hway).1
  exact ⟨fun c hc => h c (hbelow.subset hc), fun front hfront _ => hdirectories front (hfront.trans hbelow)⟩

/-- An entry put inside directories keeps a workspace well formed, unless it takes the place of a
directory. -/
theorem WellFormed.put (hw : w.WellFormed) (hplace : w.Grounded place)
    (hkept : w.entry? place = some .directory → e = .directory) :
    Workspace.WellFormed (w.put place e) := by
  have hdirectory : ∀ way, w.entry? way = some .directory →
      Workspace.entry? (w.put place e) way = some .directory := by
    intro way hway
    by_cases heq : way = place
    · by_cases hroot : way = []
      · rw [hroot, entry?_nil]
      · rw [← heq, entry?_put_self hroot, hkept (heq ▸ hway)]
    · rw [entry?_put_of_ne heq, hway]
  have hgrounded : ∀ way, w.Grounded way → Workspace.Grounded (w.put place e) way := fun way h =>
    ⟨h.names, fun front hfront hne => hdirectory front (h.directories front hfront hne)⟩
  intro other e' hother
  by_cases heq : other = place
  · rw [heq]
    exact hgrounded place hplace
  · rw [entry?_put_of_ne heq] at hother
    exact hgrounded other (hw other e' hother)

/-! ## One component -/

/-- To follow a component is to stay, to go up, or to go down to an entry of that name. -/
theorem follow_singleton_cases {c : String} (h : w.follow start [c] = .ok next) :
    w.entry? start = some .directory ∧
      ((c = "" ∨ c = ".") ∧ next = start ∨ c = ".." ∧ next = start.dropLast ∨
        (c ≠ "" ∧ c ≠ "." ∧ c ≠ "..") ∧ c.utf8ByteSize ≤ longestName ∧ next = start ++ [c]) := by
  rw [follow] at h
  split at h
  · cases h
  · cases h
  · next hentry =>
      refine ⟨hentry, ?_⟩
      split at h
      · next hstay =>
          cases h
          exact .inl ⟨by simpa using hstay, rfl⟩
      · next hstay =>
          split at h
          · next hup =>
              cases h
              exact .inr (.inl ⟨hup, rfl⟩)
          · next hup =>
              split at h
              · cases h
              · next hlong =>
                  cases h
                  simp only [Bool.or_eq_true, decide_eq_true_eq, not_or] at hstay
                  exact .inr (.inr ⟨⟨hstay.1, hstay.2, hup⟩, Nat.le_of_not_lt hlong, rfl⟩)

theorem simplify_of_follow_singleton {c : String} (h : w.follow start [c] = .ok next)
    (cs : List String) : simplify start.reverse (c :: cs) = simplify next.reverse cs := by
  rw [simplify]
  obtain ⟨-, ⟨hstay, rfl⟩ | ⟨rfl, rfl⟩ | ⟨⟨hempty, hdot, hdots⟩, -, rfl⟩⟩ := follow_singleton_cases h
  · rw [if_pos (by simpa using hstay)]
  · rw [if_neg (by decide), if_pos rfl, List.tail_reverse]
  · rw [if_neg (by simp [hempty, hdot]), if_neg hdots, List.reverse_concat]

/-! ## Whole paths -/

/-- What components lead to is what is left of them when they are simplified. -/
theorem simplify_of_follow (h : w.follow start cs = .ok place) : simplify start.reverse cs = place := by
  induction cs generalizing start with
  | nil =>
      cases h
      rw [simplify, List.reverse_reverse]
  | cons c cs ih =>
      rw [follow_cons] at h
      cases hstep : w.follow start [c] with
      | error fault =>
          rw [hstep] at h
          cases h
      | ok next =>
          rw [hstep] at h
          rw [simplify_of_follow_singleton hstep, ih h]

/-- A place inside directories is found from the root by its names. -/
theorem Grounded.follow_nil (h : w.Grounded place) : w.follow [] place = .ok place := by
  induction place using List.reverseRecOn with
  | nil => rfl
  | append_singleton front c ih =>
      have hfront : front <+: front ++ [c] := List.prefix_append ..
      have hentry := h.directories front hfront (by simp)
      have hname := h.names c (by simp)
      rw [follow_append, ih (h.of_prefix hfront), Except.bind, Workspace.follow, hentry]
      dsimp only
      rw [if_neg (by simp [hname.ne_empty, hname.ne_dot]), if_neg hname.ne_dots,
        if_neg (Nat.not_lt.mpr hname.short), Workspace.follow]

/-! ## Absolute paths -/

theorem LeadsTo.entry?_origin (h : w.LeadsTo path place) :
    w.entry? (w.origin path) = some .directory := by
  have hne : components path ≠ [] := mt List.map_eq_nil_iff.mp (Text.splitAt_ne_nil '/' path.toList)
  obtain ⟨c, cs, hcomponents⟩ := List.exists_cons_of_ne_nil hne
  have hfollow := h.follow_eq
  rw [hcomponents, follow_cons] at hfollow
  cases hstep : w.follow (w.origin path) [c] with
  | error fault =>
      rw [hstep] at hfollow
      cases hfollow
  | ok next => exact (follow_singleton_cases hstep).1

/-- The absolute form of a path is made of the names of the place that it leads to. -/
theorem WellFormed.absolute_eq (hw : w.WellFormed) (h : w.LeadsTo path place) :
    absolute w.workingDirectory path = rootOf path ++ String.intercalate "/" place := by
  have hdirectory : w.workingDirectory = directoryPath w.directory := rfl
  have hplace := simplify_of_follow h.follow_eq
  have horigin := hw _ _ h.entry?_origin
  rw [origin] at hplace horigin
  rw [hdirectory, Path.absolute_eq]
  by_cases habsolute : isAbsolute path
  · rw [if_pos habsolute, List.reverse_nil] at hplace
    rw [join, if_pos habsolute, hplace]
  · rw [if_neg habsolute] at hplace horigin
    have hnames : ∀ c ∈ w.directory, IsName c := fun c hc => (horigin.names c hc).toIsName
    rw [rootOf_join hnames, components_join hnames habsolute, List.cons_append, simplify,
      if_pos (by simp), simplify_append hnames, List.append_nil, hplace]

/-! ## Entries beside an entry -/

/-- The path of what stands beside the entry that a path leads to. -/
def neighbour (path : String) (place : List String) (name : String) : String :=
  rootOf path ++ String.intercalate "/" (place.dropLast ++ [name])

section Neighbours

variable {name : String} {bytes : List UInt8}

theorem ne_nil_of_file (hfile : w.entry? place = some (.file bytes)) : place ≠ [] := by
  rintro rfl
  rw [entry?_nil] at hfile
  cases hfile

theorem isAbsolute_neighbour (path : String) (place : List String) (name : String) :
    isAbsolute (neighbour path place name) := by
  rcases rootOf_eq path with hroot | hroot <;> simp [isAbsolute, neighbour, hroot]

/-- A name is seen from the directory of an absolute path as the path of a neighbour. -/
theorem WellFormed.join_parent (hw : w.WellFormed) (h : w.LeadsTo path place)
    (hfile : w.entry? place = some (.file bytes)) (hname : ¬ isAbsolute name) :
    join (parent (absolute w.workingDirectory path)) name = neighbour path place name := by
  have hne := ne_nil_of_file hfile
  have hgrounded := hw place _ hfile
  have hfront : ∀ c ∈ place.dropLast, IsName c :=
    fun c hc => (hgrounded.names c (List.mem_of_mem_dropLast hc)).toIsName
  have hlast : EntryName (place.getLast hne) := hgrounded.names _ (List.getLast_mem hne)
  have habsolute : absolute w.workingDirectory path =
      String.ofList (stem (rootOf path).toList place.dropLast ++ (place.getLast hne).toList) := by
    rw [← String.toList_inj, hw.absolute_eq h, String.toList_ofList, ← toList_intercalate_concat,
      List.dropLast_concat_getLast]
  rw [habsolute, parent_stem (isRoot_rootOf path) hfront hlast.slash, ← String.toList_inj,
    toList_join (isRoot_rootOf path) hfront hname, neighbour, toList_intercalate_concat]

theorem follow_empties {empties : List String} (hempties : ∀ c ∈ empties, c = "")
    (cs : List String) : w.follow [] (empties ++ cs) = w.follow [] cs := by
  induction empties with
  | nil => rfl
  | cons c empties ih =>
      rw [List.cons_append, Workspace.follow, entry?_nil, hempties c List.mem_cons_self]
      exact ih fun d hd => hempties d (List.mem_cons_of_mem c hd)

/-- The names of a place inside directories, behind the slashes of any path, lead to the place. -/
theorem Grounded.leadsTo (h : w.Grounded place) (hne : place ≠ []) (path : String)
    (hlength : (rootOf path ++ String.intercalate "/" place).utf8ByteSize ≤ longestPath) :
    w.LeadsTo (rootOf path ++ String.intercalate "/" place) place := by
  have hslash : "/".toList = ['/'] := rfl
  have htext : rootOf path ++ String.intercalate "/" place =
      String.ofList ((rootOf path).toList ++ ['/'].intercalate (place.map String.toList)) := by
    rw [← String.toList_inj, String.toList_append, String.toList_intercalate, hslash,
      String.toList_ofList]
  have habsolute : isAbsolute (rootOf path ++ String.intercalate "/" place) := by
    rcases rootOf_eq path with hroot | hroot <;> simp [isAbsolute, hroot]
  have hnul : '\x00' ∉ (rootOf path ++ String.intercalate "/" place).toList := by
    have hlast := (h.names _ (List.getLast_mem hne)).nul
    have hstem : '\x00' ∉ stem (rootOf path).toList place.dropLast :=
      not_mem_stem (isRoot_rootOf path) (by decide)
        fun c hc => (h.names c (List.mem_of_mem_dropLast hc)).nul
    rw [← List.dropLast_concat_getLast hne, toList_intercalate_concat, List.mem_append, not_or]
    exact ⟨hstem, hlast⟩
  refine ⟨⟨hnul, ?_, hlength⟩, ?_⟩
  · intro hempty
    rw [hempty] at habsolute
    cases habsolute
  · obtain ⟨empties, hempties, hcomponents⟩ :=
      components_root_append (isRoot_rootOf path) hne fun c hc => (h.names c hc).slash
    rw [origin, if_pos habsolute, htext, hcomponents, follow_empties hempties, h.follow_nil]

theorem find_of_leadsTo (h : w.LeadsTo path place) :
    w.find path =
      match w.entry? place with
      | none => .error .notFound
      | some entry => .ok entry := by
  rw [find_of_nameable h.nameable, h.follow_eq]
  rfl

theorem read_of_leadsTo (h : w.LeadsTo path place) (hfile : w.entry? place = some (.file bytes)) :
    w.disk.read path = .ok bytes := by
  change w.read path = _
  rw [read, find_of_leadsTo h, hfile]

theorem kind_of_leadsTo (h : w.LeadsTo path place) (hfile : w.entry? place = some (.file bytes)) :
    w.disk.kind path = .ok .file := by
  change w.kind path = _
  rw [kind, find_of_leadsTo h, hfile]
  rfl

theorem kind_of_leadsTo_missing (h : w.LeadsTo path place) (hmissing : w.entry? place = none) :
    w.disk.kind path = .error .notFound := by
  change w.kind path = _
  rw [kind, find_of_leadsTo h, hmissing]
  rfl

theorem exists_kind_eq_error_of_long (h : longestPath < path.utf8ByteSize) :
    ∃ fault, w.disk.kind path = .error fault := by
  have hfind : ∃ fault, w.find path = .error fault := by
    rw [find, if_pos h]
    split_ifs <;> exact ⟨_, rfl⟩
  obtain ⟨fault, hfault⟩ := hfind
  refine ⟨fault, ?_⟩
  change w.kind path = _
  rw [kind, hfault]
  rfl

/-- A neighbour that is not too far away is found by its path. -/
theorem WellFormed.leadsTo_neighbour (hw : w.WellFormed) (hfile : w.entry? place = some (.file bytes))
    (hname : EntryName name) (hlength : (neighbour path place name).utf8ByteSize ≤ longestPath) :
    w.LeadsTo (neighbour path place name) (place.dropLast ++ [name]) := by
  have hne := ne_nil_of_file hfile
  have hgrounded := hw place _ hfile
  have hprefix := List.dropLast_prefix place
  have hproper : place.dropLast ≠ place := by
    intro heq
    have hlength := congrArg List.length heq
    rw [List.length_dropLast] at hlength
    have hpositive := List.length_pos_of_ne_nil hne
    omega
  have hdirectory : w.entry? place.dropLast = some .directory := hgrounded.directories _ hprefix hproper
  exact ((hgrounded.of_prefix hprefix).concat hdirectory hname).leadsTo (by simp) path hlength

end Neighbours

end ImageTrust.Workspace
