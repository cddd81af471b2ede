import ImageTrust.Proofs.Certificate.Installation

/-! # Copies of certificates do not collide

Whatever the paths of some certificates are, their copies are ordinary files of one directory, each with a
name of its own.
-/

namespace ImageTrust.Certificate

open Text

/-! ## The last component of a path -/

/-- What stands behind the last slash of a path, once slashes at its end are dropped. The rule does not
invoke `lastComponent`. -/
def IsLastComponent (path name : List Char) : Prop :=
  ∃ trimmed slashes, path = trimmed ++ slashes ∧ (∀ c ∈ slashes, c = '/') ∧
    trimmed.getLast? ≠ some '/' ∧ '/' ∉ name ∧ (trimmed = name ∨ ∃ front, trimmed = front ++ '/' :: name)

theorem reverse_takeWhile_reverse {front name : List Char} (h : '/' ∉ name)
    (hfront : front = [] ∨ front.getLast? = some '/') :
    ((front ++ name).reverse.takeWhile (· ≠ '/')).reverse = name := by
  have hinside : ∀ c ∈ name.reverse, decide (c ≠ '/') = true := by
    intro c hc
    apply decide_eq_true
    rintro rfl
    exact h (List.mem_reverse.mp hc)
  have hstops : ∀ c, front.reverse.head? = some c → decide (c ≠ '/') = false := by
    intro c hc
    rw [List.head?_reverse] at hc
    rcases hfront with rfl | hlast
    · simp at hc
    · rw [hlast] at hc
      simpa using (Option.some.inj hc).symm
  rw [List.reverse_append, takeWhile_run hinside hstops, List.reverse_reverse]

theorem IsLastComponent.eq_lastComponent {path name : List Char} (h : IsLastComponent path name) :
    name = lastComponent path := by
  obtain ⟨trimmed, slashes, rfl, hslashes, hend, hname, hsplit⟩ := h
  have htrimmed : dropEndWhile (· = '/') (trimmed ++ slashes) = trimmed := by
    apply dropEndWhile_append
    · intro c hc
      simpa using hslashes c hc
    · intro c hc
      apply decide_eq_false
      rintro rfl
      exact hend hc
  rw [lastComponent, htrimmed]
  rcases hsplit with rfl | ⟨front, rfl⟩
  · exact (@reverse_takeWhile_reverse [] _ hname (.inl rfl)).symm
  · have hsplit : front ++ '/' :: name = (front ++ ['/']) ++ name := by simp
    rw [hsplit, reverse_takeWhile_reverse hname (.inr (by simp))]

theorem isLastComponent_lastComponent (path : List Char) : IsLastComponent path (lastComponent path) := by
  have hsplit := List.takeWhile_append_dropWhile (p := (· = '/')) (l := path.reverse)
  refine ⟨dropEndWhile (· = '/') path, (path.reverse.takeWhile (· = '/')).reverse, ?_, ?_, ?_,
    slash_not_mem_lastComponent path, ?_⟩
  · rw [dropEndWhile, ← List.reverse_append, hsplit, List.reverse_reverse]
  · intro c hc
    simpa using List.mem_takeWhile_imp (List.mem_reverse.mp hc)
  · intro hlast
    rw [dropEndWhile, List.getLast?_reverse] at hlast
    simpa using head?_dropWhile hlast
  · rw [lastComponent]
    generalize dropEndWhile (· = '/') path = trimmed
    have hsplit := List.takeWhile_append_dropWhile (p := (· ≠ '/')) (l := trimmed.reverse)
    cases hrest : trimmed.reverse.dropWhile (· ≠ '/') with
    | nil =>
        left
        rw [hrest, List.append_nil] at hsplit
        rw [hsplit, List.reverse_reverse]
    | cons c more =>
        right
        have hc : c = '/' := by
          simpa using head?_dropWhile (p := (· ≠ '/')) (congrArg List.head? hrest)
        refine ⟨more.reverse, ?_⟩
        rw [hrest, hc] at hsplit
        have hreverse := congrArg List.reverse hsplit
        simpa using hreverse.symm

theorem isLastComponent_iff {path name : List Char} :
    IsLastComponent path name ↔ name = lastComponent path := by
  refine ⟨IsLastComponent.eq_lastComponent, ?_⟩
  rintro rfl
  exact isLastComponent_lastComponent path

/-! ## Ordinary names -/

/-- A name of a file inside a directory: neither the directory nor the one around it, nor a path. -/
structure IsOrdinary (name : String) : Prop where
  ne_empty : name ≠ ""
  ne_dot : name ≠ "."
  ne_dots : name ≠ ".."
  slash_not_mem : '/' ∉ name.toList

theorem isOrdinary_fileName (path : String) (index : ℤ) : IsOrdinary (fileName path index) := by
  have hhead : (fileName path index).toList.head? = some 'c' := by
    rw [toList_fileName]
    rfl
  refine ⟨?_, ?_, ?_, slash_not_mem_fileName path index⟩
  all_goals
    intro h
    simp [h] at hhead

/-! ## Destinations -/

/-- The places that certificates are copied to. -/
def destinations (certificates : List String) (directory : String) : List String :=
  (copyEntries certificates directory).map CopyEntry.destination

theorem destinations_eq (certificates : List String) (directory : String) :
    destinations certificates directory =
      certificates.zipIdx.map fun x => directory ++ "/" ++ fileName x.1 x.2 := by
  simp [destinations, copyEntries]

theorem nodup_destinations (certificates : List String) (directory : String) :
    (destinations certificates directory).Nodup := by
  rw [destinations_eq]
  apply nodup_map_zipIdx
  intro x y h
  have hindex := (fileName_eq_iff.mp ((String.append_right_inj _).mp h)).1
  exact Int.natCast_inj.mp hindex

/-- Every certificate has its own place in the directory. -/
structure PlacedIn (directory : String) (certificates : List String) (places : List String) : Prop where
  length_eq : places.length = certificates.length
  nodup : places.Nodup
  inside : ∀ place ∈ places, ∃ name, IsOrdinary name ∧ place = directory ++ "/" ++ name

theorem placedIn_destinations (certificates : List String) (directory : String) :
    PlacedIn directory certificates (destinations certificates directory) := by
  refine ⟨?_, nodup_destinations certificates directory, ?_⟩
  · simp [destinations_eq]
  · intro place hplace
    rw [destinations_eq] at hplace
    obtain ⟨⟨path, index⟩, -, rfl⟩ := List.mem_map.mp hplace
    exact ⟨_, isOrdinary_fileName path index, rfl⟩

/-! ## Public theorem -/

/-- The name of a copy tells the index and the last component of the path apart from all others, and it is
ordinary whatever the path is; so the copies of any certificates lie in their directory without
colliding. -/
theorem fileName_collisionFree :
    (∀ (p q : String) (i j : ℤ), fileName p i = fileName q j ↔
      i = j ∧ ∃ name, IsLastComponent p.toList name ∧ IsLastComponent q.toList name) ∧
    (∀ (path : String) (index : ℤ), IsOrdinary (fileName path index)) ∧
    ∀ (certificates : List String) (directory : String),
      PlacedIn directory certificates (destinations certificates directory) := by
  refine ⟨?_, isOrdinary_fileName, placedIn_destinations⟩
  intro p q i j
  rw [fileName_eq_iff]
  apply and_congr_right
  intro _
  simp only [isLastComponent_iff, exists_eq_left]

end ImageTrust.Certificate
