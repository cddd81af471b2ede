import ImageTrust.Proofs.EnvironmentFile.References
import Mathlib.Data.List.Induction

/-! # Shadowed names of environment files

Some names of a file may have values from elsewhere, which come before those of the file. What the file
says of such a name counts only where the value of another name refers to it later in the file.
-/

namespace ImageTrust.EnvironmentFile

/-- Bindings of the same names in the same order, with the same values for those that are not shadowed. -/
abbrev AgreeOutside (shadowed : List String) (bindings others : List Binding) : Prop :=
  List.Forall₂ (fun b other => b.name = other.name ∧ (b.name ∉ shadowed → b.value = other.value))
    bindings others

/-- The shadowed names that values of other names refer to behind a binding of them. -/
def shadowedReferences (shadowed known : List String) : List Binding → List String
  | [] => []
  | b :: bs =>
    (if b.name ∈ shadowed then []
      else b.references.filter fun name => decide (name ∈ known ∧ name ∈ shadowed)) ++
      shadowedReferences shadowed (b.name :: known) bs

/-! ## Values behind some bindings -/

/-- Resolved bindings of the same names that agree on those that are not shadowed. -/
structure ResolvedAlike (shadowed : List String) (done others : List (String × Option String)) :
    Prop where
  names : done.map Prod.fst = others.map Prod.fst
  lookup : ∀ name ∉ shadowed, done.lookup name = others.lookup name

section ResolvedAlike

variable {shadowed : List String} {done others : List (String × Option String)}
variable {environment : Variables}

theorem ResolvedAlike.cons (h : ResolvedAlike shadowed done others) {name : String}
    {value value' : Option String} (hvalue : name ∉ shadowed → value = value') :
    ResolvedAlike shadowed ((name, value) :: done) ((name, value') :: others) := by
  refine ⟨by rw [List.map_cons, List.map_cons, h.names], fun other hother => ?_⟩
  rw [List.lookup_cons, List.lookup_cons]
  by_cases hname : other = name
  · rw [hvalue (hname ▸ hother)]
    simp [hname]
  · rw [beq_false_of_ne hname]
    exact h.lookup other hother

/-- A name that is shadowed and bound has perhaps two meanings; every other name has one. -/
theorem ResolvedAlike.meaning?_eq (h : ResolvedAlike shadowed done others) {name : String}
    (hname : ¬(name ∈ done.map Prod.fst ∧ name ∈ shadowed)) :
    meaning? environment done name = meaning? environment others name := by
  rw [meaning?, meaning?]
  by_cases hshadowed : name ∈ shadowed
  · have hfree : done.lookup name = none :=
      lookup_eq_none_iff_key.mpr fun hmem => hname ⟨hmem, hshadowed⟩
    have hfree' : others.lookup name = none :=
      lookup_eq_none_iff_key.mpr fun hmem => hname ⟨h.names ▸ hmem, hshadowed⟩
    rw [hfree, hfree']
  · rw [h.lookup name hshadowed]

theorem ResolvedAlike.resolved_eq (h : ResolvedAlike shadowed done others) {b other : Binding}
    (hvalue : b.value = other.value)
    (href : ∀ name ∈ b.references, ¬(name ∈ done.map Prod.fst ∧ name ∈ shadowed)) :
    b.resolved environment done = other.resolved environment others := by
  rw [Binding.resolved, Binding.resolved, ← hvalue]
  cases hb : b.value with
  | none => rfl
  | some v =>
      rw [Binding.references, hb] at href
      rw [Option.map_some, Option.map_some,
        resolve_congr fun name hname => h.meaning?_eq (href name hname)]

/-- Files that agree but for shadowed names, to which they do not refer, are resolved alike. -/
theorem resolvedAlike_resolveAll (h : ResolvedAlike shadowed done others) {bindings bindings' : List Binding}
    (hagree : AgreeOutside shadowed bindings bindings')
    (hfree : shadowedReferences shadowed (done.map Prod.fst) bindings = []) :
    ResolvedAlike shadowed (resolveAll environment done bindings)
      (resolveAll environment others bindings') := by
  induction hagree generalizing done others with
  | nil => exact h
  | @cons b other bs others' hb hbs ih =>
      rw [shadowedReferences, List.append_eq_nil_iff] at hfree
      rw [resolveAll_cons, resolveAll_cons, ← hb.1]
      refine ih (h.cons fun hname => h.resolved_eq (hb.2 hname) ?_) hfree.2
      have hnames := hfree.1
      rw [if_neg hname, List.filter_eq_nil_iff] at hnames
      exact fun name hmem => by simpa using hnames name hmem

end ResolvedAlike

/-! ## Values of a file -/

theorem lookup_firstOfEach (seen : List String) (bindings : List (String × Option String))
    (name : String) :
    ((firstOfEach seen bindings).filterMap fun (name, value) => value.map (name, ·)).lookup name =
      if name ∈ seen then none else (bindings.lookup name).join := by
  induction bindings generalizing seen with
  | nil => simp [firstOfEach]
  | cons b bindings ih =>
      obtain ⟨bound, value⟩ := b
      rw [firstOfEach, List.lookup_cons]
      by_cases hseen : bound ∈ seen
      · rw [if_pos (by simpa using hseen), ih]
        by_cases hname : name ∈ seen
        · rw [if_pos hname, if_pos hname]
        · have hne : name ≠ bound := fun heq => hname (heq.symm ▸ hseen)
          rw [if_neg hname, if_neg hname, beq_false_of_ne hne]
      · rw [if_neg (by simpa using hseen)]
        by_cases heq : name = bound
        · subst heq
          cases value with
          | none => simp [ih, hseen]
          | some v => simp [hseen]
        · cases value with
          | none => simp [ih, heq, beq_false_of_ne heq]
          | some v => simp [ih, heq, List.lookup_cons, beq_false_of_ne heq]

theorem lookup_values (environment : Variables) (text name : String) :
    (ofText environment text).values.lookup name =
      ((resolveAll environment [] (bindingsOf text)).lookup name).join := by
  rw [values_ofText, lookup_firstOfEach, if_neg List.not_mem_nil]

/-- Bindings set a name to the value of the last of them that binds it, if that has one. It may refer to
the bindings before it. -/
def Sets (environment : Variables) (bindings : List Binding) (name value : String) : Prop :=
  ∃ before b after, bindings = before ++ b :: after ∧ b.name = name ∧
    (∀ later ∈ after, later.name ≠ name) ∧
    b.resolved environment (resolveAll environment [] before) = some value

theorem resolveAll_concat (environment : Variables) (done : List (String × Option String))
    (bindings : List Binding) (last : Binding) :
    resolveAll environment done (bindings ++ [last]) =
      (last.name, last.resolved environment (resolveAll environment done bindings)) ::
        resolveAll environment done bindings := by
  induction bindings generalizing done with
  | nil => rfl
  | cons b bindings ih => rw [List.cons_append, resolveAll_cons, ih, resolveAll_cons]

theorem sets_concat_iff {environment : Variables} {bindings : List Binding} {last : Binding}
    {name value : String} :
    Sets environment (bindings ++ [last]) name value ↔
      if last.name = name then
        last.resolved environment (resolveAll environment [] bindings) = some value
      else Sets environment bindings name value := by
  constructor
  · rintro ⟨before, b, after, heq, hname, hafter, hvalue⟩
    rcases List.eq_nil_or_concat after with rfl | ⟨middle, c, rfl⟩
    · obtain ⟨rfl, hlast⟩ := List.append_inj' heq rfl
      cases hlast
      rw [if_pos hname]
      exact hvalue
    · rw [List.concat_eq_append, ← List.cons_append, ← List.append_assoc] at heq
      obtain ⟨rfl, hlast⟩ := List.append_inj' heq rfl
      cases hlast
      rw [if_neg (hafter last (by simp))]
      exact ⟨before, b, middle, rfl, hname, fun later hlater => hafter later (by simp [hlater]), hvalue⟩
  · intro h
    split at h
    · next hname => exact ⟨bindings, last, [], rfl, hname, List.forall_mem_nil _, h⟩
    · next hname =>
        obtain ⟨before, b, after, rfl, hb, hafter, hvalue⟩ := h
        refine ⟨before, b, after ++ [last], by simp, hb, ?_, hvalue⟩
        exact List.forall_mem_append.mpr ⟨hafter, List.forall_mem_singleton.mpr hname⟩

theorem lookup_values_iff {environment : Variables} {text name value : String} :
    (ofText environment text).values.lookup name = some value ↔
      Sets environment (bindingsOf text) name value := by
  rw [lookup_values]
  induction bindingsOf text using List.reverseRecOn with
  | nil => simp [Sets, resolveAll]
  | append_singleton bindings last ih =>
      rw [resolveAll_concat, sets_concat_iff, List.lookup_cons, ← ih]
      by_cases hname : last.name = name
      · subst hname
        simp
      · rw [if_neg hname, beq_false_of_ne (Ne.symm hname)]

/-- Two files that agree but for shadowed names set every other name alike, unless a value refers to a
shadowed name that the file has bound before. -/
theorem lookup_values_congr {environment : Variables} {shadowed : List String} {text other name : String}
    (hagree : AgreeOutside shadowed (bindingsOf text) (bindingsOf other))
    (hfree : shadowedReferences shadowed [] (bindingsOf text) = []) (hname : name ∉ shadowed) :
    (ofText environment text).values.lookup name = (ofText environment other).values.lookup name := by
  have halike : ResolvedAlike shadowed (resolveAll environment [] (bindingsOf text))
      (resolveAll environment [] (bindingsOf other)) :=
    resolvedAlike_resolveAll ⟨rfl, fun _ _ => rfl⟩ hagree hfree
  rw [lookup_values, lookup_values, halike.lookup name hname]

end ImageTrust.EnvironmentFile
