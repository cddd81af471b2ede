import ImageTrust.EnvironmentFile
import ImageTrust.Proofs.Lookup

/-! # References in environment files

A value may refer to variables that the file has bound before, and else to variables of the
environment. Nothing else of the environment counts.
-/

namespace ImageTrust.EnvironmentFile

/-! ## References of a value -/

/-- The names that a value refers to, from left to right. -/
def namesIn (bound : Nat) (cs : List Char) : List String :=
  match bound with
  | 0 => []
  | bound + 1 =>
    match cs with
    | [] => []
    | '$' :: '\x7b' :: inner =>
      match readReference? inner with
      | none => namesIn bound ('\x7b' :: inner)
      | some ((name, _), rest) => String.ofList name :: namesIn bound rest
    | _ :: rest => namesIn bound rest

/-- Only the variables that a value refers to count. -/
theorem resolve_congr {env other : String → Option (Option String)} {bound : Nat} {cs : List Char}
    (h : ∀ name ∈ namesIn bound cs, env name = other name) :
    resolve bound env cs = resolve bound other cs := by
  fun_induction namesIn bound cs with
  | case1 cs => rfl
  | case2 bound => rfl
  | case3 bound inner hnone ih =>
      simp only [resolve, hnone]
      rw [ih h]
  | case4 bound inner name default rest hsome ih =>
      have hname := h _ List.mem_cons_self
      have hrest := ih fun n hn => h n (List.mem_cons_of_mem _ hn)
      simp only [resolve, hsome]
      rw [hname, hrest]
  | case5 bound c rest hstart ih =>
      rw [resolve, resolve, ih h]
      · exact hstart
      · exact hstart

/-! ## References of a file -/

def Binding.references (b : Binding) : List String :=
  match b.value with
  | none => []
  | some value => namesIn (value.toList.length + 1) value.toList

/-- The names that bindings refer to and neither they nor known names bind before. -/
def freeNames (known : List String) : List Binding → List String
  | [] => []
  | b :: bs => b.references.filter (!known.contains ·) ++ freeNames (b.name :: known) bs

/-- What a name stands for behind some bindings. -/
def meaning? (environment : Variables) (done : List (String × Option String)) (name : String) :
    Option (Option String) :=
  match done.lookup name with
  | some value => some value
  | none => (environment.lookup name).map some

def Binding.resolved (b : Binding) (environment : Variables) (done : List (String × Option String)) :
    Option String :=
  b.value.map fun v =>
    String.ofList (resolve (v.toList.length + 1) (meaning? environment done) v.toList)

theorem resolveAll_cons (environment : Variables) (done : List (String × Option String))
    (b : Binding) (bs : List Binding) :
    resolveAll environment done (b :: bs) =
      resolveAll environment ((b.name, b.resolved environment done) :: done) bs :=
  rfl

section Congr

variable {environment other : Variables} {done : List (String × Option String)}

theorem meaning?_congr {name : String}
    (h : name ∉ done.map Prod.fst → environment.lookup name = other.lookup name) :
    meaning? environment done name = meaning? other done name := by
  rw [meaning?, meaning?]
  cases hname : done.lookup name with
  | some value => rfl
  | none => rw [h (lookup_eq_none_iff_key.mp hname)]

theorem Binding.resolved_congr {b : Binding}
    (h : ∀ name ∈ b.references, name ∉ done.map Prod.fst →
      environment.lookup name = other.lookup name) :
    b.resolved environment done = b.resolved other done := by
  unfold Binding.resolved
  cases hvalue : b.value with
  | none => rfl
  | some v =>
      have hnames : b.references = namesIn (v.toList.length + 1) v.toList := by
        rw [Binding.references, hvalue]
      rw [Option.map_some, Option.map_some, resolve_congr fun name hname => ?_]
      exact meaning?_congr (h name (hnames ▸ hname))

/-- Of the environment only the free names of some bindings count. -/
theorem resolveAll_congr {bindings : List Binding}
    (h : ∀ name ∈ freeNames (done.map Prod.fst) bindings,
      environment.lookup name = other.lookup name) :
    resolveAll environment done bindings = resolveAll other done bindings := by
  induction bindings generalizing done with
  | nil => rfl
  | cons b bs ih =>
      rw [freeNames, List.forall_mem_append] at h
      have hvalue : b.resolved environment done = b.resolved other done := by
        refine Binding.resolved_congr fun name hname hfree => h.1 name ?_
        rw [List.mem_filter]
        exact ⟨hname, by simpa using hfree⟩
      rw [resolveAll_cons, resolveAll_cons, hvalue]
      exact ih h.2

end Congr

/-- The bindings of a file, in order. -/
def bindingsOf (text : String) : List Binding :=
  let cs := match text.toList with
    | '\uFEFF' :: rest => rest
    | cs => cs
  (statements (cs.length + 1) 1 cs).filterMap fun
    | (_, .binding b) => some b
    | _ => none

/-- The variables of the environment that a file refers to. -/
def references (text : String) : List String :=
  freeNames [] (bindingsOf text)

theorem values_ofText (environment : Variables) (text : String) :
    (ofText environment text).values =
      (firstOfEach [] (resolveAll environment [] (bindingsOf text))).filterMap
        fun (name, value) => value.map (name, ·) :=
  rfl

/-- An environment acts on a file by the variables that the file refers to, and by no others. -/
theorem ofText_congr {environment other : Variables} {text : String}
    (h : ∀ name ∈ references text, environment.lookup name = other.lookup name) :
    ofText environment text = ofText other text := by
  have hresolved : resolveAll environment [] (bindingsOf text) =
      resolveAll other [] (bindingsOf text) :=
    resolveAll_congr h
  have hvalues : (ofText environment text).values = (ofText other text).values := by
    rw [values_ofText, values_ofText, hresolved]
  have hlines : (ofText environment text).badLines = (ofText other text).badLines := rfl
  calc
    ofText environment text = ⟨(ofText environment text).values, (ofText environment text).badLines⟩ := rfl
    _ = ofText other text := by rw [hvalues, hlines]

end ImageTrust.EnvironmentFile
