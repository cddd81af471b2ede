import ImageTrust.CommandLine.Run

/-! # Arguments that are not understood

Only a run without any arguments is told nothing about them.
-/

namespace ImageTrust.CommandLine

variable {known : List OptionName}

theorem readGroup_ne_nothing (group : List Char) (rest : List String) :
    readGroup known group rest ≠ .error .nothing := by
  induction group with
  | nil => rintro ⟨⟩
  | cons c group ih =>
      rw [readGroup]
      cases known.find? (·.short = some c) with
      | none => rintro ⟨⟩
      | some option =>
          by_cases hvalue : option.takesValue
          · cases rest <;> cases group <;> simp [hvalue]
          · cases hgroup : readGroup known group rest with
            | error e =>
                rw [hgroup] at ih
                simpa [hvalue, Except.map] using ih
            | ok given => simp [hvalue, Except.map]

theorem readLong_ne_nothing (text : List Char) (rest : List String) :
    readLong known text rest ≠ .error .nothing := by
  rw [readLong]
  dsimp only
  cases known.find? fun option => "--" ++ option.long = String.ofList (Text.cutAt '=' text).1 with
  | none => rintro ⟨⟩
  | some option =>
      cases hvalue : option.takesValue <;> cases (Text.cutAt '=' text).2 <;> cases rest <;>
        simp [hvalue]

theorem readOptions?_ne_nothing (argument : String) (rest : List String) :
    readOptions? known argument rest ≠ some (.error .nothing) := by
  rw [readOptions?]
  split
  · exact fun h => readLong_ne_nothing _ _ (Option.some.inj h)
  · exact fun h => readGroup_ne_nothing _ _ (Option.some.inj h)
  · rintro ⟨⟩

theorem bind_ne_nothing {α β : Type} {f : α → Except UsageError β} {result : Except UsageError α}
    (h : result ≠ .error .nothing) (hf : ∀ value, f value ≠ .error .nothing) :
    (result >>= f) ≠ .error .nothing := by
  cases result with
  | ok value => exact hf value
  | error e =>
      intro heq
      exact h (congrArg Except.error (Except.error.inj heq))

theorem map_ne_nothing {α β : Type} {f : α → β} {result : Except UsageError α}
    (h : result ≠ .error .nothing) : result.map f ≠ .error .nothing := by
  have heq : result.map f = (result >>= fun value => .ok (f value)) := by cases result <;> rfl
  rw [heq]
  exact bind_ne_nothing h fun value => by rintro ⟨⟩

theorem parse_ne_nothing (mixed : Bool) (bound : Nat) (arguments : List String) :
    parse known mixed bound arguments ≠ .error .nothing := by
  induction bound generalizing arguments with
  | zero => rintro ⟨⟩
  | succ bound ih =>
      cases arguments with
      | nil => rintro ⟨⟩
      | cons argument rest =>
          rw [parse]
          by_cases hend : argument = "--"
          · simp [hend]
          rw [if_neg hend]
          cases hoptions : readOptions? known argument rest with
          | none =>
              cases mixed with
              | true => exact map_ne_nothing (ih rest)
              | false => rintro ⟨⟩
          | some result =>
              cases result with
              | error e =>
                  intro h
                  rw [Except.error.inj h] at hoptions
                  exact readOptions?_ne_nothing _ _ hoptions
              | ok given => exact map_ne_nothing (ih given.2)

theorem readCommand_ne_nothing (command : Command) (arguments : List String) :
    readCommand command arguments ≠ .error .nothing := by
  refine bind_ne_nothing (parse_ne_nothing _ _ _) fun parsed => ?_
  split
  · rintro ⟨⟩
  · cases command with
    | commands => cases parsed.value? imageOption.long <;> rintro ⟨⟩
    | copyEntries => rintro ⟨⟩
    | detect =>
        cases parsed.arguments with
        | nil => rintro ⟨⟩
        | cons image extra => cases extra <;> rintro ⟨⟩
    | dockerfile => rintro ⟨⟩

theorem readName_ne_nothing (name : String) (arguments : List String) :
    readName name arguments ≠ .error .nothing := by
  rw [readName]
  cases Command.all.find? (·.name = name) with
  | some command => rintro ⟨⟩
  | none => exact bind_ne_nothing (parse_ne_nothing _ _ _) fun parsed => by rintro ⟨⟩

theorem readInvocation_ne_nothing {arguments : List String} (h : arguments ≠ []) :
    readInvocation arguments ≠ .error .nothing := by
  rw [readInvocation, if_neg (by simpa using h)]
  refine bind_ne_nothing (parse_ne_nothing _ _ _) fun parsed => ?_
  split
  · rintro ⟨⟩
  · cases parsed.arguments with
    | nil => rintro ⟨⟩
    | cons name rest =>
        refine bind_ne_nothing (readName_ne_nothing _ _) fun command => ?_
        exact bind_ne_nothing (readCommand_ne_nothing _ _) fun request => by rintro ⟨⟩

end ImageTrust.CommandLine
