import ImageTrust.CommandLine.Similar
import ImageTrust.Text.Blank
import ImageTrust.Text.Quoted

/-! # Arguments

Options and arguments of a command. An option has a short or a long name; a value follows it as the next
argument, directly after a short name, or after a long name and an equals sign.
-/

namespace ImageTrust.CommandLine

/-- An option that a command knows. -/
structure OptionName where
  /-- The name without the two hyphens. -/
  long : String
  /-- The letter after a single hyphen. -/
  short : Option Char
  takesValue : Bool
  deriving DecidableEq, Repr

/-- What is wrong with the arguments of a program. -/
inductive UsageError
  | noCommand
  | unknownCommand (name : String) (similar : List String)
  | unknownOption (name : String) (similar : List String)
  | missingValue (option : String)
  | unwantedValue (option : String)
  | missingOption (names : String)
  | missingArgument (name : String)
  | extraArguments (arguments : List String)
  | directoryGiven (names path : String)
  | unreadableGiven (names path : String)
  /-- There are no arguments at all. -/
  | nothing
  deriving DecidableEq, Repr

/-- The words that may have been meant, at the end of a message. -/
def didYouMean : List String → String
  | [] => ""
  | [word] => " Did you mean " ++ Text.quoted word ++ "?"
  | words => " (Possible options: " ++ String.intercalate ", " (words.map Text.quoted) ++ ")"

def UsageError.message : UsageError → String
  | .noCommand => "Missing command."
  | .unknownCommand name similar =>
    "No such command " ++ Text.quoted name ++ "." ++ didYouMean similar
  | .unknownOption name similar =>
    "No such option " ++ Text.quoted name ++ "." ++ didYouMean similar
  | .missingValue option => "Option " ++ Text.quoted option ++ " requires an argument."
  | .unwantedValue option => "Option " ++ Text.quoted option ++ " does not take a value."
  | .missingOption names => "Missing option " ++ names ++ "."
  | .missingArgument name => "Missing argument " ++ Text.quoted name ++ "."
  | .extraArguments arguments =>
    (if arguments.length = 1 then "Got unexpected extra argument (" else
      "Got unexpected extra arguments (") ++ String.intercalate " " arguments ++ ")"
  | .directoryGiven names path =>
    "Invalid value for " ++ names ++ ": File " ++ Text.quoted path ++ " is a directory."
  | .unreadableGiven names path =>
    "Invalid value for " ++ names ++ ": File " ++ Text.quoted path ++ " is not readable."
  | .nothing => ""

/-- The words that are similar to a word, in alphabetical order. -/
def similarWords (word : String) (words : List String) : List String :=
  (words.filter (isSimilar · word)).mergeSort fun a b => decide (a ≤ b)

/-- An option as given, with its value if it takes one. -/
structure Given where
  option : OptionName
  value : String
  deriving DecidableEq, Repr

/-- Options in the order given, and the arguments among and after them. -/
structure Parsed where
  options : List Given
  arguments : List String
  deriving Repr

/-- An option in front of what was parsed. -/
def Parsed.addOption (option : OptionName) (value : String) (p : Parsed) : Parsed :=
  { p with options := ⟨option, value⟩ :: p.options }

def Parsed.addArgument (argument : String) (p : Parsed) : Parsed :=
  { p with arguments := argument :: p.arguments }

/-- The options of a group of short ones, of which the last may take a value: the rest of the group, or
else one of the arguments after it. What is left of the arguments is returned. -/
def readGroup (known : List OptionName) (group : List Char) (rest : List String) :
    Except UsageError (List Given × List String) :=
  match group with
  | [] => .ok ([], rest)
  | c :: more =>
    let name := String.ofList ['-', c]
    match known.find? (·.short = some c) with
    | none => .error (.unknownOption name [])
    | some option =>
      if option.takesValue then
        if more.isEmpty then
          match rest with
          | [] => .error (.missingValue name)
          | value :: rest => .ok ([⟨option, value⟩], rest)
        else .ok ([⟨option, String.ofList more⟩], rest)
      else
        (readGroup known more rest).map fun (options, rest) => (⟨option, ""⟩ :: options, rest)

/-- An option with a long name. -/
def readLong (known : List OptionName) (text : List Char) (rest : List String) :
    Except UsageError (List Given × List String) :=
  let (name, value?) := Text.cutAt '=' text
  let shown := String.ofList name
  match known.find? fun option => "--" ++ option.long = shown with
  | none =>
    .error (.unknownOption shown (similarWords shown (known.map ("--" ++ ·.long))))
  | some option =>
    match option.takesValue, value? with
    | true, some value => .ok ([⟨option, String.ofList value⟩], rest)
    | true, none =>
      match rest with
      | [] => .error (.missingValue shown)
      | value :: rest => .ok ([⟨option, value⟩], rest)
    | false, some _ => .error (.unwantedValue shown)
    | false, none => .ok ([⟨option, ""⟩], rest)

/-- The options that an argument starts, none if it is no option. -/
def readOptions? (known : List OptionName) (argument : String) (rest : List String) :
    Option (Except UsageError (List Given × List String)) :=
  match argument.toList with
  | '-' :: '-' :: _ => some (readLong known argument.toList rest)
  | '-' :: c :: group => some (readGroup known (c :: group) rest)
  | _ => none

/-- Parse arguments. Two hyphens end the options; so does the first argument that is none, unless
options may follow arguments. -/
def parse (known : List OptionName) (mixed : Bool) (bound : Nat) (arguments : List String) :
    Except UsageError Parsed :=
  match bound with
  | 0 => .ok ⟨[], arguments⟩
  | bound + 1 =>
    match arguments with
    | [] => .ok ⟨[], []⟩
    | argument :: rest =>
      if argument = "--" then .ok ⟨[], rest⟩
      else
        match readOptions? known argument rest with
        | none =>
          if mixed then (parse known mixed bound rest).map (Parsed.addArgument argument)
          else .ok ⟨[], arguments⟩
        | some (.error e) => .error e
        | some (.ok (options, rest)) =>
          (parse known mixed bound rest).map fun p => { p with options := options ++ p.options }

/-- The value of an option, the last one given. -/
def Parsed.value? (p : Parsed) (long : String) : Option String :=
  ((p.options.filter (·.option.long = long)).getLast?).map (·.value)

end ImageTrust.CommandLine
