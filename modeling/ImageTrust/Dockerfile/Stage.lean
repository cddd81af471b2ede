import ImageTrust.Dockerfile.Instruction
import ImageTrust.Template
import ImageTrust.Text.Lower
import ImageTrust.Text.Quoted

/-! # Build stages of a Dockerfile

A FROM instruction opens a stage, which holds the instructions up to the next one. The image of a stage
may mention variables that were declared before the first stage, and may be the name of an earlier
stage.
-/

namespace ImageTrust

structure Stage where
  image : String
  name : Option String
  platform : Option String
  instructions : List Instruction
  deriving DecidableEq, Repr

/-- An image that mentions a variable without a value. -/
structure UnexpandedImage where
  image : String
  unset : UnsetVariable
  deriving DecidableEq, Repr

def UnexpandedImage.message (warning : UnexpandedImage) : String :=
  "Cannot expand base image " ++ warning.image ++ ": " ++ Text.quoted warning.unset.message

def Instruction.isFrom (i : Instruction) : Bool :=
  i.keyword = "FROM"

namespace Dockerfile

/-! ## Variables -/

/-- The variable that an ARG instruction declares with a default value. -/
def declaration? (i : Instruction) : Option (String × String) :=
  if i.keyword = "ARG" then
    match i.arguments with
    | [] => none
    | text :: _ =>
      match Text.cutAt '=' text.toList with
      | (_, none) => none
      | (name, some default) =>
        let value := Text.dropAround (fun c => c = '"' || c = '\'') (Text.trim default)
        some (String.ofList (Text.trim name), String.ofList value)
  else none

/-- The variables that some instructions declare, the last declaration of a name first. -/
def declarations (is : List Instruction) : Variables :=
  (is.filterMap declaration?).reverse

/-! ## FROM lines -/

def platformFlag : List Char :=
  "--platform=".toList

def isFlag (word : String) : Bool :=
  "--".toList.isPrefixOf word.toList

/-- The platform that a flag asks for. -/
def platform? (word : String) : Option String :=
  if platformFlag.isPrefixOf word.toList then
    some (String.ofList (word.toList.drop platformFlag.length))
  else none

/-- The name of a stage: the last of at least three words, if an AS stands before it. -/
def stageName? (words : List String) : Option String :=
  match words.reverse with
  | name :: as :: _ :: _ => if Text.lowercase as = "as" then some name else none
  | _ => none

/-- The stage that a FROM line with these words opens, its image as written. -/
def stageOf (arguments : List String) : Stage :=
  let words := arguments.filter (!isFlag ·)
  { image := words.headD ""
    name := stageName? words
    platform := (arguments.filterMap platform?).getLast?
    instructions := [] }

/-- Expand the image of a stage, or leave it as written and tell why. -/
def expandImage (vars : Variables) (stage : Stage) : Stage × Option UnexpandedImage :=
  match Template.expand vars stage.image with
  | .ok image => ({ stage with image }, none)
  | .error unset => (stage, some ⟨stage.image, unset⟩)

/-! ## Stages -/

/-- The instructions before the first FROM. -/
def preamble (is : List Instruction) : List Instruction :=
  is.takeWhile (!·.isFrom)

/-- Every FROM with the instructions up to the next one. -/
def groups : List Instruction → List (Instruction × List Instruction)
  | [] => []
  | i :: is => if i.isFrom then (i, preamble is) :: groups is else groups is

/-- The stage of a FROM and the instructions after it. -/
def stageOfGroup (vars : Variables) (group : Instruction × List Instruction) :
    Stage × Option UnexpandedImage :=
  expandImage vars { stageOf group.1.arguments with instructions := group.2 }

/-- The variables of FROM lines: those given from outside, then those declared before the first
stage. -/
def stageVariables (given : Variables) (is : List Instruction) : Variables :=
  given ++ declarations (preamble is)

/-- The stages of a Dockerfile, each with a warning if its image could not be expanded. -/
def checkedStages (given : Variables) (content : String) : List (Stage × Option UnexpandedImage) :=
  let is := instructions content
  (groups is).map (stageOfGroup (stageVariables given is))

def stages (given : Variables) (content : String) : List Stage :=
  (checkedStages given content).map Prod.fst

def warnings (given : Variables) (content : String) : List UnexpandedImage :=
  (checkedStages given content).filterMap Prod.snd

/-! ## Base image -/

/-- The image that a stage is built on: that of the stage it names, else the one it names. -/
def resolvedImage (named : Variables) (stage : Stage) : String :=
  (named.lookup (Text.lowercase stage.image)).getD stage.image

/-- The names known after a stage. Names differ in more than case. -/
def nameStage (named : Variables) (stage : Stage) : Variables :=
  match stage.name with
  | none => named
  | some name =>
    if name = "" then named
    else (Text.lowercase name, resolvedImage named stage) :: named

/-- The image that the last of some stages is built on, after stages with the names `named`. -/
def lastImage? (named : Variables) : List Stage → Option String
  | [] => none
  | [stage] => some (resolvedImage named stage)
  | stage :: rest => lastImage? (nameStage named stage) rest

/-- The base image of a Dockerfile: the image that its last stage is built on. -/
def baseImage? (given : Variables) (content : String) : Option String :=
  lastImage? [] (stages given content)

end Dockerfile

end ImageTrust
