import ImageTrust.CommandLine.Arguments
import ImageTrust.ConfigFile
import ImageTrust.Fragment

/-! # Runs of the command line

The commands of the program: what they print, where they fail, and with which exit code they end.
-/

namespace ImageTrust.CommandLine

/-! ## Options -/

def helpOption : OptionName :=
  ⟨"help", none, false⟩

def configOption : OptionName :=
  ⟨"config", some 'c', true⟩

def verboseOption : OptionName :=
  ⟨"verbose", some 'v', false⟩

def imageOption : OptionName :=
  ⟨"base-image", some 'b', true⟩

def dockerfileOption : OptionName :=
  ⟨"dockerfile", some 'd', true⟩

def userOption : OptionName :=
  ⟨"user", some 'u', true⟩

def directoryOption : OptionName :=
  ⟨"target-dir", some 't', true⟩

/-- The names of an option as messages show them. -/
def OptionName.shown (option : OptionName) : String :=
  "'--" ++ option.long ++ "'" ++
    match option.short with
    | some c => " / '-" ++ String.ofList [c] ++ "'"
    | none => ""

/-- The options in front of the command. -/
def groupOptions : List OptionName :=
  [configOption, verboseOption, helpOption]

/-- The configuration file where no other one is given. -/
def defaultConfigPath : String :=
  "certinject.yml"

inductive Command
  | commands
  | copyEntries
  | detect
  | dockerfile
  deriving DecidableEq, Repr

namespace Command

def all : List Command :=
  [commands, copyEntries, detect, dockerfile]

def name : Command → String
  | commands => "commands"
  | copyEntries => "copy-entries"
  | detect => "detect"
  | dockerfile => "dockerfile"

def options : Command → List OptionName
  | commands => [imageOption, helpOption]
  | copyEntries => [directoryOption, helpOption]
  | detect => [helpOption]
  | dockerfile => [imageOption, dockerfileOption, userOption, helpOption]

end Command

/-! ## Outcomes -/

/-- What a run does not expect and does not report. -/
inductive Crash
  | reading (e : ReadError)
  | yaml (fault : Yaml.Fault)
  /-- An array of a Dockerfile is too large to be read. -/
  | array (e : Json.Excess)
  /-- A configuration is too deep to be read. -/
  | stack
  deriving DecidableEq, Repr

def Crash.message : Crash → String
  | reading e => e.message
  | yaml fault => fault.message
  | array (.digits count) => (Yaml.Fault.longInteger count).message
  | array .nesting | stack => "maximum recursion depth exceeded"

structure Outcome where
  exitCode : Nat := 0
  stdout : String := ""
  stderr : String := ""
  crash : Option Crash := none
  deriving DecidableEq, Repr

/-! ## Terminal sequences -/

/-- The text after a sequence that styles the text on a terminal, of which escape and bracket have been
read. -/
def afterSequence? (cs : List Char) : Option (List Char) :=
  match cs.dropWhile fun c => c.isDigit || c = ';' || c = '?' with
  | c :: rest => if c.isAlpha then some rest else none
  | [] => none

theorem afterSequence?_length {cs rest : List Char} (h : afterSequence? cs = some rest) :
    rest.length < cs.length := by
  have hle := (List.dropWhile_suffix (p := fun c : Char => c.isDigit || c = ';' || c = '?')
    (l := cs)).length_le
  unfold afterSequence? at h
  split at h
  · next heq =>
    split at h
    · simp only [Option.some.injEq] at h
      rw [heq, List.length_cons] at hle
      rw [← h]
      omega
    · simp at h
  · simp at h

/-- A text without sequences that style it on a terminal. -/
def dropSequences : List Char → List Char
  | [] => []
  | '\x1b' :: '[' :: cs =>
    match _h : afterSequence? cs with
    | some rest => dropSequences rest
    | none => '\x1b' :: dropSequences ('[' :: cs)
  | c :: cs => c :: dropSequences cs
termination_by cs => cs.length
decreasing_by
  · have := afterSequence?_length _h
    simp only [List.length_cons]
    omega
  all_goals simp

/-- A text as it is printed where there is no terminal. -/
def printed (text : String) : String :=
  String.ofList (dropSequences text.toList)

/-! ## Notices -/

/-- Notices below a warning are shown on demand. -/
inductive Level
  | debug
  | info
  | warning
  deriving DecidableEq, Repr

def Level.name : Level → String
  | .debug => "DEBUG"
  | .info => "INFO"
  | .warning => "WARNING"

/-- A notice with its level and the part of the program it comes from. -/
structure LogLine where
  level : Level
  source : String
  text : String
  deriving DecidableEq, Repr

def LogLine.shown (line : LogLine) : String :=
  line.level.name ++ " " ++ line.source ++ ": " ++ line.text ++ "\n"

def noticeLine : Config.Notice → LogLine
  | .badLine line =>
    ⟨.warning, "dotenv.main",
      "python-dotenv could not parse statement starting at line " ++ toString line⟩
  | .loaded count path =>
    ⟨.info, "certinject.PARSERS.config_parser",
      "Loaded " ++ toString count ++ " variables from " ++ path⟩
  | .unexpanded warning =>
    ⟨.warning, "certinject.PARSERS.dockerfile_parser", warning.message⟩

/-- The notice about the commands for an image, if there are any. -/
def detectionLines (image : String) (certificates : List String) : List LogLine :=
  if certificates.isEmpty then []
  else
    [⟨.debug, "certinject.PLANNERS.ca_certificate_manager",
      "Base image " ++ image ++ " detected as " ++ (Image.osFamily image).name ++ "/" ++
        (Image.runtime image).name⟩]

/-- The notices that are shown. -/
def logText (verbose : Bool) (lines : List LogLine) : String :=
  String.join ((lines.filter fun line => verbose || line.level = .warning).map LogLine.shown)

/-! ## Commands -/

/-- An error line. -/
def errorLine (message : String) : String :=
  printed ("Error: " ++ message ++ "\n")

/-- A run that ends with an error line after some notices. -/
def failed (log : String) (message : String) : Outcome where
  exitCode := 1
  stderr := log ++ errorLine message

def crashed (log : String) (crash : Crash) : Outcome where
  exitCode := 1
  stderr := log
  crash := some crash

/-- A run that prints some lines. -/
def printLines (log : String) (lines : List String) : Outcome where
  stdout := String.join (lines.map fun line => printed (line ++ "\n"))
  stderr := log

/-- A text filled up with spaces to a width. -/
def padded (width : Nat) (text : String) : String :=
  text ++ String.ofList (List.replicate (width - text.length) ' ')

def detectLines (image : String) : List String :=
  let row (family runtime : String) := padded 15 family ++ " " ++ padded 10 runtime
  [row "OS FAMILY" "RUNTIME", String.ofList (List.replicate 25 '-'),
    row (Image.osFamily image).name (Image.runtime image).name]

/-- Whether a fault of a document is reported as an error; the others are not expected. -/
def isReported : Yaml.Fault → Bool
  | .malformed | .notInteger .. | .longInteger _ | .notFloat _ | .badDate _ => true
  | .codePoint number => number < 0x80000000
  | _ => false

variable {m : Type → Type} [Monad m]

/-- The configuration of a run, empty if there is no file. -/
def loadConfig (disk : Disk m) (environment : Variables) (path : String) :
    m (List Config.Notice × Except Config.Error Config) := do
  if ← disk.has path then Config.load disk environment environment path
  else return ([], .ok {})

/-- Whether the stack runs out while the configuration of a run is read. -/
def exhausts (disk : Disk m) (environment : Variables) (path : String) : m Bool := do
  if ← disk.has path then
    return (← Config.expanded? disk environment environment path).any disk.stack.exhausts
  else return false

/-- What of the `dockerfile` command is given on the command line. -/
structure DockerfileRequest where
  image : Option String
  dockerfile : Option String
  user : Option String
  certificates : List String
  deriving Repr

/-- A text unless it is absent or empty. -/
def nonEmpty (text : Option String) : Option String :=
  text.filter (· ≠ "")

/-- The image of a run: the one that is given, that of the Dockerfile that is given, or that of the
configuration. -/
def chooseImage (disk : Disk m) (request : DockerfileRequest) (config : Config) :
    m (List Config.Notice × Except Config.ImageError (Option String)) :=
  match nonEmpty request.image, nonEmpty request.dockerfile with
  | some image, _ => return ([], .ok (some image))
  | none, some path => Config.checkedImageOfFile disk [] path
  | none, none => Config.resolveImage disk config

/-- The end of a run whose image has been looked for. -/
def conclude (verbose : Bool) (log : String) (request : DockerfileRequest) (config : Config) :
    Except Config.ImageError (Option String) → Outcome
  | .error (.unreadable (.file ⟨.badName, path⟩)) => crashed log (.reading (.file ⟨.badName, path⟩))
  | .error (.unreadable (.file e)) => failed log e.message
  | .error (.unreadable (.notUtf8 fault)) => crashed log (.reading (.notUtf8 fault))
  | .error (.excessive e) => crashed log (.array e)
  | .ok image =>
    match nonEmpty image with
    | none => failed log "no base image given"
    | some image =>
      let certificates :=
        if request.certificates.isEmpty then config.certificates else request.certificates
      let user := (nonEmpty request.user).or config.user
      { stdout := printed (Fragment.render (Plan.of image certificates) user)
        stderr := log ++ logText verbose (detectionLines image certificates) }

/-- A run with a configuration. -/
def runWith (disk : Disk m) (verbose : Bool) (log : String) (request : DockerfileRequest)
    (config : Config) : m Outcome := do
  let (notices, image) ← chooseImage disk request config
  return conclude verbose (log ++ logText verbose (notices.map noticeLine)) request config image

/-- Print the instructions that install certificates. -/
def runDockerfile (disk : Disk m) (environment : Variables) (verbose : Bool) (configPath : String)
    (request : DockerfileRequest) : m Outcome := do
  let (notices, config) ← loadConfig disk environment configPath
  let log := logText verbose (notices.map noticeLine)
  if ← exhausts disk environment configPath then return crashed log .stack
  else
    match config with
    | .error (.yaml fault) =>
      if isReported fault then return failed log (Config.Error.yaml fault).message
      else return crashed log (.yaml fault)
    | .error e => return failed log e.message
    | .ok config => runWith disk verbose log request config

/-! ## Programs -/

/-- What the arguments ask for. -/
inductive Request
  | help
  | commands (image : String) (certificates : List String)
  | copyEntries (directory : String) (certificates : List String)
  | detect (image : String)
  | dockerfile (request : DockerfileRequest)
  deriving Repr

/-- What the arguments after the name of a command ask for. -/
def readCommand (command : Command) (arguments : List String) : Except UsageError Request := do
  let parsed ← parse command.options true (arguments.length + 1) arguments
  if (parsed.value? helpOption.long).isSome then return .help
  match command with
  | .commands =>
    match parsed.value? imageOption.long with
    | none => throw (.missingOption imageOption.shown)
    | some image => return .commands image parsed.arguments
  | .copyEntries =>
    let directory := (parsed.value? directoryOption.long).getD Certificate.stagingDirectory
    return .copyEntries directory parsed.arguments
  | .detect =>
    match parsed.arguments with
    | [] => throw (.missingArgument "IMAGE")
    | [image] => return .detect image
    | _ :: extra => throw (.extraArguments extra)
  | .dockerfile =>
    return .dockerfile {
      image := parsed.value? imageOption.long
      dockerfile := parsed.value? dockerfileOption.long
      user := parsed.value? userOption.long
      certificates := parsed.arguments }

/-- What a whole command line asks for. -/
structure Invocation where
  configPath : String
  verbose : Bool
  request : Request
  deriving Repr

/-- The command of a name. A name that looks like an option is first read as one. -/
def readName (name : String) (arguments : List String) : Except UsageError Command := do
  match Command.all.find? (·.name = name) with
  | some command => return command
  | none =>
    let _ ← parse groupOptions false (arguments.length + 1) arguments
    throw (.unknownCommand name (similarWords name (Command.all.map Command.name)))

def readInvocation (arguments : List String) : Except UsageError Invocation := do
  if arguments.isEmpty then throw .nothing
  let parsed ← parse groupOptions false (arguments.length + 1) arguments
  let configPath := (parsed.value? configOption.long).getD defaultConfigPath
  let verbose := (parsed.value? verboseOption.long).isSome
  if (parsed.value? helpOption.long).isSome then return ⟨configPath, verbose, .help⟩
  match parsed.arguments with
  | [] => throw .noCommand
  | name :: rest =>
    let command ← readName name parsed.arguments
    return ⟨configPath, verbose, ← readCommand command rest⟩

/-- A run that ends because of its arguments. -/
def misused (e : UsageError) : Outcome where
  exitCode := 2
  stderr := if e = .nothing then "" else errorLine e.message

/-- The short description of the program. -/
def usage : List String :=
  ["Usage: certinject [-c FILE] [-v] COMMAND ...", "Commands: " ++
    String.intercalate ", " (Command.all.map Command.name)]

/-- The end of a run because of the Dockerfile that is given, if it is refused before anything is
read: a directory, or a file that may not be read. -/
def refusal? (disk : Disk m) (request : DockerfileRequest) : m (Option Outcome) := do
  match request.dockerfile with
  | none => return none
  | some path =>
    if path.toList.contains '\x00' then return some (crashed "" (.reading (.file ⟨.badName, path⟩)))
    else
      match ← disk.kind path with
      | .error _ => return none
      | .ok .directory => return some (misused (.directoryGiven dockerfileOption.shown path))
      | .ok .file =>
        if ← disk.forbids path then
          return some (misused (.unreadableGiven dockerfileOption.shown path))
        else return none

/-- Run the program on a disk, with the variables of its process and its arguments. -/
def run (disk : Disk m) (environment : Variables) (arguments : List String) : m Outcome := do
  match readInvocation arguments with
  | .error e => return misused e
  | .ok invocation =>
    match invocation.request with
    | .help => return printLines "" usage
    | .commands image certificates =>
      return printLines (logText invocation.verbose (detectionLines image certificates))
        (Certificate.installCommands (some image) certificates)
    | .copyEntries directory certificates =>
      return printLines "" ((Certificate.copyEntries certificates directory).map fun entry =>
        entry.source ++ " " ++ entry.destination)
    | .detect image => return printLines "" (detectLines image)
    | .dockerfile request =>
      match ← refusal? disk request with
      | some outcome => return outcome
      | none =>
        runDockerfile disk environment invocation.verbose invocation.configPath request

end ImageTrust.CommandLine
