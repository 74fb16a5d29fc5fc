import GraphQLCall.Call.Envelope
import GraphQLCall.Command.Arguments
import GraphQLCall.Command.Log
import GraphQLCall.Shape.Descriptor
import GraphQLCall.Toml.Reader

/-!
# The command: a run

* `File`, `World`   what a run finds around it
* `Failure`   why a run fails; `Failure.message` says it
* `Steps`   the steps of a run, with the log that they write
* `synthesize`, `extract`   the two commands
* `Ending`, `run`   what a run leaves behind
* `Ending.output`, `Ending.report`, `Ending.exitCode`   what is seen of it
-/

namespace GraphQLCall.Command

open Log (Line)

/-- **What is found under a path:** nothing that can be opened; something that can be opened but not
read; or a file with its octets.  The system's reason comes with a failure. -/
inductive File where
  | unopened (reason : String)
  | unreadable (reason : String)
  | content (octets : List UInt8)

/-- **What a run finds around it:** the files, the octets of standard input, and the level of the
log that the environment asks for. -/
structure World where
  file : String → File
  input : List UInt8
  logLevel : Option String

/-- **Why a run fails.** -/
inductive Failure where
  | unopened (path : String) (reason : String)
  | notJson (path : String)
  | unreadConfig (path : String) (reason : String)
  | malformedConfig (path : String)
  | notVariables (path : String)
  | descriptor (error : DescriptorError)
  | call (error : CallError)
  | response (error : ResponseError)

/-- What is said of a failure; of a read that failed, its reason is given twice.  The account that the
readers of JSON and of configurations give of a fault is left out behind what is said here. -/
def Failure.message : Failure → String
  | .unopened path reason => "Failed to open " ++ Text.shown path ++ ": " ++ reason
  | .notJson path => "Failed to parse " ++ Text.shown path ++ " as JSON"
  | .unreadConfig path reason => "Failed to read config file " ++ Text.shown path ++ ": " ++ reason
  | .malformedConfig path => "Failed to parse config file " ++ Text.shown path
  | .notVariables path =>
    Text.shown path ++ " must hold an array of \x60\x7bname, value\x7d\x60 objects"
  | .descriptor error => error.message
  | .call error => error.message
  | .response (.unreadable reason) => (ResponseError.unreadable reason).message ++ ": " ++ reason
  | .response error => error.message

/-- **The steps of a run,** with the log that they write. -/
abbrev Steps (α : Type) := ExceptT Failure (StateM (List Line)) α

namespace Steps

def say (lines : List Line) : Steps Unit := modify (· ++ lines)

def ofExcept {ε α : Type} (failure : ε → Failure) : Except ε α → Steps α
  | .ok a => pure a
  | .error e => throw (failure e)

end Steps

/-! ### Files -/

def notText : String := "stream did not contain valid UTF-8"

/-- the configuration in a file; without a file, all settings have their defaults -/
def loadConfig (w : World) : Option String → Steps Config
  | none => pure .default
  | some path => do
    Steps.say [⟨.debug, .config, "Loading config from " ++ Text.shown path ++ "."⟩]
    match w.file path with
    | .unopened reason | .unreadable reason => throw (.unreadConfig path reason)
    | .content octets =>
      match Utf8.text? octets with
      | none => throw (.unreadConfig path notText)
      | some text =>
        match Toml.parse text with
        | none => throw (.malformedConfig path)
        | some j => Steps.ofExcept (fun _ => .malformedConfig path) (Config.read .ignored j)

def loadJson (w : World) (path : String) : Steps Json := do
  Steps.say [⟨.debug, .files, "Reading " ++ Text.shown path ++ "."⟩]
  match w.file path with
  | .unopened reason => throw (.unopened path reason)
  | .unreadable _ => throw (.notJson path)
  | .content octets => Steps.ofExcept (fun _ => .notJson path) (Json.parse octets)

/-- the shape that a file describes; without a file, data of any kind -/
def loadShape (w : World) : Option String → Steps Shape
  | none => pure (.scalar .any)
  | some path => do
    let j ← loadJson w path
    Steps.ofExcept .descriptor (Shape.ofDescriptor j)

/-- the variable that an entry of a file spells: its name, its value, and its markers if any -/
def readVariable (j : Json) : Option Variable := do
  let entries ←
    match j with
    | .obj entries => some entries
    | _ => none
  let name ←
    match Entries.find? "name" entries with
    | some (.str name) => some name
    | _ => none
  let value ← Entries.find? "value" entries
  let markers ← (Markers.read (.obj entries)).toOption
  some { Variable.inferred name (Value.ofJson value) with markers }

def readVariables : Json → Option (List Variable)
  | .arr items => items.mapM readVariable
  | _ => none

/-! ### The commands -/

/-- arguments added to a call one after another -/
def addAll (c : OperationCall) : List Variable → Except CallError OperationCall
  | [] => .ok c
  | v :: rest =>
    match c.add v with
    | .ok c => addAll c rest
    | .error e => .error e

/-- a call with the arguments that a file spells, if there is one -/
def addFile (w : World) (c : OperationCall) : Option String → Steps OperationCall
  | none => pure c
  | some path => do
    let j ← loadJson w path
    match readVariables j with
    | none => throw (.notVariables path)
    | some vs =>
      Steps.say [⟨.debug, .synthesize,
        "Loaded " ++ toString vs.length ++ " arguments from " ++ Text.shown path ++ "."⟩]
      Steps.ofExcept .call (addAll c vs)

def noTypes : Catalogue := []

def writeDocument (c : OperationCall) : Steps String := do
  Steps.ofExcept .call c.checkNames
  let _ ← Steps.ofExcept .call (c.selectionText noTypes)
  Steps.say (c.arguments.flatMap (Variable.notes noTypes))
  let document ← Steps.ofExcept .call (c.document noTypes)
  Steps.say [c.documentNote document]
  pure document

/-- **The envelope of a call.**  An option of the command line counts before the configuration. -/
def synthesize (w : World) (config : Option String) (a : SynthesizeArguments) : Steps String := do
  let configured := (← loadConfig w config).synthesis
  let options : SynthesisOptions :=
    ⟨a.envelopeField.getD configured.envelopeField, a.pretty || configured.prettyEnvelope⟩
  let result ← loadShape w a.shape
  let call := OperationCall.ofResult a.kind a.operation result
  let call :=
    match a.selectionSet with
    | some text => call.select text
    | none => call
  let call ← addFile w call a.variableFile
  let document ← writeDocument call
  pure (options.wrap document)

/-- the body in a file, or on standard input if there is none -/
def loadBody (w : World) : Option String → Steps (List Body.Chunk)
  | none => pure [.data w.input]
  | some path =>
    match w.file path with
    | .unopened reason => throw (.unopened path reason)
    | .unreadable reason => pure [.failed reason]
    | .content octets => pure [.data octets]

/-- **The result of an operation,** as JSON on lines of its own; null if there is none. -/
def extract (w : World) (config : Option String) (a : ExtractArguments) : Steps String := do
  let configured := (← loadConfig w config).extraction
  let options : ExtractionOptions :=
    { configured with
      responsePath := a.responsePath.getD configured.responsePath
      surfaceServerErrors := a.surfaceServerErrors || configured.surfaceServerErrors }
  let result ← loadShape w a.shape
  let body ← loadBody w a.responseFile
  let response : Response := ⟨a.status, some body⟩
  let payload ← Steps.ofExcept .response (response.payload options)
  Steps.say (Response.notes options a.operation payload)
  match ← Steps.ofExcept .response (response.extractJson noTypes options a.operation result) with
  | some j => pure j.pretty
  | none =>
    Steps.say [⟨.debug, .extract,
      "No result for " ++ Found.ticked a.operation ++ " in the response."⟩]
    pure "null"

/-! ### The whole run -/

/-- **What a run leaves behind:** the arguments are refused; help or the version is asked for; or a
command has run, with what it prints, or what is reported, and its log. -/
inductive Ending where
  | refused
  | usage
  | version
  | printed (text : String) (log : List Line)
  | failed (report : String) (log : List Line)

def usage : String :=
  Text.join "\n" [
    "Usage: gqlbind [OPTIONS] [COMMAND]",
    "",
    "Commands:",
    "  extract [OPTIONS] --operation <OPERATION> [RESPONSE_FILE]",
    "      --status <STATUS>  --shape <SHAPE>  --response-path <RESPONSE_PATH>",
    "      --surface-server-errors",
    "  synthesize [OPTIONS] --kind <KIND> --operation <OPERATION> --shape <SHAPE>",
    "      --variables <VARIABLES>  --selection-set <SELECTION_SET>",
    "      --envelope-field <ENVELOPE_FIELD>  --pretty",
    "  help [COMMAND]",
    "",
    "Options:",
    "      --config <CONFIG>",
    "  -v, --verbose",
    "  -h, --help",
    "  -V, --version"]

def version : String := "gqlbind 0.1.0"

namespace Ending

def log : Ending → List Line
  | .printed _ log | .failed _ log => log
  | _ => []

/-- **What a run prints,** on standard output. -/
def output : Ending → Option String
  | .usage => some Command.usage
  | .version => some Command.version
  | .printed text _ => some text
  | .refused | .failed _ _ => none

/-- what a run reports, on standard error behind its log -/
def report : Ending → Option String
  | .refused => some Command.usage
  | .failed report _ => some report
  | _ => none

def exitCode : Ending → UInt32
  | .refused => 2
  | .failed _ _ => 1
  | _ => 0

end Ending

/-- the sign in front of a report -/
def failureSign : String := "\u274C"

/-- the ending of a command's steps -/
def finish (verb operation : String) (setting : Log.Setting) (steps : Steps String) : Ending :=
  let (result, lines) := steps.run.run setting.lines
  let log := Log.keep setting.least lines
  match result with
  | .ok text => .printed text log
  | .error failure =>
    .failed (failureSign ++ " Failed to " ++ verb ++ " " ++ Found.ticked operation ++ ": " ++
      failure.message) log

/-- **A run of the command** with the words behind its name. -/
def run (w : World) (words : List String) : Ending :=
  match Invocation.read words with
  | .error .refused => .refused
  | .error .usage => .usage
  | .error .version => .version
  | .ok i =>
    let setting := Log.Setting.choose i.verbose w.logLevel
    match i.task with
    | .usage => .usage
    | .synthesize a => finish "synthesize" a.operation setting (synthesize w i.config a)
    | .extract a => finish "extract" a.operation setting (extract w i.config a)

end GraphQLCall.Command
