import GraphQLCall.Call.Document
import GraphQLCall.Response.Extract
import GraphQLCall.Text.Blank
import GraphQLCall.Text.Shown

/-!
# The command: its log

* `Level`   how much a line of the log matters
* `Line`   a line of the log
* `writtenChar`   a character of a line as it is written
* `Setting`   the least level that is written, and what is said about the choice of it
* `Variable.notes`   what is said while an argument is written
* `Response.notes`   what is said while an operation's entry is looked up
-/

namespace GraphQLCall

open Found (ticked)

namespace Log

/-- **How much a line matters,** the least first. -/
inductive Level where
  | trace
  | debug
  | info
  | warn
  deriving DecidableEq

namespace Level

def rank : Level → Nat
  | .trace => 0
  | .debug => 1
  | .info => 2
  | .warn => 3

def name : Level → String
  | .trace => "TRACE"
  | .debug => "DEBUG"
  | .info => "INFO"
  | .warn => "WARN"

/-- the level that the environment asks for: a word all in upper or all in lower case -/
def ofText? (s : String) : Option Level :=
  if s = "TRACE" ∨ s = "trace" then some .trace
  else if s = "DEBUG" ∨ s = "debug" ∨ s = "VERBOSE" ∨ s = "verbose" then some .debug
  else if s = "INFO" ∨ s = "info" then some .info
  else none

end Level

inductive Source where
  | program
  | config
  | files
  | synthesize
  | extract
  | response
  | arguments
  | document
  deriving DecidableEq

def Source.name : Source → String
  | .program => "gqlbind"
  | .config => "gqlbind::config"
  | .files => "gqlbind::commands"
  | .synthesize => "gqlbind::commands::synthesize"
  | .extract => "gqlbind::commands::extract"
  | .response => "gqlbind_core::response::response_extractor"
  | .arguments => "gqlbind_core::operation::argument_encoder"
  | .document => "gqlbind_core::operation::document_synthesizer"

/-- **A line of the log.** -/
structure Line where
  level : Level
  source : Source
  text : String
  deriving DecidableEq

/-- **A character of a line's text as it is written:** one that a terminal obeys, by its code. -/
def writtenChar (c : Char) : String :=
  match c with
  | '\x07' => "\\x07"
  | '\x08' => "\\x08"
  | '\x0c' => "\\x0c"
  | '\x1b' => "\\x1b"
  | '\x7f' => "\\x7f"
  | _ =>
    if 0x80 ≤ c.toNat ∧ c.toNat ≤ 0x9F then "\\u\x7b" ++ Text.hexDigits c.toNat ++ "\x7d"
    else String.singleton c

def Line.render (l : Line) : String :=
  l.level.name ++ " " ++ l.source.name ++ ": " ++ Text.join "" (l.text.toList.map writtenChar)

/-- the lines that matter at least as much as `least` -/
def keep (least : Level) (lines : List Line) : List Line :=
  lines.filter fun l => least.rank ≤ l.level.rank

/-- **The least level that is written,** and what is said about the choice of it. -/
structure Setting where
  least : Level
  lines : List Line

def announced (least : Level) : Line :=
  ⟨.trace, .program, "Initial logging level set to " ++ ticked least.name ++ "."⟩

/-- the setting of a run: what the environment asks for counts unless the command line does -/
def Setting.choose (verbose : Bool) (environment : Option String) : Setting :=
  if verbose then ⟨.debug, [announced .debug]⟩
  else
    match environment with
    | none => ⟨.info, [announced .info]⟩
    | some text =>
      let word := Text.trim text
      match Level.ofText? word with
      | some level => ⟨level, [announced level]⟩
      | none =>
        ⟨.info, [announced .info,
          ⟨.warn, .program,
            "Invalid \x60LOG_LEVEL\x60 environment variable value: " ++ ticked word⟩]⟩

end Log

open Log (Line)

/-- **What is said while an argument is written:** that it is left out, or which fields are. -/
def Variable.notes (cat : Catalogue) (v : Variable) : List Line :=
  if v.value.isNull then
    [⟨.debug, .arguments,
      "Omitting argument " ++ ticked v.argumentName ++ " (declared as " ++
        ticked (v.declared.describe cat) ++ ") because its value is null."⟩]
  else
    (Literal.skipped v.markers .root v.value).map fun path =>
      ⟨.debug, .arguments,
        "Omitting " ++ ticked path.text ++ " from argument " ++ ticked v.argumentName ++
          " per its ignore markers."⟩

def OperationCall.documentNote (c : OperationCall) (document : String) : Line :=
  ⟨.trace, .document,
    "Synthesized " ++ c.kind.keyword ++ " " ++ ticked c.name ++ " document (" ++
      toString (Utf8.octets document).length ++ " bytes): " ++ document⟩

/-- **What is said while an operation's entry is looked up:** what becomes of the server's errors,
and whether there is an entry. -/
def Response.notes (o : ExtractionOptions) (operation : String) (payload : Json) : List Line :=
  let errors := serverErrors payload
  let warning (text : String) : List Line :=
    if errors.isEmpty then [] else [⟨.warn, .response, text ++ Text.shownList errors⟩]
  match container [] o.responsePath payload with
  | .error _ => []
  | .ok entries =>
    match entryOf operation entries with
    | some _ =>
      warning ("Operation " ++ ticked operation ++ " returned data alongside server errors: ")
    | none =>
      if o.surfaceServerErrors && !errors.isEmpty then []
      else
        warning ("Discarding server errors for operation " ++ ticked operation ++ ": ") ++
          [⟨.debug, .response, "Operation " ++ ticked operation ++ " returned no data."⟩]

end GraphQLCall
