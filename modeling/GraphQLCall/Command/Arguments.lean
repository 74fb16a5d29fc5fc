import GraphQLCall.Call.Basic

/-!
# The command: its arguments

The command line is read from left to right, and the first thing that is wrong, or that asks for
help, decides.  What has to be given is looked at last.

* `Switch`, `Grammar`   an option; the options and operands that a command takes
* `scan`   the options and operands given, or why reading has stopped
* `SynthesizeArguments`, `ExtractArguments`   what the two commands are given
* `Invocation.read`   a command line
-/

namespace GraphQLCall.Command

inductive Takes where
  | nothing
  | text (accepts : String → Bool)

/-- **An option:** its long name, its letter, its argument, and whether it may be given again. -/
structure Switch where
  name : String
  letter : Option Char
  takes : Takes
  repeats : Bool

/-- **The options and operands that a command takes.**  With `leads`, the first operand is the name
of a command, and what is behind it is left to that command. -/
structure Grammar where
  switches : List Switch
  operands : Nat
  leads : Bool
  version : Bool

inductive Stop where
  | refused
  | usage
  | version
  deriving DecidableEq

/-- what has been given: the options, last one first, each with its argument; the operands, last one
first; and what is left to another command -/
structure Given where
  options : List (String × String)
  operands : List String
  rest : Option (List String)

namespace Given

def has (g : Given) (name : String) : Bool := g.options.any fun o => o.1 = name

def all (g : Given) (name : String) : List String :=
  (g.options.reverse.filter fun o => o.1 = name).map (·.2)

def value? (g : Given) (name : String) : Option String := (g.all name).head?

/-- one more option, unless it is there already and may not be given again -/
def note (g : Given) (s : Switch) (argument : String) : Except Stop Given :=
  if g.has s.name && !s.repeats then .error .refused
  else .ok { g with options := (s.name, argument) :: g.options }

/-- one more option with its argument -/
def noteText (g : Given) (s : Switch) (accepts : String → Bool) (argument : String) :
    Except Stop Given :=
  if accepts argument then g.note s argument else .error .refused

end Given

namespace Grammar

/-- one letter of a group of options -/
def letter (y : Grammar) (g : Given) (c : Char) : Except Stop Given :=
  if c = 'h' then .error .usage
  else if c = 'V' ∧ y.version then .error .version
  else
    match y.switches.find? fun s => s.letter = some c with
    | some s =>
      match s.takes with
      | .nothing => g.note s ""
      | .text _ => .error .refused
    | none => .error .refused

def letters (y : Grammar) (g : Given) : List Char → Except Stop Given
  | [] => .ok g
  | c :: rest =>
    match y.letter g c with
    | .ok g => y.letters g rest
    | .error stop => .error stop

/-- one more operand, which names a file and so is not empty -/
def operand (y : Grammar) (g : Given) (text : String) : Except Stop Given :=
  if g.operands.length < y.operands ∧ text ≠ "" then .ok { g with operands := text :: g.operands }
  else .error .refused

def trailing (y : Grammar) (g : Given) : List String → Except Stop Given
  | [] => .ok g
  | text :: rest =>
    match y.operand g text with
    | .ok g => y.trailing g rest
    | .error stop => .error stop

end Grammar

/-- a long option: its name, and its argument if that is in the same word -/
def longOption (text : List Char) : String × Option String :=
  let name := String.ofList (text.takeWhile (· ≠ '='))
  match text.dropWhile (· ≠ '=') with
  | [] => (name, none)
  | _ :: argument => (name, some (String.ofList argument))

/-- whether a word can be the argument of the option in front of it -/
def isArgument (word : String) : Bool :=
  match word.toList with
  | '-' :: _ :: _ => false
  | _ => true

/-- **The options and operands given,** or why reading has stopped. -/
def Grammar.scan (y : Grammar) (g : Given) : List String → Except Stop Given
  | [] => .ok g
  | word :: rest =>
    match word.toList with
    | ['-', '-'] => y.trailing g rest
    | '-' :: '-' :: text =>
      match longOption text with
      | ("help", none) => .error .usage
      | (name, argument) =>
        if name = "version" ∧ argument.isNone ∧ y.version then .error .version
        else
          match y.switches.find? fun s => s.name = name with
          | none => .error .refused
          | some s =>
            match s.takes, argument with
            | .nothing, some _ => .error .refused
            | .nothing, none =>
              match g.note s "" with
              | .ok g => y.scan g rest
              | .error stop => .error stop
            | .text accepts, some argument =>
              match g.noteText s accepts argument with
              | .ok g => y.scan g rest
              | .error stop => .error stop
            | .text accepts, none =>
              match rest with
              | [] => .error .refused
              | argument :: rest =>
                if isArgument argument then
                  match g.noteText s accepts argument with
                  | .ok g => y.scan g rest
                  | .error stop => .error stop
                else .error .refused
    | '-' :: c :: more =>
      match y.letters g (c :: more) with
      | .ok g => y.scan g rest
      | .error stop => .error stop
    | _ =>
      if y.leads then .ok { g with operands := [word], rest := some rest }
      else
        match y.operand g word with
        | .ok g => y.scan g rest
        | .error stop => .error stop

/-! ### The two commands -/

structure SynthesizeArguments where
  kind : OperationKind
  operation : String
  variableFile : Option String
  shape : Option String
  selectionSet : Option String
  envelopeField : Option String
  pretty : Bool
  deriving DecidableEq

structure ExtractArguments where
  operation : String
  status : Nat
  shape : Option String
  responsePath : Option (List String)
  surfaceServerErrors : Bool
  responseFile : Option String
  deriving DecidableEq

inductive Task where
  | usage
  | synthesize (a : SynthesizeArguments)
  | extract (a : ExtractArguments)
  deriving DecidableEq

/-- **A command line:** what is to be done, with the options of all commands. -/
structure Invocation where
  config : Option String
  verbose : Bool
  task : Task
  deriving DecidableEq

/-- an integer with or without a sign, leading zeros allowed -/
def integer? (s : String) : Option Int :=
  let number (text : List Char) : Option Nat :=
    if text ≠ [] ∧ text.all Char.isDigit then
      some (text.foldl (fun n c => n * 10 + (c.toNat - '0'.toNat)) 0)
    else none
  match s.toList with
  | '-' :: text => (number text).map fun n => -(n : Int)
  | '+' :: text => (number text).map fun n => (n : Int)
  | text => (number text).map fun n => (n : Int)

def status? (s : String) : Option Nat :=
  match integer? s with
  | some n => if 0 ≤ n ∧ n ≤ 0xFFFF then some n.toNat else none
  | none => none

def isPath (s : String) : Bool := s ≠ ""

def pathOption (name : String) : Switch := ⟨name, none, .text isPath, false⟩

def textOption (name : String) : Switch := ⟨name, none, .text fun _ => true, false⟩

def flag (name : String) : Switch := ⟨name, none, .nothing, false⟩

def topGrammar : Grammar :=
  ⟨[pathOption "config", ⟨"verbose", some 'v', .nothing, false⟩], 0, true, true⟩

def synthesizeGrammar : Grammar :=
  ⟨[⟨"kind", none, .text fun s => (OperationKind.ofText? s).isSome, false⟩,
    textOption "operation", pathOption "variables", pathOption "shape",
    textOption "selection-set", textOption "envelope-field", flag "pretty",
    pathOption "config"], 0, false, false⟩

def extractGrammar : Grammar :=
  ⟨[textOption "operation", ⟨"status", none, .text fun s => (status? s).isSome, false⟩,
    pathOption "shape", ⟨"response-path", none, .text fun _ => true, true⟩,
    flag "surface-server-errors", pathOption "config"], 1, false, false⟩

/-- what `synthesize` is given: without a shape, the selection set must be there -/
def SynthesizeArguments.ofGiven (g : Given) : Option SynthesizeArguments := do
  let kind ← (← g.value? "kind") |> OperationKind.ofText?
  let operation ← g.value? "operation"
  if g.has "shape" || g.has "selection-set" then
    some ⟨kind, operation, g.value? "variables", g.value? "shape", g.value? "selection-set",
      g.value? "envelope-field", g.has "pretty"⟩
  else none

def usualStatus : Nat := 200

def ExtractArguments.ofGiven (g : Given) : Option ExtractArguments := do
  let operation ← g.value? "operation"
  some ⟨operation, ((g.value? "status").bind status?).getD usualStatus, g.value? "shape",
    if g.has "response-path" then some (g.all "response-path") else none,
    g.has "surface-server-errors", g.operands.head?⟩

/-- whether there is help about what the words behind `help` name -/
def isTopic : List String → Bool
  | [] => true
  | [name] => name = "synthesize" || name = "extract" || name = "help"
  | _ => false

/-- the task of a command with the words behind its name, and the options of all commands that these
words give -/
def readTask (name : String) (words : List String) : Except Stop (Given × Task) := do
  let finish (g : Given) (task : Option Task) : Except Stop (Given × Task) :=
    match task with
    | some task => .ok (g, task)
    | none => .error .refused
  if name = "synthesize" then
    let g ← synthesizeGrammar.scan ⟨[], [], none⟩ words
    finish g ((SynthesizeArguments.ofGiven g).map .synthesize)
  else if name = "extract" then
    let g ← extractGrammar.scan ⟨[], [], none⟩ words
    finish g ((ExtractArguments.ofGiven g).map .extract)
  else if name = "help" ∧ isTopic words then .error .usage
  else .error .refused

/-- **A command line.**  An option of all commands counts where it stands last. -/
def Invocation.read (words : List String) : Except Stop Invocation := do
  let top ← topGrammar.scan ⟨[], [], none⟩ words
  match top.operands, top.rest with
  | [name], some rest => do
    let (g, task) ← readTask name rest
    .ok ⟨(g.value? "config").or (top.value? "config"), top.has "verbose", task⟩
  | _, _ => .ok ⟨top.value? "config", top.has "verbose", .usage⟩

end GraphQLCall.Command
