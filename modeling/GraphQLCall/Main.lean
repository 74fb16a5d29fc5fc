import GraphQLCall.Command.Run

/-!
# The command

* `main`   runs the command with the words behind its name and answers with its exit code
-/

open GraphQLCall Command

namespace GraphQLCall.Main

def reason : IO.Error → String
  | .noFileOrDirectory _ _ _ => "No such file or directory (os error 2)"
  | .permissionDenied _ _ _ => "Permission denied (os error 13)"
  | .inappropriateType _ _ _ => "Not a directory (os error 20)"
  | e => toString e

/-- what is found under a path; a directory is opened, and the failure to read it names no file -/
def look (path : String) : IO File := do
  try
    let octets ← IO.FS.readBinFile path
    pure (.content octets.toList)
  catch e =>
    match e with
    | .inappropriateType none _ _ => pure (.unreadable "Is a directory (os error 21)")
    | e => pure (.unopened (reason e))

/-- the paths that a task reads -/
def paths (i : Invocation) : List String :=
  i.config.toList ++
    match i.task with
    | .usage => []
    | .synthesize a => a.shape.toList ++ a.variableFile.toList
    | .extract a => a.shape.toList ++ a.responseFile.toList

/-- whether a task reads standard input -/
def readsInput (i : Invocation) : Bool :=
  match i.task with
  | .extract a => a.responseFile.isNone
  | _ => false

/-- what a run finds around it, as far as the words behind the command's name ask for it -/
def around (words : List String) : IO World := do
  let logLevel ← IO.getEnv "LOG_LEVEL"
  match Invocation.read words with
  | .error _ => pure ⟨fun _ => .unopened "", [], logLevel⟩
  | .ok i => do
    let files ← (paths i).mapM fun path => do pure (path, ← look path)
    let input ←
      if readsInput i then do
        let stdin ← IO.getStdin
        pure (← stdin.readBinToEnd).toList
      else pure []
    pure ⟨fun path => (Entries.find? path files).getD (.unopened ""), input, logLevel⟩

end GraphQLCall.Main

/-- **The command.** -/
def main (words : List String) : IO UInt32 := do
  let world ← GraphQLCall.Main.around words
  let ending := run world words
  ending.log.forM fun l => IO.eprintln l.render
  if let some text := ending.output then IO.println text
  if let some text := ending.report then IO.eprintln text
  pure ending.exitCode
