import SourceTree.Command.Action
import SourceTree.Command.Compiler
import SourceTree.Command.Settings
import SourceTree.Command.Usage

/-!
# Running a command

A run reads its settings, attaches its log, reads its flags and does one action. Every flag that the
action needs is checked before any file is touched, and a result is written last of all. A failure is
logged and reported on the error stream, with a hint at the end.
-/
namespace SourceTree.Command

/-- A command as it is given: its arguments and the environment. -/
structure Call where
  arguments : List String
  environment : Environment

/-- The directories in which programs are looked up, if the environment has them. -/
def Call.searchPath (call : Call) : SearchPath := call.environment.lookup "PATH"

/-- How a run ends: with an exit status, or because of something nobody provided for. -/
inductive Outcome where
  | exit (status : Nat)
  | escaped (cause : Escape)

namespace Run

def actionSource := "syntax_test_helper.actions"

def mainSource := "syntax_test_helper.main"

/-- A rendering, or what kept the tree from being rendered. A tree that is too deep is reported; an
unknown node is not provided for. -/
def ofRendering {α : Type} : Except Obstacle α → Run α
  | .ok a => pure a
  | .error .tooDeep => fail (.tooling Obstacle.tooDeep.message)
  | .error cause => escape (.obstacle cause)

/-- A text for the output stream, which is not provided for if it cannot be encoded. -/
def ofText (text : Text) : Run String :=
  match Text.encodable text with
  | .ok s => pure s
  | .error cause => escape (.unencodable cause)

/-- Reads a tree and writes its source. -/
def deserialize (host : Host) (flags : Flags) : Run String := do
  let tree ← ofExcept (flags.requirePath Flag.preEditTree)
  let out ← ofExcept (flags.requirePath Flag.out)
  let format ← ofExcept flags.format
  let payload ← readFile host tree
  let (tree, _) ← readPayload host Fault.message .empty format payload
  writeFile host out (← ofRendering tree.renderSource)
  return ""

/-- Reads a tree and, in the same session, one that may leave out what the first one has; writes the
source of the second. -/
def incrementalRoundTrip (host : Host) (flags : Flags) : Run String := do
  let tree ← ofExcept (flags.requirePath Flag.preEditTree)
  let incremental ← ofExcept (flags.requirePath Flag.incrTree)
  let out ← ofExcept (flags.requirePath Flag.out)
  let format ← ofExcept flags.format
  let first ← readFile host tree
  let second ← readFile host incremental
  let (_, s) ← readPayload host Fault.message .empty format first
  log host actionSource ("Primed deserializer with " ++ toString s.size ++ " nodes")
  let (tree, _) ← readPayload host Fault.message s format second
  writeFile host out (← ofRendering tree.renderSource)
  return ""

/-- Has a source file compiled and shows it with its tokens classified, on the output stream or in a
file. -/
def classifySyntax (host : Host) (searchPath : SearchPath) (flags : Flags) : Run String := do
  let source ← ofExcept (flags.requirePath Flag.sourceFile)
  ensureReadable source
  let tree ← compile host searchPath (flags.path? Flag.swiftc) source
  let classes ← ofRendering tree.renderClasses
  let text ← ofRendering (tree.renderClassified classes)
  match flags.path? Flag.out with
  | some out =>
    writeFile host out text
    return ""
  | none => ofText (text ++ "\n")

/-- Has a source file compiled and shows the structure of its nodes. -/
def printStructure (host : Host) (searchPath : SearchPath) (flags : Flags) : Run String := do
  let source ← ofExcept (flags.requirePath Flag.sourceFile)
  ensureReadable source
  let tree ← compile host searchPath (flags.path? Flag.swiftc) source
  ofText (← ofRendering tree.renderStructure)

/-- Does an action; the result is what goes to the output stream. -/
def act (host : Host) (searchPath : SearchPath) (flags : Flags) : Action → Run String
  | .deserialize => deserialize host flags
  | .incrementalRoundTrip => incrementalRoundTrip host flags
  | .classifySyntaxColoring => classifySyntax host searchPath flags
  | .printTreeStructure => printStructure host searchPath flags
  | .help => pure usage

/-- Everything that a run does before it reports. -/
def body (host : Host) (call : Call) (settings : Settings) : Run String := do
  if let some path := settings.logFile then openLog path
  let flags ← ofExcept (Flags.parse call.arguments)
  let action ← ofExcept (Action.select flags)
  log host actionSource ("Running action " ++ action.flag)
  act host call.searchPath flags action

end Run

namespace Machine

/-- Reports a failure: in the log, and on the error stream of the run. -/
def report (m : Machine) (host : Host) (cause : Failure) : Machine :=
  let m := m.log (record host.clock Run.mainSource ("Action failed: " ++ cause.label))
  m.writeError m.current (cause.message ++ "\n" ++ helpHint ++ "\n")

/-- Runs a command. -/
def run (m : Machine) (host : Host) (call : Call) : Outcome × Machine :=
  let settings := Settings.ofEnvironment call.environment
  match (Run.body host call settings).run.run (m.beginRun settings.level) with
  | (.ok output, m) => (.exit 0, m.writeOutput m.current output)
  | (.error (.failure cause), m) => (.exit 1, m.report host cause)
  | (.error (.escape cause), m) => (.escaped cause, m)

/-- What the run that has begun last has written. -/
def lastStreams (m : Machine) : Streams := (m.runs.getLast?).getD ⟨"", ""⟩

/-- The contents of files, by the names from the working directory down. -/
def contents (m : Machine) : List (Place × Bytes) :=
  m.files.entries.filterMap fun (place, entry) =>
    match entry with
    | .directory => none
    | .file bytes _ =>
      if m.files.cwd.isPrefixOf place then some (place.drop m.files.cwd.length, bytes) else none

end Machine
end SourceTree.Command
