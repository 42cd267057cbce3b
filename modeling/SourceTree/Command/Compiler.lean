import SourceTree.Command.Machine
import SourceTree.Session.Basic
import SourceTree.Text.Blank

/-!
# Trees from the compiler

The compiler is a program that dumps the tree of a source file as JSON. Its output counts if it ends
well; otherwise its exit status and what it complained about are reported, with the path under which
it was started.
-/
namespace SourceTree.Command

/-- The name under which the compiler is looked up. -/
def compilerName := "swiftc"

/-- Why the compiler gives no tree. -/
inductive CompilerError where
  | notFound (searchPath : SearchPath)
  | notStarted (compiler : Path) (cause : SystemError)
  | badExit (compiler source : Path) (exit : Int) (stderr : Bytes)
  | badTree (compiler : Path) (cause : Fault)

namespace CompilerError

/-- A message about a compiler that was found. -/
def about (compiler : Path) (message : Text) : Text :=
  message ++ " (swiftc: " ++ compiler.text ++ ")"

def message : CompilerError → Text
  | notFound searchPath =>
    "Could not find " ++ compilerName ++ " in PATH (" ++ searchPath.getD "" ++ ")"
  | notStarted compiler cause =>
    about compiler ("Failed to run parser: [Errno " ++ toString cause.number ++ "] " ++
      cause.message ++ ": " ++ Text.quoted compiler.text)
  | badExit compiler source exit stderr =>
    about compiler ("Parsing " ++ source.text ++ " failed with exit code " ++ toString exit ++
      ": " ++ Text.strip (Text.Utf8.decodeReplacing stderr))
  | badTree compiler cause =>
    about compiler ("Parser produced an invalid syntax tree: " ++ cause.message)

end CompilerError

namespace Run

def sessionSource := "syntax_test_helper.syntax.deserializer"

def compilerSource := "syntax_test_helper.syntax.parser"

/-- Logs that a session has read a payload. -/
def logReading (host : Host) (format : Format) (payload : Bytes) (s : Session) : Run Unit :=
  log host sessionSource
    ("Deserialized " ++ format.name ++ " payload (" ++ toString payload.length ++
      " bytes); node cache now holds " ++ toString s.size ++ " nodes")

/-- Reads a payload in a session. Faults that are expected of payloads are reported as `explain`
says; the others end the run. -/
def readPayload (host : Host) (explain : Fault → Text) (s : Session) (format : Format)
    (payload : Bytes) : Run (Tree × Session) := do
  match s.deserialize format payload with
  | (.ok tree, s) =>
    logReading host format payload s
    return (tree, s)
  | (.error cause, _) =>
    if cause.isExpected then fail (.tooling (explain cause)) else escape (.fault cause)

/-- Finds the compiler: the given one, or the first one along the search path. -/
def findCompiler (searchPath : SearchPath) : Option Path → Run Path
  | some compiler => pure compiler
  | none => do
    match (← get).files.which searchPath compilerName with
    | some text => return Path.ofString text
    | none => fail (.tooling (CompilerError.notFound searchPath).message)

/-- Has the compiler dump a source file, and reads the tree in a session of its own. -/
def compile (host : Host) (searchPath : SearchPath) (compiler : Option Path) (source : Path) :
    Run Tree := do
  let compiler ← findCompiler searchPath compiler
  let arguments := ["-frontend", "-emit-syntax", source.text]
  log host compilerSource ("Running " ++ " ".intercalate (compiler.text :: arguments))
  checkPath compiler
  checkPath source
  let refusal (cause : CompilerError) : Run Ending := fail (.tooling cause.message)
  let ending ←
    match (← get).files.launch host.programs searchPath compiler arguments with
    | .ok ending => pure ending
    | .error cause => refusal (.notStarted compiler cause)
  setFiles ending.files
  if ending.exit != 0 then
    let _ ← refusal (.badExit compiler source ending.exit ending.stderr)
  let explain (cause : Fault) : Text := (CompilerError.badTree compiler cause).message
  let (tree, _) ← readPayload host explain .empty .json ending.stdout
  return tree

end Run
end SourceTree.Command
