import SourceTree.Command.Failure
import SourceTree.Markup
import SourceTree.Outline.Fault
import SourceTree.System.Program

/-!
# The machine a command runs on

The files, the streams of every run so far, and the sinks that log records go to. Sinks outlive the run
that attached them: a record goes to every sink that is attached, so the next run has to detach those
of the last one before it logs anything.

Arguments, paths and the values of variables are strings here: those with bytes that are no UTF-8 are
left out, so a record can always be written. Texts of payloads need not be strings. The output stream
and files take nothing else, while the error stream names surrogates that stand alone.
-/
namespace SourceTree.Command

/-- What a run has written to its two streams. -/
structure Streams where
  stdout : String
  stderr : String
  deriving DecidableEq

/-- Where log records go. -/
inductive Sink where
  /-- The error stream of a run, from a level on. -/
  | console (run : Nat) (level : Int)
  /-- An open file, which is written from an offset on. -/
  | file (place : Place) (offset : Nat)
  deriving DecidableEq

/-- The state that runs leave to the next one. -/
structure Machine where
  files : Files
  runs : List Streams
  sinks : List Sink
  deriving DecidableEq

/-- What a machine offers beside its state: programs, and the time as log records show it. -/
structure Host where
  programs : Programs
  clock : String

/-- The level of the records that are logged. -/
def recordLevel : Int := 10

/-- A log record: when, which level, by whom, and what. -/
def record (clock source message : String) : String :=
  clock ++ " - DEBUG - " ++ source ++ " - " ++ message ++ "\n"

namespace Machine

/-- A machine on which nothing has run. -/
def fresh (files : Files) : Machine := ⟨files, [], []⟩

/-- Adds to what a run has written to its error stream. -/
def writeError (m : Machine) (run : Nat) (text : String) : Machine :=
  ⟨m.files, m.runs.modify run fun s => ⟨s.stdout, s.stderr ++ text⟩, m.sinks⟩

/-- Adds to what a run has written to its output stream. -/
def writeOutput (m : Machine) (run : Nat) (text : String) : Machine :=
  ⟨m.files, m.runs.modify run fun s => ⟨s.stdout ++ text, s.stderr⟩, m.sinks⟩

/-- Writes a record to a sink: the machine after that, its own sinks aside, and the sink. -/
def feed (m : Machine) (text : String) : Sink → Machine × Sink
  | .console run level =>
    (if level ≤ recordLevel then m.writeError run text else m, .console run level)
  | .file place offset =>
    let bytes := Text.Utf8.encode text
    (⟨m.files.writeAt place offset bytes, m.runs, m.sinks⟩, .file place (offset + bytes.length))

/-- Writes a record to sinks, one after the other. -/
def feedAll (m : Machine) (text : String) : List Sink → Machine × List Sink
  | [] => (m, [])
  | sink :: rest =>
    let (m, sink) := m.feed text sink
    let (m, rest) := m.feedAll text rest
    (m, sink :: rest)

/-- Writes a record to every attached sink. -/
def log (m : Machine) (text : String) : Machine :=
  let (m', sinks) := m.feedAll text m.sinks
  ⟨m'.files, m'.runs, sinks⟩

/-- The number of the run that has begun last. -/
def current (m : Machine) : Nat := m.runs.length - 1

/-- Begins a run with empty streams, to whose error stream records go from a level on. -/
def beginRun (m : Machine) (level : Int) : Machine :=
  ⟨m.files, m.runs ++ [⟨"", ""⟩], [.console m.runs.length level]⟩

end Machine

/-- What ends a run that nobody provides for. -/
inductive Escape where
  | fault (cause : Fault)
  | obstacle (cause : Obstacle)
  /-- A path holds a character that no path may hold. -/
  | nulInPath
  /-- Too many directories are missing above the file that records are written to. -/
  | directoriesTooDeep
  /-- A text that is written to a file or to the output stream has no UTF-8 form. -/
  | unencodable (cause : Text.Unencodable)

def Escape.message : Escape → String
  | .fault cause => cause.message.shown
  | .obstacle cause => cause.message
  | .nulInPath => "embedded null byte"
  | .directoriesTooDeep => "maximum depth of missing directories exceeded"
  | .unencodable cause => cause.message

/-- Why a run stops: with a diagnostic, or without anyone being ready for it. -/
inductive Stop where
  | failure (cause : Failure)
  | escape (cause : Escape)

/-- A step of a run: it may stop, and changes the machine in either case. -/
abbrev Run := ExceptT Stop (StateM Machine)

namespace Run

def fail {α : Type} (cause : Failure) : Run α := throw (.failure cause)

def escape {α : Type} (cause : Escape) : Run α := throw (.escape cause)

/-- The result, or the failure to get it. -/
def ofExcept {α : Type} : Except Failure α → Run α
  | .ok a => pure a
  | .error cause => fail cause

/-- Logs what a part of the program has to say. -/
def log (host : Host) (source message : String) : Run Unit :=
  modify fun m => m.log (record host.clock source message)

/-- Takes the result of something done to the files, or fails to access `path`. -/
def access {α : Type} (path : Path) : Except SystemError α → Run α
  | .ok a => pure a
  | .error e => fail (.fileAccess path.text e.message)

/-- Paths go to the system as they are, unless it could not take them. -/
def checkPath (path : Path) : Run Unit :=
  if path.text.toList.contains '\x00' then escape .nulInPath else pure ()

def setFiles (files : Files) : Run Unit := modify fun m => ⟨files, m.runs, m.sinks⟩

/-- Opens the file that records are written to, in place of what it holds, and attaches it. The
directories above it are made by the path as it stands; the file is opened by its path from the root,
so that is the path whose length counts. -/
def openLog (path : Path) : Run Unit := do
  checkPath path
  let (made, files) := (← get).files.makeDirectories path.parent
  setFiles files
  match made with
  | .ok () => pure ()
  | .error .tooDeep => escape .directoriesTooDeep
  | .error (.refused cause) => access path (.error cause)
  let (place, files) ← access path (files.truncate (path.absolute files.cwd).text)
  modify fun m => ⟨files, m.runs, m.sinks ++ [.file place 0]⟩

/-- The part of the program that handles files. -/
def filesSource := "syntax_test_helper.utils.file_utils"

/-- Reads a whole file. -/
def readFile (host : Host) (path : Path) : Run Bytes := do
  checkPath path
  let bytes ← access path ((← get).files.read path.text)
  log host filesSource ("Read " ++ toString bytes.length ++ " bytes from " ++ path.text)
  return bytes

/-- Makes sure that a file can be read. -/
def ensureReadable (path : Path) : Run Unit := do
  checkPath path
  let _ ← access path ((← get).files.read path.text)

/-- Writes a text to a file, in place of what it holds. To open the file is to empty it, so it is left
empty if the text cannot be encoded. -/
def writeFile (host : Host) (path : Path) (text : Text) : Run Unit := do
  checkPath path
  match Text.encodable text with
  | .ok s =>
    setFiles (← access path ((← get).files.write path.text (Text.Utf8.encode s)))
    log host filesSource
      ("Wrote " ++ toString text.length ++ " characters to " ++ path.text)
  | .error cause =>
    setFiles (← access path ((← get).files.write path.text []))
    escape (.unencodable cause)

end Run
end SourceTree.Command
