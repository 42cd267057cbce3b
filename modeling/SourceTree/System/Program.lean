import SourceTree.System.Files
import SourceTree.Text.Ends

/-!
# Programs

What the contents of a file do when it is started, and how a program is looked up by name along a
search path, or along a default one where none is given. Of several places that refuse, the first one
that has the program but does not start it says why.
-/
namespace SourceTree

/-- What a program leaves behind: its exit status, what it wrote, and the files. -/
structure Ending where
  exit : Int
  stdout : Bytes
  stderr : Bytes
  files : Files

/-- A program, given its arguments and the files. -/
abbrev Program := List String → Files → Ending

/-- The program that the contents of a file are, if they are one. -/
abbrev Programs := Bytes → Option Program

/-- Directories with colons between them, if they are given. -/
abbrev SearchPath := Option String

/-- The directories in which programs are looked up where none are given. -/
def defaultDirectories := "/bin:/usr/bin"

namespace Files

/-- The spelling of a name in a directory of a search path. -/
def candidate (directory name : String) : String :=
  if directory == "" || Text.ends "/" directory then directory ++ name
  else directory ++ "/" ++ name

/-- The spellings of a name along a search path. -/
def candidates (searchPath : SearchPath) (name : String) : List String :=
  (Text.split ':' (searchPath.getD defaultDirectories)).map fun directory => candidate directory name

/-- Something that may be executed and is no directory. -/
def isExecutable (files : Files) (text : String) : Bool :=
  match files.locate text with
  | .ok (.taken _ (.file _ executable)) => executable
  | _ => false

/-- The first executable of a name along a search path. An empty search path has none. -/
def which (files : Files) (searchPath : SearchPath) (name : String) : Option String :=
  if searchPath == some "" then none else (candidates searchPath name).find? files.isExecutable

/-- Starts the program that a path leads to. -/
def start (files : Files) (programs : Programs) (arguments : List String) (text : String) :
    Except SystemError Ending :=
  match files.locate text with
  | .error e => .error e
  | .ok (.vacant _) => .error .noEntry
  | .ok (.taken _ .directory) => .error .accessDenied
  | .ok (.taken _ (.file contents executable)) =>
    if !executable then .error .accessDenied
    else
      match programs contents with
      | none => .error .notExecutableFormat
      | some program => .ok (program arguments files)

/-- The name is not there, or there is no directory to look for it in. -/
def isAbsence (e : SystemError) : Bool := e == .noEntry || e == .notADirectory

/-- Starts the first program that starts. `kept` is the refusal that is reported otherwise. -/
def startFirst (files : Files) (programs : Programs) (arguments : List String)
    (kept : SystemError) : List String → Except SystemError Ending
  | [] => .error kept
  | text :: rest =>
    match files.start programs arguments text with
    | .ok ending => .ok ending
    | .error e =>
      files.startFirst programs arguments (if isAbsence kept then e else kept) rest

/-- Starts a program: where the path says or, if it is a single name, along the search path. -/
def launch (files : Files) (programs : Programs) (searchPath : SearchPath) (path : Path)
    (arguments : List String) : Except SystemError Ending :=
  if path.isBare then
    files.startFirst programs arguments .noEntry (candidates searchPath path.text)
  else files.start programs arguments path.text

end Files
end SourceTree
