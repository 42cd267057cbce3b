import SourceTree.Command.Run
import SourceTree.System.Clock

/-!
# The command line

Takes a picture of the files that the arguments and the environment name, runs the command on it, and
brings the files, the streams and the exit status up to what the run has left. Programs are not
started from here, so the actions that need the compiler report that it cannot be executed.
-/
namespace SourceTree.CommandLine

open Command

/-- The spelling of a place on the disk. -/
def placeText (place : Place) : String := "/" ++ "/".intercalate place

/-- Adds to a picture what the disk has at a place. -/
def observeAt (files : Files) (place : Place) : IO Files := do
  let root ← IO.currentDir
  let path := root / placeText place
  if place.isEmpty then return files
  if ← path.isDir then return files.put place .directory
  if ← path.pathExists then
    return files.put place (.file (← IO.FS.readBinFile path).toList false)
  return files

/-- Adds to a picture what the disk has along a path. -/
def observe (files : Files) (text : String) : IO Files := do
  let mut files := files
  let mut place := if (Path.ofString text).anchor == .relative then files.cwd else []
  for name in namesOf text do
    if name == ".." then place := place.dropLast
    else if name != "." then place := place ++ [name]
    files ← observeAt files place
  return files

/-- The paths that a command may look at. -/
def pathsOf (call : Call) : List String :=
  let names := call.arguments ++ [compilerName]
  call.arguments ++ (call.environment.lookup Settings.fileVariable).toList ++
    names.flatMap fun name => Files.candidates call.searchPath name

/-- Brings the disk up to a picture, given the one that was taken before. -/
def restore (old new : Files) : IO Unit := do
  for (place, entry) in new.entries do
    if old.entryAt place != some entry then
      match entry with
      | .directory => IO.FS.createDirAll (placeText place)
      | .file contents _ => IO.FS.writeBinFile (placeText place) ⟨contents.toArray⟩

/-- The time as log records show it: that of a file made just now. -/
def clock : IO String := do
  let (_, path) ← IO.FS.createTempFile
  let time := (← path.metadata).modified
  IO.FS.removeFile path
  return Clock.text time.sec.toNat (time.nsec.toNat / 1000000)

def environment : IO Environment := do
  let names := ["PATH", Settings.levelVariable, Settings.fileVariable]
  names.filterMapM fun name => do return (← IO.getEnv name).map fun value => (name, value)

/-- Runs a command on the disk. -/
def run (arguments : List String) : IO UInt32 := do
  let call : Call := ⟨arguments, ← environment⟩
  let mut files := Files.emptyAt (namesOf (← IO.currentDir).toString)
  for path in pathsOf call do
    files ← observe files path
  let (outcome, m) := (Machine.fresh files).run ⟨fun _ => none, ← clock⟩ call
  restore files m.files
  IO.print m.lastStreams.stdout
  IO.eprint m.lastStreams.stderr
  match outcome with
  | .exit status => return UInt32.ofNat status
  | .escaped cause =>
    IO.eprintln cause.message
    return 1

end SourceTree.CommandLine

def main (arguments : List String) : IO UInt32 := SourceTree.CommandLine.run arguments
