import SourceTree.Keyed
import SourceTree.System.Path
import SourceTree.Text.Utf8

/-!
# Files

A file system as a value: directories, and files with their contents. Looking a path up walks along its
names, so `a/..` leads nowhere unless `a` is a directory.

Left out are permissions to read and to write, so every file can be opened and every directory takes new
entries; symbolic and hard links, so that a file stands at one place; and devices. A file may be executable or
not. There is room for all that is written.
-/
namespace SourceTree

/-- Why the system refuses. -/
inductive SystemError where
  | noEntry
  | notExecutableFormat
  | accessDenied
  | alreadyThere
  | notADirectory
  | isADirectory
  | nameTooLong
  deriving DecidableEq

namespace SystemError

/-- The number of an error. -/
def number : SystemError → Nat
  | noEntry => 2
  | notExecutableFormat => 8
  | accessDenied => 13
  | alreadyThere => 17
  | notADirectory => 20
  | isADirectory => 21
  | nameTooLong => 36

def message : SystemError → String
  | noEntry => "No such file or directory"
  | notExecutableFormat => "Exec format error"
  | accessDenied => "Permission denied"
  | alreadyThere => "File exists"
  | notADirectory => "Not a directory"
  | isADirectory => "Is a directory"
  | nameTooLong => "File name too long"

end SystemError

/-- The bytes of a file. -/
abbrev Bytes := List UInt8

/-- What stands at a place. -/
inductive Entry where
  | directory
  | file (contents : Bytes) (executable : Bool)
  deriving DecidableEq

/-- The names from the root down to an entry. -/
abbrev Place := List String

/-- A file system with its working directory. The root is a directory and is not listed. -/
structure Files where
  cwd : Place
  entries : Keyed Place Entry
  deriving DecidableEq

/-- Where a path leads. -/
inductive Spot where
  | taken (place : Place) (entry : Entry)
  /-- The directory is there, and nothing of that name in it. -/
  | vacant (place : Place)
  deriving DecidableEq

namespace Files

/-- The longest name, in bytes. -/
def maxName : Nat := 255

/-- The longest path, in bytes. -/
def maxPath : Nat := 4095

/-- What stands at a place. -/
def entryAt (files : Files) (place : Place) : Option Entry :=
  if place.isEmpty then some .directory else files.entries.lookup place

/-- Puts an entry at a place. -/
def put (files : Files) (place : Place) (entry : Entry) : Files :=
  ⟨files.cwd, files.entries.put place entry⟩

/-- What was put at a place stands there, and nothing else is touched. The root is not a place to
put anything. -/
theorem entryAt_put (files : Files) {place : Place} (other : Place) (entry : Entry)
    (h : place ≠ []) :
    (files.put place entry).entryAt other =
      if other == place then some entry else files.entryAt other := by
  unfold entryAt put
  by_cases hroot : other = []
  · subst hroot
    simp [beq_false_of_ne (Ne.symm h)]
  · simp only [List.isEmpty_iff, hroot, if_false]
    exact Keyed.lookup_put files.entries place other entry

/-- A file system with an empty working directory. -/
def emptyAt (cwd : Place) : Files :=
  ⟨cwd, (List.range cwd.length).map fun n => (cwd.take (n + 1), .directory)⟩

/-- Where names lead from a place. -/
def walk (files : Files) (place : Place) : List String → Except SystemError Spot
  | [] =>
    match files.entryAt place with
    | some entry => .ok (.taken place entry)
    | none => .error .noEntry
  | name :: rest =>
    match files.entryAt place with
    | none => .error .noEntry
    | some (.file _ _) => .error .notADirectory
    | some .directory =>
      if name == "." then walk files place rest
      else if name == ".." then walk files place.dropLast rest
      else if maxName < name.utf8ByteSize then .error .nameTooLong
      else
        let next := place ++ [name]
        match files.entryAt next, rest with
        | some _, _ => walk files next rest
        | none, [] => .ok (.vacant next)
        | none, _ :: _ => .error .noEntry

/-- The place that a path starts from. -/
def origin (files : Files) : Anchor → Place
  | .relative => files.cwd
  | _ => []

/-- Where the spelling of a path leads. -/
def locate (files : Files) (text : String) : Except SystemError Spot :=
  if maxPath < text.utf8ByteSize then .error .nameTooLong
  else if text == "" then .error .noEntry
  else files.walk (files.origin (Path.anchorOf text.toList)) (namesOf text)

/-- The contents of a file. -/
def read (files : Files) (text : String) : Except SystemError Bytes :=
  match files.locate text with
  | .error e => .error e
  | .ok (.vacant _) => .error .noEntry
  | .ok (.taken _ .directory) => .error .isADirectory
  | .ok (.taken _ (.file contents _)) => .ok contents

/-- Empties a file, or makes a new one. -/
def truncate (files : Files) (text : String) : Except SystemError (Place × Files) :=
  match files.locate text with
  | .error e => .error e
  | .ok (.vacant place) => .ok (place, files.put place (.file [] false))
  | .ok (.taken _ .directory) => .error .isADirectory
  | .ok (.taken place (.file _ executable)) => .ok (place, files.put place (.file [] executable))

/-- Contents with bytes written over them from an offset on. Zeros fill what lies between. -/
def overwrite (contents : Bytes) (offset : Nat) (bytes : Bytes) : Bytes :=
  contents.take offset ++ List.replicate (offset - contents.length) 0 ++ bytes ++
    contents.drop (offset + bytes.length)

/-- Writes bytes into an open file from an offset on. -/
def writeAt (files : Files) (place : Place) (offset : Nat) (bytes : Bytes) : Files :=
  match files.entryAt place with
  | some (.file contents executable) =>
    files.put place (.file (overwrite contents offset bytes) executable)
  | _ => files

/-- Replaces the contents of a file, or makes a new one. -/
def write (files : Files) (text : String) (bytes : Bytes) : Except SystemError Files :=
  match files.truncate text with
  | .ok (place, files) => .ok (files.writeAt place 0 bytes)
  | .error e => .error e

/-- Why a directory is not made. -/
inductive DirectoryError where
  | refused (cause : SystemError)
  /-- Too many directories above it are missing. -/
  | tooDeep
  deriving DecidableEq

/-- How many directories may be missing above one that is made. -/
def maxMissing : Nat := 985

/-- How many names come after the first one that leads nowhere. -/
def namesMissing (files : Files) (place : Place) : List String → Nat
  | [] => 0
  | name :: rest =>
    if name == ".." then files.namesMissing place.dropLast rest
    else
      let next := place ++ [name]
      match files.entryAt next with
      | none => rest.length
      | some _ => files.namesMissing next rest

/-- Makes the directories that names lead through, as far as they are not there. What was made stays
even if the rest cannot be made. -/
def makeAlong (files : Files) (place : Place) : List String → Except SystemError Unit × Files
  | [] => (.ok (), files)
  | name :: rest =>
    if name == ".." then files.makeAlong place.dropLast rest
    else if maxName < name.utf8ByteSize then (.error .nameTooLong, files)
    else
      let next := place ++ [name]
      match files.entryAt next with
      | some .directory => files.makeAlong next rest
      | some (.file _ _) => (.error .alreadyThere, files)
      | none => (files.put next .directory).makeAlong next rest

/-- Makes a directory and those above it, as far as they are not there. -/
def makeDirectories (files : Files) (path : Path) : Except DirectoryError Unit × Files :=
  match files.locate path.text with
  | .ok (.taken _ .directory) => (.ok (), files)
  | .ok (.taken _ (.file _ _)) => (.error (.refused .alreadyThere), files)
  | .ok (.vacant place) => (.ok (), files.put place .directory)
  | .error .noEntry =>
    let place := files.origin path.anchor
    if maxMissing < files.namesMissing place path.names then (.error .tooDeep, files)
    else
      match files.makeAlong place path.names with
      | (.ok (), files) => (.ok (), files)
      | (.error cause, files) => (.error (.refused cause), files)
  | .error cause => (.error (.refused cause), files)

end Files
end SourceTree
