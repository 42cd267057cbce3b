import SourceTree.Command.Failure
import SourceTree.Keyed
import SourceTree.System.Path
import SourceTree.Text.Ends

/-!
# Flags of a command

Arguments are flags, which begin with a dash, each with at most one value after it. A flag that is
given again keeps its first place and takes what stands after it last, even if that is no value.
-/
namespace SourceTree.Command

namespace Flag

def deserialize := "-deserialize"
def deserializeIncremental := "-deserialize-incremental"
def classifySyntax := "-classify-syntax"
def printSource := "-print-source"
def help := "-help"
def sourceFile := "-source-file"
def preEditTree := "-pre-edit-tree"
def incrTree := "-incr-tree"
def serializationFormat := "-serialization-format"
def out := "-out"
def swiftc := "-swiftc"

/-- Flags that may not end the arguments. -/
def needingValue : List String :=
  [sourceFile, preEditTree, incrTree, serializationFormat, out, swiftc]

/-- The argument is a flag. -/
def isFlag (argument : String) : Bool := Text.begins "-" argument

end Flag

/-- Flags with their values, in the order in which they were first given. -/
abbrev Flags := Keyed String (Option String)

namespace Flags

/-- Reads arguments on after the flags that are complete and the one that may still get a value. -/
def parseFrom (flags : Flags) (current : Option String) : List String → Except Failure Flags
  | [] =>
    match current with
    | none => .ok flags
    | some flag =>
      if Flag.needingValue.contains flag then .error (.missingValue flag)
      else .ok (flags.put flag none)
  | argument :: rest =>
    if Flag.isFlag argument then
      match current with
      | none => parseFrom flags (some argument) rest
      | some flag => parseFrom (flags.put flag none) (some argument) rest
    else
      match current with
      | none => .error (.strayValue argument)
      | some flag => parseFrom (flags.put flag (some argument)) none rest

/-- Reads the arguments of a command. -/
def parse (arguments : List String) : Except Failure Flags := parseFrom [] none arguments

/-- The flag was given, with or without a value. -/
def has (flags : Flags) (flag : String) : Bool := (flags.lookup flag).isSome

/-- The value of a flag. -/
def get? (flags : Flags) (flag : String) : Option String := (flags.lookup flag).join

/-- The value of a flag that an action needs. -/
def require (flags : Flags) (flag : String) : Except Failure String :=
  match flags.get? flag with
  | some value => .ok value
  | none => .error (.missingArgument flag)

/-- The value of a flag, as a path. -/
def path? (flags : Flags) (flag : String) : Option Path := (flags.get? flag).map Path.ofString

/-- The value of a flag that an action needs, as a path. -/
def requirePath (flags : Flags) (flag : String) : Except Failure Path :=
  (flags.require flag).map Path.ofString

/-- One flag with its value, as a message shows it. -/
def entryText (entry : String × Option String) : String :=
  Text.quoted entry.1 ++ ": " ++
    match entry.2 with
    | some value => Text.quoted value
    | none => "None"

/-- One line that shows all flags. -/
def label (flags : Flags) : String :=
  "ArgumentStore(\x7b" ++ ", ".intercalate (flags.map entryText) ++ "\x7d)"

end Flags
end SourceTree.Command
