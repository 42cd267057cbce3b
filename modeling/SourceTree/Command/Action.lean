import SourceTree.Command.Flags
import SourceTree.Session.Basic

/-!
# Actions of a command

The flags say what to do. Of several actions the first one in the order of precedence is done, in
whatever order the flags stand.
-/
namespace SourceTree.Command

/-- What a command does. -/
inductive Action where
  | deserialize
  | incrementalRoundTrip
  | classifySyntaxColoring
  | printTreeStructure
  | help
  deriving DecidableEq

namespace Action

/-- The flag that asks for an action. -/
def flag : Action → String
  | deserialize => Flag.deserialize
  | incrementalRoundTrip => Flag.deserializeIncremental
  | classifySyntaxColoring => Flag.classifySyntax
  | printTreeStructure => Flag.printSource
  | help => Flag.help

/-- The actions, the one that wins over all others first. -/
def precedence : List Action :=
  [incrementalRoundTrip, classifySyntaxColoring, deserialize, printTreeStructure, help]

/-- The action that the flags ask for. -/
def select (flags : Flags) : Except Failure Action :=
  match precedence.find? fun action => flags.has action.flag with
  | some action => .ok action
  | none => .error .noAction

end Action

/-- The format of the payloads: JSON, unless a flag says otherwise. -/
def Flags.format (flags : Flags) : Except Failure Format :=
  match flags.get? Flag.serializationFormat with
  | none | some "" => .ok .json
  | some name =>
    match Format.ofName? name with
    | some format => .ok format
    | none => .error (.invalidValue Flag.serializationFormat name)

end SourceTree.Command
