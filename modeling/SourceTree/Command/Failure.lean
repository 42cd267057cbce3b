import SourceTree.Text.Quoted

/-!
# Failures of a command

What ends a command with a diagnostic, by cause.
-/
namespace SourceTree.Command

/-- Why a command fails. -/
inductive Failure where
  | missingArgument (flag : String)
  | invalidValue (flag value : String)
  /-- A value that no flag precedes. -/
  | strayValue (value : String)
  /-- A flag that needs a value ends the arguments. -/
  | missingValue (flag : String)
  | noAction
  | fileAccess (path reason : String)
  /-- Reading or rendering a tree failed, with this message. -/
  | tooling (message : Text)
  deriving DecidableEq

namespace Failure

/-- The message as the error stream shows it. -/
def message : Failure → String
  | missingArgument flag => "Missing required argument: " ++ flag
  | invalidValue flag value => "Invalid value '" ++ value ++ "' for argument " ++ flag
  | strayValue value => "Malformed argument " ++ value ++ ": value given without a preceding flag"
  | missingValue flag => "Malformed argument " ++ flag ++ ": expected a value after the flag"
  | noAction => "No action specified."
  | fileAccess path reason => "Could not access file " ++ path ++ ": " ++ reason
  | tooling message => message.shown

/-- The name under which a failure is logged. -/
def name : Failure → String
  | missingArgument _ => "MissingRequiredArgument"
  | invalidValue _ _ => "InvalidArgumentValue"
  | strayValue _ => "MalformedArgument"
  | missingValue _ => "MalformedArgument"
  | noAction => "NoActionSpecified"
  | fileAccess _ _ => "FileAccessError"
  | tooling _ => "CollaboratorError"

/-- The message before it is shown. -/
def text : Failure → Text
  | tooling message => message
  | f => f.message

/-- How a failure is logged. -/
def label (f : Failure) : String := f.name ++ "(" ++ Text.quoted f.text ++ ")"

end Failure
end SourceTree.Command
