import SourceTree.System.Path
import SourceTree.Text.Blank

/-!
# Settings from the environment

How much of the log is shown, and whether it is written to a file too. The names of levels may be
written in any case and with blanks around them; a name that is not known leaves the level as it is.
-/
namespace SourceTree.Command

/-- The variables of an environment with their values. -/
abbrev Environment := List (String × String)

/-- The log of a command: from which level on it is shown, and the file it is written to. -/
structure Settings where
  level : Int
  logFile : Option Path
  deriving DecidableEq

namespace Settings

def levelVariable := "SWIFTSYNTAX_TEST_LOG_LEVEL"

def fileVariable := "SWIFTSYNTAX_TEST_LOG_FILE"

/-- The level of warnings, which holds if no other is named. -/
def defaultLevel : Int := 30

/-- The levels by name. -/
def levels : List (String × Int) := [
  ("CRITICAL", 50), ("FATAL", 50), ("ERROR", 40), ("WARNING", 30), ("WARN", 30), ("INFO", 20),
  ("DEBUG", 10), ("NOTSET", 0)]

/-- The capital of a letter, as far as it is a letter from A to Z. Beside the small letters of ASCII
the dotless i and the long s have such a capital. -/
def capital (c : Char) : Char :=
  if 'a' ≤ c && c ≤ 'z' then Char.ofNat (c.toNat - 32)
  else if c == '\u0131' then 'I'
  else if c == '\u017f' then 'S'
  else c

/-- The level of a name. -/
def levelOf (name : String) : Int :=
  let name := String.ofList ((Text.strip name).toList.map capital)
  (levels.lookup name).getD defaultLevel

/-- The settings of an environment. An empty variable counts as none. -/
def ofEnvironment (env : Environment) : Settings :=
  let level :=
    match env.lookup levelVariable with
    | none => defaultLevel
    | some name => levelOf name
  let logFile :=
    match env.lookup fileVariable with
    | none | some "" => none
    | some path => some (Path.ofString path)
  ⟨level, logFile⟩

end Settings
end SourceTree.Command
