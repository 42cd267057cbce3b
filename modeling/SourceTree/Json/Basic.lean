import SourceTree.Decimal.Binary64
import SourceTree.Keyed
import SourceTree.Text.Basic

/-!
# JSON values

Members keep the order in which they were written. Integers have no bounds and are kept apart from
the numbers that are written with a point or an exponent.
-/
namespace SourceTree

/-- A JSON value. -/
inductive Json where
  | null
  | bool (b : Bool)
  | int (n : Int)
  | float (x : Decimal.Binary64)
  | str (s : Text)
  | arr (items : List Json)
  | obj (members : List (Text × Json))

namespace Json

/-- The members of an object. -/
abbrev Members := Keyed Text Json

/-- The value of a member. -/
def member? (members : Members) (name : String) : Option Json := members.lookup (Text.ofString name)

/-- Null, false, zero and what is empty count as false; all else, NaN too, as true. -/
def isTruthy : Json → Bool
  | null => false
  | bool b => b
  | int n => n != 0
  | float x => !x.isZero
  | str s => !s.isEmpty
  | arr items => !items.isEmpty
  | obj members => !members.isEmpty

/-- The name of the value's type in messages. -/
def typeName : Json → String
  | null => "NoneType"
  | bool _ => "bool"
  | int _ => "int"
  | float _ => "float"
  | str _ => "str"
  | arr _ => "list"
  | obj _ => "dict"

end Json
end SourceTree
