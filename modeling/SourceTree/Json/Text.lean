import SourceTree.Json.Basic
import SourceTree.Decimal.Shortest
import SourceTree.Text.Quoted

/-!
# JSON values in messages

One line of text for a value: texts are quoted, members stand in their order.
-/
namespace SourceTree.Json

/-- A number is written in positional form from 10 ^ -4 on and below 10 ^ 16. -/
def numberStyle : Decimal.Style := ⟨-4, 16, 2⟩

mutual

/-- The value as a message shows it. -/
def text : Json → String
  | .null => "None"
  | .bool b => if b then "True" else "False"
  | .int n => toString n
  | .float x => numberStyle.render x
  | .str s => Text.quoted s
  | .arr items => "[" ++ ", ".intercalate (texts items) ++ "]"
  | .obj members => "\x7b" ++ ", ".intercalate (memberTexts members) ++ "\x7d"

def texts : List Json → List String
  | [] => []
  | value :: rest => value.text :: texts rest

def memberTexts : List (Text × Json) → List String
  | [] => []
  | (name, value) :: rest => (Text.quoted name ++ ": " ++ value.text) :: memberTexts rest

end

end SourceTree.Json
