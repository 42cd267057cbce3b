import SourceTree.Text.Basic

/-!
# The two ends of a text
-/
namespace SourceTree.Text

/-- The text begins with `head`. -/
def begins (head text : Text) : Bool := head.isPrefixOf text

/-- The text ends with `tail`. -/
def ends (tail text : Text) : Bool := tail.isSuffixOf text

end SourceTree.Text
