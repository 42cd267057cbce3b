import SourceTree.Text.Quoted
import SourceTree.Token.Trivia

/-!
# Tokens
-/
namespace SourceTree

/-- Whether something stands in the source or was supplied by the parser. -/
inductive Presence where
  | present
  | missing
  deriving DecidableEq

def Presence.isPresent : Presence → Bool
  | .present => true
  | .missing => false

/-- A token with the trivia before and after it. -/
structure Token where
  kind : Text
  text : Text
  leading : List Trivia
  trailing : List Trivia
  presence : Presence
  id : Option Int
  deriving DecidableEq

namespace Token

def isPresent (t : Token) : Bool := t.presence.isPresent

/-- The texts of trivia, one after the other. -/
def triviaText (pieces : List Trivia) : Text := pieces.flatMap Trivia.text

/-- What the token contributes to the source: nothing if it is missing. -/
def fullText (t : Token) : Text :=
  if t.isPresent then triviaText t.leading ++ t.text ++ triviaText t.trailing else []

/-- One line that names the token. -/
def label (t : Token) : Text := "TokenSyntax(" ++ t.kind ++ ", " ++ Text.quoted t.text ++ ")"

end Token
end SourceTree
