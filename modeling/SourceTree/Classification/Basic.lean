import SourceTree.Text.Ends
import SourceTree.Token.Basic
import SourceTree.Token.Spelling

/-!
# Classes of tokens and trivia

What a token or a comment is for someone who colours the source. The kind of a token decides, and for
identifiers also whether the text is a placeholder.
-/
namespace SourceTree

/-- The classes. -/
inductive Classification where
  | plain
  | keyword
  | identifier
  | typeIdentifier
  | dollarIdentifier
  | integerLiteral
  | floatingLiteral
  | stringLiteral
  | stringInterpolationAnchor
  | poundDirectiveKeyword
  | buildConfigId
  | builtinAttribute
  | objectLiteral
  | editorPlaceholder
  | lineComment
  | docLineComment
  | blockComment
  | docBlockComment
  deriving DecidableEq

namespace Classification

/-- The tag of a class; what is plain has none. -/
def tag : Classification → String
  | plain => ""
  | keyword => "kw"
  | identifier => "id"
  | typeIdentifier => "type"
  | dollarIdentifier => "dollar"
  | integerLiteral => "int"
  | floatingLiteral => "float"
  | stringLiteral => "str"
  | stringInterpolationAnchor => "anchor"
  | poundDirectiveKeyword => "#kw"
  | buildConfigId => "#id"
  | builtinAttribute => "attr-builtin"
  | objectLiteral => "object-literal"
  | editorPlaceholder => "placeholder"
  | lineComment => "comment-line"
  | docLineComment => "doc-comment-line"
  | blockComment => "comment-block"
  | docBlockComment => "doc-comment-block"

/-- Classes of kinds that are neither keywords nor stand after a number sign. -/
def ofKinds : List (String × Classification) := [
  ("contextual_keyword", keyword),
  ("identifier", identifier),
  ("dollarident", dollarIdentifier),
  ("integer_literal", integerLiteral),
  ("floating_literal", floatingLiteral),
  ("string_literal", stringLiteral),
  ("string_segment", stringLiteral),
  ("string_quote", stringLiteral),
  ("multiline_string_quote", stringLiteral),
  ("string_interpolation_anchor", stringInterpolationAnchor)]

/-- The directives for the compiler. -/
def poundDirectives : List String := [
  "pound_if", "pound_else", "pound_elseif", "pound_endif", "pound_sourceLocation", "pound_warning",
  "pound_error"]

/-- The keywords that begin an object literal. -/
def poundObjectLiterals : List String :=
  ["pound_fileLiteral", "pound_imageLiteral", "pound_colorLiteral"]

/-- The text of a placeholder that an editor has put in. -/
def isPlaceholder (text : Text) : Bool := Text.begins "<#" text && Text.ends "#>" text

/-- The class of a token, wherever it stands. -/
def ofToken (t : Token) : Classification :=
  if Spelling.isKeyword t.kind then keyword
  else if Spelling.isPound t.kind then
    if t.kind.isIn poundDirectives then poundDirectiveKeyword
    else if t.kind.isIn poundObjectLiterals then objectLiteral
    else keyword
  else if t.kind == "identifier" && isPlaceholder t.text then editorPlaceholder
  else (t.kind.lookupIn ofKinds).getD plain

/-- The class of a piece of trivia: the kind of a comment, or plain. -/
def ofTrivia (piece : Trivia) : Classification :=
  if piece.kind == "LineComment" then lineComment
  else if piece.kind == "DocLineComment" then docLineComment
  else if piece.kind == "BlockComment" then blockComment
  else if piece.kind == "DocBlockComment" then docBlockComment
  else plain

end Classification
end SourceTree
