import SourceTree.Text.Ends

/-!
# Kinds of tokens and their spellings

Keywords and punctuation have one spelling, so a payload need only name their kind. A token of any
other kind carries its text.
-/
namespace SourceTree.Spelling

/-- Keywords, as they stand in a source text. Their kind is the keyword after `kw_`. -/
def keywords : List String := [
  "associatedtype", "class", "deinit", "enum", "extension", "func", "import", "init", "inout", "let",
  "operator", "precedencegroup", "protocol", "struct", "subscript", "typealias", "var",
  "fileprivate", "internal", "private", "public", "static", "defer", "if", "guard", "do", "repeat",
  "else", "for", "in", "while", "return", "break", "continue", "fallthrough", "switch", "case",
  "default", "where", "catch", "throw", "as", "Any", "false", "is", "nil", "rethrows", "super",
  "self", "Self", "true", "try", "throws", "__FILE__", "__LINE__", "__COLUMN__", "__FUNCTION__",
  "__DSO_HANDLE__", "_"]

/-- Keywords that stand after a number sign. Their kind is the keyword after `pound_`. -/
def poundKeywords : List String := [
  "keyPath", "line", "selector", "file", "column", "function", "dsohandle", "assert",
  "sourceLocation", "warning", "error", "if", "else", "elseif", "endif", "available", "fileLiteral",
  "imageLiteral", "colorLiteral"]

/-- Kinds of punctuation and how they are spelled. -/
def punctuation : List (String × String) := [
  ("l_paren", "("), ("r_paren", ")"), ("l_brace", "\x7b"), ("r_brace", "\x7d"),
  ("l_square", "["), ("r_square", "]"), ("l_angle", "<"), ("r_angle", ">"), ("period", "."),
  ("period_prefix", "."), ("comma", ","), ("colon", ":"), ("semi", ";"), ("equal", "="),
  ("at_sign", "@"), ("pound", "#"), ("amp_prefix", "&"), ("arrow", "->"), ("backtick", "\x60"),
  ("backslash", "\\"), ("exclaim_postfix", "!"), ("question_postfix", "?"),
  ("question_infix", "?"), ("string_quote", "\""), ("multiline_string_quote", "\"\"\""),
  ("string_interpolation_anchor", ")"), ("eof", "")]

/-- Kinds whose spelling varies. -/
def textKinds : List String := [
  "identifier", "dollarident", "contextual_keyword", "integer_literal", "floating_literal",
  "string_literal", "string_segment", "unspaced_binary_operator", "spaced_binary_operator",
  "prefix_operator", "postfix_operator", "unknown"]

/-- Kinds that have one spelling, with it. -/
def fixed : List (String × String) :=
  punctuation ++ keywords.map (fun word => ("kw_" ++ word, word)) ++
    poundKeywords.map (fun word => ("pound_" ++ word, "#" ++ word))

/-- The one spelling of a kind. -/
def fixed? (kind : Text) : Option String := kind.lookupIn fixed

def isKeyword (kind : Text) : Bool := Text.begins "kw_" kind

def isPound (kind : Text) : Bool := Text.begins "pound_" kind

/-- The kind has one spelling, or is one of those whose spelling varies. -/
def isKnown (kind : Text) : Bool := (fixed? kind).isSome || kind.isIn textKinds

end SourceTree.Spelling
