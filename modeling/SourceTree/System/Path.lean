import SourceTree.Text.Split

/-!
# Paths

A path in its shortest spelling: no empty names and no single dots. Double dots stay, for what they
lead to depends on the files. Two slashes in front are not the same as one; three and more are.
-/
namespace SourceTree

/-- What a path starts from. -/
inductive Anchor where
  | relative
  | root
  | doubleRoot
  deriving DecidableEq

def Anchor.text : Anchor → String
  | .relative => ""
  | .root => "/"
  | .doubleRoot => "//"

/-- A path: where it starts and the names along it. -/
structure Path where
  anchor : Anchor
  names : List String
  deriving DecidableEq

/-- The names of a text between slashes, empty ones left out. -/
def namesOf (text : String) : List String :=
  (Text.split '/' text).filter (· != "")

namespace Path

/-- The anchor of a text. -/
def anchorOf : List Char → Anchor
  | '/' :: '/' :: '/' :: _ => .root
  | '/' :: '/' :: _ => .doubleRoot
  | '/' :: _ => .root
  | _ => .relative

/-- The path that a text spells. -/
def ofString (text : String) : Path := ⟨anchorOf text.toList, (namesOf text).filter (· != ".")⟩

/-- The spelling of a path. A relative path without names is a dot. -/
def text (p : Path) : String :=
  if p.names.isEmpty && p.anchor == .relative then "."
  else p.anchor.text ++ "/".intercalate p.names

/-- The path without its last name. -/
def parent (p : Path) : Path := ⟨p.anchor, p.names.dropLast⟩

/-- Names without double dots: each is left out, and the name before it with it. The names that are
done come last one first. -/
def collapse : List String → List String → List String
  | done, [] => done.reverse
  | done, name :: rest =>
    if name == ".." then collapse done.tail rest else collapse (name :: done) rest

/-- The path from the root, by its spelling alone, when relative ones start at `place`. -/
def absolute (p : Path) (place : List String) : Path :=
  match p.anchor with
  | .relative => ⟨.root, collapse [] (place ++ p.names)⟩
  | anchor => ⟨anchor, collapse [] p.names⟩

/-- The path is a single name: nothing says where to look for it. -/
def isBare (p : Path) : Bool := p.anchor == .relative && p.names.length ≤ 1

end Path
end SourceTree
