import SourceTree.Outline.OfByteTree
import SourceTree.Outline.OfJson
import SourceTree.Session.Store

/-!
# Sessions

A session reads payloads, one after the other, and remembers every node by its id. A node that a
payload leaves out is the one that the session remembers at that point: nodes of the same payload that
are complete by then count too, and what was taken in stays when the payload turns out to be wrong
later on.
-/
namespace SourceTree

/-- What a session remembers, and the serial number of the next token. -/
structure Session where
  store : Store
  nextSerial : Nat

/-- The formats of payloads. -/
inductive Format where
  | json
  | byteTree
  deriving DecidableEq

namespace Format

def name : Format → String
  | json => "json"
  | byteTree => "byteTree"

def ofName? (name : String) : Option Format :=
  if name == "json" then some json
  else if name == "byteTree" then some byteTree
  else none

end Format

namespace Outline

/-- The outline of a payload, or why its bytes are not even that. -/
def read (format : Format) (payload : List UInt8) : Except Fault Outline :=
  match format with
  | .json =>
    match Json.read payload with
    | .ok value => .ok (ofJson value)
    | .error .tooDeep => .error (.tooDeep payload.length)
    | .error (.longInteger digits) => .error (.integerTooLong digits)
    | .error cause => .error (.json cause)
  | .byteTree =>
    match (ByteTree.readDocument payload).1 with
    | .ok root => .ok (ofRoot root)
    | .error .tooDeep => .error (.tooDeep payload.length)
    | .error cause => .error (.byteTree cause)

end Outline

namespace Session

/-- A session that has read nothing and numbers tokens from `serial` on. -/
def startingAt (serial : Nat) : Session := ⟨[], serial⟩

/-- A session that has read nothing. -/
def empty : Session := startingAt 0

/-- How many nodes are remembered. -/
def size (s : Session) : Nat := s.store.length

/-- Remembers a complete node. -/
def remember (s : Session) (id : Option Int) (tree : Tree) : Session :=
  ⟨s.store.remember id tree, s.nextSerial⟩

/-- Takes a token in, under the next serial number. -/
def takeToken (s : Session) (t : Token) : Tree × Session :=
  let tree := Tree.token s.nextSerial t
  (tree, ⟨s.store.remember t.id tree, s.nextSerial + 1⟩)

mutual

/-- Takes an outline in: looks up what it leaves out and remembers what it brings. A node is
remembered once its slots are complete. -/
def take (s : Session) : Outline → Except Fault Tree × Session
  | .absent => (.ok .absent, s)
  | .fault cause => (.error cause, s)
  | .reference id =>
    match s.store.find? id with
    | some tree => (.ok tree, s)
    | none => (.error (.unknownReference id), s)
  | .token t =>
    let (tree, s) := s.takeToken t
    (.ok tree, s)
  | .node kind presence id slots =>
    match s.takeAll slots with
    | (.error cause, s) => (.error cause, s)
    | (.ok layout, s) =>
      let tree := Tree.node kind presence id layout
      (.ok tree, s.remember id tree)

/-- Takes slots in, up to the first fault. -/
def takeAll (s : Session) : List Outline → Except Fault (List Tree) × Session
  | [] => (.ok [], s)
  | slot :: rest =>
    match s.take slot with
    | (.error cause, s) => (.error cause, s)
    | (.ok tree, s) =>
      match s.takeAll rest with
      | (.error cause, s) => (.error cause, s)
      | (.ok trees, s) => (.ok (tree :: trees), s)

end

/-- Takes in what stands at the root of a payload; there has to be something. -/
def takeRoot (s : Session) (root : Outline) : Except Fault Tree × Session :=
  match s.take root with
  | (.ok .absent, s) => (.error .noRoot, s)
  | outcome => outcome

/-- Reads a payload: its tree, or why there is none, and what the session remembers after it. -/
def deserialize (s : Session) (format : Format) (payload : List UInt8) :
    Except Fault Tree × Session :=
  match Outline.read format payload with
  | .error cause => (.error cause, s)
  | .ok root => s.takeRoot root

/-- Reads a payload in a format that is given by name. -/
def deserializeNamed (s : Session) (format : String) (payload : List UInt8) :
    Except Fault Tree × Session :=
  match Format.ofName? format with
  | some format => s.deserialize format payload
  | none => (.error (.unsupportedFormat format), s)

end Session
end SourceTree
