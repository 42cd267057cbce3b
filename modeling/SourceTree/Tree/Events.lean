import SourceTree.Tree.Basic

/-!
# Walks through a tree

A walk goes depth first through what stands in the source. It enters and leaves nodes and meets tokens;
for the kinds it is told to skip it enters and leaves without looking at the slots.
-/
namespace SourceTree

/-- One step of a walk. -/
inductive Event where
  | enter (kind : String)
  | token (serial : Nat) (t : Token)
  | leave (kind : String)
  deriving DecidableEq

namespace Tree

mutual

/-- The steps of the walk that skips nodes of the given names. -/
def events (skips : List String) : Tree → List Event
  | .absent => []
  | .token serial t => if t.isPresent then [.token serial t] else []
  | .node kind presence _ layout =>
    if presence.isPresent then
      let inner := if skips.contains (nodeName kind) then [] else eventsOfAll skips layout
      .enter kind :: inner ++ [.leave kind]
    else []

def eventsOfAll (skips : List String) : List Tree → List Event
  | [] => []
  | t :: rest => t.events skips ++ eventsOfAll skips rest

end

mutual

/-- How many nodes and tokens lie on the longest way down that the walk takes. -/
def walkDepth (skips : List String) : Tree → Nat
  | .absent => 0
  | .token _ t => if t.isPresent then 1 else 0
  | .node kind presence _ layout =>
    if presence.isPresent then
      (if skips.contains (nodeName kind) then 0 else walkDepthOfAll skips layout) + 1
    else 0

def walkDepthOfAll (skips : List String) : List Tree → Nat
  | [] => 0
  | t :: rest => max (t.walkDepth skips) (walkDepthOfAll skips rest)

end

mutual

/-- How many nodes and tokens lie on the longest way down, missing ones counted in. -/
def depth : Tree → Nat
  | .absent => 0
  | .token _ _ => 1
  | .node _ _ _ layout => depthOfAll layout + 1

def depthOfAll : List Tree → Nat
  | [] => 0
  | t :: rest => max t.depth (depthOfAll rest)

end

end Tree
end SourceTree
