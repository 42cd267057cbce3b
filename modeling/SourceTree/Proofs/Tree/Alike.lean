import SourceTree.Markup
import SourceTree.Outline.OfTree

/-!
# Trees that are alike

Two trees are alike if they differ in nothing but the serial numbers of their tokens. The source text,
the walks and the node structure do not look at serial numbers, so they cannot tell such trees apart.
The classes of tokens are stored by serial number and are not covered here.
-/
namespace SourceTree

/-- A step of a walk, with the serial number zero on a token. -/
def Event.unnumbered : Event → Event
  | .enter kind => .enter kind
  | .token _ t => .token 0 t
  | .leave kind => .leave kind

namespace Tree

/-- Two trees are alike: kinds, ids, presence, texts, trivia and layout are the same. -/
def Alike (t u : Tree) : Prop := Outline.ofTree t = Outline.ofTree u

theorem Alike.refl (t : Tree) : t.Alike t := rfl

theorem Alike.symm {t u : Tree} (h : t.Alike u) : u.Alike t := Eq.symm h

theorem Alike.trans {t u v : Tree} (h : t.Alike u) (h' : u.Alike v) : t.Alike v := Eq.trans h h'

theorem Alike.ne_absent {t u : Tree} (h : t.Alike u) (hu : u ≠ .absent) : t ≠ .absent := by
  rintro rfl
  cases u with
  | absent => exact hu rfl
  | token _ _ => nomatch h
  | node _ _ _ _ => nomatch h

mutual

/-- The tree with the serial number zero on every token. -/
def unnumbered : Tree → Tree
  | .absent => .absent
  | .token _ t => .token 0 t
  | .node kind presence id layout => .node kind presence id (unnumberedAll layout)

def unnumberedAll : List Tree → List Tree
  | [] => []
  | t :: rest => t.unnumbered :: unnumberedAll rest

end

mutual

theorem unnumbered_eq_of_alike : ∀ {t u : Tree}, t.Alike u → t.unnumbered = u.unnumbered
  | .absent, .absent, _ => rfl
  | .token _ t, .token _ u, h => by
    have htoken : t = u := Outline.token.inj h
    rw [unnumbered, unnumbered, htoken]
  | .node _ _ _ ts, .node _ _ _ us, h => by
    obtain ⟨hkind, hpresence, hid, hslots⟩ := Outline.node.inj h
    rw [unnumbered, unnumbered, hkind, hpresence, hid, unnumberedAll_eq_of_alike hslots]

theorem unnumberedAll_eq_of_alike : ∀ {ts us : List Tree},
    Outline.ofTrees ts = Outline.ofTrees us → unnumberedAll ts = unnumberedAll us
  | [], [], _ => rfl
  | t :: ts, u :: us, h => by
    obtain ⟨hfirst, hrest⟩ := List.cons.inj h
    rw [unnumberedAll, unnumberedAll, unnumbered_eq_of_alike hfirst, unnumberedAll_eq_of_alike hrest]

end

/-! ### Tokens and source text -/

mutual

theorem tokens_unnumbered : ∀ t : Tree,
    t.unnumbered.tokens.map Occurrence.token = t.tokens.map Occurrence.token
  | .absent => rfl
  | .token _ t => by
    rw [unnumbered, tokens, tokens]
    split <;> rfl
  | .node _ presence _ layout => by
    rw [unnumbered, tokens, tokens]
    split
    · exact tokensOfAll_unnumberedAll layout
    · rfl

theorem tokensOfAll_unnumberedAll : ∀ ts : List Tree,
    (tokensOfAll (unnumberedAll ts)).map Occurrence.token =
      (tokensOfAll ts).map Occurrence.token
  | [] => rfl
  | t :: ts => by
    rw [unnumberedAll, tokensOfAll, tokensOfAll, List.map_append, List.map_append,
      tokens_unnumbered, tokensOfAll_unnumberedAll]

end

theorem description_unnumbered (t : Tree) : t.unnumbered.description = t.description := by
  have htexts : ∀ u : Tree, u.tokens.flatMap (fun o => o.token.fullText) =
      (u.tokens.map Occurrence.token).flatMap Token.fullText := by
    intro u
    rw [List.flatMap_map]
  rw [description, description, htexts, htexts, tokens_unnumbered]

/-! ### Walks -/

mutual

theorem events_unnumbered (skips : List String) : ∀ t : Tree,
    (t.unnumbered.events skips).map Event.unnumbered = (t.events skips).map Event.unnumbered
  | .absent => rfl
  | .token _ t => by
    rw [unnumbered, events, events]
    split <;> rfl
  | .node kind presence _ layout => by
    rw [unnumbered, events, events]
    split
    · by_cases hskip : skips.contains (nodeName kind)
      · simp only [hskip, ↓reduceIte]
      · simp only [hskip, Bool.false_eq_true, ↓reduceIte, List.map_append, List.map_cons,
          eventsOfAll_unnumberedAll skips layout]
    · rfl

theorem eventsOfAll_unnumberedAll (skips : List String) : ∀ ts : List Tree,
    (eventsOfAll skips (unnumberedAll ts)).map Event.unnumbered =
      (eventsOfAll skips ts).map Event.unnumbered
  | [] => rfl
  | t :: ts => by
    rw [unnumberedAll, eventsOfAll, eventsOfAll, List.map_append, List.map_append,
      events_unnumbered skips t, eventsOfAll_unnumberedAll skips ts]

end

mutual

theorem walkDepth_unnumbered (skips : List String) : ∀ t : Tree,
    t.unnumbered.walkDepth skips = t.walkDepth skips
  | .absent => rfl
  | .token _ _ => rfl
  | .node _ _ _ layout => by
    rw [unnumbered, walkDepth, walkDepth, walkDepthOfAll_unnumberedAll skips layout]

theorem walkDepthOfAll_unnumberedAll (skips : List String) : ∀ ts : List Tree,
    walkDepthOfAll skips (unnumberedAll ts) = walkDepthOfAll skips ts
  | [] => rfl
  | t :: ts => by
    rw [unnumberedAll, walkDepthOfAll, walkDepthOfAll, walkDepth_unnumbered skips t,
      walkDepthOfAll_unnumberedAll skips ts]

end

/-! ### Node structure -/

theorem structureText_unnumbered (t : Tree) : t.unnumbered.structureText = t.structureText := by
  have hstep : ∀ e : Event, Markup.structureStep e.unnumbered = Markup.structureStep e := by
    intro e
    cases e <;> rfl
  have hsteps : ∀ u : Tree, (u.events []).flatMap Markup.structureStep =
      ((u.events []).map Event.unnumbered).flatMap Markup.structureStep := by
    intro u
    simp only [List.flatMap_map, hstep]
  rw [structureText, structureText, hsteps, hsteps, events_unnumbered]

mutual

theorem firstObstacle_unnumbered : ∀ (room : Nat) (t : Tree),
    t.unnumbered.firstObstacle room = t.firstObstacle room
  | _, .absent => rfl
  | 0, .token _ _ => rfl
  | _ + 1, .token _ _ => rfl
  | 0, .node _ _ _ _ => rfl
  | room + 1, .node _ _ _ layout => by
    rw [unnumbered, firstObstacle, firstObstacle, firstObstacleOfAll_unnumberedAll room layout]

theorem firstObstacleOfAll_unnumberedAll : ∀ (room : Nat) (ts : List Tree),
    firstObstacleOfAll room (unnumberedAll ts) = firstObstacleOfAll room ts
  | _, [] => rfl
  | room, t :: ts => by
    rw [unnumberedAll, firstObstacleOfAll, firstObstacleOfAll, firstObstacle_unnumbered room t,
      firstObstacleOfAll_unnumberedAll room ts]

end

/-! ### What is shown of trees that are alike -/

section

variable {t u : Tree}

/-- What does not depend on serial numbers is the same of trees that are alike. -/
theorem Alike.same {α : Type} {f : Tree → α} (hf : ∀ t, f t.unnumbered = f t) (h : t.Alike u) :
    f t = f u := by
  rw [← hf t, ← hf u, unnumbered_eq_of_alike h]

theorem Alike.renderSource (h : t.Alike u) : t.renderSource = u.renderSource := by
  unfold Tree.renderSource rendered
  rw [h.same (walkDepth_unnumbered []), h.same description_unnumbered]

theorem Alike.renderStructure (h : t.Alike u) : t.renderStructure = u.renderStructure := by
  unfold Tree.renderStructure
  rw [h.same (firstObstacle_unnumbered maxRenderDepth), h.same structureText_unnumbered]

theorem Alike.renderEvents (h : t.Alike u) (skips : List String) :
    (t.renderEvents skips).map (List.map Event.unnumbered) =
      (u.renderEvents skips).map (List.map Event.unnumbered) := by
  have hevents : (t.events skips).map Event.unnumbered = (u.events skips).map Event.unnumbered :=
    h.same (f := fun v => (v.events skips).map Event.unnumbered) (events_unnumbered skips)
  unfold Tree.renderEvents
  rw [h.same (walkDepth_unnumbered skips)]
  split
  · rfl
  · simp only [Except.map, hevents]

end

end Tree
end SourceTree
