import SourceTree.Markup
import SourceTree.Proofs.Tree.Walk

/-!
# Segments of the classified source

The source of a tree falls into segments: for each token the pieces of trivia before it, its text, and the
pieces after it. Classified or not, the source is written segment by segment, and a segment that is tagged
stands between the two tags of its class. So the classified source is the plain one with tags around some
of its segments, whatever classes the tokens are given.
-/
namespace SourceTree

/-- A part of the source, with its class. -/
structure Segment where
  text : Text
  classification : Classification

/-- The segment between the tags of its class; as it is, if it is empty or plain. -/
def Segment.marked (s : Segment) : Text :=
  if s.text ≠ [] ∧ s.classification ≠ .plain then
    "<" ++ s.classification.tag ++ ">" ++ s.text ++ "</" ++ s.classification.tag ++ ">"
  else s.text

/-- A piece of trivia is a segment whose class is its own. -/
def Segment.ofTrivia (piece : Trivia) : Segment := ⟨piece.text, .ofTrivia piece⟩

namespace Tree

/-- The segments of a token where it occurs: its trivia, and between them its text with the class that the
token is given. -/
def Occurrence.segments (classes : Classes) (o : Occurrence) : List Segment :=
  o.token.leading.map Segment.ofTrivia ++ [⟨o.token.text, classes.classOf o.serial⟩] ++
    o.token.trailing.map Segment.ofTrivia

/-- The segments of a tree, token by token. -/
def segments (classes : Classes) (t : Tree) : List Segment :=
  t.tokens.flatMap (Occurrence.segments classes)

theorem wrap_eq (text : Text) (c : Classification) : Markup.wrap text c = Segment.marked ⟨text, c⟩ := by
  by_cases htext : text = [] <;> by_cases hc : c = .plain <;> simp [Markup.wrap, Segment.marked, htext, hc]

/-- A token is written as its segments. -/
theorem token_eq_marked (classes : Classes) (o : Occurrence) :
    Markup.token classes o.serial o.token = (o.segments classes).flatMap Segment.marked := by
  have htrivia : ∀ pieces : List Trivia,
      Markup.trivia pieces = (pieces.map Segment.ofTrivia).flatMap Segment.marked := by
    intro pieces
    simp only [Markup.trivia, wrap_eq, List.flatMap_map]
    rfl
  simp only [Markup.token, Occurrence.segments, htrivia, wrap_eq, List.flatMap_append, List.flatMap_singleton]

theorem fullText_eq_segments (classes : Classes) {o : Occurrence} (h : o.token.isPresent) :
    o.token.fullText = (o.segments classes).flatMap Segment.text := by
  have htrivia : ∀ pieces : List Trivia,
      Token.triviaText pieces = (pieces.map Segment.ofTrivia).flatMap Segment.text := by
    intro pieces
    rw [List.flatMap_map]
    rfl
  simp only [Token.fullText, h, ↓reduceIte, Occurrence.segments, htrivia, List.flatMap_append,
    List.flatMap_singleton]

theorem description_eq_segments (classes : Classes) (t : Tree) :
    t.description = (t.segments classes).flatMap Segment.text := by
  rw [description, segments, List.flatMap_assoc]
  apply List.flatMap_congr
  intro o ho
  exact fullText_eq_segments classes (isPresent_of_mem_tokens ho)

theorem classifiedText_eq_segments (classes : Classes) (t : Tree) :
    t.classifiedText classes = (t.segments classes).flatMap Segment.marked := by
  rw [segments, List.flatMap_assoc]
  exact flatMap_events (fun serial token => token_eq_marked classes ⟨serial, token⟩) (fun _ => rfl)
    (fun _ => rfl) t

/-- The tree is written segment by segment, both as its source and with the tokens classified. -/
structure WrittenInSegments (classes : Classes) (t : Tree) : Prop where
  source : t.renderSource = .ok ((t.segments classes).flatMap Segment.text)
  classified : t.renderClassified classes = .ok ((t.segments classes).flatMap Segment.marked)

theorem writtenInSegments_iff {classes : Classes} {t : Tree} :
    t.WrittenInSegments classes ↔ t.walkDepth [] ≤ maxRenderDepth := by
  constructor
  · intro h
    by_contra hnot
    have hsource := h.source
    rw [renderSource, rendered, if_pos (Nat.not_le.mp hnot)] at hsource
    nomatch hsource
  · intro h
    have hshallow : ¬ maxRenderDepth < t.walkDepth [] := Nat.not_lt.mpr h
    constructor
    · rw [renderSource, rendered, if_neg hshallow, description_eq_segments]
    · rw [renderClassified, rendered, if_neg hshallow, classifiedText_eq_segments]

/-- **Classified source.** Whatever classes tokens are given, the texts of the segments make up the source
of the tree, and the segments between their tags make up the classified source: those of the tokens in
their order, each with its trivia around it. So it is exactly if the walk through the tree goes no deeper
than trees are rendered; through a deeper tree neither of the two walks comes to an end. -/
theorem classified_segments (classes : Classes) (t : Tree) :
    (t.WrittenInSegments classes ↔ t.walkDepth [] ≤ maxRenderDepth) ∧
    (maxRenderDepth < t.walkDepth [] →
      t.renderSource = .error .tooDeep ∧ t.renderClassified classes = .error .tooDeep) :=
  ⟨writtenInSegments_iff, fun hdeep => ⟨if_pos hdeep, if_pos hdeep⟩⟩

/-- A name in as many lists as a walk goes down is written in no segments, with its own class. -/
theorem not_writtenInSegments_nested :
    let name : Tree := .token 0 ⟨"identifier", "x", [], [], .present, some 7⟩
    let t := name.nested maxRenderDepth
    ¬ t.WrittenInSegments t.classes := by
  intro name t hwritten
  have hdeep : maxRenderDepth < t.walkDepth [] := lt_walkDepth_nested (by decide) maxRenderDepth
  exact Nat.not_le.mpr hdeep (writtenInSegments_iff.mp hwritten)

end Tree
end SourceTree
