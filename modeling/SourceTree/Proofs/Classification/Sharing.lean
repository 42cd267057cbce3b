import Mathlib.Data.List.Nodup
import SourceTree.Proofs.Classification.Paths
import SourceTree.Proofs.Outline.Written
import SourceTree.Proofs.Session.Serials
import SourceTree.Proofs.Tree.Shape
import SourceTree.Proofs.Tree.Walk

/-!
# Classes of tokens in several places

Classes are kept by token and contexts belong to places. So a token that stands in several places is
printed with the class of the last one in all of them, and the classified source of a tree is that of the
places exactly where no token is in places of different classes. A tree that is read without references
has each token in one place; one that takes nodes from the session, or a node twice, need not.
-/
namespace SourceTree

/-- A token with its trivia, between the tags of a class. -/
def Markup.tagged (t : Token) (c : Classification) : Text :=
  trivia t.leading ++ wrap t.text c ++ trivia t.trailing

namespace Tree

/-- The class that a place gives to its token. -/
def classAt (t : Tree) (path : List Nat) : Classification :=
  match t.follow path with
  | .token _ found => t.classAlong path found
  | _ => .plain

/-- The class that is kept for the token in a place. -/
def tagAt (t : Tree) (path : List Nat) : Classification :=
  match t.follow path with
  | .token serial _ => t.classes.classOf serial
  | _ => .plain

/-- The text of the token in a place, given its class. -/
def textAt (t : Tree) (path : List Nat) (c : Classification) : Text :=
  match t.follow path with
  | .token _ found => Markup.tagged found c
  | _ => []

/-- The source with the token in each place between the tags of a class. -/
def markupBy (t : Tree) (classOf : List Nat → Classification) : Text :=
  t.tokenPaths.flatMap fun path => t.textAt path (classOf path)

/-- The source with each token between the tags of the class that is kept for it. -/
def renderMarkup (t : Tree) : Except Obstacle Text :=
  t.renderClasses.bind fun classes => t.renderClassified classes

/-- No token stands in places of different classes. -/
def Uniform (t : Tree) : Prop :=
  ∀ serial path other, t.HasTokenAt path serial → t.HasTokenAt other serial →
    t.classAt path = t.classAt other

/-! ### What is printed -/

theorem flatMap_classifiedStep (classes : Classes) (t : Tree) :
    (t.events []).flatMap (Markup.classifiedStep classes) =
      t.tokens.flatMap fun o => Markup.tagged o.token (classes.classOf o.serial) :=
  flatMap_events (fun _ _ => rfl) (fun _ => rfl) (fun _ => rfl) t

/-- What is listed of the tokens can be listed along their paths. -/
theorem map_tokenPaths {α : Type} {t : Tree} {f : List Nat → α} {g : Occurrence → α}
    (h : ∀ path o, t.follow path = .token o.serial o.token → f path = g o) :
    t.tokenPaths.map f = t.tokens.map g := by
  rw [← List.forall₂_eq_eq_eq, List.forall₂_map_left_iff, List.forall₂_map_right_iff]
  exact (follow_tokenPaths t).imp h

theorem markupBy_congr {t : Tree} {classOf classOf' : List Nat → Classification}
    (h : ∀ path ∈ t.tokenPaths, classOf path = classOf' path) : t.markupBy classOf = t.markupBy classOf' := by
  apply List.flatMap_congr
  intro path hpath
  rw [h path hpath]

/-- Classes that are kept by token are printed in the places of the tokens. -/
theorem classifiedText_eq_markupBy {classes : Classes} {t : Tree} {classOf : List Nat → Classification}
    (h : ∀ path serial token, t.follow path = .token serial token →
      classOf path = classes.classOf serial) : t.classifiedText classes = t.markupBy classOf := by
  rw [classifiedText, flatMap_classifiedStep, markupBy, List.flatMap_def, List.flatMap_def]
  apply congrArg List.flatten
  symm
  apply map_tokenPaths
  intro path o hfollow
  rw [h path o.serial o.token hfollow]
  simp only [textAt, hfollow]

theorem classifiedText_classes (t : Tree) : t.classifiedText t.classes = t.markupBy t.tagAt := by
  apply classifiedText_eq_markupBy
  intro path serial token hfollow
  simp only [tagAt, hfollow]

theorem renderMarkup_eq (t : Tree) : t.renderMarkup = t.rendered fun t => t.markupBy t.tagAt := by
  rw [renderMarkup, renderClasses, rendered, rendered]
  split
  · rfl
  · rename_i hdepth
    change t.rendered (classifiedText t.classes) = _
    rw [rendered, if_neg hdepth, classifiedText_classes]

/-! ### Classes that are kept -/

theorem exists_lastPlace {t : Tree} {path : List Nat} {serial : Nat} (h : t.HasTokenAt path serial) :
    ∃ last, t.LastPlace serial last := by
  obtain ⟨⟨token, c⟩, hfound⟩ := Option.isSome_iff_exists.mp (isSome_lookup_classes h)
  obtain ⟨last, hlast, -⟩ := lookup_classes_iff.mp hfound
  exact ⟨last, hlast⟩

theorem classOf_of_lastPlace {t : Tree} {serial : Nat} {last : List Nat} (h : t.LastPlace serial last) :
    t.classes.classOf serial = t.classAt last := by
  obtain ⟨-, token, htoken⟩ := h.shown
  have hfound := lookup_classes_iff.mpr ⟨last, h, htoken, rfl⟩
  simp only [Classes.classOf, hfound, classAt, htoken]
  rfl

/-- In all its places a token is printed with the class of the last one. -/
theorem tagAt_eq {t : Tree} {serial : Nat} {path last : List Nat} (h : t.HasTokenAt path serial)
    (hlast : t.LastPlace serial last) : t.tagAt path = t.classAt last := by
  obtain ⟨-, token, htoken⟩ := h
  rw [← classOf_of_lastPlace hlast]
  simp only [tagAt, htoken]

theorem tagAt_eq_classAt_iff {t : Tree} :
    (∀ path ∈ t.tokenPaths, t.tagAt path = t.classAt path) ↔ t.Uniform := by
  constructor
  · -- either place is printed with the class of the last place of the token
    intro htags serial path other hpath hother
    obtain ⟨last, hlast⟩ := exists_lastPlace hpath
    calc t.classAt path = t.tagAt path := (htags path (mem_tokenPaths.mpr ⟨serial, hpath⟩)).symm
      _ = t.classAt last := tagAt_eq hpath hlast
      _ = t.tagAt other := (tagAt_eq hother hlast).symm
      _ = t.classAt other := htags other (mem_tokenPaths.mpr ⟨serial, hother⟩)
  · intro huniform path hmem
    obtain ⟨serial, hpath⟩ := mem_tokenPaths.mp hmem
    obtain ⟨last, hlast⟩ := exists_lastPlace hpath
    rw [tagAt_eq hpath hlast]
    exact huniform serial last path hlast.shown hpath

theorem markupBy_of_uniform {t : Tree} (h : t.Uniform) : t.markupBy t.tagAt = t.markupBy t.classAt :=
  markupBy_congr (tagAt_eq_classAt_iff.mpr h)

/-- The serial number of a token. -/
def serial? : Tree → Option Nat
  | .token serial _ => some serial
  | _ => none

/-- Where every token has a serial number of its own, none stands in two places. -/
theorem uniform_of_nodup {t : Tree} (h : (t.tokens.map Occurrence.serial).Nodup) : t.Uniform := by
  intro serial path other hpath hother
  have hserials : t.tokenPaths.map (fun path => (t.follow path).serial?) =
      (t.tokens.map Occurrence.serial).map some := by
    rw [List.map_map]
    apply map_tokenPaths
    intro path o hfollow
    rw [hfollow]
    rfl
  have hdistinct : (t.tokenPaths.map fun path => (t.follow path).serial?).Nodup := by
    rw [hserials]
    exact h.map fun _ _ => Option.some.inj
  have hserial : ∀ {place}, t.HasTokenAt place serial → (t.follow place).serial? = some serial := by
    rintro place ⟨-, token, htoken⟩
    rw [htoken]
    rfl
  have hsame : path = other := List.inj_on_of_nodup_map hdistinct
    (mem_tokenPaths.mpr ⟨serial, hpath⟩) (mem_tokenPaths.mpr ⟨serial, hother⟩)
    ((hserial hpath).trans (hserial hother).symm)
  rw [hsame]

/-! ### Classes of places -/

theorem slotContext?_bare (t : Tree) (slot : Nat) : t.bare.slotContext? slot = t.slotContext? slot := by
  cases t <;> rfl

theorem contextsAlong_bare (path : List Nat) : ∀ t : Tree,
    t.bare.contextsAlong path = t.contextsAlong path := by
  induction path with
  | nil => exact fun _ => rfl
  | cons slot path ih =>
    intro t
    rw [contextsAlong, contextsAlong, slotContext?_bare, slotAt_bare, ih]

theorem classAt_bare (t : Tree) : t.bare.classAt = t.classAt := by
  funext path
  unfold classAt
  rw [follow_bare]
  cases t.follow path with
  | absent => rfl
  | token serial token =>
    change t.bare.classAlong path token.bare = t.classAlong path token
    rw [classAlong, classAlong, contextsAlong_bare]
    rfl
  | node kind presence id layout => rfl

theorem textAt_bare (t : Tree) : t.bare.textAt = t.textAt := by
  funext path c
  unfold textAt
  rw [follow_bare]
  cases t.follow path <;> rfl

theorem markupBy_classAt_bare (t : Tree) : t.bare.markupBy t.bare.classAt = t.markupBy t.classAt := by
  rw [markupBy, markupBy, tokenPaths_bare, textAt_bare, classAt_bare]

theorem SameShape.renderMarkup {t u : Tree} (h : t.SameShape u) (ht : t.Uniform) (hu : u.Uniform) :
    t.renderMarkup = u.renderMarkup := by
  rw [renderMarkup_eq, renderMarkup_eq, rendered, rendered, markupBy_of_uniform ht,
    markupBy_of_uniform hu, h.same (walkDepth_bare []),
    h.same (f := fun v => v.markupBy v.classAt) markupBy_classAt_bare]

/-- **Classes of tokens in several places.** Trees of the same shape have their tokens in the same places,
and the places give the same classes. But what is printed in a place is the class of the last place of its
token. So the classified source is that of the places exactly if no token stands in places of different
classes, and it is the same of two trees of the same shape of which this is so. It is so of every tree that
is read without references, in any session; a tree of the same shape is printed with the classes of that
one only if it is so of it too. -/
theorem markup_of_sameShape {t u : Tree} (h : t.SameShape u) :
    t.tokenPaths = u.tokenPaths ∧ t.classAt = u.classAt ∧
    (t.renderMarkup = t.rendered fun t => t.markupBy t.tagAt) ∧
    (∀ serial path last, t.HasTokenAt path serial → t.LastPlace serial last →
      t.tagAt path = t.classAt last) ∧
    ((∀ path ∈ t.tokenPaths, t.tagAt path = t.classAt path) ↔ t.Uniform) ∧
    (t.Uniform → u.Uniform → t.renderMarkup = u.renderMarkup) ∧
    ∀ (s s' : Session) (format : Format) (payload : List UInt8) (root : Outline),
      Outline.read format payload = .ok root → root.references = [] →
      s.deserialize format payload = (.ok u, s') →
      u.Uniform ∧ ((∀ path ∈ t.tokenPaths, t.tagAt path = u.tagAt path) ↔ t.Uniform) := by
  have hpaths : t.tokenPaths = u.tokenPaths := h.same tokenPaths_bare
  have hclasses : t.classAt = u.classAt := h.same classAt_bare
  refine ⟨hpaths, hclasses, renderMarkup_eq t, fun _ _ _ => tagAt_eq, tagAt_eq_classAt_iff,
    h.renderMarkup, ?_⟩
  intro s s' format payload root hread hrefs hcall
  have hu : u.Uniform := uniform_of_nodup (Session.nodup_serials_of_deserialize hread hrefs hcall)
  refine ⟨hu, ?_⟩
  rw [← tagAt_eq_classAt_iff]
  -- the full tree is printed with the classes of the places, and those depend on the shape only
  have htags : ∀ path ∈ t.tokenPaths, u.tagAt path = t.classAt path := by
    intro path hpath
    rw [tagAt_eq_classAt_iff.mpr hu path (hpaths ▸ hpath), hclasses]
  constructor
  · exact fun hall path hpath => (hall path hpath).trans (htags path hpath)
  · exact fun hall path hpath => (hall path hpath).trans (htags path hpath).symm

/-- A session that holds a name reads a tree with the name in an attribute and after it, and an empty one
reads a tree of the same shape with a name in either place. In the first tree the attribute is printed with
the class of a name that is not in an attribute. -/
theorem markup_of_sameShape_attribute :
    let name : Token := ⟨"identifier", "x", [], [], .present, some 1⟩
    let list (first second : Outline) : Outline :=
      .node "A" .present (some 2) [.node "Attribute" .present (some 3) [first], second]
    let held : Session := ⟨[(1, .token 0 name)], 1⟩
    ∃ t u, (held.deserialize .json ((list (.reference 1) (.reference 1)).encode .json)).1 = .ok t ∧
      (Session.empty.deserialize .json ((list (.token name) (.token name)).encode .json)).1 = .ok u ∧
      t.SameShape u ∧ ¬ t.Uniform ∧ u.Uniform ∧ t.renderMarkup = .ok "<id>x</id><id>x</id>" ∧
      u.renderMarkup = .ok "<attr-builtin>x</attr-builtin><id>x</id>" := by
  intro name list held
  have hname : name.Faithful := ⟨hasWordId 1 (by decide), rfl, rfl, nofun, nofun⟩
  have hlist : ∀ first second : Outline, first.Faithful → second.Faithful →
      (list first second).Faithful := by
    intro first second hfirst hsecond
    exact ⟨by decide, hasWordId 2 (by decide), ⟨by decide, hasWordId 3 (by decide), hfirst, trivial⟩, hsecond, trivial⟩
  have hshared := Outline.read_encode_json (hlist (.reference 1) (.reference 1) (hasWordId 1 (by decide))
    (hasWordId 1 (by decide))) (by decide)
  have hfull := Outline.read_encode_json (hlist (.token name) (.token name) hname hname) (by decide)
  let tree (first second : Tree) : Tree :=
    .node "A" .present (some 2) [.node "Attribute" .present (some 3) [first], second]
  let t := tree (.token 0 name) (.token 0 name)
  let u := tree (.token 0 name) (.token 1 name)
  have htake : held.take (list (.reference 1) (.reference 1)) =
      (.ok t, (held.take (list (.reference 1) (.reference 1))).2) := rfl
  have hutake : Session.empty.take (list (.token name) (.token name)) =
      (.ok u, (Session.empty.take (list (.token name) (.token name))).2) := rfl
  have ht := Session.deserialize_of_take hshared htake nofun
  have hu := Session.deserialize_of_take hfull hutake nofun
  have hshape : t.SameShape u := rfl
  have hprinted : t.renderMarkup = .ok "<id>x</id><id>x</id>" ∧
      u.renderMarkup = .ok "<attr-builtin>x</attr-builtin><id>x</id>" := by
    unfold t u tree name
    exact ⟨rfl, rfl⟩
  have hattribute : t.tagAt [0, 0] ≠ t.classAt [0, 0] := by
    unfold t tree name
    decide
  obtain ⟨-, -, -, -, htags, -, hread⟩ := markup_of_sameShape hshape
  refine ⟨t, u, congrArg Prod.fst ht, congrArg Prod.fst hu, hshape, ?_,
    (hread _ _ _ _ _ hfull rfl hu).1, hprinted⟩
  intro huniform
  exact hattribute (htags.mpr huniform [0, 0] (by decide))

end Tree
end SourceTree
