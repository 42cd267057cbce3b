import Mathlib.Data.List.Forall2
import SourceTree.Markup
import SourceTree.Proofs.Keyed
import SourceTree.Proofs.Tree.Walk

/-!
# Classes by path

What the slots on the way to a token say decides its class: the outermost forced context, if there is one,
and otherwise the innermost context, which holds for identifiers only. A token that stands in several
places is classified by the last of them. A tree that is too deep to be rendered has no classes.
-/
namespace SourceTree

namespace Context

/-- What contexts, from the outermost to the innermost, make of a token that is `base` on its own. -/
def verdict (contexts : List Context) (base : Classification) : Classification :=
  match contexts.find? Context.forced, contexts.getLast? with
  | some outermost, _ => outermost.classification
  | none, some innermost => if base = .identifier then innermost.classification else base
  | none, none => base

/-- The one context that is left of contexts which follow each other from the root down. -/
def holding (contexts : List Context) : Option Context :=
  (contexts.find? Context.forced).or contexts.getLast?

theorem not_forced_of_getLast? {contexts : List Context} (hnone : contexts.find? Context.forced = none)
    {innermost : Context} (hlast : contexts.getLast? = some innermost) : innermost.forced = false := by
  have hmem : innermost ∈ contexts := List.mem_of_getLast? hlast
  simpa using List.find?_eq_none.mp hnone innermost hmem

theorem apply_holding (contexts : List Context) (base : Classification) :
    apply (holding contexts) base = verdict contexts base := by
  unfold holding verdict
  cases hforced : contexts.find? Context.forced with
  | some outermost =>
    have h : outermost.forced = true := List.find?_some hforced
    simp [apply, h]
  | none =>
    cases hlast : contexts.getLast? with
    | none => rfl
    | some innermost =>
      have h : innermost.forced = false := not_forced_of_getLast? hforced hlast
      simp [apply, h]

/-- A slot adds its context, if it has one, to those above it. -/
theorem enter_holding (above : List Context) (kind : String) (slot : Nat) :
    enter (holding above) kind slot = holding (above ++ (ofSlot? kind slot).toList) := by
  cases hforced : above.find? Context.forced with
  | some outermost =>
    obtain ⟨classification, forced⟩ := outermost
    obtain rfl : forced = true := List.find?_some hforced
    simp [holding, hforced, enter]
  | none =>
    have hslot : enter above.getLast? kind slot = (ofSlot? kind slot).or above.getLast? := by
      cases hlast : above.getLast? with
      | none => cases h : ofSlot? kind slot <;> simp [enter, h]
      | some innermost =>
        obtain ⟨classification, forced⟩ := innermost
        obtain rfl : forced = false := not_forced_of_getLast? hforced hlast
        cases h : ofSlot? kind slot <;> simp [enter, h]
    have habove : holding above = above.getLast? := by simp [holding, hforced]
    rw [habove, hslot]
    cases ofSlot? kind slot with
    | none => simp [habove]
    | some inner =>
      -- whether it is forced or not, the new context is the one that is left
      cases h : inner.forced <;> simp [holding, hforced, h]

end Context

namespace Tree

/-- What a slot of the tree says about the tokens beneath it. -/
def slotContext? : Tree → Nat → Option Context
  | .node kind _ _ _, slot => Context.ofSlot? kind slot
  | _, _ => none

/-- What the slots on a path say, from the root down. -/
def contextsAlong (t : Tree) : List Nat → List Context
  | [] => []
  | slot :: path => (t.slotContext? slot).toList ++ (t.slotAt slot).contextsAlong path

/-- The entry is of the token at the end of the path, with the class that the contexts above the tree and
those on the path give it. -/
def PlacedAs (t : Tree) (above : List Context) (path : List Nat) (entry : Occurrence × Classification) :
    Prop :=
  t.follow path = .token entry.1.serial entry.1.token ∧
    entry.2 = Context.verdict (above ++ t.contextsAlong path) (.ofToken entry.1.token)

mutual

/-- The tokens come in the order of their paths, and each has the class of its path. -/
theorem classified_holding (above : List Context) : ∀ t : Tree,
    List.Forall₂ (t.PlacedAs above) t.tokenPaths (t.classified (Context.holding above))
  | .absent => .nil
  | .token serial t => by
    rw [tokenPaths, classified]
    split
    · refine .cons ⟨rfl, ?_⟩ .nil
      rw [contextsAlong, List.append_nil]
      exact Context.apply_holding above _
    · exact .nil
  | .node kind presence id layout => by
    rw [tokenPaths, classified]
    split
    · exact classifiedFrom_holding above kind presence id [] layout
    · exact .nil

theorem classifiedFrom_holding (above : List Context) (kind : String) (presence : Presence)
    (id : Option Int) : ∀ front rest : List Tree,
      List.Forall₂ (PlacedAs (.node kind presence id (front ++ rest)) above)
        (tokenPathsFrom front.length rest)
        (classifiedFrom (Context.holding above) kind front.length rest)
  | _, [] => .nil
  | front, t :: rest => by
    have hrest := classifiedFrom_holding above kind presence id (front ++ [t]) rest
    rw [List.append_assoc, List.singleton_append, List.length_append, List.length_singleton] at hrest
    rw [tokenPathsFrom, classifiedFrom, Context.enter_holding]
    refine List.rel_append (List.forall₂_map_left_iff.mpr ?_) hrest
    refine (classified_holding _ t).imp fun path entry h => ?_
    have hslot : slotAt (.node kind presence id (front ++ t :: rest)) front.length = t := by
      simp [slotAt, layout]
    rw [PlacedAs, follow_cons, contextsAlong, hslot, ← List.append_assoc]
    exact h

end

mutual

theorem map_fst_classified : ∀ (context : Option Context) (t : Tree),
    (t.classified context).map Prod.fst = t.tokens
  | _, .absent => rfl
  | _, .token _ t => by
    rw [classified, tokens]
    split <;> rfl
  | context, .node kind presence _ layout => by
    rw [classified, tokens]
    split
    · exact map_fst_classifiedFrom context kind 0 layout
    · rfl

theorem map_fst_classifiedFrom : ∀ (context : Option Context) (kind : String) (slot : Nat)
    (ts : List Tree), (classifiedFrom context kind slot ts).map Prod.fst = tokensOfAll ts
  | _, _, _, [] => rfl
  | context, kind, slot, t :: ts => by
    rw [classifiedFrom, tokensOfAll, List.map_append, map_fst_classified _ t,
      map_fst_classifiedFrom context kind (slot + 1) ts]

end

/-- The tokens of a tree are those that its paths lead to. -/
theorem follow_tokenPaths (t : Tree) :
    List.Forall₂ (fun path o => t.follow path = .token o.serial o.token) t.tokenPaths t.tokens := by
  rw [← map_fst_classified none t, List.forall₂_map_right_iff]
  exact (classified_holding [] t).imp fun path entry h => h.1

/-! ### The classes of a tree -/

/-- What is put in for a token where it occurs. -/
def classEntry (entry : Occurrence × Classification) : Nat × (Token × Classification) :=
  (entry.1.serial, (entry.1.token, entry.2))

theorem classes_eq_putAll (t : Tree) :
    t.classes = Keyed.putAll [] ((t.classified none).map classEntry) := by
  rw [classes, Keyed.putAll, List.foldl_map]
  rfl

theorem keys_classes (t : Tree) : t.classes.keys = (t.tokens.map Occurrence.serial).eraseDups := by
  have hkeys : Keyed.keys ((t.classified none).map classEntry) = t.tokens.map Occurrence.serial := by
    rw [← map_fst_classified none t, Keyed.keys, List.map_map, List.map_map]
    rfl
  rw [classes_eq_putAll, Keyed.keys_putAll_nil, hkeys]

theorem isSome_lookup_classes {t : Tree} {path : List Nat} {serial : Nat} (h : t.HasTokenAt path serial) :
    (t.classes.lookup serial).isSome := by
  have hpath : path ∈ t.tokenPaths := mem_tokenPaths.mpr ⟨serial, h⟩
  obtain ⟨-, token, htoken⟩ := h
  obtain ⟨o, ho, hfollow⟩ := exists_mem_of_forall₂ (follow_tokenPaths t) hpath
  have hserial : o.serial = serial := (Tree.token.inj (hfollow.symm.trans htoken)).1
  rw [Keyed.isSome_lookup_iff, keys_classes, List.mem_eraseDups]
  exact List.mem_map.mpr ⟨o, ho, hserial⟩

/-- The class of the token at the end of a path. -/
def classAlong (t : Tree) (path : List Nat) (token : Token) : Classification :=
  Context.verdict (t.contextsAlong path) (.ofToken token)

/-- The entry is of the token at the end of the path, with its class there. -/
def EntryAt (t : Tree) (path : List Nat) (entry : Nat × (Token × Classification)) : Prop :=
  t.follow path = .token entry.1 entry.2.1 ∧ entry.2.2 = t.classAlong path entry.2.1

theorem entries_at (t : Tree) :
    List.Forall₂ t.EntryAt t.tokenPaths ((t.classified none).map classEntry) :=
  List.forall₂_map_right_iff.mpr (classified_holding [] t)

/-- A token has the class of its last place. -/
theorem lookup_classes_iff {t : Tree} {serial : Nat} {token : Token} {c : Classification} :
    t.classes.lookup serial = some (token, c) ↔
      ∃ path, t.LastPlace serial path ∧ t.follow path = .token serial token ∧
        c = t.classAlong path token := by
  have hkey : ∀ path entry entry', t.EntryAt path entry → t.EntryAt path entry' → entry.1 = entry'.1 := by
    intro path entry entry' h h'
    exact (Tree.token.inj (h.1.symm.trans h'.1)).1
  have hlast : ∀ {value}, t.classes.lookup serial = some value →
      ∃ path, t.LastPlace serial path ∧ t.EntryAt path (serial, value) := by
    intro value hfound
    rw [classes_eq_putAll] at hfound
    obtain ⟨path, hpath, hentry, hothers⟩ :=
      Keyed.exists_last_place (entries_at t) (pairwise_tokenPaths t) hkey hfound
    obtain ⟨n, hshown⟩ := mem_tokenPaths.mp hpath
    refine ⟨path, ⟨⟨hshown.1, _, hentry.1⟩, ?_⟩, hentry⟩
    rintro other ⟨hshows, token', htoken'⟩ hne
    have hother : other ∈ t.tokenPaths := mem_tokenPaths.mpr ⟨serial, hshows, token', htoken'⟩
    exact hothers other hother (token', t.classAlong other token') ⟨htoken', rfl⟩ hne
  constructor
  · intro hfound
    obtain ⟨path, hplace, htoken, hclass⟩ := hlast hfound
    exact ⟨path, hplace, htoken, hclass⟩
  · rintro ⟨path, hplace, htoken, rfl⟩
    have hsome := isSome_lookup_classes hplace.shown
    obtain ⟨value, hfound⟩ := Option.isSome_iff_exists.mp hsome
    obtain ⟨other, hother, htoken', hclass⟩ := hlast hfound
    obtain rfl : path = other := hplace.unique hother
    obtain ⟨token', c⟩ := value
    obtain ⟨-, rfl⟩ : serial = serial ∧ token = token' := Tree.token.inj (htoken.symm.trans htoken')
    obtain rfl : c = t.classAlong path token := hclass
    exact hfound

/-- The classes are those of the tokens of the tree, by serial number, in the order in which they come first.
A token has the class that the contexts on the path to its last place give it. -/
structure ClassedByPath (t : Tree) (classes : Classes) : Prop where
  keys : classes.keys = (t.tokens.map Occurrence.serial).eraseDups
  lookup : ∀ serial token c, classes.lookup serial = some (token, c) ↔
    ∃ path, t.LastPlace serial path ∧ t.follow path = .token serial token ∧
      c = Context.verdict (t.contextsAlong path) (.ofToken token)

theorem classedByPath_classes (t : Tree) : t.ClassedByPath t.classes where
  keys := keys_classes t
  lookup _ _ _ := lookup_classes_iff

/-- **Classes by path.** If the walk through a tree goes no deeper than trees are rendered, its tokens are
classified by their paths; of a deeper tree there are no classes. The places of tokens are the paths on which
nothing is missing, in the order of paths, which is the order of the tokens. -/
theorem classes_by_path (t : Tree) :
    (t.walkDepth [] ≤ maxRenderDepth →
      ∃ classes, t.renderClasses = .ok classes ∧ t.ClassedByPath classes) ∧
    (maxRenderDepth < t.walkDepth [] → t.renderClasses = .error .tooDeep) ∧
    t.renderClasses = t.rendered Tree.classes ∧
    t.ClassedByPath t.classes ∧
    t.tokenPaths.Pairwise (· < ·) ∧
    (∀ path, path ∈ t.tokenPaths ↔ ∃ serial, t.HasTokenAt path serial) ∧
    List.Forall₂ (fun path o => t.follow path = .token o.serial o.token) t.tokenPaths t.tokens := by
  refine ⟨fun hshallow => ?_, fun hdeep => if_pos hdeep, rfl, classedByPath_classes t,
    pairwise_tokenPaths t, fun _ => mem_tokenPaths, follow_tokenPaths t⟩
  exact ⟨t.classes, if_neg (Nat.not_lt.mpr hshallow), classedByPath_classes t⟩

/-- A name in as many lists as a walk goes down has no class. -/
theorem not_classed_nested :
    let name : Tree := .token 0 ⟨"identifier", "x", [], [], .present, some 7⟩
    let t := name.nested maxRenderDepth
    ¬ ∃ classes, t.renderClasses = .ok classes ∧ t.ClassedByPath classes := by
  intro name t
  rintro ⟨classes, hclasses, -⟩
  have hdeep : maxRenderDepth < t.walkDepth [] := lt_walkDepth_nested (by decide) maxRenderDepth
  rw [renderClasses, rendered, if_pos hdeep] at hclasses
  cases hclasses

/-- The outermost forced context wins over what stands within it. -/
example : Context.verdict [⟨.typeIdentifier, false⟩, ⟨.builtinAttribute, true⟩, ⟨.objectLiteral, true⟩]
    .keyword = .builtinAttribute := rfl

end Tree
end SourceTree
