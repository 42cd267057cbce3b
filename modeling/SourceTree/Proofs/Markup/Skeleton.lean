import SourceTree.Proofs.Markup.Structure
import SourceTree.Proofs.Session.Kinds

/-!
# Skeletons

The skeleton of a tree is what its node structure is meant to show: the nodes that are shown, by their
kinds, each around what is in it, and between them the text of the tokens, however many tokens it comes
from. A token may have text that looks like a tag, and then the node structure can be read in more than one
way. Where no token has the character that opens a tag, it can be read in one way only.
-/
namespace SourceTree

/-- A fragment of what is shown: a text, or a node with what is in it. -/
inductive Fragment where
  | text (s : Text)
  | node (kind : String) (fragments : List Fragment)

namespace Fragment

/-- A text in front of other fragments. It is dropped if it is empty and joined to a text that follows. -/
def prepend (s : Text) : List Fragment → List Fragment
  | .text after :: rest => .text (s ++ after) :: rest
  | rest => if s = [] then rest else .text s :: rest

mutual

/-- A fragment as it is written: the name of a node stands in a tag before what is in it and in one after
it. -/
def written : Fragment → Text
  | .text s => s
  | .node kind fragments =>
    "<" ++ Tree.nodeName kind ++ ">" ++ writtenAll fragments ++ "</" ++ Tree.nodeName kind ++ ">"

def writtenAll : List Fragment → Text
  | [] => []
  | fragment :: rest => fragment.written ++ writtenAll rest

end

end Fragment

namespace Tree

mutual

/-- What is shown of a tree, in front of other fragments. -/
def fragmentsBefore : Tree → List Fragment → List Fragment
  | .absent, rest => rest
  | .token _ t, rest => Fragment.prepend t.fullText rest
  | .node kind presence _ layout, rest =>
    if presence.isPresent then .node kind (fragmentsOf layout) :: rest else rest

/-- What is shown of the slots of a node. -/
def fragmentsOf : List Tree → List Fragment
  | [] => []
  | t :: ts => t.fragmentsBefore (fragmentsOf ts)

end

/-- What is shown of a tree: its nodes, and between them the text of the tokens. -/
def skeleton (t : Tree) : List Fragment := t.fragmentsBefore []

end Tree

namespace Fragment

/-! ### Fragments that are written -/

theorem writtenAll_prepend (s : Text) (fragments : List Fragment) :
    writtenAll (prepend s fragments) = s ++ writtenAll fragments := by
  unfold prepend
  split
  · simp [writtenAll, written]
  · split
    · next hempty => simp [hempty]
    · rfl

/-- A node is written as its tags around what is in it, and what comes after it follows. -/
theorem writtenAll_node (kind : String) (fragments rest : List Fragment) (after : Text) :
    writtenAll (.node kind fragments :: rest) ++ after =
      .char '<' :: (Text.ofString (Tree.nodeName kind) ++ .char '>' :: (writtenAll fragments ++
        .char '<' :: .char '/' :: (Text.ofString (Tree.nodeName kind) ++
          .char '>' :: (writtenAll rest ++ after)))) := by
  have hopen : Text.ofString "<" = [.char '<'] := rfl
  have hclose : Text.ofString "</" = [.char '<', .char '/'] := rfl
  have hend : Text.ofString ">" = [.char '>'] := rfl
  simp only [writtenAll, written, hopen, hclose, hend, List.append_assoc, List.cons_append, List.nil_append]

/-! ### Fragments that can be told apart -/

/-- The two are not texts that stand side by side. -/
def Apart : Fragment → List Fragment → Prop
  | .text _, .text _ :: _ => False
  | _, _ => True

mutual

/-- Texts are not empty and open no tags, kinds are spelled as kinds are, and no text follows another. -/
def Proper : Fragment → Prop
  | .text s => s ≠ [] ∧ .char '<' ∉ s
  | .node kind fragments => Outline.isKind kind = true ∧ AllProper fragments

def AllProper : List Fragment → Prop
  | [] => True
  | fragment :: rest => fragment.Proper ∧ fragment.Apart rest ∧ AllProper rest

end

theorem allProper_prepend {s : Text} {fragments : List Fragment} (hs : .char '<' ∉ s)
    (hfragments : AllProper fragments) : AllProper (prepend s fragments) := by
  unfold prepend
  split
  · next after rest =>
    obtain ⟨⟨hafter, hopen⟩, hapart, hrest⟩ := hfragments
    refine ⟨⟨?_, ?_⟩, ?_, hrest⟩
    · simp [hafter]
    · simp [hs, hopen]
    · cases rest with
      | nil => trivial
      | cons fragment rest =>
        cases fragment with
        | text s => exact hapart
        | node kind fragments => trivial
  · next hnoText =>
    split
    · exact hfragments
    · next hne =>
      refine ⟨⟨hne, hs⟩, ?_, hfragments⟩
      cases fragments with
      | nil => trivial
      | cons fragment rest =>
        cases fragment with
        | text s => exact (hnoText s rest rfl).elim
        | node kind fragments => trivial

/-- What a text may begin with, for someone who reads the fragments of a node. -/
inductive Lead where
  | stop
  | tag
  | text

/-- The fragments stop at the end of the text and at a tag that closes. -/
def lead : Text → Lead
  | [] => .stop
  | first :: rest =>
    if first ≠ .char '<' then .text else if rest.head? = some (.char '/') then .stop else .tag

/-- What the first of the fragments is written with. -/
def leadOf : List Fragment → Lead
  | [] => .stop
  | .text _ :: _ => .text
  | .node _ _ :: _ => .tag

/-- In a name there is nothing that closes a tag, or makes it a closing one. -/
theorem ne_of_mem_nodeName {kind : String} (h : Outline.isKind kind = true) {code : Code}
    (hcode : code ∈ Text.ofString (Tree.nodeName kind)) : code ≠ .char '/' ∧ code ≠ .char '>' := by
  have hsyntax : "Syntax".toList.all (fun c => c != '/' && c != '>') = true := by decide
  obtain ⟨c, hc, rfl⟩ := List.mem_map.mp hcode
  rw [Ne, Code.char.injEq, Ne, Code.char.injEq]
  rw [Tree.nodeName, String.toList_append, List.mem_append] at hc
  rcases hc with hc | hc
  · rcases isKindRest_or_of_isKind h hc with hrest | rfl
    · constructor
      · intro heq
        subst heq
        exact absurd hrest (by decide)
      · intro heq
        subst heq
        exact absurd hrest (by decide)
    · decide
  · simpa using List.all_eq_true.mp hsyntax c hc

theorem passes_of_mem_nodeName {kind : String} (h : Outline.isKind kind = true) :
    ∀ code ∈ Text.ofString (Tree.nodeName kind), (code != .char '>') = true :=
  fun _ hc => bne_iff_ne.mpr (ne_of_mem_nodeName h hc).2

theorem lead_writtenAll {fragments : List Fragment} {after : Text} (h : AllProper fragments)
    (hafter : lead after = .stop) : lead (writtenAll fragments ++ after) = leadOf fragments := by
  cases fragments with
  | nil => exact hafter
  | cons fragment rest =>
    obtain ⟨hfragment, -, -⟩ := h
    cases fragment with
    | text s =>
      obtain ⟨hne, hopen⟩ := hfragment
      cases s with
      | nil => exact absurd rfl hne
      | cons first more =>
        have hfirst : first ≠ .char '<' := fun heq => hopen (heq ▸ List.mem_cons_self)
        simp [writtenAll, written, lead, leadOf, hfirst]
    | node kind fragments =>
      rw [writtenAll_node]
      cases hkind : Text.ofString (Tree.nodeName kind) with
      | nil => simp [lead, leadOf]
      | cons first more =>
        have hfirst : first ≠ .char '/' := by
          have hmem : first ∈ Text.ofString (Tree.nodeName kind) := by
            rw [hkind]
            exact List.mem_cons_self
          exact (ne_of_mem_nodeName hfragment.1 hmem).1
        simp [lead, leadOf, hfirst]

theorem leadOf_eq {fragments fragments' : List Fragment} {after after' : Text}
    (h : AllProper fragments) (h' : AllProper fragments') (hafter : lead after = .stop)
    (hafter' : lead after' = .stop)
    (hsame : writtenAll fragments ++ after = writtenAll fragments' ++ after') :
    leadOf fragments = leadOf fragments' := by
  rw [← lead_writtenAll h hafter, hsame, lead_writtenAll h' hafter']

theorem takeWhile_append_of_stop {passes : Code → Bool} {front back : Text}
    (hfront : ∀ c ∈ front, passes c = true) (hback : ∀ c ∈ back.head?, passes c = false) :
    (front ++ back).takeWhile passes = front := by
  rw [List.takeWhile_append_of_pos hfront]
  cases back with
  | nil => simp
  | cons c back =>
    have hc : passes c = false := hback c rfl
    simp [hc]

/-- Where two texts are equal, so is what they have up to the first character that does not pass. -/
theorem append_inj_of_stop {passes : Code → Bool} {front front' back back' : Text}
    (hfront : ∀ c ∈ front, passes c = true) (hfront' : ∀ c ∈ front', passes c = true)
    (hback : ∀ c ∈ back.head?, passes c = false) (hback' : ∀ c ∈ back'.head?, passes c = false)
    (h : front ++ back = front' ++ back') : front = front' ∧ back = back' := by
  have hsame : front = front' := by
    rw [← takeWhile_append_of_stop hfront hback, h, takeWhile_append_of_stop hfront' hback']
  subst hsame
  exact ⟨rfl, List.append_cancel_left h⟩

theorem nodeName_inj {kind kind' : String}
    (h : Text.ofString (Tree.nodeName kind) = Text.ofString (Tree.nodeName kind')) : kind = kind' := by
  rw [Tree.nodeName, Tree.nodeName, Text.ofString_append, Text.ofString_append] at h
  exact Text.ofString_inj.mp (List.append_cancel_right h)

/-- A text that does not follow a text is followed by what is no text. -/
theorem head?_of_apart {s : Text} {rest : List Fragment} {after : Text}
    (hapart : Apart (.text s) rest) (hrest : AllProper rest) (hafter : lead after = .stop) :
    ∀ c ∈ (writtenAll rest ++ after).head?, (c != .char '<') = false := by
  have hlead : lead (writtenAll rest ++ after) ≠ .text := by
    rw [lead_writtenAll hrest hafter]
    cases rest with
    | nil => nofun
    | cons fragment rest =>
      cases fragment with
      | text s => exact hapart.elim
      | node kind fragments => nofun
  intro c hc
  cases htext : writtenAll rest ++ after with
  | nil =>
    rw [htext] at hc
    nomatch hc
  | cons first more =>
    rw [htext] at hc hlead
    obtain rfl : first = c := Option.some.inj hc
    by_contra hne
    have hopen : first ≠ .char '<' := by simpa using hne
    exact hlead (by simp [lead, hopen])

/-- Fragments are read back from what they are written as, up to where they stop. -/
theorem writtenAll_inj : ∀ {fragments fragments' : List Fragment} {after after' : Text},
    AllProper fragments → AllProper fragments' → lead after = .stop → lead after' = .stop →
    writtenAll fragments ++ after = writtenAll fragments' ++ after' →
    fragments = fragments' ∧ after = after'
  | [], [], _, _, _, _, _, _, h => ⟨rfl, h⟩
  | .text s :: rest, .text s' :: rest', after, after', ⟨hs, hapart, hrest⟩, ⟨hs', hapart', hrest'⟩,
      hafter, hafter', h => by
    have hopen : ∀ {s : Text}, .char '<' ∉ s → ∀ c ∈ s, (c != .char '<') = true := by
      intro s hs c hc
      rw [bne_iff_ne]
      intro heq
      exact hs (heq ▸ hc)
    simp only [writtenAll, written, List.append_assoc] at h
    obtain ⟨rfl, hmore⟩ := append_inj_of_stop (hopen hs.2) (hopen hs'.2)
      (head?_of_apart hapart hrest hafter) (head?_of_apart hapart' hrest' hafter') h
    obtain ⟨rfl, rfl⟩ := writtenAll_inj hrest hrest' hafter hafter' hmore
    exact ⟨rfl, rfl⟩
  | .node kind fragments :: rest, .node kind' fragments' :: rest', after, after', ⟨hnode, _, hrest⟩,
      ⟨hnode', _, hrest'⟩, hafter, hafter', h => by
    obtain ⟨hkind, hfragments⟩ := hnode
    obtain ⟨hkind', hfragments'⟩ := hnode'
    rw [writtenAll_node, writtenAll_node] at h
    have hstop : ∀ more : Text, ∀ c ∈ (Code.char '>' :: more).head?, (c != .char '>') = false := by
      intro more c hc
      rw [← Option.some.inj hc]
      rfl
    obtain ⟨hname, hin⟩ := append_inj_of_stop (passes_of_mem_nodeName hkind)
      (passes_of_mem_nodeName hkind') (hstop _) (hstop _) (List.cons.inj h).2
    obtain rfl := nodeName_inj hname
    obtain ⟨rfl, hclose⟩ := writtenAll_inj hfragments hfragments' (by simp [lead]) (by simp [lead])
      (List.cons.inj hin).2
    obtain ⟨-, hmore⟩ := append_inj_of_stop (passes_of_mem_nodeName hkind)
      (passes_of_mem_nodeName hkind') (hstop _) (hstop _) (List.cons.inj (List.cons.inj hclose).2).2
    obtain ⟨rfl, rfl⟩ := writtenAll_inj hrest hrest' hafter hafter' (List.cons.inj hmore).2
    exact ⟨rfl, rfl⟩
  | [], fragment :: _, _, _, hfragments, hfragments', hafter, hafter', h => by
    have hlead := leadOf_eq hfragments hfragments' hafter hafter' h
    cases fragment <;> nomatch hlead
  | fragment :: _, [], _, _, hfragments, hfragments', hafter, hafter', h => by
    have hlead := leadOf_eq hfragments hfragments' hafter hafter' h
    cases fragment <;> nomatch hlead
  | .text _ :: _, .node _ _ :: _, _, _, hfragments, hfragments', hafter, hafter', h =>
    nomatch leadOf_eq hfragments hfragments' hafter hafter' h
  | .node _ _ :: _, .text _ :: _, _, _, hfragments, hfragments', hafter, hafter', h =>
    nomatch leadOf_eq hfragments hfragments' hafter hafter' h

end Fragment

namespace Tree

open Fragment (writtenAll AllProper)

/-! ### Trees -/

mutual

/-- The node structure is the skeleton as it is written. -/
theorem writtenAll_fragmentsBefore : ∀ (t : Tree) (rest : List Fragment),
    writtenAll (t.fragmentsBefore rest) = t.structured ++ writtenAll rest
  | .absent, _ => rfl
  | .token _ t, rest => Fragment.writtenAll_prepend t.fullText rest
  | .node kind presence _ layout, rest => by
    rw [fragmentsBefore, structured]
    split
    · rw [writtenAll, Fragment.written, writtenAll_fragmentsOf layout]
    · rfl

theorem writtenAll_fragmentsOf : ∀ ts : List Tree,
    writtenAll (fragmentsOf ts) = structuredAll ts
  | [] => rfl
  | t :: ts => by
    rw [fragmentsOf, structuredAll, writtenAll_fragmentsBefore, writtenAll_fragmentsOf ts]

end

mutual

/-- Where no token opens a tag, the fragments can be told apart. -/
theorem allProper_fragmentsBefore : ∀ {t : Tree} {rest : List Fragment}, (Outline.ofTree t).Sound →
    (∀ o ∈ t.tokens, .char '<' ∉ o.token.fullText) → AllProper rest → AllProper (t.fragmentsBefore rest)
  | .absent, _, _, _, hrest => hrest
  | .token serial t, _, _, htokens, hrest => by
    apply Fragment.allProper_prepend _ hrest
    by_cases hpresent : t.isPresent
    · exact htokens ⟨serial, t⟩ (by simp [tokens, hpresent])
    · simp [Token.fullText, hpresent]
  | .node kind presence _ layout, rest, ⟨hkind, _, hslots⟩, htokens, hrest => by
    rw [fragmentsBefore]
    rw [tokens] at htokens
    split
    · next hpresent =>
      rw [if_pos hpresent] at htokens
      refine ⟨⟨hkind, allProper_fragmentsOf hslots htokens⟩, ?_, hrest⟩
      cases rest <;> trivial
    · exact hrest

theorem allProper_fragmentsOf : ∀ {ts : List Tree}, Outline.AllSound (Outline.ofTrees ts) →
    (∀ o ∈ tokensOfAll ts, .char '<' ∉ o.token.fullText) → AllProper (fragmentsOf ts)
  | [], _, _ => trivial
  | _ :: _, ⟨hfirst, hrest⟩, htokens =>
    allProper_fragmentsBefore hfirst (fun o ho => htokens o (List.mem_append_left _ ho))
      (allProper_fragmentsOf hrest fun o ho => htokens o (List.mem_append_right _ ho))

end

theorem structured_eq_iff {t u : Tree} (ht : AllProper t.skeleton) (hu : AllProper u.skeleton) :
    t.structured = u.structured ↔ t.skeleton = u.skeleton := by
  have hwritten : ∀ v : Tree, writtenAll v.skeleton = v.structured := by
    intro v
    rw [skeleton, writtenAll_fragmentsBefore]
    exact List.append_nil _
  constructor
  · intro h
    have htext : writtenAll t.skeleton ++ [] = writtenAll u.skeleton ++ [] := by
      rw [hwritten, hwritten, h]
    exact (Fragment.writtenAll_inj ht hu rfl rfl htext).1
  · intro h
    rw [← hwritten, ← hwritten, h]

end Tree

namespace Session

/-- **The node structure determines the skeleton.** Of two trees that sessions have handed out, after any
calls, the node structures are the same exactly if the skeletons are, if both can be written and no token
in either has the character that opens a tag. -/
theorem structure_eq_iff_skeleton {calls calls' : List Call} {t u : Tree} {text text' : Text}
    (ht : .ok t ∈ (empty.deserializeAll calls).1) (hu : .ok u ∈ (empty.deserializeAll calls').1)
    (htext : t.renderStructure = .ok text) (hutext : u.renderStructure = .ok text')
    (htokens : ∀ o ∈ t.tokens, .char '<' ∉ o.token.fullText)
    (hutokens : ∀ o ∈ u.tokens, .char '<' ∉ o.token.fullText) :
    text = text' ↔ t.skeleton = u.skeleton := by
  obtain ⟨-, -, rfl⟩ := Tree.renderStructure_ok_iff.mp htext
  obtain ⟨-, -, rfl⟩ := Tree.renderStructure_ok_iff.mp hutext
  rw [Tree.structureText_eq, Tree.structureText_eq]
  exact Tree.structured_eq_iff
    (Tree.allProper_fragmentsBefore (sound_of_deserializeAll ht) htokens trivial)
    (Tree.allProper_fragmentsBefore (sound_of_deserializeAll hu) hutokens trivial)

/-- Two lists whose text is split into tokens in different places have the same node structure, and so the
same skeleton. -/
theorem structure_eq_iff_skeleton_list :
    let name (text : String) (id : Int) : Token := ⟨"identifier", text, [], [], .present, some id⟩
    let payload (first second : String) : List UInt8 :=
      Outline.encode (.node "ListSyntax" .present (some 3)
        [.token (name first 1), .absent, .token (name second 2)]) .json
    let list (first second : String) : Tree :=
      .node "ListSyntax" .present (some 3) [.token 0 (name first 1), .absent, .token 1 (name second 2)]
    .ok (list "x>" "y") ∈ (empty.deserializeAll [⟨.json, payload "x>" "y"⟩]).1 ∧
      .ok (list "x" ">y") ∈ (empty.deserializeAll [⟨.json, payload "x" ">y"⟩]).1 ∧
      (list "x>" "y").renderStructure = .ok "<ListSyntaxSyntax>x>y</ListSyntaxSyntax>" ∧
      (list "x" ">y").renderStructure = .ok "<ListSyntaxSyntax>x>y</ListSyntaxSyntax>" ∧
      (list "x>" "y").skeleton = (list "x" ">y").skeleton := by
  intro name payload list
  have hname : ∀ (text : String) (id : Nat), id < 2 ^ 32 → (name text id).Faithful :=
    fun text id hid => ⟨hasWordId id hid, rfl, Text.isPlain_ofChars text.toList, nofun, nofun⟩
  have hread : ∀ first second : String, Outline.read .json (payload first second) = .ok
      (.node "ListSyntax" .present (some 3) [.token (name first 1), .absent, .token (name second 2)]) := by
    intro first second
    exact Outline.read_encode_json ⟨by decide, hasWordId 3 (by decide), hname first 1 (by decide), trivial,
      hname second 2 (by decide), trivial⟩ (show 4 ≤ 990 by decide)
  have hlist : ∀ first second : String,
      .ok (list first second) ∈ (empty.deserializeAll [⟨.json, payload first second⟩]).1 := by
    intro first second
    rw [deserializeAll_cons, deserialize, hread]
    exact List.mem_cons_self
  have hleft : (list "x>" "y").renderStructure = .ok "<ListSyntaxSyntax>x>y</ListSyntaxSyntax>" := by
    decide
  have hright : (list "x" ">y").renderStructure = .ok "<ListSyntaxSyntax>x>y</ListSyntaxSyntax>" := by
    decide
  have hsame := structure_eq_iff_skeleton (hlist "x>" "y") (hlist "x" ">y") hleft hright (by decide)
    (by decide)
  exact ⟨hlist _ _, hlist _ _, hleft, hright, hsame.mp rfl⟩

end Session
end SourceTree
