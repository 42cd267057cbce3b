import SourceTree.Proofs.Outline.Faults
import SourceTree.Proofs.Outline.Written
import SourceTree.Proofs.Session.Formats

/-!
# The grammar of JSON payloads

Which JSON values are nodes, said without reading them: what each member may be, by whether it is there,
and what the slots of a node may hold. A payload that leaves no node out, and whose white space fits in
memory, is read exactly if its value is a node.
-/
namespace SourceTree

namespace Json

/-! ### Nodes -/

/-- A letter or underscore and then letters, digits and underscores. One line break may end it. -/
def IsKindName (kind : String) : Prop :=
  ∃ first rest ending, kind.toList = first :: (rest ++ ending) ∧ Outline.isKindStart first = true ∧
    (∀ c ∈ rest, Outline.isKindRest c = true) ∧ (ending = [] ∨ ending = ['\n'])

/-- An id is an integer. It may be null or not be there. -/
def IsId (given : Option Json) : Prop := given = none ∨ given = some .null ∨ ∃ n, given = some (.int n)

/-- The presence is one of two words. It may not be there, but null is none. -/
def IsPresence (given : Option Json) : Prop :=
  given = none ∨ given = some (.str "Present") ∨ given = some (.str "Missing")

/-- A text may be left to the kind of the token if the kind has one spelling. -/
def IsText (kind : Text) (given : Option Json) : Prop :=
  (∃ text, given = some (.str text)) ∨
    ((given = none ∨ given = some .null) ∧ (Spelling.fixed? kind).isSome)

/-- A piece of trivia is counted white space or has a text. -/
inductive IsPiece : Json → Prop
  | counted {members : Members} {kind spelling : String} {count : Nat}
      (hkind : member? members "kind" = some (.str kind)) (hspelling : Trivia.spelling? kind = some spelling)
      (hvalue : member? members "value" = some (.int count)) (hcount : count < Trivia.countBound) :
      IsPiece (.obj members)
  | text {members : Members} {kind : String} {text : Text} (hkind : member? members "kind" = some (.str kind))
      (hmem : kind ∈ Trivia.textKinds) (hvalue : member? members "value" = some (.str text)) :
      IsPiece (.obj members)

/-- Trivia is an array of pieces. It may not be there. -/
def IsTrivia (given : Option Json) : Prop :=
  given = none ∨ ∃ pieces, given = some (.arr pieces) ∧ ∀ piece ∈ pieces, piece.IsPiece

/-- The value of `tokenKind` and the other members make up a token. -/
structure IsToken (tokenKind : Json) (members : Members) : Prop where
  kind : ∃ inner kind, tokenKind = .obj inner ∧ member? inner "kind" = some (.str kind) ∧
    IsText kind (member? inner "text")
  leading : IsTrivia (member? members "leadingTrivia")
  trailing : IsTrivia (member? members "trailingTrivia")

/-- A node is a token if it says what token it is, and has a layout otherwise. -/
inductive IsNode : Json → Prop
  | token {members : Members} {tokenKind : Json} (hid : IsId (member? members "id"))
      (hpresence : IsPresence (member? members "presence"))
      (htokenKind : member? members "tokenKind" = some tokenKind) (htoken : IsToken tokenKind members) :
      IsNode (.obj members)
  | layout {members : Members} {kind : String} {items : List Json} (hid : IsId (member? members "id"))
      (hpresence : IsPresence (member? members "presence"))
      (htokenKind : member? members "tokenKind" = none)
      (hkind : member? members "kind" = some (.str kind)) (hname : IsKindName kind)
      (hlayout : member? members "layout" = some (.arr items))
      (hitems : ∀ item ∈ items, item ≠ .null → IsNode item) : IsNode (.obj members)

theorem isNode_obj_iff {members : Members} : (Json.obj members).IsNode ↔
    IsId (member? members "id") ∧ IsPresence (member? members "presence") ∧
      ((∃ tokenKind, member? members "tokenKind" = some tokenKind ∧ IsToken tokenKind members) ∨
        ∃ (kind : String) (items : List Json), member? members "tokenKind" = none ∧
          member? members "kind" = some (.str kind) ∧ IsKindName kind ∧
          member? members "layout" = some (.arr items) ∧
          ∀ item ∈ items, item ≠ .null → IsNode item) := by
  constructor
  · intro h
    cases h with
    | token hid hpresence htokenKind htoken => exact ⟨hid, hpresence, .inl ⟨_, htokenKind, htoken⟩⟩
    | layout hid hpresence htokenKind hkind hname hlayout hitems =>
      exact ⟨hid, hpresence, .inr ⟨_, _, htokenKind, hkind, hname, hlayout, hitems⟩⟩
  · rintro ⟨hid, hpresence, ⟨tokenKind, htokenKind, htoken⟩ |
      ⟨kind, items, htokenKind, hkind, hname, hlayout, hitems⟩⟩
    · exact .token hid hpresence htokenKind htoken
    · exact .layout hid hpresence htokenKind hkind hname hlayout hitems

/-! ### What the grammar leaves open -/

/-- The value is an object of which something is so, or has one in its slots. -/
inductive HasNode (so : Members → Prop) : Json → Prop
  | here {members : Members} (h : so members) : HasNode so (.obj members)
  | slot {members : Members} {items : List Json} {item : Json}
      (htokenKind : member? members "tokenKind" = none)
      (hlayout : member? members "layout" = some (.arr items)) (hmem : item ∈ items)
      (hitem : HasNode so item) : HasNode so (.obj members)

theorem not_hasNode {so : Members → Prop} {members : Members} (hhere : ¬ so members)
    (hslots : ∀ items, member? members "tokenKind" = none → member? members "layout" = some (.arr items) →
      ∀ item ∈ items, ¬ item.HasNode so) : ¬ (Json.obj members).HasNode so := by
  intro h
  cases h with
  | here h => exact hhere h
  | slot htokenKind hlayout hmem hitem => exact hslots _ htokenKind hlayout _ hmem hitem

/-- A node is left out. -/
def LeavesOut : Json → Prop := HasNode fun members => Outline.isLeftOut members = true

/-- White space of a count in range that is too large for memory. -/
def PieceOutgrows (piece : Json) : Prop :=
  ∃ (members : Members) (kind spelling : String) (count : Nat), piece = .obj members ∧
    member? members "kind" = some (.str kind) ∧ Trivia.spelling? kind = some spelling ∧
    member? members "value" = some (.int count) ∧ count < Trivia.countBound ∧
    Trivia.maxRepeated < count * spelling.length

/-- A piece of the trivia is too large for memory. -/
def TriviaOutgrows (given : Option Json) : Prop :=
  ∃ pieces piece, given = some (.arr pieces) ∧ piece ∈ pieces ∧ piece.PieceOutgrows

/-- Trivia of a token is too large for memory. -/
def Outgrows : Json → Prop :=
  HasNode fun members => (member? members "tokenKind").isSome ∧
    (TriviaOutgrows (member? members "leadingTrivia") ∨ TriviaOutgrows (member? members "trailingTrivia"))

theorem sizeOf_lt_of_layout {members : Members} {items : List Json} {item : Json}
    (hlayout : member? members "layout" = some (.arr items)) (hmem : item ∈ items) :
    sizeOf item < sizeOf (Json.obj members) := by
  obtain ⟨front, back, rfl, -⟩ := List.lookup_eq_some_iff.mp hlayout
  have hmember : (Text.ofString "layout", Json.arr items) ∈
      front ++ (Text.ofString "layout", .arr items) :: back :=
    List.mem_append_right front List.mem_cons_self
  have hentry := List.sizeOf_lt_of_mem hmember
  have hitem := List.sizeOf_lt_of_mem hmem
  simp only [Prod.mk.sizeOf_spec, arr.sizeOf_spec, obj.sizeOf_spec] at hentry ⊢
  omega

/-- What holds of all values but objects, and of an object if it holds of the elements of its layout, holds
of all values. -/
theorem layoutInduction {motive : Json → Prop} (hother : ∀ v, (∀ members, v ≠ .obj members) → motive v)
    (hobj : ∀ members, (∀ items, member? members "layout" = some (.arr items) →
      ∀ item ∈ items, motive item) → motive (.obj members)) : ∀ v, motive v
  | .obj members => hobj members fun _ hlayout item hmem =>
    have := sizeOf_lt_of_layout hlayout hmem
    layoutInduction hother hobj item
  | .null => hother _ nofun
  | .bool _ => hother _ nofun
  | .int _ => hother _ nofun
  | .float _ => hother _ nofun
  | .str _ => hother _ nofun
  | .arr _ => hother _ nofun
termination_by v => sizeOf v
decreasing_by assumption

end Json

namespace Outline

open Json (member? Members)

/-! ### Members -/

theorem isKind_iff {kind : String} : isKind kind = true ↔ Json.IsKindName kind := by
  unfold isKind Json.IsKindName
  cases kind.toList with
  | nil => simp
  | cons first more =>
    simp only [Bool.and_eq_true, Bool.or_eq_true, List.all_eq_true, beq_iff_eq, List.cons.injEq]
    constructor
    · rintro ⟨hfirst, hrest | ⟨hlast, hrest⟩⟩
      · exact ⟨first, more, [], ⟨rfl, (List.append_nil more).symm⟩, hfirst, hrest, .inl rfl⟩
      · refine ⟨first, more.dropLast, ['\n'], ⟨rfl, ?_⟩, hfirst, hrest, .inr rfl⟩
        exact (List.dropLast_append_getLast? _ hlast).symm
    · rintro ⟨c, rest, ending, ⟨rfl, rfl⟩, hfirst, hrest, rfl | rfl⟩
      · exact ⟨hfirst, .inl (by rwa [List.append_nil])⟩
      · exact ⟨hfirst, .inr ⟨by simp, by simpa using hrest⟩⟩

variable {members : Members}

theorem nodeId_ok_iff : (∃ id, nodeId members = .ok id) ↔ Json.IsId (member? members "id") := by
  unfold nodeId Json.IsId
  cases member? members "id" with
  | none => simp
  | some found => cases found <;> simp

/-- There are two words for the presence. -/
theorem lookupIn_presences_isSome {mark : Text} :
    (mark.lookupIn presences).isSome ↔ mark = "Present" ∨ mark = "Missing" := by
  constructor
  · intro h
    obtain ⟨presence, hfound⟩ := Option.isSome_iff_exists.mp h
    obtain ⟨name, rfl, hlookup⟩ := Text.lookupIn_eq_some_iff.mp hfound
    obtain ⟨front, back, hentries, -⟩ := List.lookup_eq_some_iff.mp hlookup
    have hmem : (name, presence) ∈ presences := by
      rw [hentries]
      exact List.mem_append_right front List.mem_cons_self
    rcases List.mem_cons.mp hmem with heq | hmem
    · exact .inl (congrArg Text.ofString (Prod.mk.inj heq).1)
    · exact .inr (congrArg Text.ofString (Prod.mk.inj (List.mem_singleton.mp hmem)).1)
  · rintro (rfl | rfl)
    · exact Option.isSome_iff_exists.mpr ⟨.present, Text.lookupIn_eq_some_iff.mpr ⟨_, rfl, rfl⟩⟩
    · exact Option.isSome_iff_exists.mpr ⟨.missing, Text.lookupIn_eq_some_iff.mpr ⟨_, rfl, rfl⟩⟩

theorem nodePresence_ok_iff :
    (∃ presence, nodePresence members = .ok presence) ↔ Json.IsPresence (member? members "presence") := by
  unfold nodePresence Json.IsPresence
  split
  · next hgiven => simp [hgiven]
  · next mark hgiven =>
    rw [hgiven]
    simp only [reduceCtorEq, Option.some.injEq, Json.str.injEq, false_or, ← lookupIn_presences_isSome]
    cases mark.lookupIn presences <;> simp
  · simp_all

theorem fixedText_ok_iff {kind : Text} :
    (∃ text, fixedText kind = .ok text) ↔ (Spelling.fixed? kind).isSome := by
  unfold fixedText
  cases Spelling.fixed? kind with
  | some text => simp
  | none =>
    dsimp only
    split <;> simp

theorem textOfJson_ok_iff {kind : Text} {given : Option Json} :
    (∃ text, textOfJson kind given = .ok text) ↔ Json.IsText kind given := by
  unfold Json.IsText
  rw [← fixedText_ok_iff]
  cases given with
  | none => simp [textOfJson]
  | some found => cases found <;> simp [textOfJson]

theorem kindOfJson_ok_iff {found : Json} {kind : String} :
    kindOfJson found = .ok kind ↔ found = .str kind ∧ Json.IsKindName kind := by
  rw [← isKind_iff]
  cases found with
  | str text =>
    rw [kindOfJson, Json.str.injEq, ← Text.plain?_eq_some_iff]
    cases text.plain? with
    | none => simp
    | some name =>
      dsimp only
      split
      · next h =>
        rw [Except.ok.injEq, Option.some.injEq]
        constructor
        · rintro rfl
          exact ⟨rfl, h⟩
        · exact And.left
      · next h =>
        simp only [reduceCtorEq, Option.some.injEq, false_iff, not_and]
        rintro rfl
        exact h
  | _ => simp [kindOfJson]

/-! ### Trivia -/

theorem countedPiece_ok {kind spelling : String} {count : Nat} {piece : Trivia}
    (h : countedPiece kind spelling count = .ok piece) : count < Trivia.countBound := by
  by_contra hcount
  have hrange : Trivia.repeat? spelling count = .error .outOfRange := by
    rw [Trivia.repeat?, if_pos]
    simp only [Bool.or_eq_true, decide_eq_true_eq]
    exact .inr (Int.ofNat_le.mpr (Nat.not_lt.mp hcount))
  rw [countedPiece, hrange] at h
  cases h

theorem pieceOfKind_ok {kind : String} {value : Json} {piece : Trivia}
    (h : pieceOfKind kind value = .ok piece) :
    (∃ spelling, ∃ count : Nat, Trivia.spelling? kind = some spelling ∧ value = .int count ∧
      count < Trivia.countBound) ∨ (kind ∈ Trivia.textKinds ∧ ∃ text, value = .str text) := by
  unfold pieceOfKind at h
  split at h
  · next spelling hspelling =>
    split at h
    · next count =>
      split at h
      · nomatch h
      · next hsign =>
        have hnat : (count.toNat : Int) = count := Int.toNat_of_nonneg (Int.not_lt.mp hsign)
        exact .inl ⟨spelling, count.toNat, hspelling, by rw [hnat], countedPiece_ok h⟩
    · nomatch h
  · split at h
    · next hmem =>
      split at h
      · next text => exact .inr ⟨List.contains_iff_mem.mp hmem, text, rfl⟩
      · nomatch h
    · nomatch h

theorem pieceOfJson_ok {piece : Json} {read : Trivia} (h : pieceOfJson piece = .ok read) :
    piece.IsPiece := by
  unfold pieceOfJson at h
  split at h
  · next members =>
    split at h
    · next kind hkind =>
      have hkind : member? members "kind" = some (.str kind) := eq_some_of_getD_null nofun hkind
      split at h
      · next name hname =>
        rw [Text.plain?_eq_some_iff.mp hname] at hkind
        rcases pieceOfKind_ok h with ⟨spelling, count, hspelling, hvalue, hcount⟩ | ⟨hmem, text, hvalue⟩
        · exact .counted hkind hspelling (eq_some_of_getD_null nofun hvalue) hcount
        · exact .text hkind hmem (eq_some_of_getD_null nofun hvalue)
      · nomatch h
    all_goals nomatch h
  · nomatch h

theorem pieceOfJson_of_isPiece {piece : Json} (h : piece.IsPiece) (hfits : ¬ piece.PieceOutgrows) :
    ∃ read, pieceOfJson piece = .ok read := by
  cases h with
  | @counted members kind spelling count hkind hspelling hvalue hcount =>
    have hroom : count * spelling.length ≤ Trivia.maxRepeated := by
      by_contra hlarge
      exact hfits ⟨members, kind, spelling, count, rfl, hkind, hspelling, hvalue, hcount,
        Nat.not_le.mp hlarge⟩
    have hpiece : countedPiece kind spelling count = .ok ⟨kind, Trivia.repeated spelling count⟩ := by
      rw [countedPiece, Trivia.repeat?_natCast hcount hroom]
    have hsign : ¬ (count : Int) < 0 := Int.not_lt.mpr (Int.natCast_nonneg count)
    refine ⟨⟨kind, Trivia.repeated spelling count⟩, ?_⟩
    simp only [pieceOfJson, hkind, hvalue, Option.getD_some, Text.plain?_ofString, pieceOfKind, hspelling,
      if_neg hsign, Int.toNat_natCast, hpiece]
  | @text members kind text hkind hmem hvalue =>
    have htextKinds : ∀ kind ∈ Trivia.textKinds, Trivia.spelling? kind = none := by decide
    refine ⟨⟨kind, text⟩, ?_⟩
    simp only [pieceOfJson, hkind, hvalue, Option.getD_some, Text.plain?_ofString, pieceOfKind,
      htextKinds kind hmem, List.contains_iff_mem.mpr hmem, if_true]

theorem readAll_ok_iff {α β : Type} {read : α → Except Fault β} {items : List α} :
    (∃ bs, readAll read items = .ok bs) ↔ ∀ item ∈ items, ∃ b, read item = .ok b := by
  induction items with
  | nil => simp [readAll]
  | cons item rest ih =>
    rw [List.forall_mem_cons, ← ih, readAll]
    cases read item with
    | error cause => simp
    | ok b =>
      cases readAll read rest with
      | error cause => simp
      | ok bs => simp

theorem triviaOfJson_ok_iff {given : Option Json} (hfits : ¬ Json.TriviaOutgrows given) :
    (∃ trivia, triviaOfJson given = .ok trivia) ↔ Json.IsTrivia given := by
  unfold triviaOfJson Json.IsTrivia
  split
  · simp
  · next pieces =>
    rw [readAll_ok_iff]
    simp only [reduceCtorEq, Option.some.injEq, Json.arr.injEq, exists_eq_left', false_or]
    apply forall₂_congr
    intro piece hmem
    constructor
    · rintro ⟨read, hread⟩
      exact pieceOfJson_ok hread
    · intro hpiece
      exact pieceOfJson_of_isPiece hpiece fun hlarge => hfits ⟨pieces, piece, rfl, hmem, hlarge⟩
  · simp_all

/-! ### Nodes -/

theorem tokenOfJson_ok_iff {tokenKind : Json} {presence : Presence} {id : Option Int}
    (hleading : ¬ Json.TriviaOutgrows (member? members "leadingTrivia"))
    (htrailing : ¬ Json.TriviaOutgrows (member? members "trailingTrivia")) :
    (∃ t, tokenOfJson tokenKind members presence id = .ok t) ↔ Json.IsToken tokenKind members := by
  constructor
  · rintro ⟨t, h⟩
    unfold tokenOfJson at h
    split at h
    · next inner =>
      split at h
      · next kind hkind =>
        obtain ⟨text, htext, h⟩ := bind_ok h
        obtain ⟨before, hbefore, h⟩ := bind_ok h
        obtain ⟨after, hafter, -⟩ := bind_ok h
        exact ⟨⟨inner, kind, rfl, hkind, textOfJson_ok_iff.mp ⟨text, htext⟩⟩,
          (triviaOfJson_ok_iff hleading).mp ⟨before, hbefore⟩,
          (triviaOfJson_ok_iff htrailing).mp ⟨after, hafter⟩⟩
      · nomatch h
    · nomatch h
  · rintro ⟨⟨inner, kind, rfl, hkind, htext⟩, hbefore, hafter⟩
    obtain ⟨text, htext⟩ := textOfJson_ok_iff.mpr htext
    obtain ⟨before, hbefore⟩ := (triviaOfJson_ok_iff hleading).mpr hbefore
    obtain ⟨after, hafter⟩ := (triviaOfJson_ok_iff htrailing).mpr hafter
    refine ⟨⟨kind, text, before, after, presence, id⟩, ?_⟩
    simp only [tokenOfJson, hkind, htext, hbefore, hafter]
    rfl

variable {slots : List Outline} {o : Outline}

/-- Members that are read, and do not leave their node out, are those of a token or of a node with slots. -/
theorem ofMembers_ok (hstays : isLeftOut members = false) (h : ofMembers members slots = .ok o) :
    ∃ id presence, nodeId members = .ok id ∧ nodePresence members = .ok presence ∧
      ((∃ tokenKind t, member? members "tokenKind" = some tokenKind ∧
          tokenOfJson tokenKind members presence id = .ok t ∧ o = .token t) ∨
        ∃ (kind : String) (items : List Json), member? members "tokenKind" = none ∧
          member? members "kind" = some (.str kind) ∧ Json.IsKindName kind ∧
          member? members "layout" = some (.arr items) ∧ o = .node kind presence id slots) := by
  unfold ofMembers at h
  obtain ⟨id, hid, h⟩ := bind_ok h
  rw [hstays] at h
  obtain ⟨presence, hpresence, h⟩ := bind_ok h
  refine ⟨id, presence, hid, hpresence, ?_⟩
  split at h
  · next tokenKind htokenKind =>
    obtain ⟨t, ht, h⟩ := bind_ok h
    exact .inl ⟨tokenKind, t, htokenKind, ht, (Except.ok.inj h).symm⟩
  · next found htokenKind hfound =>
    split at h
    · next items hlayout =>
      obtain ⟨kind, hkind, hnode⟩ := bind_ok h
      obtain ⟨rfl, hname⟩ := kindOfJson_ok_iff.mp hkind
      exact .inr ⟨kind, items, htokenKind, hfound, hname, hlayout, (Except.ok.inj hnode).symm⟩
    · nomatch h
  · nomatch h

theorem slotsOfItems_eq (items : List Json) : slotsOfItems items = items.map ofJson := by
  induction items with
  | nil => rfl
  | cons item items ih => rw [slotsOfItems, ih, List.map_cons]

theorem slotsOfMembers_eq {items : List Json} (h : member? members "layout" = some (.arr items)) :
    slotsOfMembers members = items.map ofJson := by
  induction members with
  | nil => nomatch h
  | cons entry rest ih =>
    obtain ⟨name, value⟩ := entry
    rw [member?, List.lookup_cons] at h
    rw [slotsOfMembers]
    by_cases hname : name = "layout"
    · subst hname
      rw [beq_self_eq_true] at h ⊢
      obtain rfl := Option.some.inj h
      exact slotsOfItems_eq items
    · rw [beq_false_of_ne (Ne.symm hname)] at h
      rw [beq_false_of_ne hname]
      exact ih h

theorem isLeftOut_eq_false (h : ¬ (Json.obj members).LeavesOut) : isLeftOut members = false :=
  eq_false_of_ne_true fun hleft => h (.here hleft)

theorem references_ofJson : ∀ v : Json, ¬ v.LeavesOut → (ofJson v).references = [] := by
  apply Json.layoutInduction
  · intro v hother _
    cases v with
    | obj members => exact absurd rfl (hother members)
    | _ => rfl
  · intro members ih hstays
    rw [ofJson]
    cases hnode : ofMembers members (slotsOfMembers members) with
    | error cause => rfl
    | ok o =>
      obtain ⟨id, presence, -, -, ⟨tokenKind, t, -, -, rfl⟩ |
        ⟨kind, items, htokenKind, -, -, hlayout, rfl⟩⟩ := ofMembers_ok (isLeftOut_eq_false hstays) hnode
      · rfl
      · rw [ofExcept, references, referencesOfAll_eq, slotsOfMembers_eq hlayout, List.flatMap_map]
        apply List.flatMap_eq_nil_iff.mpr
        intro item hmem
        exact ih items hlayout item hmem fun hleft => hstays (.slot htokenKind hlayout hmem hleft)

theorem faults_ofExcept_eq_nil_iff {x : Except Fault Outline} :
    (ofExcept x).faults = [] ↔ ∃ o, x = .ok o ∧ o.faults = [] := by
  cases x with
  | error cause => simp [ofExcept, faults]
  | ok o => simp [ofExcept]

/-- Members make up an outline without faults exactly if they are those of a token, or of a node without
faults in its slots. -/
theorem faults_ofMembers_eq_nil_iff (hstays : isLeftOut members = false)
    (hfits : (member? members "tokenKind").isSome →
      ¬ Json.TriviaOutgrows (member? members "leadingTrivia") ∧
        ¬ Json.TriviaOutgrows (member? members "trailingTrivia")) :
    (∃ o, ofMembers members slots = .ok o ∧ o.faults = []) ↔
      Json.IsId (member? members "id") ∧ Json.IsPresence (member? members "presence") ∧
        ((∃ tokenKind, member? members "tokenKind" = some tokenKind ∧ Json.IsToken tokenKind members) ∨
          ∃ (kind : String) (items : List Json), member? members "tokenKind" = none ∧
            member? members "kind" = some (.str kind) ∧ Json.IsKindName kind ∧
            member? members "layout" = some (.arr items) ∧ faultsOfAll slots = []) := by
  have htoken : ∀ {tokenKind presence id}, member? members "tokenKind" = some tokenKind →
      ((∃ t, tokenOfJson tokenKind members presence id = .ok t) ↔ Json.IsToken tokenKind members) := by
    intro tokenKind presence id htokenKind
    obtain ⟨hleading, htrailing⟩ := hfits (by rw [htokenKind]; rfl)
    exact tokenOfJson_ok_iff hleading htrailing
  rw [← nodeId_ok_iff, ← nodePresence_ok_iff]
  constructor
  · rintro ⟨o, hmembers, hnone⟩
    obtain ⟨id, presence, hid, hpresence, hcases⟩ := ofMembers_ok hstays hmembers
    refine ⟨⟨id, hid⟩, ⟨presence, hpresence⟩, ?_⟩
    rcases hcases with ⟨tokenKind, t, htokenKind, ht, -⟩ |
      ⟨kind, items, htokenKind, hkind, hname, hlayout, rfl⟩
    · exact .inl ⟨tokenKind, htokenKind, (htoken htokenKind).mp ⟨t, ht⟩⟩
    · exact .inr ⟨kind, items, htokenKind, hkind, hname, hlayout, hnone⟩
  · rintro ⟨⟨id, hid⟩, ⟨presence, hpresence⟩, ⟨tokenKind, htokenKind, hisToken⟩ |
      ⟨kind, items, htokenKind, hkind, hname, hlayout, hslots⟩⟩
    · obtain ⟨t, ht⟩ := (htoken htokenKind).mpr hisToken
      exact ⟨.token t, ofMembers_token slots hid hstays hpresence htokenKind ht, rfl⟩
    · exact ⟨.node kind presence id slots, ofMembers_node slots hid hstays hpresence htokenKind hkind
        (isKind_iff.mpr hname) hlayout, hslots⟩

/-- Nothing is wrong in an empty slot and in a node, and in nothing else. -/
theorem faults_ofJson_eq_nil_iff : ∀ v : Json, ¬ v.LeavesOut → ¬ v.Outgrows →
    ((ofJson v).faults = [] ↔ v = .null ∨ v.IsNode) := by
  apply Json.layoutInduction
  · intro v hother _ _
    cases v with
    | obj members => exact absurd rfl (hother members)
    | null => exact ⟨fun _ => .inl rfl, fun _ => rfl⟩
    | _ => exact ⟨nofun, fun h => h.elim nofun nofun⟩
  · intro members ih hstays hfits
    have hslots : ∀ items, member? members "tokenKind" = none →
        member? members "layout" = some (.arr items) →
        (faultsOfAll (slotsOfMembers members) = [] ↔ ∀ item ∈ items, item ≠ .null → item.IsNode) := by
      intro items htokenKind hlayout
      rw [faultsOfAll_eq, slotsOfMembers_eq hlayout, List.flatMap_map, List.flatMap_eq_nil_iff]
      apply forall₂_congr
      intro item hmem
      rw [ih items hlayout item hmem (fun hleft => hstays (.slot htokenKind hlayout hmem hleft))
        (fun hlarge => hfits (.slot htokenKind hlayout hmem hlarge)), or_iff_not_imp_left]
    have hnull : Json.obj members ≠ .null := nofun
    rw [ofJson, faults_ofExcept_eq_nil_iff, faults_ofMembers_eq_nil_iff (isLeftOut_eq_false hstays)
      (fun hsome => ⟨fun hlarge => hfits (.here ⟨hsome, .inl hlarge⟩),
        fun hlarge => hfits (.here ⟨hsome, .inr hlarge⟩)⟩),
      or_iff_right hnull, Json.isNode_obj_iff]
    refine and_congr_right' (and_congr_right' (or_congr_right (exists₂_congr fun kind items => ?_)))
    refine and_congr_right fun htokenKind => and_congr_right' (and_congr_right' ?_)
    exact and_congr_right fun hlayout => hslots items htokenKind hlayout

theorem ofJson_ne_absent {v : Json} (h : ¬ v.LeavesOut) (hv : v ≠ .null) : ofJson v ≠ .absent := by
  cases v with
  | null => exact absurd rfl hv
  | obj members =>
    rw [ofJson]
    cases hnode : ofMembers members (slotsOfMembers members) with
    | error cause => nofun
    | ok o =>
      obtain ⟨id, presence, -, -, ⟨tokenKind, t, -, -, rfl⟩ | ⟨kind, items, -, -, -, -, rfl⟩⟩ :=
        ofMembers_ok (isLeftOut_eq_false h) hnode <;> nofun
  | _ => nofun

end Outline

namespace Session

/-- **Grammar.** A payload that leaves no node out, and whose white space fits in memory, gives a tree
exactly if its value is a node, whatever the session holds. -/
theorem deserialize_iff_isNode (s : Session) {payload : List UInt8} {v : Json}
    (hread : Json.read payload = .ok v) (hcomplete : ¬ v.LeavesOut) (hfits : ¬ v.Outgrows) :
    (∃ t, (s.deserialize .json payload).1 = .ok t) ↔ v.IsNode := by
  have hroot : Outline.read .json payload = .ok (Outline.ofJson v) := by
    rw [Outline.read, hread]
  have hfaults := Outline.faults_ofJson_eq_nil_iff v hcomplete hfits
  have hrefs := Outline.references_ofJson v hcomplete
  constructor
  · rintro ⟨t, ht⟩
    obtain ⟨htake, hpresent⟩ := take_of_deserialize hroot (Prod.ext ht rfl)
    rcases hfaults.mp (faults_of_take htake) with rfl | hnode
    · -- null is read as an empty slot, and that is no root
      exact absurd (Except.ok.inj (congrArg Prod.fst htake)).symm hpresent
    · exact hnode
  · intro hnode
    cases htake : s.take (Outline.ofJson v) with
    | mk result last =>
    cases result with
    | error cause =>
      have hmem := mem_faults_of_take hrefs (congrArg Prod.fst htake)
      rw [hfaults.mpr (.inr hnode)] at hmem
      exact absurd hmem List.not_mem_nil
    | ok t =>
      refine ⟨t, congrArg Prod.fst (deserialize_of_take hroot htake ?_)⟩
      rintro rfl
      have habsent := ofTree_of_take hrefs htake
      refine Outline.ofJson_ne_absent hcomplete ?_ habsent.symm
      rintro rfl
      cases hnode

/-- A missing list of nothing and a comma after two spaces is a node, so its payload is read. -/
theorem deserialize_iff_isNode_list :
    let comma : Json := .obj [("tokenKind", .obj [("kind", .str "comma")]),
      ("leadingTrivia", .arr [.obj [("kind", .str "Space"), ("value", .int 2)]])]
    let list : Json := .obj [("id", .int 2), ("presence", .str "Missing"), ("kind", .str "List"),
      ("layout", .arr [.null, comma])]
    Json.read (Json.encode list) = .ok list ∧ ¬ list.LeavesOut ∧ ¬ list.Outgrows ∧ list.IsNode ∧
      ∃ t, (Session.empty.deserialize .json (Json.encode list)).1 = .ok t := by
  intro comma list
  have hread : Json.read (Json.encode list) = .ok list := by
    refine Json.read_encode ⟨?_, by decide⟩
    simp only [list, comma, Json.Plain, Json.PlainMembers, Json.PlainAll]
    decide
  have hitem : ∀ {items : List Json} {item : Json}, Json.member? [("id", .int 2),
      ("presence", .str "Missing"), ("kind", .str "List"), ("layout", .arr [.null, comma])] "layout" =
        some (.arr items) → item ∈ items → item = .null ∨ item = comma := by
    intro items item hlayout hmem
    obtain rfl := Json.arr.inj (Option.some.inj hlayout)
    simpa using hmem
  have hnone : ∀ {so : Json.Members → Prop},
      ¬ so [("id", .int 2), ("presence", .str "Missing"), ("kind", .str "List"),
        ("layout", .arr [.null, comma])] →
      ¬ so [("tokenKind", .obj [("kind", .str "comma")]),
        ("leadingTrivia", .arr [.obj [("kind", .str "Space"), ("value", .int 2)]])] →
      ¬ list.HasNode so := by
    intro so hlist hcomma
    refine Json.not_hasNode hlist fun items _ hlayout item hmem => ?_
    rcases hitem hlayout hmem with rfl | rfl
    · nofun
    · exact Json.not_hasNode hcomma fun items htokenKind => nomatch htokenKind
  have hcomplete : ¬ list.LeavesOut := hnone (by decide) (by decide)
  have hspace : ¬ Json.PieceOutgrows (.obj [("kind", .str "Space"), ("value", .int 2)]) := by
    rintro ⟨members, kind, spelling, count, hpiece, hkind, hspelling, hcount, -, hlarge⟩
    obtain rfl := Json.obj.inj hpiece
    obtain rfl := Text.ofString_inj.mp (Json.str.inj (Option.some.inj hkind))
    obtain rfl := Option.some.inj hspelling
    obtain rfl : 2 = count := Int.ofNat.inj (Json.int.inj (Option.some.inj hcount))
    revert hlarge
    decide
  have hfits : ¬ list.Outgrows := by
    refine hnone ?_ ?_
    · rintro ⟨htokenKind, -⟩
      nomatch htokenKind
    · rintro ⟨-, ⟨pieces, piece, hpieces, hmem, hlarge⟩ | ⟨pieces, piece, hpieces, -⟩⟩
      · obtain rfl := Json.arr.inj (Option.some.inj hpieces)
        obtain rfl := List.mem_singleton.mp hmem
        exact hspace hlarge
      · nomatch hpieces
  have hcomma : comma.IsNode := by
    refine .token (.inl rfl) (.inl rfl) rfl ⟨⟨_, "comma", rfl, rfl, .inr ⟨.inl rfl, rfl⟩⟩, ?_, .inl rfl⟩
    refine .inr ⟨_, rfl, fun piece hmem => ?_⟩
    obtain rfl := List.mem_singleton.mp hmem
    have hcount : Json.member? [("kind", .str "Space"), ("value", .int 2)] "value" =
        some (.int (2 : Nat)) := rfl
    exact .counted rfl rfl hcount (by decide)
  have hlist : list.IsNode := by
    refine .layout (.inr (.inr ⟨2, rfl⟩)) (.inr (.inr rfl)) rfl rfl ?_ rfl ?_
    · exact Outline.isKind_iff.mp (by decide)
    · intro item hmem hne
      rcases hitem rfl hmem with rfl | rfl
      · exact absurd rfl hne
      · exact hcomma
  exact ⟨hread, hcomplete, hfits, hlist,
    (deserialize_iff_isNode Session.empty hread hcomplete hfits).mpr hlist⟩

/-- A comma whose id is written with too many digits is a node, but there is no reading its payload. -/
theorem not_deserialize_iff_isNode_long :
    let id : Nat := 10 ^ Json.maxIntegerDigits
    let comma : Json := .obj [("id", .int id), ("tokenKind", .obj [("kind", .str "comma")])]
    ¬ comma.LeavesOut ∧ ¬ comma.Outgrows ∧
      ¬ ((∃ t, (Session.empty.deserialize .json (Json.encode comma)).1 = .ok t) ↔ comma.IsNode) := by
  intro id comma
  have hdigits : Json.maxIntegerDigits < (Nat.toDigits 10 id).length := by
    by_contra hshort
    have hlt : id < 10 ^ Json.maxIntegerDigits :=
      (Nat.length_toDigits_le_iff (by decide) (by decide)).mp (Nat.not_lt.mp hshort)
    exact Nat.lt_irrefl _ hlt
  clear_value id
  have hread : Json.read (Json.encode comma) = .error (.longInteger (Nat.toDigits 10 id).length) :=
    Json.read_encode_long hdigits ⟨⟨by decide, trivial, trivial⟩, trivial⟩
  have hnone : ∀ {so : Json.Members → Prop},
      ¬ so [("id", .int id), ("tokenKind", .obj [("kind", .str "comma")])] → ¬ comma.HasNode so :=
    fun hhere => Json.not_hasNode hhere fun items htokenKind => nomatch htokenKind
  have hcomma : comma.IsNode := .token (.inr (.inr ⟨id, rfl⟩)) (.inl rfl) rfl
    ⟨⟨_, "comma", rfl, rfl, .inr ⟨.inl rfl, rfl⟩⟩, .inl rfl, .inl rfl⟩
  refine ⟨hnone ?_, hnone ?_, fun hiff => ?_⟩
  · exact Bool.false_ne_true
  · rintro ⟨-, ⟨pieces, piece, hpieces, -⟩ | ⟨pieces, piece, hpieces, -⟩⟩ <;> nomatch hpieces
  · obtain ⟨t, ht⟩ := hiff.mpr hcomma
    rw [deserialize, Outline.read, hread] at ht
    cases ht

end Session
end SourceTree
