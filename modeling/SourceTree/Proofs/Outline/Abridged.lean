import SourceTree.Outline.OfByteTree
import SourceTree.Outline.OfJson
import SourceTree.Proofs.Outline.References
import SourceTree.Session.Basic

/-!
# Payloads with nodes left out

A payload is abridged by putting references in the place of some of its nodes, at any depth. Which
reference may stand for which node is a parameter. The bytes are compared as JSON values or as ByteTree
fields, so what is not in a slot is the same in both payloads; either way the outlines are abridged in
the same sense, and what the references stand for makes the full outline again.
-/
namespace SourceTree

variable {stands : Outline → Int → Prop}

/-! ### Outlines -/

namespace Outline

mutual

/-- The second outline is the first one with references in the place of some of its parts. -/
inductive Abridged (stands : Outline → Int → Prop) : Outline → Outline → Prop
  | kept (o : Outline) : Abridged stands o o
  | leftOut {o : Outline} {id : Int} (h : stands o id) : Abridged stands o (.reference id)
  | within {kind : String} {presence : Presence} {id : Option Int} {slots shorts : List Outline}
      (h : AbridgedAll stands slots shorts) :
      Abridged stands (.node kind presence id slots) (.node kind presence id shorts)

inductive AbridgedAll (stands : Outline → Int → Prop) : List Outline → List Outline → Prop
  | nil : AbridgedAll stands [] []
  | cons {slot short : Outline} {slots shorts : List Outline} (h : Abridged stands slot short)
      (hrest : AbridgedAll stands slots shorts) :
      AbridgedAll stands (slot :: slots) (short :: shorts)

end

mutual

/-- Every reference of the short outline stands for something, and with that in its place the full
outline is there again. -/
theorem Abridged.resolved {standing : Int → Outline}
    (hstands : ∀ o id, o.references = [] → stands o id → standing id = o) :
    ∀ {o short : Outline},
    Abridged stands o short → o.references = [] →
    short.resolved standing = o ∧ ∀ id ∈ short.references, ∃ o, o.references = [] ∧ stands o id
  | _, _, .kept o, hrefs => by
    refine ⟨resolved_of_references_eq_nil standing o hrefs, ?_⟩
    intro id hid
    rw [hrefs] at hid
    cases hid
  | _, _, @Abridged.leftOut _ o n h, hrefs => by
    have hmeans : standing n = o := hstands o n hrefs h
    refine ⟨hmeans, ?_⟩
    intro id hid
    obtain rfl := List.mem_singleton.mp hid
    exact ⟨o, hrefs, h⟩
  | _, _, .within h, hrefs => by
    obtain ⟨hslots, hheld⟩ := AbridgedAll.resolvedAll hstands h hrefs
    exact ⟨by rw [Outline.resolved, hslots], hheld⟩

theorem AbridgedAll.resolvedAll {standing : Int → Outline}
    (hstands : ∀ o id, o.references = [] → stands o id → standing id = o) :
    ∀ {slots shorts : List Outline},
    AbridgedAll stands slots shorts → referencesOfAll slots = [] →
    resolvedAll standing shorts = slots ∧
      ∀ id ∈ referencesOfAll shorts, ∃ o, o.references = [] ∧ stands o id
  | _, _, .nil, _ => ⟨rfl, fun _ hid => nomatch hid⟩
  | _, _, .cons h hrest, hrefs => by
    obtain ⟨hslotRefs, hrestRefs⟩ := List.append_eq_nil_iff.mp hrefs
    obtain ⟨hslot, hheldSlot⟩ := Abridged.resolved hstands h hslotRefs
    obtain ⟨hslots, hheldRest⟩ := AbridgedAll.resolvedAll hstands hrest hrestRefs
    refine ⟨by rw [Outline.resolvedAll, hslot, hslots], ?_⟩
    intro id hid
    rcases List.mem_append.mp hid with hid | hid
    · exact hheldSlot id hid
    · exact hheldRest id hid

end

/-- A node with other slots. -/
def withSlots (slots : List Outline) : Outline → Outline
  | .node kind presence id _ => .node kind presence id slots
  | o => o

theorem AbridgedAll.withSlots {slots shorts : List Outline} (h : AbridgedAll stands slots shorts)
    (o : Outline) : Abridged stands (o.withSlots slots) (o.withSlots shorts) := by
  cases o with
  | node kind presence id _ => exact .within h
  | absent => exact .kept _
  | fault cause => exact .kept _
  | reference id => exact .kept _
  | token t => exact .kept _

end Outline

/-! ### JSON values -/

namespace Json

mutual

/-- The second value is the first one with references in the place of some of its nodes. -/
inductive Abridged (stands : Outline → Int → Prop) : Json → Json → Prop
  | kept (v : Json) : Abridged stands v v
  | leftOut {v w : Json} {id : Int} (h : stands (Outline.ofJson v) id)
      (href : Outline.ofJson w = .reference id) : Abridged stands v w
  | within {before after : Members} {items shorts : List Json}
      (hfirst : ∀ member ∈ before, member.1 ≠ ("layout" : Text)) (h : AbridgedAll stands items shorts) :
      Abridged stands (.obj (before ++ (("layout" : Text), .arr items) :: after))
        (.obj (before ++ (("layout" : Text), .arr shorts) :: after))

inductive AbridgedAll (stands : Outline → Int → Prop) : List Json → List Json → Prop
  | nil : AbridgedAll stands [] []
  | cons {item short : Json} {items shorts : List Json} (h : Abridged stands item short)
      (hrest : AbridgedAll stands items shorts) : AbridgedAll stands (item :: items) (short :: shorts)

end

/-- Another value in one place is not seen under other names. -/
theorem member?_replace {before after : Members} {name other : String} (v w : Json)
    (hother : other ≠ name) :
    member? (before ++ (Text.ofString name, v) :: after) other =
      member? (before ++ (Text.ofString name, w) :: after) other := by
  have hne : Text.ofString other ≠ Text.ofString name := fun heq => hother (Text.ofString_inj.mp heq)
  simp only [member?, List.lookup_append, List.lookup_cons, beq_false_of_ne hne]

theorem member?_here {before after : Members} {name : String}
    (hfirst : ∀ member ∈ before, member.1 ≠ Text.ofString name) (v : Json) :
    member? (before ++ (Text.ofString name, v) :: after) name = some v := by
  have hnone : before.lookup (Text.ofString name) = none := by
    rw [List.lookup_eq_none_iff]
    intro member hmember
    exact bne_iff_ne.mpr (hfirst member hmember).symm
  rw [member?, List.lookup_append, hnone, List.lookup_cons_self]
  rfl

end Json

namespace Outline

theorem slotsOfMembers_here : ∀ {before : Json.Members} {after : Json.Members} (v : Json),
    (∀ member ∈ before, member.1 ≠ ("layout" : Text)) →
    slotsOfMembers (before ++ (("layout" : Text), v) :: after) = slotsOfJson v
  | [], _, _, _ => rfl
  | (name, _) :: before, after, v, hfirst => by
    have hname : (name == Text.ofString "layout") = false := beq_false_of_ne (hfirst _ List.mem_cons_self)
    rw [List.cons_append, slotsOfMembers, hname]
    exact slotsOfMembers_here v fun member hmember => hfirst member (List.mem_cons_of_mem _ hmember)

/-- What a node is does not depend on its slots. -/
theorem ofMembers_withSlots (members : Json.Members) (slots : List Outline) :
    ofExcept (ofMembers members slots) = (ofExcept (ofMembers members [])).withSlots slots := by
  unfold ofMembers
  rcases nodeId members with cause | id
  · rfl
  · cases isLeftOut members with
    | true => cases id <;> rfl
    | false =>
      rcases nodePresence members with cause | presence
      · rfl
      · rcases Json.member? members "tokenKind" with _ | tokenKind
        · rcases Json.member? members "kind" with _ | kind
          · rfl
          · rcases hlayout : Json.member? members "layout" with _ | layout
            · rfl
            · cases layout with
              | arr _ =>
                rcases hkind : kindOfJson kind with cause | kind <;> simp [hkind, bind, Except.bind] <;> rfl
              | _ => rfl
        · rcases htoken : tokenOfJson tokenKind members presence id with cause | token <;>
            simp [htoken, bind, Except.bind] <;> rfl

/-- Nor does it depend on what the slots list, as long as they are listed. -/
theorem ofMembers_relisted {before after : Json.Members} {items shorts : List Json}
    (hfirst : ∀ member ∈ before, member.1 ≠ ("layout" : Text)) (slots : List Outline) :
    ofMembers (before ++ (("layout" : Text), .arr shorts) :: after) slots =
      ofMembers (before ++ (("layout" : Text), .arr items) :: after) slots := by
  have hother : ∀ name, name ≠ "layout" →
      Json.member? (before ++ (("layout" : Text), .arr shorts) :: after) name =
        Json.member? (before ++ (("layout" : Text), .arr items) :: after) name :=
    fun name hname => Json.member?_replace _ _ hname
  simp only [ofMembers, nodeId, isLeftOut, nodePresence, tokenOfJson, Json.member?_here hfirst,
    hother "id" (by decide), hother "omitted" (by decide), hother "presence" (by decide),
    hother "tokenKind" (by decide), hother "kind" (by decide), hother "leadingTrivia" (by decide),
    hother "trailingTrivia" (by decide)]

end Outline

namespace Json

mutual

/-- An abridged value has an abridged outline. -/
theorem Abridged.ofJson : ∀ {v w : Json}, Abridged stands v w →
    Outline.Abridged stands (Outline.ofJson v) (Outline.ofJson w)
  | _, _, .kept v => .kept _
  | _, _, .leftOut h href => by
    rw [href]
    exact .leftOut h
  | _, _, @Abridged.within _ before after items shorts hfirst h => by
    have hslots : Outline.AbridgedAll stands (Outline.slotsOfItems items)
        (Outline.slotsOfItems shorts) := AbridgedAll.slotsOfItems h
    rw [Outline.ofJson, Outline.ofJson, Outline.slotsOfMembers_here _ hfirst,
      Outline.slotsOfMembers_here _ hfirst, Outline.ofMembers_relisted hfirst,
      Outline.ofMembers_withSlots, Outline.ofMembers_withSlots _ (Outline.slotsOfJson (.arr shorts))]
    exact hslots.withSlots _

theorem AbridgedAll.slotsOfItems : ∀ {items shorts : List Json}, AbridgedAll stands items shorts →
    Outline.AbridgedAll stands (Outline.slotsOfItems items) (Outline.slotsOfItems shorts)
  | _, _, .nil => .nil
  | _, _, .cons h hrest => .cons (Abridged.ofJson h) (AbridgedAll.slotsOfItems hrest)

end

end Json

/-! ### ByteTree fields -/

namespace ByteTree

mutual

/-- The second field is the first one with references in the place of some of its nodes. The slots of
a node are its fifth field. -/
inductive Field.Abridged (stands : Outline → Int → Prop) : Field → Field → Prop
  | kept (field : Field) : Field.Abridged stands field field
  | leftOut {fields shorts : Fields} {id : Int} (h : stands (Outline.ofRoot fields) id)
      (href : Outline.ofRoot shorts = .reference id) :
      Field.Abridged stands (.object fields) (.object shorts)
  | within {type id presence kind : Field} {slots shorts : Fields} (more : Fields)
      (h : AllAbridged stands slots shorts) :
      Field.Abridged stands (.object (type :: id :: presence :: kind :: .object slots :: more))
        (.object (type :: id :: presence :: kind :: .object shorts :: more))

inductive AllAbridged (stands : Outline → Int → Prop) : Fields → Fields → Prop
  | nil : AllAbridged stands [] []
  | cons {slot short : Field} {slots shorts : Fields} (h : Field.Abridged stands slot short)
      (hrest : AllAbridged stands slots shorts) : AllAbridged stands (slot :: slots) (short :: shorts)

end

end ByteTree

namespace Outline

open ByteTree (Field Fields)

/-- What an object says does not depend on its place. -/
theorem ofField_object (index : Nat) (fields : Fields) :
    ofField index (.object fields) = ofRoot fields := by
  cases fields <;> rfl

theorem ofNodeFields_withSlots (fields : Fields) (slots : List Outline) :
    ofExcept (ofNodeFields fields slots) = (ofExcept (ofNodeFields fields [])).withSlots slots := by
  unfold ofNodeFields
  rcases fieldOf (fields.uintAt 0) with cause | type
  · rfl
  rcases fieldOf (fields.uintAt 1) with cause | id
  · rfl
  rcases fieldOf (fields.uintAt 2) with cause | mark <;>
    rcases htype : NodeType.ofNat? type with _ | _ | _ | _ <;>
    simp only [htype, bind, Except.bind, pure, Except.pure, ofExcept, withSlots]
  · rcases fieldOf (fields.objectAt 4) with cause | _
    · rfl
    rcases fieldOf (fields.stringAt 3) with cause | kind
    · rfl
    by_cases hkind : isKind kind <;> simp only [hkind, Bool.false_eq_true, ↓reduceIte]
  · rcases tokenOfFields fields _ id with cause | token <;> rfl

theorem ofNodeFields_relisted (type id presence kind : Field) (items shorts more : Fields)
    (slots : List Outline) :
    ofNodeFields (type :: id :: presence :: kind :: .object shorts :: more) slots =
      ofNodeFields (type :: id :: presence :: kind :: .object items :: more) slots := by
  rfl

end Outline

namespace ByteTree

mutual

/-- An abridged field has an abridged outline. -/
theorem Field.Abridged.ofField : ∀ {field short : Field} (index : Nat),
    Field.Abridged stands field short →
    Outline.Abridged stands (Outline.ofField index field) (Outline.ofField index short)
  | _, _, _, .kept field => .kept _
  | .object fields, .object shorts, index, .leftOut h href => by
    rw [Outline.ofField_object, Outline.ofField_object, href]
    exact .leftOut h
  | _, _, index, @Field.Abridged.within _ type id presence kind slots shorts more h => by
    have hslots : Outline.AbridgedAll stands (Outline.slotsFrom 0 slots)
        (Outline.slotsFrom 0 shorts) := AllAbridged.slotsFrom 0 h
    rw [Outline.ofField, Outline.ofField,
      Outline.ofNodeFields_relisted type id presence kind slots shorts more,
      Outline.ofNodeFields_withSlots,
      Outline.ofNodeFields_withSlots _ (Outline.slotsAfter 3 _)]
    exact hslots.withSlots _

theorem AllAbridged.slotsFrom : ∀ {slots shorts : Fields} (index : Nat),
    AllAbridged stands slots shorts →
    Outline.AbridgedAll stands (Outline.slotsFrom index slots) (Outline.slotsFrom index shorts)
  | _, _, _, .nil => .nil
  | _, _, index, .cons h hrest =>
    .cons (Field.Abridged.ofField index h) (AllAbridged.slotsFrom (index + 1) hrest)

end

end ByteTree

/-! ### Payloads -/

namespace Outline

/-- Both payloads are read in a format, and the second one is the first one with references in the
place of some of its nodes. -/
def Abridges (stands : Outline → Int → Prop) : Format → List UInt8 → List UInt8 → Prop
  | .json, full, short =>
    ∃ v w, Json.read full = .ok v ∧ Json.read short = .ok w ∧ Json.Abridged stands v w
  | .byteTree, full, short =>
    ∃ fields shorts, (ByteTree.readDocument full).1 = .ok fields ∧
      (ByteTree.readDocument short).1 = .ok shorts ∧
      ByteTree.Field.Abridged stands (.object fields) (.object shorts)

/-- Of abridged payloads both outlines are there, and the second one is abridged. -/
theorem read_of_abridges {format : Format} {full short : List UInt8}
    (h : Abridges stands format full short) :
    ∃ whole part, read format full = .ok whole ∧ read format short = .ok part ∧
      Abridged stands whole part := by
  cases format with
  | json =>
    obtain ⟨v, w, hfull, hshort, habridged⟩ := h
    refine ⟨ofJson v, ofJson w, ?_, ?_, habridged.ofJson⟩
    · rw [read, hfull]
    · rw [read, hshort]
  | byteTree =>
    obtain ⟨fields, shorts, hfull, hshort, habridged⟩ := h
    refine ⟨ofRoot fields, ofRoot shorts, ?_, ?_, habridged.ofField 0⟩
    · rw [read, hfull]
    · rw [read, hshort]

end Outline
end SourceTree
