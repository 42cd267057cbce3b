import SourceTree.Outline.OfJson
import SourceTree.Proofs.Json.Rearranged
import SourceTree.Proofs.Outline.Grammar

/-!
# Outlines of rearranged values

Every reader of JSON takes what it needs by name and in a fixed order, so a rearranged value makes it take
the same branches: it comes out the same, or is at fault at the same point. A fault may quote another value
but is of the same category.
-/
namespace SourceTree

open Json (Rearranged RearrangedAll Role member? Members)

/-- Both come out well, with related results, or both are at fault, for faults of one category. -/
inductive Agree {α β : Type} (related : α → β → Prop) : Except Fault α → Except Fault β → Prop
  | ok {a : α} {b : β} (h : related a b) : Agree related (.ok a) (.ok b)
  | error {cause cause' : Fault} (h : cause.category = cause'.category) :
      Agree related (.error cause) (.error cause')

namespace Agree

variable {α β γ δ : Type} {related : α → β → Prop}

theorem refl (x : Except Fault α) : Agree Eq x x := by
  cases x with
  | ok a => exact .ok rfl
  | error cause => exact .error rfl

/-- What follows agrees if it agrees after every related result. -/
theorem bind {related' : γ → δ → Prop} {x : Except Fault α} {y : Except Fault β}
    {f : α → Except Fault γ} {g : β → Except Fault δ} (h : Agree related x y)
    (hnext : ∀ a b, related a b → Agree related' (f a) (g b)) : Agree related' (x >>= f) (y >>= g) := by
  cases h with
  | ok h => exact hnext _ _ h
  | error h => exact .error h

theorem bind_eq {x y : Except Fault α} {f g : α → Except Fault γ} (h : Agree Eq x y)
    (hnext : ∀ a, Agree Eq (f a) (g a)) : Agree Eq (x >>= f) (y >>= g) :=
  h.bind fun a _ hab => hab ▸ hnext a

end Agree

namespace Outline

mutual

/-- The outlines are the same but for faults, and those are of the same categories. -/
inductive Agrees : Outline → Outline → Prop
  | same (o : Outline) : Agrees o o
  | fault {cause cause' : Fault} (h : cause.category = cause'.category) :
      Agrees (.fault cause) (.fault cause')
  | node {kind : String} {presence : Presence} {id : Option Int} {slots slots' : List Outline}
      (h : AllAgree slots slots') : Agrees (.node kind presence id slots) (.node kind presence id slots')

inductive AllAgree : List Outline → List Outline → Prop
  | nil : AllAgree [] []
  | cons {slot slot' : Outline} {slots slots' : List Outline} (h : Agrees slot slot')
      (hrest : AllAgree slots slots') : AllAgree (slot :: slots) (slot' :: slots')

end

theorem AllAgree.of_forall₂ {slots slots' : List Outline} (h : List.Forall₂ Agrees slots slots') :
    AllAgree slots slots' := by
  induction h with
  | nil => exact .nil
  | cons hslot _ ih => exact .cons hslot ih

theorem agrees_ofExcept {x y : Except Fault Outline} (h : Agree Agrees x y) :
    Agrees (ofExcept x) (ofExcept y) := by
  cases h with
  | ok h => exact h
  | error h => exact .fault h

/-! ### Members -/

section

variable {given given' : Option Json} {role : Role}

/-- A value that is not there is taken for null. -/
theorem getD_rearranged (h : Option.Rel (Rearranged role) given given') :
    Rearranged role (given.getD .null) (given'.getD .null) := by
  cases h with
  | none => exact .same .null
  | some h => exact h

/-- A text that is an array or an object is none, whatever is in it. -/
theorem textOfJson_agree (kind : Text) (h : Option.Rel (Rearranged role) given given') :
    Agree Eq (textOfJson kind given) (textOfJson kind given') := by
  cases h with
  | none => exact .refl _
  | some h =>
    cases h with
    | same => exact .refl _
    | arr => exact .error rfl
    | obj => exact .error rfl

theorem pieceOfKind_agree (kind : String) {v w : Json} (h : Rearranged role v w) :
    Agree Eq (pieceOfKind kind v) (pieceOfKind kind w) := by
  cases h with
  | same => exact .refl _
  | arr | obj =>
    unfold pieceOfKind
    split
    · exact .error rfl
    · split
      · exact .error rfl
      · exact .refl _

theorem kindOfJson_agree {v w : Json} (h : Rearranged role v w) : Agree Eq (kindOfJson v) (kindOfJson w) := by
  cases h with
  | same => exact .refl _
  | arr => exact .error rfl
  | obj => exact .error rfl

/-- A piece of trivia: its kind decides what its value has to be. -/
theorem pieceOfJson_agree {v w : Json} (h : Rearranged .piece v w) :
    Agree Eq (pieceOfJson v) (pieceOfJson w) := by
  cases h with
  | same => exact .refl _
  | arr => exact .error rfl
  | @obj _ members _ _ members' h hadded hperm hdistinct =>
    have hobj := Rearranged.obj h hadded hperm hdistinct
    have hkind := getD_rearranged (hobj.lookup "kind" rfl)
    have hvalue := getD_rearranged (hobj.lookup "value" rfl)
    unfold pieceOfJson
    dsimp only
    generalize (member? members "kind").getD .null = kind,
      (member? members' "kind").getD .null = kind' at hkind ⊢
    cases hkind with
    | same =>
      cases kind with
      | str kind =>
        cases hname : kind.plain? with
        | some name =>
          simp only [hname]
          exact pieceOfKind_agree name hvalue
        | none =>
          simp only [hname]
          exact .error rfl
      | _ => exact .error rfl
    | arr => exact .error rfl
    | obj => exact .error rfl

theorem readAll_agree {α β : Type} {related : α → α → Prop} {read : α → Except Fault β}
    {items items' : List α} (h : List.Forall₂ related items items')
    (hread : ∀ v w, related v w → Agree Eq (read v) (read w)) :
    Agree Eq (readAll read items) (readAll read items') := by
  induction h with
  | nil => exact .refl _
  | @cons v w items items' hitem _ ih =>
    have hfirst := hread v w hitem
    rw [readAll, readAll]
    generalize read v = x, read w = y at hfirst ⊢
    cases hfirst with
    | error h => exact .error h
    | ok h =>
      generalize readAll read items = xs, readAll read items' = ys at ih ⊢
      cases ih with
      | error h => exact .error h
      | ok hrest => exact .ok (by rw [h, hrest])

theorem triviaOfJson_agree (h : Option.Rel (Rearranged .trivia) given given') :
    Agree Eq (triviaOfJson given) (triviaOfJson given') := by
  cases h with
  | none => exact .refl _
  | some h =>
    cases h with
    | same => exact .refl _
    | arr h => exact readAll_agree h.forall₂ fun v w => pieceOfJson_agree
    | obj => exact .error rfl

end

variable {members members' : Members} (h : Rearranged .node (.obj members) (.obj members'))

include h

theorem nodeId_agree : Agree Eq (nodeId members) (nodeId members') := by
  have hid := h.lookup "id" rfl
  unfold nodeId
  generalize member? members "id" = given, member? members' "id" = given' at hid ⊢
  cases hid with
  | none => exact .refl _
  | some hid =>
    cases hid with
    | same => exact .refl _
    | arr => exact .error rfl
    | obj => exact .error rfl

theorem nodePresence_agree : Agree Eq (nodePresence members) (nodePresence members') := by
  have hpresence := h.lookup "presence" rfl
  unfold nodePresence
  generalize member? members "presence" = given, member? members' "presence" = given' at hpresence ⊢
  cases hpresence with
  | none => exact .refl _
  | some hpresence =>
    cases hpresence with
    | same => exact .refl _
    | arr => exact .error rfl
    | obj => exact .error rfl

theorem isLeftOut_agree : isLeftOut members = isLeftOut members' := by
  have homitted : Option.Rel (Rearranged .other) (member? members "omitted") (member? members' "omitted") :=
    h.lookup "omitted" rfl
  unfold isLeftOut
  generalize member? members "omitted" = given, member? members' "omitted" = given' at homitted ⊢
  cases homitted with
  | none => rfl
  | some homitted => exact homitted.isTruthy

theorem tokenOfMembers_agree {inner inner' : Members}
    (hinner : Rearranged .tokenKind (.obj inner) (.obj inner')) (presence : Presence) (id : Option Int) :
    Agree Eq (tokenOfJson (.obj inner) members presence id)
      (tokenOfJson (.obj inner') members' presence id) := by
  have hkind := hinner.lookup "kind" rfl
  have htext := hinner.lookup "text" rfl
  have hleading : Option.Rel (Rearranged .trivia) _ _ := h.lookup "leadingTrivia" rfl
  have htrailing : Option.Rel (Rearranged .trivia) _ _ := h.lookup "trailingTrivia" rfl
  unfold tokenOfJson
  dsimp only
  generalize member? inner "kind" = kind, member? inner' "kind" = kind' at hkind ⊢
  cases hkind with
  | none => exact .refl _
  | @some v w hkind =>
    cases hkind with
    | arr => exact .error rfl
    | obj => exact .error rfl
    | same =>
      cases v with
      | str kind =>
        refine (textOfJson_agree kind htext).bind_eq fun text => ?_
        refine (triviaOfJson_agree hleading).bind_eq fun leading => ?_
        exact (triviaOfJson_agree htrailing).bind_eq fun trailing => .refl _
      | _ => exact .refl _

theorem tokenOfJson_agree {tokenKind tokenKind' : Json} (hkind : Rearranged .tokenKind tokenKind tokenKind')
    (presence : Presence) (id : Option Int) :
    Agree Eq (tokenOfJson tokenKind members presence id) (tokenOfJson tokenKind' members' presence id) := by
  cases hkind with
  | same =>
    cases tokenKind with
    | obj inner => exact tokenOfMembers_agree h (.same _) presence id
    | _ => exact .refl _
  | arr => exact .error rfl
  | obj hinner hadded hperm hdistinct =>
    exact tokenOfMembers_agree h (.obj hinner hadded hperm hdistinct) presence id

/-- A node from its members: what is left out is asked for first, then the presence, then the kind of a
token, and the slots come last. -/
theorem ofMembers_agree {slots slots' : List Outline}
    (hslots : ∀ items items', member? members "layout" = some (.arr items) →
      member? members' "layout" = some (.arr items') → AllAgree slots slots') :
    Agree Agrees (ofMembers members slots) (ofMembers members' slots') := by
  have htokenKind : Option.Rel (Rearranged .tokenKind) _ _ := h.lookup "tokenKind" rfl
  have hkind := h.lookup "kind" rfl
  have hlayout := h.lookup "layout" rfl
  unfold ofMembers
  refine (nodeId_agree h).bind fun id id' hid => ?_
  subst hid
  rw [isLeftOut_agree h]
  split
  · cases id with
    | some id => exact .ok (.same _)
    | none => exact .error rfl
  refine (nodePresence_agree h).bind fun presence presence' hpresence => ?_
  subst hpresence
  generalize member? members "tokenKind" = tokenKind, member? members' "tokenKind" = tokenKind'
    at htokenKind ⊢
  cases htokenKind with
  | some htokenKind =>
    refine (tokenOfJson_agree h htokenKind presence id).bind fun t t' ht => ?_
    subst ht
    exact .ok (.same _)
  | none =>
    generalize member? members "kind" = kind, member? members' "kind" = kind' at hkind ⊢
    cases hkind with
    | none => exact .error rfl
    | some hkind =>
      dsimp only
      have hnode : AllAgree slots slots' → Agree Agrees
          (kindOfJson _ >>= fun kind => pure (.node kind presence id slots))
          (kindOfJson _ >>= fun kind => pure (.node kind presence id slots')) := fun hslots =>
        (kindOfJson_agree hkind).bind fun kind kind' hsame => hsame ▸ .ok (.node hslots)
      generalize member? members "layout" = layout, member? members' "layout" = layout'
        at hlayout hslots ⊢
      cases hlayout with
      | none => exact .error rfl
      | @some v w hlayout =>
        cases hlayout with
        | same =>
          cases v with
          | arr items => exact hnode (hslots items items rfl rfl)
          | _ => exact .error rfl
        | arr => exact hnode (hslots _ _ rfl rfl)
        | obj => exact .error rfl

omit h

/-! ### Values -/

/-- A rearranged value has the same outline, up to the wording of its faults. -/
theorem ofJson_agrees : ∀ v w : Json, Rearranged .node v w → Agrees (ofJson v) (ofJson w) := by
  apply Json.layoutInduction
  · intro v hother w h
    cases h with
    | same => exact .same _
    | arr => exact .fault rfl
    | obj => exact absurd rfl (hother _)
  · intro members ih w h
    have hmembers : ∀ {members' : Members}, Rearranged .node (.obj members) (.obj members') →
        Agrees (ofJson (.obj members)) (ofJson (.obj members')) := by
      intro members' h
      rw [ofJson, ofJson]
      refine agrees_ofExcept (ofMembers_agree h fun items items' hitems hitems' => ?_)
      have hlayout : Option.Rel (Rearranged .slots) _ _ := h.lookup "layout" rfl
      rw [hitems, hitems'] at hlayout
      have hall : List.Forall₂ (Rearranged .node) items items' := by
        cases hlayout with
        | some hlayout => exact hlayout.items.forall₂
      rw [slotsOfMembers_eq hitems, slotsOfMembers_eq hitems']
      refine .of_forall₂ (List.forall₂_map_left_iff.mpr (List.forall₂_map_right_iff.mpr ?_))
      have hboth := (List.forall₂_and_left items items').mpr ⟨ih items hitems, hall⟩
      exact hboth.imp fun v w hitem => hitem.1 w hitem.2
    cases h with
    | same => exact .same _
    | obj h hadded hperm hdistinct => exact hmembers (.obj h hadded hperm hdistinct)

end Outline
end SourceTree
