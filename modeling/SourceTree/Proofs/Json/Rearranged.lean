import SourceTree.Json.Basic
import SourceTree.Proofs.Keyed

/-!
# Rearranged JSON values

A value is rearranged by putting the members of its objects in another order, at any depth, and by adding
members to the objects that are read by name, under names that are not looked up there. What an object is
read for depends on where it stands, so every value has a role. Whatever is looked up by name is found in
both values, rearranged in its turn.
-/
namespace SourceTree.Json

/-- What a value is read for. -/
inductive Role where
  | node
  | slots
  | tokenKind
  | trivia
  | piece
  /-- The value is taken as a whole. -/
  | other
  deriving DecidableEq

namespace Role

/-- The names that are looked up in an object, where only some are. -/
def names? : Role → Option (List String)
  | node => some ["id", "omitted", "presence", "tokenKind", "kind", "layout", "leadingTrivia",
      "trailingTrivia"]
  | tokenKind => some ["kind", "text"]
  | piece => some ["kind", "value"]
  | _ => none

/-- The object is read by name, and this name is not looked up. -/
def ignores (role : Role) (name : Text) : Bool :=
  match role.names? with
  | some names => !name.isIn names
  | none => false

/-- The role of a member of an object. -/
def member : Role → String → Role
  | node, "layout" => slots
  | node, "tokenKind" => tokenKind
  | node, "leadingTrivia" => trivia
  | node, "trailingTrivia" => trivia
  | _, _ => other

/-- The role of a member under a name that may be no string; none of those is looked up. -/
def memberOf (role : Role) (name : Text) : Role := (name.plain?.map role.member).getD other

theorem memberOf_ofString (role : Role) (name : String) : role.memberOf name = role.member name := by
  rw [memberOf, Text.plain?_ofString]
  rfl

/-- The role of an element of an array. -/
def item : Role → Role
  | slots => node
  | trivia => piece
  | _ => other

end Role

mutual

/-- The second value is the first one with the members of its objects in another order, and with members
more that are not looked up. -/
inductive Rearranged : Role → Json → Json → Prop
  | same {role : Role} (v : Json) : Rearranged role v v
  | arr {role : Role} {items items' : List Json} (h : RearrangedAll role.item items items') :
      Rearranged role (.arr items) (.arr items')
  | obj {role : Role} {members moved added members' : Members} (h : RearrangedMembers role members moved)
      (hadded : ∀ entry ∈ added, role.ignores entry.1 = true) (hperm : members'.Perm (moved ++ added))
      (hdistinct : (Keyed.keys members').Nodup) : Rearranged role (.obj members) (.obj members')

inductive RearrangedAll : Role → List Json → List Json → Prop
  | nil {role : Role} : RearrangedAll role [] []
  | cons {role : Role} {v w : Json} {items items' : List Json} (h : Rearranged role v w)
      (hrest : RearrangedAll role items items') : RearrangedAll role (v :: items) (w :: items')

/-- Both have the same names in the same order, and the value of each is rearranged. -/
inductive RearrangedMembers : Role → Members → Members → Prop
  | nil {role : Role} : RearrangedMembers role [] []
  | cons {role : Role} {name : Text} {v w : Json} {members members' : Members}
      (h : Rearranged (role.memberOf name) v w) (hrest : RearrangedMembers role members members') :
      RearrangedMembers role ((name, v) :: members) ((name, w) :: members')

end

variable {role : Role}

theorem RearrangedAll.refl (items : List Json) : RearrangedAll role items items := by
  induction items with
  | nil => exact .nil
  | cons item items ih => exact .cons (.same item) ih

theorem RearrangedMembers.refl (members : Members) : RearrangedMembers role members members := by
  induction members with
  | nil => exact .nil
  | cons entry members ih => exact .cons (.same entry.2) ih

/-- The members may stand in the opposite order, those that are added first. -/
theorem Rearranged.reversed {members moved : Members} (h : RearrangedMembers role members moved)
    (added : Members) (hadded : ∀ entry ∈ added, role.ignores entry.1 = true)
    (hdistinct : (Keyed.keys (moved ++ added).reverse).Nodup) :
    Rearranged role (.obj members) (.obj (moved ++ added).reverse) :=
  .obj h hadded (List.reverse_perm _) hdistinct

theorem RearrangedAll.forall₂ {items items' : List Json} (h : RearrangedAll role items items') :
    List.Forall₂ (Rearranged role) items items' := by
  induction items generalizing items' with
  | nil =>
    cases h
    exact .nil
  | cons item items ih =>
    cases h with
    | cons hitem hrest => exact .cons hitem (ih hrest)

/-- A rearranged array has its elements in their places. -/
theorem Rearranged.items {items items' : List Json} (h : Rearranged role (.arr items) (.arr items')) :
    RearrangedAll role.item items items' := by
  cases h with
  | same => exact .refl items
  | arr h => exact h

/-! ### What is looked up -/

theorem RearrangedMembers.lookup {members moved : Members} (h : RearrangedMembers role members moved)
    (name : String) :
    Option.Rel (Rearranged (role.member name)) (member? members name) (member? moved name) := by
  induction members generalizing moved with
  | nil =>
    cases h
    exact .none
  | cons entry members ih =>
    cases h with
    | @cons _ other v w _ moved hvalue hrest =>
      rw [member?, member?, List.lookup_cons, List.lookup_cons]
      by_cases hname : Text.ofString name = other
      · subst hname
        rw [beq_self_eq_true]
        rw [Role.memberOf_ofString] at hvalue
        exact .some hvalue
      · rw [beq_false_of_ne hname]
        exact ih hrest

/-- Whatever is looked up by name is found in both objects, or in neither. -/
theorem Rearranged.lookup {members members' : Members} (h : Rearranged role (.obj members) (.obj members'))
    (name : String) (hname : role.ignores name = false) :
    Option.Rel (Rearranged (role.member name)) (member? members name) (member? members' name) := by
  cases h with
  | same =>
    cases member? members name with
    | none => exact .none
    | some v => exact .some (.same v)
  | @obj _ _ moved added _ h hadded hperm hdistinct =>
    have hnew : List.lookup (Text.ofString name) added = none := by
      rw [List.lookup_eq_none_iff]
      intro entry hmem
      rw [bne_iff_ne]
      intro heq
      rw [heq, hadded entry hmem] at hname
      nomatch hname
    have hfound : member? members' name = member? moved name := by
      rw [member?, Keyed.lookup_of_perm hdistinct hperm, List.lookup_append, hnew, Option.or_none]
      rfl
    rw [hfound]
    exact h.lookup name

/-- What is taken as a whole counts as true in both values or in neither. -/
theorem Rearranged.isTruthy {v w : Json} (h : Rearranged .other v w) : v.isTruthy = w.isTruthy := by
  cases h with
  | same => rfl
  | arr h => cases h <;> rfl
  | @obj _ members moved added members' h hadded hperm _ =>
    have hnone : added = [] := by
      cases added with
      | nil => rfl
      | cons entry added => exact absurd (hadded entry List.mem_cons_self) Bool.false_ne_true
    subst hnone
    have hlength := hperm.length_eq
    cases h with
    | nil =>
      obtain rfl := List.eq_nil_of_length_eq_zero hlength
      rfl
    | cons hvalue hrest =>
      cases members' with
      | nil => cases hlength
      | cons entry members' => rfl

end SourceTree.Json
