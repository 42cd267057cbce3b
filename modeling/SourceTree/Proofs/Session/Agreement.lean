import SourceTree.Proofs.Session.Matching
import SourceTree.Proofs.Tree.Shape

/-!
# What a payload sees of the session

A payload sees nothing of the session but the nodes of the ids that it refers to, and of these no more than
their structure. If it refers to none, every session makes the same of it.
-/
namespace SourceTree

namespace Tree

theorem Alike.congruence : Congruence Alike where
  absent := rfl
  node kind presence id ts us h := by
    have hslots : Outline.ofTrees ts = Outline.ofTrees us := by
      induction h with
      | nil => rfl
      | cons hfirst _ ih => exact congrArg₂ List.cons hfirst ih
    exact congrArg (Outline.node kind presence id) hslots
  absent_iff {t u} h := by
    constructor
    · exact fun ht => by_contra fun hu => h.ne_absent hu ht
    · exact fun hu => by_contra fun ht => h.symm.ne_absent ht hu

theorem SameShape.congruence : Congruence SameShape where
  absent := rfl
  node kind presence id ts us h := by
    have hslots : bareAll ts = bareAll us := by
      induction h with
      | nil => rfl
      | cons hfirst _ ih => exact congrArg₂ List.cons hfirst ih
    exact congrArg (Tree.node kind presence none) hslots
  absent_iff {t u} h := by
    have hsame : t.bare = u.bare := h
    rw [← bare_eq_absent_iff t, ← bare_eq_absent_iff u, hsame]

end Tree

namespace Session

variable {format : Format} {payload : List UInt8} {s s' : Session}

/-- The payload can be read, and it refers to the id. -/
def Refers (format : Format) (payload : List UInt8) (id : Int) : Prop :=
  ∃ root, Outline.read format payload = .ok root ∧ id ∈ root.references

/-- Under every id that the payload refers to, both sessions hold related nodes, or neither holds any. -/
def AgreeFor (related : Tree → Tree → Prop) (format : Format) (payload : List UInt8) (s s' : Session) :
    Prop :=
  ∀ id, Refers format payload id → Option.Rel related (s.store.find? id) (s'.store.find? id)

/-- Sessions that agree for a payload make the same of it, if serial numbers do not count. -/
theorem AgreeFor.outcome {related : Tree → Tree → Prop} (h : AgreeFor related format payload s s')
    (hrelated : Tree.Congruence related)
    (htokens : ∀ m n t, related (.token m t) (.token n t)) :
    SameOutcome related (s.deserialize format payload).1 (s'.deserialize format payload).1 := by
  have hsessions : RelatedOn related (Refers format payload) s s' := ⟨fun k t => htokens _ _ t, h⟩
  let c : Call := ⟨format, payload⟩
  have hrefs : c.RefersWithin (Refers format payload) := fun root hread id hid => ⟨root, hread, hid⟩
  exact (RelatedOn.deserialize hrelated hsessions hrefs).1

theorem AgreeFor.alike (h : AgreeFor Tree.Alike format payload s s') :
    SameOutcome Tree.Alike (s.deserialize format payload).1 (s'.deserialize format payload).1 :=
  h.outcome Tree.Alike.congruence fun _ _ _ => rfl

theorem AgreeFor.sameShape (h : AgreeFor Tree.SameShape format payload s s') :
    SameOutcome Tree.SameShape (s.deserialize format payload).1 (s'.deserialize format payload).1 :=
  h.outcome Tree.SameShape.congruence fun _ _ _ => rfl

/-- Any two sessions agree for a payload that refers to nothing. -/
theorem agreeFor_of_not_refers {related : Tree → Tree → Prop} (h : ∀ id, ¬ Refers format payload id)
    (s s' : Session) : AgreeFor related format payload s s' :=
  fun id hid => absurd hid (h id)

end Session
end SourceTree
