import SourceTree.Proofs.Classification.Sharing
import SourceTree.Proofs.Session.Inherited

/-!
# Identity of tokens

A token keeps its serial number as long as it is used, and no other token gets that number. So a tree that
is read later shares tokens with an earlier one in those places only that are beneath a node which its
payload leaves out. The classes of the earlier tree say something about these tokens, whatever the later
tree is like, and nothing about tokens that are merely alike or have the same id.
-/
namespace SourceTree

/-- On the way to the place, or in it, a node is left out. -/
def Outline.LeavesOutOn (o : Outline) (path : List Nat) : Prop :=
  ∃ front back id, path = front ++ back ∧ o.follow front = .reference id

theorem Outline.LeavesOutOn.cons {o : Outline} {slot : Nat} {path : List Nat}
    (h : (o.slotAt slot).LeavesOutOn path) : o.LeavesOutOn (slot :: path) := by
  obtain ⟨front, back, id, rfl, href⟩ := h
  exact ⟨slot :: front, back, id, rfl, href⟩

theorem Outline.references_ne_nil_of_leavesOutOn {o : Outline} {path : List Nat}
    (h : o.LeavesOutOn path) : o.references ≠ [] := by
  obtain ⟨front, back, id, -, href⟩ := h
  have hmem : id ∈ (o.follow front).references := by
    rw [href]
    exact List.mem_singleton_self id
  exact List.ne_nil_of_mem (o.references_follow_subset front hmem)

namespace Tree

/-- The class that another tree keeps for the token in a place. -/
def tagFrom (t other : Tree) (path : List Nat) : Classification :=
  match t.follow path with
  | .token serial _ => other.classes.classOf serial
  | _ => .plain

/-- The source with each token between the tags of the class that another tree keeps for it. -/
def renderMarkupFrom (t other : Tree) : Except Obstacle Text :=
  other.renderClasses.bind fun classes => t.renderClassified classes

/-- The source with tags for comments alone. -/
def commentMarkup (t : Tree) : Text :=
  t.tokens.flatMap fun o =>
    Markup.trivia o.token.leading ++ o.token.text ++ Markup.trivia o.token.trailing

theorem follow_append (t : Tree) (path inner : List Nat) :
    t.follow (path ++ inner) = (t.follow path).follow inner := by
  induction path generalizing t with
  | nil => rfl
  | cons slot path ih => exact ih (t.slotAt slot)

theorem tagFrom_eq {t other : Tree} {path : List Nat} {serial : Nat} (h : t.HasTokenAt path serial) :
    t.tagFrom other path = other.classes.classOf serial := by
  obtain ⟨-, token, htoken⟩ := h
  simp only [tagFrom, htoken]

/-- A token that does not stand in a tree has no class there. -/
theorem classOf_eq_plain {t : Tree} {serial : Nat} (h : ∀ path, ¬ t.HasTokenAt path serial) :
    t.classes.classOf serial = .plain := by
  rw [Classes.classOf]
  cases hfound : t.classes.lookup serial with
  | none => rfl
  | some entry =>
    obtain ⟨token, c⟩ := entry
    obtain ⟨path, hlast, -⟩ := lookup_classes_iff.mp hfound
    exact absurd hlast.shown (h path)

theorem bind_rendered {t u : Tree} {α β : Type} {f : Tree → α} {g : α → Tree → β} :
    (t.rendered f).bind (fun a => u.rendered (g a)) =
      (t.rendered f).bind fun _ => u.rendered (g (f t)) := by
  unfold rendered
  split <;> rfl

theorem renderMarkupFrom_eq (t other : Tree) :
    t.renderMarkupFrom other =
      other.renderClasses.bind fun _ => t.rendered fun t => t.markupBy (t.tagFrom other) := by
  have htext : t.classifiedText other.classes = t.markupBy (t.tagFrom other) := by
    apply classifiedText_eq_markupBy
    intro path serial token hfollow
    simp only [tagFrom, hfollow]
  calc t.renderMarkupFrom other
      = other.renderClasses.bind fun _ => t.rendered (classifiedText other.classes) := bind_rendered
    _ = _ := by simp only [rendered, htext]

theorem markupBy_plain (t : Tree) : t.markupBy (fun _ => .plain) = t.commentMarkup := by
  rw [markupBy, commentMarkup, List.flatMap_def, List.flatMap_def]
  apply congrArg List.flatten
  apply map_tokenPaths
  intro path o hfollow
  simp [textAt, hfollow, Markup.tagged, Markup.wrap]

end Tree

namespace Session

/-! ### Where tokens come from -/

/-- What stands in a slot is taken in after the slots before it; nothing is past the end. -/
theorem take_slot_of_takeAll {slots : List Outline} {s s' : Session} {trees : List Tree}
    (h : s.takeAll slots = (.ok trees, s')) (slot : Nat) :
    ∃ front mid last, s.takeAll (slots.take slot) = (.ok front, mid) ∧
      mid.take ((slots[slot]?).getD .absent) = (.ok ((trees[slot]?).getD .absent), last) := by
  induction slots generalizing s trees slot with
  | nil =>
    obtain rfl := Except.ok.inj (Prod.mk.inj h).1
    exact ⟨[], s, s, by rw [List.take_nil]; rfl, rfl⟩
  | cons first rest ih =>
    obtain ⟨tree, mid, more, hfirst, hrest, rfl⟩ := takeAll_cons_ok h
    cases slot with
    | zero => exact ⟨[], s, mid, rfl, hfirst⟩
    | succ slot =>
      obtain ⟨front, here, last, hfront, htake⟩ := ih hrest slot
      refine ⟨tree :: front, here, last, ?_, htake⟩
      rw [List.take_succ_cons, takeAll, hfirst]
      simp only [hfront]

/-- What is not left out has in its slots what its outline has there. -/
theorem take_slot {o : Outline} {s s' : Session} {t : Tree} (h : s.take o = (.ok t, s'))
    (hstays : ∀ id, o ≠ .reference id) (slot : Nat) :
    ∃ front mid last, s.takeAll (o.slots.take slot) = (.ok front, mid) ∧
      mid.take (o.slotAt slot) = (.ok (t.slotAt slot), last) := by
  cases o with
  | absent =>
    obtain rfl := Except.ok.inj (Prod.mk.inj h).1
    exact take_slot_of_takeAll (show s.takeAll [] = (.ok [], s) from rfl) slot
  | fault cause => nomatch (Prod.mk.inj h).1
  | reference id => exact absurd rfl (hstays id)
  | token t =>
    obtain rfl := Except.ok.inj (Prod.mk.inj h).1
    exact take_slot_of_takeAll (show s.takeAll [] = (.ok [], s) from rfl) slot
  | node kind presence id slots =>
    obtain ⟨layout, mid, hslots, rfl, -⟩ := take_node_ok h
    exact take_slot_of_takeAll hslots slot

/-- A token that is not beneath a node which is left out has a new serial number. -/
theorem serial_of_take {path : List Nat} : ∀ {o : Outline} {s s' : Session} {t : Tree} {serial : Nat}
    {token : Token}, s.take o = (.ok t, s') → t.follow path = .token serial token →
    o.LeavesOutOn path ∨ s.nextSerial ≤ serial := by
  induction path with
  | nil =>
    intro o s s' t serial token h htoken
    obtain rfl : t = .token serial token := htoken
    cases o with
    | absent => nomatch (Prod.mk.inj h).1
    | fault cause => nomatch (Prod.mk.inj h).1
    | reference id => exact .inl ⟨[], [], id, rfl, rfl⟩
    | token t =>
      have hserial : s.nextSerial = serial := (Tree.token.inj (Except.ok.inj (Prod.mk.inj h).1)).1
      exact .inr (Nat.le_of_eq hserial)
    | node kind presence id slots =>
      obtain ⟨layout, mid, -, hnode, -⟩ := take_node_ok h
      nomatch hnode
  | cons slot path ih =>
    intro o s s' t serial token h htoken
    by_cases hleft : ∃ id, o = .reference id
    · obtain ⟨id, rfl⟩ := hleft
      exact .inl ⟨[], slot :: path, id, rfl, rfl⟩
    · obtain ⟨front, mid, last, hfront, htake⟩ := take_slot h (fun id ho => hleft ⟨id, ho⟩) slot
      rcases ih htake htoken with hslot | hnew
      · exact .inl hslot.cons
      · have hle := nextSerial_le_takeAll (o.slots.take slot) s
        rw [hfront] at hle
        exact .inr (Nat.le_trans hle hnew)

/-- A reference stands for what the session held in the first place if nothing new has its id. -/
theorem find?_of_take_reference {path : List Nat} {id : Int} : ∀ {o : Outline} {s s' : Session} {t : Tree},
    s.take o = (.ok t, s') → o.follow path = .reference id → id ∉ o.freshIds →
    s.store.find? id = some (t.follow path) := by
  induction path with
  | nil =>
    intro o s s' t h href _
    obtain rfl : o = .reference id := href
    exact (take_reference_ok h).1
  | cons slot path ih =>
    intro o s s' t h href hfresh
    have hstays : ∀ n, o ≠ .reference n := by
      rintro n rfl
      change Outline.follow .absent path = _ at href
      rw [Outline.follow_absent] at href
      nomatch href
    obtain ⟨front, mid, last, hfront, htake⟩ := take_slot h hstays slot
    -- neither the slots before this one nor the slot itself bring the id
    have hbefore : id ∉ Outline.freshIdsOfAll (o.slots.take slot) := by
      intro hmem
      rw [Outline.freshIdsOfAll_eq] at hmem
      obtain ⟨inner, hinner, hid⟩ := List.mem_flatMap.mp hmem
      apply hfresh
      apply o.freshIdsOfAll_slots_subset
      rw [Outline.freshIdsOfAll_eq]
      exact List.mem_flatMap.mpr ⟨inner, List.mem_of_mem_take hinner, hid⟩
    have hslot : id ∉ (o.slotAt slot).freshIds := fun hmem => hfresh (o.freshIds_follow_subset [slot] hmem)
    have hkept := find?_takeAll (o.slots.take slot) s hbefore
    rw [hfront] at hkept
    rw [← hkept]
    exact ih htake href hslot

/-! ### Serial numbers of what is held -/

/-- The serial numbers of the tokens in a tree are below the given one. -/
def SerialsBelow (next : Nat) (t : Tree) : Prop :=
  ∀ path serial token, t.follow path = .token serial token → serial < next

theorem serialsBelow_absent (next : Nat) : SerialsBelow next .absent := by
  intro path serial token htoken
  rw [Tree.follow_absent] at htoken
  nomatch htoken

theorem inherited_serialsBelow : Inherited SerialsBelow fun _ => True where
  absent := serialsBelow_absent
  token := by
    intro n t _ path serial token htoken
    cases path with
    | nil =>
      obtain ⟨rfl, -⟩ := Tree.token.inj htoken
      exact Nat.lt_succ_self _
    | cons slot path => exact serialsBelow_absent _ path serial token htoken
  node := by
    intro n kind presence id slots layout _ hlayout path serial token htoken
    cases path with
    | nil => nomatch htoken
    | cons slot path =>
      change ((layout[slot]?).getD .absent).follow path = _ at htoken
      cases hfound : layout[slot]? with
      | none =>
        rw [hfound] at htoken
        exact serialsBelow_absent _ path serial token htoken
      | some inner =>
        rw [hfound] at htoken
        exact hlayout inner (List.mem_of_getElem? hfound) path serial token htoken
  slots _ _ _ := trivial
  later hle h path serial token htoken := Nat.lt_of_lt_of_le (h path serial token htoken) hle

section

variable {front between : List Call} {c d : Call} {t u : Tree}

/-- The tokens of a tree have been numbered before any later call. -/
theorem serialsBelow_of_earlier (between : List Call)
    (ht : ((empty.deserializeAll front).2.deserialize c.format c.payload).1 = .ok t) :
    SerialsBelow (empty.deserializeAll (front ++ c :: between)).2.nextSerial t := by
  have hread : ∀ {format : Format} {payload : List UInt8} {root : Outline},
      Outline.read format payload = .ok root → True := fun _ => trivial
  have hbefore := inherited_serialsBelow.allHave_deserializeAll hread front
  have hthen := (inherited_serialsBelow.deserialize hread hbefore c.format c.payload).2 t ht
  rw [deserializeAll_append, deserializeAll_cons]
  exact inherited_serialsBelow.later (nextSerial_le_deserializeAll _ between) hthen

/-- **Identity of tokens.** A tree is printed with the classes of a tree that the session has handed out
earlier. In each place the class is the one that the earlier tree keeps for the token there. A token that
stands in the earlier tree too has come in with a node that the payload leaves out, and is printed with its
class in the earlier tree; every other token is printed as a plain one, be it alike or of the same id. What
is left out is what the session held in the first place, if the payload brings nothing of that id, so places
beneath it are places of the earlier tree if it is one of those. If nothing is left out then only comments are
between tags. -/
theorem markup_of_earlier {root : Outline}
    (ht : ((empty.deserializeAll front).2.deserialize c.format c.payload).1 = .ok t)
    (hread : d.read = .ok root)
    (hu : ((empty.deserializeAll (front ++ c :: between)).2.deserialize d.format d.payload).1 = .ok u) :
    (u.renderMarkupFrom t =
      t.renderClasses.bind fun _ => u.rendered fun u => u.markupBy (u.tagFrom t)) ∧
    (∀ path other serial, u.HasTokenAt path serial → t.HasTokenAt other serial →
      root.LeavesOutOn path ∧ ∃ last, t.LastPlace serial last ∧ u.tagFrom t path = t.classAt last) ∧
    (∀ path serial, u.HasTokenAt path serial →
      (root.LeavesOutOn path → ∀ other, ¬ t.HasTokenAt other serial) → u.tagFrom t path = .plain) ∧
    (∀ path inner id place, root.follow path = .reference id → id ∉ root.freshIds →
      (empty.deserializeAll (front ++ c :: between)).2.store.find? id = some (t.follow place) →
      u.follow (path ++ inner) = t.follow (place ++ inner)) ∧
    (root.references = [] →
      u.renderMarkupFrom t = t.renderClasses.bind fun _ => u.rendered Tree.commentMarkup) := by
  obtain ⟨htake, -⟩ := take_of_deserialize hread (Prod.ext hu rfl)
  have hshared : ∀ path other serial, u.HasTokenAt path serial → t.HasTokenAt other serial →
      root.LeavesOutOn path := by
    rintro path other serial ⟨-, token, htoken⟩ ⟨-, token', htoken'⟩
    rcases serial_of_take htake htoken with hleft | hnew
    · exact hleft
    · have hold := serialsBelow_of_earlier between ht other serial token' htoken'
      exact absurd hnew (Nat.not_le.mpr hold)
  have hplain : ∀ path serial, u.HasTokenAt path serial →
      (root.LeavesOutOn path → ∀ other, ¬ t.HasTokenAt other serial) → u.tagFrom t path = .plain := by
    intro path serial hpath hapart
    rw [Tree.tagFrom_eq hpath]
    apply Tree.classOf_eq_plain
    intro other hother
    exact hapart (hshared path other serial hpath hother) other hother
  refine ⟨Tree.renderMarkupFrom_eq u t, ?_, hplain, ?_, ?_⟩
  · intro path other serial hpath hother
    obtain ⟨last, hlast⟩ := Tree.exists_lastPlace hother
    refine ⟨hshared path other serial hpath hother, last, hlast, ?_⟩
    rw [Tree.tagFrom_eq hpath, Tree.classOf_of_lastPlace hlast]
  · intro path inner id place href hfresh hheld
    have hfound := find?_of_take_reference htake href hfresh
    rw [Tree.follow_append, Tree.follow_append, Option.some.inj (hfound.symm.trans hheld)]
  · intro hnone
    have hall : u.markupBy (u.tagFrom t) = u.commentMarkup := by
      rw [← Tree.markupBy_plain]
      apply Tree.markupBy_congr
      intro path hpath
      obtain ⟨serial, hserial⟩ := Tree.mem_tokenPaths.mp hpath
      apply hplain path serial hserial
      intro hleft
      exact absurd hnone (Outline.references_ne_nil_of_leavesOutOn hleft)
    rw [Tree.renderMarkupFrom_eq]
    simp only [Tree.rendered, hall]

end

/-- A name in a list that is left out is printed with its class in the list, and one beside it that is like
it and has its id is not. -/
theorem markup_of_earlier_list :
    let name : Token := ⟨"identifier", "x", [], [⟨"LineComment", "//"⟩], .present, some 1⟩
    let list : Outline := .node "List" .present (some 2) [.token name]
    let file : Outline := .node "File" .present (some 3) [.reference 2, .token name]
    let c : Call := ⟨.json, list.encode .json⟩
    let d : Call := ⟨.byteTree, file.encode .byteTree⟩
    let t : Tree := .node "List" .present (some 2) [.token 0 name]
    let u : Tree := .node "File" .present (some 3) [t, .token 1 name]
    (empty.deserializeAll [c, d]).1 = [.ok t, .ok u] ∧ file.LeavesOutOn [0, 0] ∧
      u.tagFrom t [0, 0] = .identifier ∧ u.tagFrom t [1] = .plain ∧ u.renderMarkupFrom t =
        .ok "<id>x</id><comment-line>//</comment-line>x<comment-line>//</comment-line>" := by
  intro name list file c d t u
  have hname : name.Faithful := by
    refine ⟨hasWordId 1 (by decide), rfl, rfl, nofun, ?_⟩
    intro piece hpiece
    rw [List.mem_singleton.mp hpiece]
    exact ⟨show "LineComment" ∈ Trivia.textKinds by decide, rfl⟩
  have hlist : c.read = .ok list :=
    Outline.read_encode_json ⟨by decide, hasWordId 2 (by decide), hname, trivial⟩ (by decide)
  have hfile : d.read = .ok file :=
    Outline.read_encode_byteTree
      ⟨by decide, hasWordId 3 (by decide), hasWordId 2 (by decide), hname, trivial⟩ (by decide)
  -- from here on it does not matter how the payloads are written
  clear_value c d
  have hc : empty.deserialize c.format c.payload = (.ok t, (empty.take list).2) :=
    deserialize_of_take hlist rfl nofun
  have hd : (empty.take list).2.deserialize d.format d.payload =
      (.ok u, ((empty.take list).2.take file).2) :=
    deserialize_of_take hfile rfl nofun
  have ht : ((empty.deserializeAll []).2.deserialize c.format c.payload).1 = .ok t := congrArg Prod.fst hc
  have hu : ((empty.deserializeAll ([] ++ c :: [])).2.deserialize d.format d.payload).1 = .ok u := by
    rw [List.nil_append, deserializeAll_cons, hc]
    exact congrArg Prod.fst hd
  obtain ⟨-, hshared, hplain, -, -⟩ := markup_of_earlier ht hfile hu
  have hin : u.HasTokenAt [0, 0] 0 := ⟨⟨rfl, rfl, rfl⟩, name, rfl⟩
  have hbeside : u.HasTokenAt [1] 1 := ⟨⟨rfl, rfl⟩, name, rfl⟩
  have hlisted : t.HasTokenAt [0] 0 := ⟨⟨rfl, rfl⟩, name, rfl⟩
  have hapart : ∀ other, ¬ t.HasTokenAt other 1 := by
    intro other hother
    have hmem : other ∈ [[0]] := Tree.mem_tokenPaths.mpr ⟨1, hother⟩
    obtain rfl := List.mem_singleton.mp hmem
    obtain ⟨-, token, htoken⟩ := hother
    nomatch htoken
  refine ⟨?_, (hshared [0, 0] [0] 0 hin hlisted).1, by decide, hplain [1] 1 hbeside fun _ => hapart, ?_⟩
  · rw [deserializeAll_cons, deserializeAll_cons, hc, hd]
    rfl
  · unfold u t name
    decide

end Session
end SourceTree
