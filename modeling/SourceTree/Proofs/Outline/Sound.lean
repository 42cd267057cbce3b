import SourceTree.Proofs.ByteTree.Document
import SourceTree.Proofs.Json.Integers
import SourceTree.Proofs.Outline.Faults

/-!
# What an outline can say

Either format lets only some outlines through. No id has more digits than JSON integers may have, white
space is its spelling repeated so often as fits in memory, other trivia is of a kind with texts of its
own, and the kinds of nodes are spelled as kinds are. What is wrong in a payload stands beside this: the
places around a fault are as sound as any.
-/
namespace SourceTree

/-- The id can be read from JSON, if there is one. -/
def ShortId (id : Option Int) : Prop := ∀ n, id = some n → Json.Short n

/-- White space repeats its spelling, so often as fits in memory; other trivia is of a known kind. -/
def Trivia.Sound (piece : Trivia) : Prop :=
  match spelling? piece.kind with
  | some spelling =>
    ∃ count : Nat, count * spelling.length ≤ maxRepeated ∧ piece.text = repeated spelling count
  | none => piece.kind ∈ textKinds

structure Token.Sound (t : Token) : Prop where
  id : ShortId t.id
  leading : ∀ piece ∈ t.leading, piece.Sound
  trailing : ∀ piece ∈ t.trailing, piece.Sound

theorem Trivia.repeat?_ok {text result : String} {count : Nat} (h : repeat? text count = .ok result) :
    count * text.length ≤ maxRepeated ∧ result = repeated text count := by
  unfold repeat? at h
  rw [Int.toNat_natCast] at h
  split at h
  · nomatch h
  · split at h
    · nomatch h
    · split at h
      · nomatch h
      · next hfits => exact ⟨Nat.not_lt.mp hfits, (Except.ok.inj h).symm⟩

namespace Outline

mutual

/-- What is said is sound, but for the faults. -/
def Sound : Outline → Prop
  | .absent => True
  | .fault _ => True
  | .reference id => Json.Short id
  | .token t => t.Sound
  | .node kind _ id slots => isKind kind = true ∧ ShortId id ∧ AllSound slots

def AllSound : List Outline → Prop
  | [] => True
  | slot :: slots => slot.Sound ∧ AllSound slots

end

theorem sound_ofExcept {x : Except Fault Outline} (h : ∀ o, x = .ok o → o.Sound) :
    (ofExcept x).Sound := by
  cases x with
  | error cause => trivial
  | ok o => exact h o rfl

theorem sound_of_countedPiece {kind spelling : String} {count : Nat} {piece : Trivia}
    (hspelling : Trivia.spelling? kind = some spelling)
    (h : countedPiece kind spelling count = .ok piece) : piece.Sound := by
  unfold countedPiece at h
  split at h
  · next text hrepeat =>
    obtain rfl := Except.ok.inj h
    rw [Trivia.Sound, hspelling]
    obtain ⟨hfits, rfl⟩ := Trivia.repeat?_ok hrepeat
    exact ⟨count, hfits, rfl⟩
  · nomatch h

theorem sound_of_mem_textKinds {kind : String} (h : kind ∈ Trivia.textKinds) (text : Text) :
    Trivia.Sound ⟨kind, text⟩ := by
  have hnone : ∀ kind ∈ Trivia.textKinds, Trivia.spelling? kind = none := by decide
  rw [Trivia.Sound, hnone kind h]
  exact h

/-! ### JSON -/

theorem readAll_ok {α β : Type} {read : α → Except Fault β} {items : List α} {bs : List β}
    (h : readAll read items = .ok bs) : ∀ b ∈ bs, ∃ item, read item = .ok b := by
  induction items generalizing bs with
  | nil =>
    obtain rfl := Except.ok.inj h
    intro b hb
    cases hb
  | cons item rest ih =>
    rw [readAll] at h
    split at h
    · cases h
    · next first hfirst =>
      split at h
      · cases h
      · next more hmore =>
        obtain rfl := Except.ok.inj h
        simp only [List.mem_cons, forall_eq_or_imp]
        exact ⟨⟨item, hfirst⟩, ih hmore⟩

theorem sound_of_pieceOfKind {kind : String} {value : Json} {piece : Trivia}
    (h : pieceOfKind kind value = .ok piece) : piece.Sound := by
  unfold pieceOfKind at h
  split at h
  · next spelling hspelling =>
    split at h
    · split at h
      · nomatch h
      · exact sound_of_countedPiece hspelling h
    · nomatch h
  · split at h
    · next hkind =>
      split at h
      · next text =>
        obtain rfl := Except.ok.inj h
        exact sound_of_mem_textKinds (List.contains_iff_mem.mp hkind) text
      · nomatch h
    · nomatch h

theorem sound_of_pieceOfJson {value : Json} {piece : Trivia} (h : pieceOfJson value = .ok piece) :
    piece.Sound := by
  unfold pieceOfJson at h
  split at h
  · split at h
    · split at h
      · exact sound_of_pieceOfKind h
      · nomatch h
    all_goals nomatch h
  · nomatch h

theorem sound_of_triviaOfJson {given : Option Json} {pieces : List Trivia}
    (h : triviaOfJson given = .ok pieces) : ∀ piece ∈ pieces, piece.Sound := by
  unfold triviaOfJson at h
  split at h
  · obtain rfl := Except.ok.inj h
    simp
  · intro piece hpiece
    obtain ⟨value, hvalue⟩ := readAll_ok h piece hpiece
    exact sound_of_pieceOfJson hvalue
  · nomatch h

theorem sound_of_tokenOfJson {tokenKind : Json} {members : Json.Members} {presence : Presence}
    {id : Option Int} {t : Token} (hid : ShortId id)
    (h : tokenOfJson tokenKind members presence id = .ok t) : t.Sound := by
  unfold tokenOfJson at h
  split at h
  · split at h
    · obtain ⟨text, -, h⟩ := bind_ok h
      obtain ⟨leading, hleading, h⟩ := bind_ok h
      obtain ⟨trailing, htrailing, h⟩ := bind_ok h
      obtain rfl := Except.ok.inj h
      exact ⟨hid, sound_of_triviaOfJson hleading, sound_of_triviaOfJson htrailing⟩
    · nomatch h
  · nomatch h

/-- The id of a node stands among its members. -/
theorem shortId_of_nodeId {members : Json.Members} {id : Option Int}
    (hshort : ∀ n, (Json.obj members).Mentions n → Json.Short n) (h : nodeId members = .ok id) :
    ShortId id := by
  intro n hn
  unfold nodeId at h
  split at h
  · cases h
    nomatch hn
  · cases h
    nomatch hn
  · next found hfound =>
    obtain rfl := (Except.ok.inj h).trans hn |> Option.some.inj
    exact hshort _ (.of_member? hfound .int)
  · nomatch h

theorem isKind_of_kindOfJson {v : Json} {kind : String} (h : kindOfJson v = .ok kind) :
    isKind kind = true := by
  unfold kindOfJson at h
  split at h
  · split at h
    · split at h
      · next hkind =>
        obtain rfl := Except.ok.inj h
        exact hkind
      · nomatch h
    · nomatch h
  · nomatch h

theorem sound_of_ofMembers {members : Json.Members} {slots : List Outline} {o : Outline}
    (hshort : ∀ n, (Json.obj members).Mentions n → Json.Short n) (hslots : AllSound slots)
    (h : ofMembers members slots = .ok o) : o.Sound := by
  unfold ofMembers at h
  obtain ⟨id, hid, h⟩ := bind_ok h
  have hid : ShortId id := shortId_of_nodeId hshort hid
  split at h
  · split at h
    · obtain rfl := Except.ok.inj h
      exact hid _ rfl
    · nomatch h
  obtain ⟨presence, -, h⟩ := bind_ok h
  split at h
  · obtain ⟨token, htoken, h⟩ := bind_ok h
    obtain rfl := Except.ok.inj h
    exact sound_of_tokenOfJson hid htoken
  · split at h
    · obtain ⟨kind, hkind, h⟩ := bind_ok h
      obtain rfl := Except.ok.inj h
      exact ⟨isKind_of_kindOfJson hkind, hid, hslots⟩
    · nomatch h
  · nomatch h

mutual

theorem sound_ofJson : ∀ {v : Json}, (∀ n, v.Mentions n → Json.Short n) → (ofJson v).Sound
  | .null, _ => trivial
  | .obj members, h => by
    rw [ofJson]
    apply sound_ofExcept
    intro o ho
    exact sound_of_ofMembers h
      (allSound_slotsOfMembers fun entry hmem n hn => h n (.member hmem hn)) ho
  | .bool _, _ => trivial
  | .int _, _ => trivial
  | .float _, _ => trivial
  | .str _, _ => trivial
  | .arr _, _ => trivial

theorem allSound_slotsOfMembers : ∀ {members : List (Text × Json)},
    (∀ entry ∈ members, ∀ n, entry.2.Mentions n → Json.Short n) → AllSound (slotsOfMembers members)
  | [], _ => trivial
  | (name, value) :: rest, h => by
    rw [slotsOfMembers]
    split
    · exact allSound_slotsOfJson (h _ List.mem_cons_self)
    · exact allSound_slotsOfMembers fun entry hmem => h entry (List.mem_cons_of_mem _ hmem)

theorem allSound_slotsOfJson : ∀ {v : Json}, (∀ n, v.Mentions n → Json.Short n) →
    AllSound (slotsOfJson v)
  | .arr _, h => allSound_slotsOfItems fun _ hmem n hn => h n (.item hmem hn)
  | .null, _ => trivial
  | .bool _, _ => trivial
  | .int _, _ => trivial
  | .float _, _ => trivial
  | .str _, _ => trivial
  | .obj _, _ => trivial

theorem allSound_slotsOfItems : ∀ {items : List Json},
    (∀ item ∈ items, ∀ n, item.Mentions n → Json.Short n) → AllSound (slotsOfItems items)
  | [], _ => trivial
  | item :: _, h =>
    ⟨sound_ofJson (h item List.mem_cons_self),
      allSound_slotsOfItems fun other hmem => h other (List.mem_cons_of_mem _ hmem)⟩

end

/-! ### ByteTree -/

section

open ByteTree (Field Fields)

/-- An integer of a field fits in eight bytes. -/
theorem short_of_uintAt {fields : Fields} {index n : Nat} (h : fieldOf (fields.uintAt index) = .ok n) :
    Json.Short n := by
  have h := fieldOf_ok h
  unfold Fields.uintAt at h
  split at h
  · next bytes _ =>
    split at h
    · next hwidth =>
      obtain rfl := Except.ok.inj h
      have hlength : bytes.length ≤ 8 := by
        simp only [List.contains_iff_mem, List.mem_cons, List.not_mem_nil, or_false] at hwidth
        omega
      apply Json.short_natCast
      exact Nat.lt_of_lt_of_le (ByteTree.uintOfBytes_lt bytes)
        (Nat.pow_le_pow_right (by decide : 0 < 256) hlength)
    · nomatch h
  · nomatch h

theorem sound_of_pieceOfFields {fields : Fields} {piece : Trivia}
    (h : pieceOfFields fields = .ok piece) : piece.Sound := by
  unfold pieceOfFields at h
  obtain ⟨kind, -, h⟩ := bind_ok h
  split at h
  · next spelling hspelling =>
    obtain ⟨count, -, h⟩ := bind_ok h
    exact sound_of_countedPiece hspelling h
  · obtain ⟨text, -, h⟩ := bind_ok h
    split at h
    · next hkind =>
      obtain rfl := Except.ok.inj h
      exact sound_of_mem_textKinds (List.contains_iff_mem.mp hkind) text
    · nomatch h

theorem sound_of_triviaFrom {index : Nat} {fields : Fields} {pieces : List Trivia}
    (h : triviaFrom index fields = .ok pieces) : ∀ piece ∈ pieces, piece.Sound := by
  induction fields generalizing index pieces with
  | nil =>
    obtain rfl := Except.ok.inj h
    simp
  | cons field rest ih =>
    cases field with
    | scalar bytes => cases h
    | object inner =>
      rw [triviaFrom] at h
      split at h
      · cases h
      · next first hfirst =>
        split at h
        · cases h
        · next more hmore =>
          obtain rfl := Except.ok.inj h
          simp only [List.mem_cons, forall_eq_or_imp]
          exact ⟨sound_of_pieceOfFields hfirst, ih hmore⟩

theorem sound_of_tokenOfFields {fields : Fields} {presence : Presence} {id : Nat} {t : Token}
    (hid : Json.Short id) (h : tokenOfFields fields presence id = .ok t) : t.Sound := by
  unfold tokenOfFields at h
  obtain ⟨kind, -, h⟩ := bind_ok h
  obtain ⟨written, -, h⟩ := bind_ok h
  -- both ways to get the text go on in the same way
  extract_lets withText at h
  obtain ⟨text, h⟩ : ∃ text, withText text = .ok t := by
    split at h
    · obtain ⟨text, -, h⟩ := bind_ok h
      exact ⟨text, h⟩
    · exact ⟨written, h⟩
  obtain ⟨leading, -, h⟩ := bind_ok h
  obtain ⟨before, hbefore, h⟩ := bind_ok h
  obtain ⟨trailing, -, h⟩ := bind_ok h
  obtain ⟨after, hafter, h⟩ := bind_ok h
  obtain rfl := Except.ok.inj h
  refine ⟨?_, sound_of_triviaFrom hbefore, sound_of_triviaFrom hafter⟩
  intro n hn
  rw [← Option.some.inj hn]
  exact hid

theorem sound_of_ofNodeFields {fields : Fields} {slots : List Outline} {o : Outline}
    (hslots : AllSound slots) (h : ofNodeFields fields slots = .ok o) : o.Sound := by
  unfold ofNodeFields at h
  obtain ⟨type, -, h⟩ := bind_ok h
  obtain ⟨id, hid, h⟩ := bind_ok h
  have hid : Json.Short id := short_of_uintAt hid
  split at h
  · obtain rfl := Except.ok.inj h
    exact hid
  obtain ⟨mark, -, h⟩ := bind_ok h
  extract_lets presence at h
  split at h
  · obtain ⟨token, htoken, h⟩ := bind_ok h
    obtain rfl := Except.ok.inj h
    exact sound_of_tokenOfFields hid htoken
  · obtain ⟨list, -, h⟩ := bind_ok h
    obtain ⟨kind, -, h⟩ := bind_ok h
    split at h
    · next hname =>
      obtain rfl := Except.ok.inj h
      refine ⟨hname, ?_, hslots⟩
      intro n hn
      rw [← Option.some.inj hn]
      exact hid
    · nomatch h
  · nomatch h

mutual

theorem sound_ofField : ∀ (index : Nat) (field : Field), (ofField index field).Sound
  | _, .scalar _ => trivial
  | _, .object [] => trivial
  | _, .object (_ :: more) => by
    rw [ofField]
    apply sound_ofExcept
    intro o ho
    exact sound_of_ofNodeFields (allSound_slotsAfter 3 more) ho

theorem allSound_slotsAfter : ∀ (skipped : Nat) (fields : List Field),
    AllSound (slotsAfter skipped fields)
  | _, [] => by
    rw [slotsAfter]
    trivial
  | 0, field :: _ => by
    rw [slotsAfter]
    exact allSound_slotsOfField field
  | skipped + 1, _ :: rest => by
    rw [slotsAfter]
    exact allSound_slotsAfter skipped rest

theorem allSound_slotsOfField : ∀ field : Field, AllSound (slotsOfField field)
  | .scalar _ => trivial
  | .object slots => allSound_slotsFrom 0 slots

theorem allSound_slotsFrom : ∀ (index : Nat) (fields : List Field), AllSound (slotsFrom index fields)
  | _, [] => by
    rw [slotsFrom]
    trivial
  | index, field :: rest => by
    rw [slotsFrom]
    exact ⟨sound_ofField index field, allSound_slotsFrom (index + 1) rest⟩

end

end

/-! ### Payloads -/

theorem sound_of_read {format : Format} {payload : List UInt8} {root : Outline}
    (h : read format payload = .ok root) : root.Sound := by
  cases format with
  | json =>
    rw [read] at h
    split at h
    · next v hv =>
      obtain rfl := Except.ok.inj h
      exact sound_ofJson fun n hn => Json.short_of_read hv hn
    all_goals cases h
  | byteTree =>
    rw [read] at h
    split at h
    · obtain rfl := Except.ok.inj h
      exact sound_ofField 0 _
    all_goals cases h

/-! ### Trees -/

theorem allSound_iff {slots : List Outline} : AllSound slots ↔ ∀ slot ∈ slots, slot.Sound := by
  induction slots with
  | nil => simp [AllSound]
  | cons slot rest ih =>
    rw [List.forall_mem_cons, ← ih]
    rfl

theorem allSound_ofTrees_iff {trees : List Tree} :
    AllSound (ofTrees trees) ↔ ∀ t ∈ trees, (ofTree t).Sound := by
  induction trees with
  | nil => simp [ofTrees, AllSound]
  | cons t rest ih =>
    rw [List.forall_mem_cons, ← ih]
    rfl

/-- What can be said of a tree can be said of what is found in it. -/
theorem sound_ofTree_follow {path : List Nat} : ∀ {t : Tree}, (ofTree t).Sound →
    (ofTree (t.follow path)).Sound := by
  induction path with
  | nil => exact fun h => h
  | cons slot path ih =>
    intro t h
    apply ih
    cases hfound : t.layout[slot]? with
    | none => exact trivial
    | some inner =>
      have hmem : inner ∈ t.layout := List.mem_of_getElem? hfound
      cases t with
      | absent => nomatch hmem
      | token serial t => nomatch hmem
      | node kind presence id layout => exact allSound_ofTrees_iff.mp h.2.2 inner hmem

end Outline
end SourceTree
