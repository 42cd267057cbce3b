import SourceTree.Outline.OfByteTree
import SourceTree.Outline.OfJson
import SourceTree.Outline.ToByteTree
import SourceTree.Proofs.ByteTree.Document
import SourceTree.Proofs.Json.Document
import SourceTree.Proofs.Outline.Sound
import SourceTree.Session.Basic

/-!
# Written outlines

Whatever either format can say is read back from its JSON value. What both formats can say is read back
from either written form, with one exception: an empty text in ByteTree stands for the one spelling of the
token's kind, so a token that really has no text becomes one with that spelling, or a fault where the kind
has none.
-/
namespace SourceTree

/-! ### What both formats can say -/

/-- The id is there and fits in a word. -/
def HasWordId (id : Option Int) : Prop := ∃ n : Nat, n < 2 ^ 32 ∧ id = some (n : Int)

theorem hasWordId (n : Nat) (h : n < 2 ^ 32) : HasWordId (some (n : Int)) := ⟨n, h, rfl⟩

/-- White space repeats its spelling, so often as fits in a word; other trivia is of a known kind, and
its text is a string. -/
def Trivia.Faithful (piece : Trivia) : Prop :=
  match spelling? piece.kind with
  | some spelling => ∃ count : Nat, count < 2 ^ 32 ∧ piece.text = repeated spelling count
  | none => piece.kind ∈ textKinds ∧ piece.text.isPlain = true

/-- ByteTree has a form for strings only, so no surrogate stands alone in the token. -/
structure Token.Faithful (t : Token) : Prop where
  id : HasWordId t.id
  kind : t.kind.isPlain = true
  text : t.text.isPlain = true
  leading : ∀ piece ∈ t.leading, piece.Faithful
  trailing : ∀ piece ∈ t.trailing, piece.Faithful

namespace Outline

mutual

/-- Nothing is wrong, and both formats can say it. -/
def Faithful : Outline → Prop
  | .absent => True
  | .fault _ => False
  | .reference id => HasWordId (some id)
  | .token t => t.Faithful
  | .node kind _ id slots => isKind kind = true ∧ HasWordId id ∧ AllFaithful slots

def AllFaithful : List Outline → Prop
  | [] => True
  | slot :: slots => slot.Faithful ∧ AllFaithful slots

end

/-! ### Trivia -/

theorem spelling?_bounds : ∀ entry ∈ Trivia.counted, 0 < entry.2.length ∧ entry.2.length ≤ 2 := by
  decide

theorem length_of_spelling? {kind spelling : String} (h : Trivia.spelling? kind = some spelling) :
    0 < spelling.length ∧ spelling.length ≤ 2 := by
  obtain ⟨front, back, hcounted, -⟩ := List.lookup_eq_some_iff.mp h
  apply spelling?_bounds (kind, spelling)
  rw [hcounted]
  exact List.mem_append_right _ List.mem_cons_self

theorem repetitions_repeated {kind spelling : String} (h : Trivia.spelling? kind = some spelling)
    (count : Nat) : repetitions spelling (Trivia.repeated spelling count) = count := by
  obtain ⟨hpos, -⟩ := length_of_spelling? h
  rw [repetitions, Text.length_ofString, Trivia.length_repeated, Nat.mul_div_cancel _ hpos]

theorem sound_of_faithful {piece : Trivia} (h : piece.Faithful) : piece.Sound := by
  unfold Trivia.Faithful at h
  unfold Trivia.Sound
  cases hspelling : Trivia.spelling? piece.kind with
  | some spelling =>
    rw [hspelling] at h
    obtain ⟨count, hcount, htext⟩ := h
    obtain ⟨-, hshort⟩ := length_of_spelling? hspelling
    have hle : count * spelling.length ≤ 2 ^ 32 * 2 := Nat.mul_le_mul (Nat.le_of_lt hcount) hshort
    exact ⟨count, Nat.le_trans hle (by decide), htext⟩
  | none =>
    rw [hspelling] at h
    exact h.1

theorem repetitions_lt {piece : Trivia} {spelling : String}
    (hspelling : Trivia.spelling? piece.kind = some spelling) (h : piece.Faithful) :
    repetitions spelling piece.text < 2 ^ 32 := by
  rw [Trivia.Faithful, hspelling] at h
  obtain ⟨count, hcount, htext⟩ := h
  rwa [htext, repetitions_repeated hspelling]

/-- Counting the repetitions of a spelling gives the piece back. -/
theorem countedPiece_repetitions {piece : Trivia} {spelling : String}
    (hspelling : Trivia.spelling? piece.kind = some spelling) (h : piece.Sound) :
    repetitions spelling piece.text < Trivia.countBound ∧
      countedPiece piece.kind spelling (repetitions spelling piece.text) = .ok piece := by
  rw [Trivia.Sound, hspelling] at h
  obtain ⟨count, hfits, htext⟩ := h
  obtain ⟨hpos, -⟩ := length_of_spelling? hspelling
  have hcount : count < Trivia.countBound := by
    have hle : count ≤ Trivia.maxRepeated := Nat.le_trans (Nat.le_mul_of_pos_right count hpos) hfits
    exact Nat.lt_of_le_of_lt hle (by decide)
  rw [htext, repetitions_repeated hspelling, countedPiece, Trivia.repeat?_natCast hcount hfits]
  refine ⟨hcount, ?_⟩
  change Except.ok (Trivia.mk piece.kind (Trivia.repeated spelling count)) = _
  rw [← htext]

/-! ### JSON -/

theorem pieceOfJson_pieceToJson {piece : Trivia} (h : piece.Sound) :
    pieceOfJson (pieceToJson piece) = .ok piece := by
  unfold pieceToJson
  cases hspelling : Trivia.spelling? piece.kind with
  | some spelling =>
    obtain ⟨-, hpiece⟩ := countedPiece_repetitions hspelling h
    simp only [pieceOfJson, Json.member?, List.lookup_cons, Text.ofString_beq]
    simp [pieceOfKind, hspelling, hpiece]
  | none =>
    rw [Trivia.Sound, hspelling] at h
    simp only [pieceOfJson, Json.member?, List.lookup_cons, Text.ofString_beq]
    simp [pieceOfKind, hspelling, h]

theorem readAll_map {α β : Type} {read : α → Except Fault β} {write : β → α} {all : List β}
    (h : ∀ b ∈ all, read (write b) = .ok b) : readAll read (all.map write) = .ok all := by
  induction all with
  | nil => rfl
  | cons b all ih =>
    rw [List.map_cons, readAll, h b List.mem_cons_self,
      ih fun c hc => h c (List.mem_cons_of_mem _ hc)]

theorem triviaOfJson_triviaToJson {pieces : List Trivia} (h : ∀ piece ∈ pieces, piece.Sound) :
    triviaOfJson (some (triviaToJson pieces)) = .ok pieces :=
  readAll_map fun piece hpiece => pieceOfJson_pieceToJson (h piece hpiece)

theorem tokenOfJson_written {t : Token} (h : t.Sound) (members : Json.Members)
    (hleading : Json.member? members "leadingTrivia" = some (triviaToJson t.leading))
    (htrailing : Json.member? members "trailingTrivia" = some (triviaToJson t.trailing)) :
    tokenOfJson (.obj [("kind", .str t.kind), ("text", .str t.text)]) members t.presence t.id =
      .ok t := by
  have hkind : Json.member? [("kind", .str t.kind), ("text", .str t.text)] "kind" =
      some (.str t.kind) := rfl
  have htext : Json.member? [("kind", .str t.kind), ("text", .str t.text)] "text" =
      some (.str t.text) := rfl
  simp only [tokenOfJson, hkind, htext, textOfJson, hleading, htrailing,
    triviaOfJson_triviaToJson h.leading, triviaOfJson_triviaToJson h.trailing]
  rfl

theorem nodePresence_written {members : Json.Members} {presence : Presence}
    (h : Json.member? members "presence" = some (presenceToJson presence)) :
    nodePresence members = .ok presence := by
  unfold nodePresence
  rw [h]
  cases presence <;> rfl

section

variable {members : Json.Members} {id : Option Int} {presence : Presence} (slots : List Outline)

theorem ofMembers_token {tokenKind : Json} {t : Token} (hid : nodeId members = .ok id)
    (hstays : isLeftOut members = false) (hpresence : nodePresence members = .ok presence)
    (hkind : Json.member? members "tokenKind" = some tokenKind)
    (ht : tokenOfJson tokenKind members presence id = .ok t) :
    ofMembers members slots = .ok (.token t) := by
  simp only [ofMembers, hid, bind, Except.bind, hstays, hpresence, hkind, ht]
  rfl

theorem ofMembers_node {kind : String} {items : List Json} (hid : nodeId members = .ok id)
    (hstays : isLeftOut members = false) (hpresence : nodePresence members = .ok presence)
    (hnode : Json.member? members "tokenKind" = none)
    (hkind : Json.member? members "kind" = some (.str kind)) (hname : isKind kind = true)
    (hlayout : Json.member? members "layout" = some (.arr items)) :
    ofMembers members slots = .ok (.node kind presence id slots) := by
  simp only [ofMembers, hid, bind, Except.bind, hstays, hpresence, hnode, hkind, hlayout, kindOfJson,
    Text.plain?_ofString, hname]
  rfl

end

mutual

/-- What can be said is read back from its JSON value. -/
theorem Sound.ofJson_toJson : ∀ {o : Outline}, o.Sound → o.faults = [] → ofJson (toJson o) = o
  | .absent, _, _ => rfl
  | .fault _, _, hfaults => nomatch hfaults
  | .reference _, _, _ => rfl
  | .token t, h, _ => by
    have htoken := tokenOfJson_written h
    obtain ⟨kind, text, leading, trailing, presence, id⟩ := t
    cases id <;>
      rw [toJson, tokenToJson, ofJson, ofMembers_token _ rfl rfl (nodePresence_written rfl) rfl
        (htoken _ rfl rfl)] <;> rfl
  | .node kind presence id slots, ⟨hkind, _, hslots⟩, hfaults => by
    have hread := AllSound.slotsOfItems_slotsToJson hslots hfaults
    cases id <;>
      rw [toJson, ofJson, ofMembers_node _ rfl rfl (nodePresence_written rfl) rfl rfl hkind rfl] <;>
      exact congrArg (Outline.node kind presence _) hread

theorem AllSound.slotsOfItems_slotsToJson : ∀ {slots : List Outline}, AllSound slots →
    faultsOfAll slots = [] → slotsOfItems (slotsToJson slots) = slots
  | [], _, _ => rfl
  | slot :: slots, ⟨hslot, hslots⟩, hfaults => by
    obtain ⟨hfirst, hrest⟩ := List.append_eq_nil_iff.mp hfaults
    rw [slotsToJson, slotsOfItems, Sound.ofJson_toJson hslot hfirst,
      AllSound.slotsOfItems_slotsToJson hslots hrest]

end

/-- Names that are distinct are distinct as texts. -/
theorem nodup_names {names : List String} (h : names.Nodup) : (names.map Text.ofString).Nodup :=
  List.pairwise_map.mpr (h.imp fun hne heq => hne (Text.ofString_inj.mp heq))

theorem plain_pieceToJson {piece : Trivia} (h : piece.Sound) : (pieceToJson piece).Plain := by
  unfold pieceToJson
  cases hspelling : Trivia.spelling? piece.kind with
  | some spelling =>
    obtain ⟨hcount, -⟩ := countedPiece_repetitions hspelling h
    have hshort : Json.Short (repetitions spelling piece.text) :=
      Json.short_natCast (Nat.lt_trans hcount (by decide))
    exact ⟨nodup_names (show ["kind", "value"].Nodup by decide), trivial, hshort, trivial⟩
  | none => exact ⟨nodup_names (show ["kind", "value"].Nodup by decide), trivial, trivial, trivial⟩

theorem plain_triviaToJson {pieces : List Trivia} (h : ∀ piece ∈ pieces, piece.Sound) :
    (triviaToJson pieces).Plain := by
  change Json.PlainAll (pieces.map pieceToJson)
  induction pieces with
  | nil => exact trivial
  | cons piece pieces ih =>
    exact ⟨plain_pieceToJson (h piece List.mem_cons_self),
      ih fun other hother => h other (List.mem_cons_of_mem _ hother)⟩

theorem plain_presenceToJson (presence : Presence) : (presenceToJson presence).Plain := by
  cases presence <;> exact trivial

mutual

theorem Sound.plain_toJson : ∀ {o : Outline}, o.Sound → (toJson o).Plain
  | .absent, _ => trivial
  | .fault _, _ => trivial
  | .reference _, h => ⟨nodup_names (show ["id", "omitted"].Nodup by decide), h, trivial, trivial⟩
  | .token t, h => by
    have hkind : (Json.obj [("kind", .str t.kind), ("text", .str t.text)]).Plain :=
      ⟨nodup_names (show ["kind", "text"].Nodup by decide), trivial, trivial, trivial⟩
    have hmembers : Json.PlainMembers [
        ("tokenKind", .obj [("kind", .str t.kind), ("text", .str t.text)]),
        ("leadingTrivia", triviaToJson t.leading), ("trailingTrivia", triviaToJson t.trailing),
        ("presence", presenceToJson t.presence)] :=
      ⟨hkind, plain_triviaToJson h.leading, plain_triviaToJson h.trailing,
        plain_presenceToJson t.presence, trivial⟩
    have hnames : ["id", "tokenKind", "leadingTrivia", "trailingTrivia", "presence"].Nodup := by decide
    rw [toJson, tokenToJson]
    cases hid : t.id with
    | none => exact ⟨nodup_names hnames.tail, hmembers⟩
    | some n => exact ⟨nodup_names hnames, Token.Sound.id h n hid, hmembers⟩
  | .node kind presence id slots, ⟨_, hid, hslots⟩ => by
    have hmembers : Json.PlainMembers [("kind", .str kind), ("layout", .arr (slotsToJson slots)),
        ("presence", presenceToJson presence)] :=
      ⟨trivial, AllSound.plain_slotsToJson hslots, plain_presenceToJson presence, trivial⟩
    have hnames : ["id", "kind", "layout", "presence"].Nodup := by decide
    rw [toJson]
    cases id with
    | none => exact ⟨nodup_names hnames.tail, hmembers⟩
    | some n => exact ⟨nodup_names hnames, hid n rfl, hmembers⟩

theorem AllSound.plain_slotsToJson : ∀ {slots : List Outline}, AllSound slots →
    Json.PlainAll (slotsToJson slots)
  | [], _ => trivial
  | _ :: _, ⟨hslot, hslots⟩ => ⟨Sound.plain_toJson hslot, AllSound.plain_slotsToJson hslots⟩

end

/-! ### JSON, of what both formats can say -/

theorem shortId_of_hasWordId {id : Option Int} (h : HasWordId id) : ShortId id := by
  obtain ⟨n, hn, rfl⟩ := h
  intro m hm
  obtain rfl := Option.some.inj hm
  exact Json.short_natCast (Nat.lt_trans hn (by decide))

mutual

theorem Faithful.sound : ∀ {o : Outline}, o.Faithful → o.Sound
  | .absent, _ => trivial
  | .reference _, h => shortId_of_hasWordId h _ rfl
  | .token _, h => ⟨shortId_of_hasWordId (Token.Faithful.id h),
      fun piece hpiece => sound_of_faithful (Token.Faithful.leading h piece hpiece),
      fun piece hpiece => sound_of_faithful (Token.Faithful.trailing h piece hpiece)⟩
  | .node _ _ _ _, ⟨hkind, hid, hslots⟩ =>
    ⟨hkind, shortId_of_hasWordId hid, AllFaithful.allSound hslots⟩

theorem AllFaithful.allSound : ∀ {slots : List Outline}, AllFaithful slots → AllSound slots
  | [], _ => trivial
  | _ :: _, ⟨hslot, hslots⟩ => ⟨Faithful.sound hslot, AllFaithful.allSound hslots⟩

end

mutual

theorem Faithful.faults_eq_nil : ∀ {o : Outline}, o.Faithful → o.faults = []
  | .absent, _ => rfl
  | .reference _, _ => rfl
  | .token _, _ => rfl
  | .node _ _ _ _, ⟨_, _, hslots⟩ => AllFaithful.faultsOfAll_eq_nil hslots

theorem AllFaithful.faultsOfAll_eq_nil : ∀ {slots : List Outline}, AllFaithful slots →
    faultsOfAll slots = []
  | [], _ => rfl
  | _ :: _, ⟨hslot, hslots⟩ => by
    rw [faultsOfAll, Faithful.faults_eq_nil hslot, AllFaithful.faultsOfAll_eq_nil hslots]
    rfl

end

/-- What both formats can say is read back from its JSON value. -/
theorem ofJson_toJson {o : Outline} (h : o.Faithful) : ofJson (toJson o) = o :=
  h.sound.ofJson_toJson h.faults_eq_nil

theorem plain_toJson {o : Outline} (h : o.Faithful) : (toJson o).Plain := h.sound.plain_toJson

/-! ### ByteTree -/

section

open ByteTree (Field Fields)

variable {fields : Fields} {index : Nat}

theorem uintAt_wordField {n : Nat} (h : fields[index]? = some (wordField n)) (hn : n < 2 ^ 32) :
    fields.uintAt index = .ok n := by
  have hlength : [1, 2, 4, 8].contains (ByteTree.word n).length = true := by
    rw [ByteTree.length_word]
    rfl
  simp only [Fields.uintAt, Fields.scalarAt, Fields.fieldAt, h, wordField, hlength,
    ByteTree.uintOfBytes_word hn]
  rfl

theorem stringAt_textField {s : String} (h : fields[index]? = some (textField s)) :
    fields.stringAt index = .ok s := by
  simp only [Fields.stringAt, Fields.scalarAt, Fields.fieldAt, h, textField,
    Text.Utf8.encodePassing_ofString, Text.Utf8.decode_encode]

theorem objectAt_object {inner : Fields} (h : fields[index]? = some (.object inner)) :
    fields.objectAt index = .ok inner := by
  simp only [Fields.objectAt, Fields.fieldAt, h]

/-- A piece of trivia is an object from which the piece is read back. -/
theorem pieceOfFields_pieceToFields {piece : Trivia} (h : piece.Faithful) :
    ∃ inner, pieceToFields piece = .object inner ∧ pieceOfFields inner = .ok piece := by
  unfold pieceToFields
  cases hspelling : Trivia.spelling? piece.kind with
  | some spelling =>
    have hword := repetitions_lt hspelling h
    obtain ⟨-, hpiece⟩ := countedPiece_repetitions hspelling (sound_of_faithful h)
    have hkind : Fields.stringAt
        [textField piece.kind, wordField (repetitions spelling piece.text)] 0 = .ok piece.kind :=
      stringAt_textField rfl
    have hcount : Fields.uintAt
        [textField piece.kind, wordField (repetitions spelling piece.text)] 1 =
          .ok (repetitions spelling piece.text) :=
      uintAt_wordField rfl hword
    refine ⟨_, rfl, ?_⟩
    simp only [pieceOfFields, hkind, hcount, fieldOf, bind, Except.bind, hspelling, hpiece]
  | none =>
    rw [Trivia.Faithful, hspelling] at h
    obtain ⟨hname, hplain⟩ := h
    obtain ⟨s, hs⟩ := Text.isPlain_iff.mp hplain
    have hcontains : Trivia.textKinds.contains piece.kind = true := List.contains_iff_mem.mpr hname
    have hkind : Fields.stringAt [textField piece.kind, textField piece.text] 0 = .ok piece.kind :=
      stringAt_textField rfl
    have htext : Fields.stringAt [textField piece.kind, textField piece.text] 1 = .ok s := by
      rw [hs]
      exact stringAt_textField rfl
    refine ⟨_, rfl, ?_⟩
    simp only [pieceOfFields, hkind, htext, fieldOf, bind, Except.bind, hspelling, hcontains, ← hs]
    rfl

theorem triviaFrom_map {pieces : List Trivia} (h : ∀ piece ∈ pieces, piece.Faithful) (index : Nat) :
    triviaFrom index (pieces.map pieceToFields) = .ok pieces := by
  induction pieces generalizing index with
  | nil => rfl
  | cons piece pieces ih =>
    obtain ⟨inner, hwritten, hread⟩ := pieceOfFields_pieceToFields (h piece List.mem_cons_self)
    rw [List.map_cons, hwritten, triviaFrom, hread,
      ih (fun other hother => h other (List.mem_cons_of_mem _ hother))]

/-- The text that stands for a token's text: an empty one stands for the spelling of the kind. -/
def spelledText (t : Token) : Except Fault Text :=
  if t.text = [] then fixedText t.kind else .ok t.text

theorem tokenOfFields_written {t : Token} (h : t.Faithful) {n : Nat} (hid : t.id = some (n : Int))
    (hkind : fields[3]? = some (textField t.kind)) (htext : fields[4]? = some (textField t.text))
    (hleading : fields[5]? = some (.object (t.leading.map pieceToFields)))
    (htrailing : fields[6]? = some (.object (t.trailing.map pieceToFields))) :
    tokenOfFields fields t.presence n = (spelledText t).map fun text => { t with text } := by
  obtain ⟨name, hname⟩ := Text.isPlain_iff.mp h.kind
  obtain ⟨s, hs⟩ := Text.isPlain_iff.mp h.text
  rw [hname] at hkind
  rw [hs] at htext
  simp only [tokenOfFields, stringAt_textField hkind, stringAt_textField htext,
    objectAt_object hleading, objectAt_object htrailing, fieldOf, bind, Except.bind,
    triviaFrom_map h.leading, triviaFrom_map h.trailing, ← hid, ← hname]
  unfold spelledText
  by_cases hempty : s = ""
  · rw [if_pos (beq_iff_eq.mpr hempty), if_pos (hs.trans (Text.ofString_eq_nil_iff.mpr hempty))]
    cases fixedText t.kind <;> rfl
  · have htext : t.text ≠ [] := by
      rwa [hs, Ne, Text.ofString_eq_nil_iff]
    rw [if_neg (mt beq_iff_eq.mp hempty), if_neg htext, ← hs]
    rfl

/-- The fields that every node that is not left out begins with, when they are read. -/
structure Opens (fields : Fields) (type : Nat) (id : Nat) (presence : Presence) : Prop where
  type : fields.uintAt 0 = .ok type
  id : fields.uintAt 1 = .ok id
  presence : ∃ mark, fields.uintAt 2 = .ok mark ∧
    (if mark == 0 then Presence.missing else .present) = presence

theorem opens_written (b : UInt8) {id : Option Int} {n : Nat} (hn : n < 2 ^ 32)
    (hid : id = some (n : Int)) (presence : Presence) (more : Fields) :
    Opens (byteField b :: idField id :: presenceField presence :: more) b.toNat n presence := by
  refine ⟨rfl, ?_, ?_⟩
  · rw [hid]
    exact uintAt_wordField rfl hn
  · cases presence
    · exact ⟨1, rfl, rfl⟩
    · exact ⟨0, rfl, rfl⟩

variable {n : Nat} {presence : Presence} (slots : List Outline)

theorem ofNodeFields_reference (htype : fields.uintAt 0 = .ok 2) (hid : fields.uintAt 1 = .ok n) :
    ofNodeFields fields slots = .ok (.reference n) := by
  simp only [ofNodeFields, htype, hid, fieldOf, bind, Except.bind, NodeType.ofNat?]
  rfl

theorem ofNodeFields_token {t : Except Fault Token} (h : Opens fields 1 n presence)
    (ht : tokenOfFields fields presence n = t) :
    ofNodeFields fields slots = t.map .token := by
  obtain ⟨mark, hmark, hpresence⟩ := h.presence
  simp only [ofNodeFields, h.type, h.id, hmark, hpresence, fieldOf, bind, Except.bind,
    NodeType.ofNat?, ht]
  cases t <;> rfl

theorem ofNodeFields_node {kind : String} {inner : Fields} (h : Opens fields 0 n presence)
    (hkind : fields[3]? = some (textField kind)) (hname : isKind kind = true)
    (hinner : fields[4]? = some (.object inner)) :
    ofNodeFields fields slots = .ok (.node kind presence (some (n : Int)) slots) := by
  obtain ⟨mark, hmark, hpresence⟩ := h.presence
  simp only [ofNodeFields, h.type, h.id, hmark, hpresence, fieldOf, bind, Except.bind,
    NodeType.ofNat?, stringAt_textField hkind, objectAt_object hinner, hname]
  rfl

end

mutual

/-- The outline with the one spelling of its kind for every text that is empty. -/
def respelled : Outline → Outline
  | .absent => .absent
  | .fault cause => .fault cause
  | .reference id => .reference id
  | .token t => ofExcept ((spelledText t).map fun text => .token { t with text })
  | .node kind presence id slots => .node kind presence id (respelledAll slots)

def respelledAll : List Outline → List Outline
  | [] => []
  | slot :: slots => slot.respelled :: respelledAll slots

end

mutual

/-- What both formats can say is read back from its field, up to the texts that are empty. -/
theorem ofField_toField : ∀ {o : Outline} (index : Nat), o.Faithful →
    ofField index (toField o) = o.respelled
  | .absent, _, _ => rfl
  | .reference id, _, ⟨n, hn, hid⟩ => by
    obtain rfl : id = (n : Int) := Option.some.inj hid
    rw [toField, ofField, ofNodeFields_reference (n := n) _ rfl (uintAt_wordField rfl hn)]
    rfl
  | .token t, _, h => by
    obtain ⟨n, hn, hid⟩ := Token.Faithful.id h
    have hopens := opens_written 1 hn hid t.presence [textField t.kind, textField t.text,
      .object (t.leading.map pieceToFields), .object (t.trailing.map pieceToFields)]
    rw [toField, tokenToFields, ofField, ofNodeFields_token _ hopens
      (tokenOfFields_written h hid rfl rfl rfl rfl), respelled]
    cases spelledText t <;> rfl
  | .node kind presence id slots, _, ⟨hkind, ⟨n, hn, hid⟩, hslots⟩ => by
    have hopens := opens_written 0 hn hid presence [textField kind, .object (slotsToFields slots)]
    rw [toField, ofField, ofNodeFields_node _ hopens rfl hkind rfl, respelled, hid]
    change Outline.node kind presence _ (slotsFrom 0 (slotsToFields slots)) = _
    rw [slotsFrom_slotsToFields 0 hslots]

theorem slotsFrom_slotsToFields : ∀ {slots : List Outline} (index : Nat), AllFaithful slots →
    slotsFrom index (slotsToFields slots) = respelledAll slots
  | [], _, _ => rfl
  | slot :: slots, index, ⟨hslot, hslots⟩ => by
    rw [slotsToFields, slotsFrom, ofField_toField index hslot, slotsFrom_slotsToFields _ hslots,
      respelledAll]

end

/-! ### Payloads -/

/-- The fields of a root. -/
def rootFields (o : Outline) : ByteTree.Fields :=
  match toField o with
  | .object fields => fields
  | .scalar _ => []

/-- The written form of an outline in a format. -/
def encode (o : Outline) : Format → List UInt8
  | .json => Json.encode (toJson o)
  | .byteTree => ByteTree.encodeDocument o.rootFields

theorem Sound.read_encode_json {o : Outline} (h : o.Sound) (hfaults : o.faults = [])
    (hnested : (toJson o).nesting ≤ Json.maxNesting) : read .json (o.encode .json) = .ok o := by
  have hjson : Json.read (o.encode .json) = .ok (toJson o) :=
    Json.read_encode ⟨h.plain_toJson, hnested⟩
  rw [read, hjson]
  exact congrArg Except.ok (h.ofJson_toJson hfaults)

theorem read_encode_json {o : Outline} (h : o.Faithful) (hnested : (toJson o).nesting ≤ Json.maxNesting) :
    read .json (o.encode .json) = .ok o :=
  h.sound.read_encode_json h.faults_eq_nil hnested

theorem read_encode_byteTree {o : Outline} (h : o.Faithful) (hfits : ByteTree.Writable o.rootFields) :
    read .byteTree (o.encode .byteTree) = .ok o.respelled := by
  have hdocument : (ByteTree.readDocument (o.encode .byteTree)).1 = .ok o.rootFields :=
    congrArg Prod.fst (ByteTree.readDocument_encodeDocument hfits)
  have hroot : ByteTree.Field.object o.rootFields = toField o := by
    cases o <;> rfl
  rw [read, hdocument]
  change Except.ok (ofField 0 (.object o.rootFields)) = _
  rw [hroot, ofField_toField 0 h]

end Outline
end SourceTree
