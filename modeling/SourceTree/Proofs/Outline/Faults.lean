import SourceTree.Proofs.Outline.References
import SourceTree.Session.Basic

/-!
# What can be wrong in a payload

The faults of a payload are expected ones but for three kinds: an integer with too many digits anywhere
in a JSON text, and in the trivia of a token a kind that is an array or an object, or a count that is
too large. Which of the nodes has them does not depend on the session, and no payload has a fault that
only a session can have.
-/
namespace SourceTree

/-- The fault is expected, and it does not come from what a session holds. -/
structure Fault.IsPlain (cause : Fault) : Prop where
  expected : cause.isExpected = true
  ne_unknownReference : ∀ id, cause ≠ .unknownReference id

theorem bind_error {ε α β : Type} {x : Except ε α} {f : α → Except ε β} {e : ε}
    (h : x >>= f = .error e) : x = .error e ∨ ∃ a, x = .ok a ∧ f a = .error e := by
  cases x with
  | error found => exact .inl (congrArg Except.error (Except.error.inj h))
  | ok a => exact .inr ⟨a, rfl, h⟩

theorem bind_ok {ε α β : Type} {x : Except ε α} {f : α → Except ε β} {b : β}
    (h : x >>= f = .ok b) : ∃ a, x = .ok a ∧ f a = .ok b := by
  cases x with
  | error found => nomatch h
  | ok a => exact ⟨a, rfl, h⟩

namespace Outline

variable {cause : Fault}

theorem isPlain_of_mem_faults {found : Fault} (h : cause ∈ (fault found).faults)
    (hplain : found.IsPlain) : cause.IsPlain := by
  obtain rfl := List.mem_singleton.mp h
  exact hplain

theorem mem_faults_ofExcept {x : Except Fault Outline} (h : cause ∈ (ofExcept x).faults) :
    x = .error cause ∨ ∃ o, x = .ok o ∧ cause ∈ o.faults := by
  cases x with
  | error found => exact .inl (congrArg Except.error (List.mem_singleton.mp h).symm)
  | ok o => exact .inr ⟨o, rfl, h⟩

/-! ### Trivia -/

theorem countedPiece_error {kind spelling : String} {count : Nat}
    (h : countedPiece kind spelling count = .error cause) :
    ∃ limit, Trivia.repeat? spelling count = .error limit ∧ cause = .repetition limit := by
  unfold countedPiece at h
  split at h
  · nomatch h
  · next limit hrepeat => exact ⟨limit, hrepeat, (Except.error.inj h).symm⟩

/-- The elements are read up to the first one with a fault. -/
theorem readAll_error {α β : Type} {read : α → Except Fault β} {items : List α}
    (h : readAll read items = .error cause) : ∃ item ∈ items, read item = .error cause := by
  induction items with
  | nil => nomatch h
  | cons item rest ih =>
    rw [readAll] at h
    split at h
    · next found hitem =>
      obtain rfl := Except.error.inj h
      exact ⟨item, List.mem_cons_self, hitem⟩
    · split at h
      · next found hrest =>
        obtain rfl := Except.error.inj h
        obtain ⟨other, hmem, hother⟩ := ih hrest
        exact ⟨other, List.mem_cons_of_mem item hmem, hother⟩
      · nomatch h

theorem fixedText_error {kind : Text} (h : fixedText kind = .error cause) : cause.IsPlain := by
  unfold fixedText at h
  split at h
  · nomatch h
  · split at h <;> obtain rfl := Except.error.inj h <;> exact ⟨rfl, nofun⟩

end Outline

/-! ### JSON -/

/-- An array or an object. -/
def Json.IsCompound : Json → Prop
  | .arr _ => True
  | .obj _ => True
  | _ => False

namespace Outline

variable {cause : Fault}

/-- A piece of trivia that the reading of a JSON payload does not provide for. -/
inductive OvertaxingJsonPiece : Json → Fault → Prop
  /-- Its kind is an array or an object. -/
  | kind {members : Json.Members} {found : Json} (hkind : Json.member? members "kind" = some found)
      (hcompound : found.IsCompound) : OvertaxingJsonPiece (.obj members) (.compoundTriviaKind found)
  /-- It is counted, and so large a count cannot be built. -/
  | count {members : Json.Members} {kind spelling : String} {count : Nat} {limit : Trivia.RepeatError}
      (hkind : Json.member? members "kind" = some (.str kind))
      (hspelling : Trivia.spelling? kind = some spelling)
      (hcount : Json.member? members "value" = some (.int count))
      (hlimit : Trivia.repeat? spelling count = .error limit) :
      OvertaxingJsonPiece (.obj members) (.repetition limit)

/-- A value in the place of a node has such trivia, or something in its slots has. -/
inductive OvertaxingJson : Json → Fault → Prop
  | trivia {members : Json.Members} {name : String} {pieces : List Json} {piece : Json} {cause : Fault}
      (hname : name = "leadingTrivia" ∨ name = "trailingTrivia")
      (hpieces : Json.member? members name = some (.arr pieces)) (hmem : piece ∈ pieces)
      (hpiece : OvertaxingJsonPiece piece cause) : OvertaxingJson (.obj members) cause
  | slot {members : Json.Members} {items : List Json} {item : Json} {cause : Fault}
      (hlayout : Json.member? members "layout" = some (.arr items)) (hmem : item ∈ items)
      (hitem : OvertaxingJson item cause) : OvertaxingJson (.obj members) cause

theorem nodeId_error {members : Json.Members} (h : nodeId members = .error cause) : cause.IsPlain := by
  unfold nodeId at h
  split at h <;> cases h
  exact ⟨rfl, nofun⟩

theorem nodePresence_error {members : Json.Members} (h : nodePresence members = .error cause) :
    cause.IsPlain := by
  unfold nodePresence at h
  split at h
  · nomatch h
  · split at h <;> cases h
    exact ⟨rfl, nofun⟩
  · cases h
    exact ⟨rfl, nofun⟩

theorem textOfJson_error {kind : Text} {text : Option Json} (h : textOfJson kind text = .error cause) :
    cause.IsPlain := by
  unfold textOfJson at h
  split at h
  · exact fixedText_error h
  · exact fixedText_error h
  · nomatch h
  · cases h
    exact ⟨rfl, nofun⟩

theorem kindOfJson_error {found : Json} (h : kindOfJson found = .error cause) : cause.IsPlain := by
  unfold kindOfJson at h
  split at h
  · split at h
    · split at h <;> cases h
      exact ⟨rfl, nofun⟩
    · cases h
      exact ⟨rfl, nofun⟩
  · cases h
    exact ⟨rfl, nofun⟩

theorem pieceOfKind_error {kind : String} {value : Json} (h : pieceOfKind kind value = .error cause) :
    cause.IsPlain ∨ ∃ (spelling : String) (count : Nat) (limit : Trivia.RepeatError),
      Trivia.spelling? kind = some spelling ∧ value = .int count ∧
        Trivia.repeat? spelling count = .error limit ∧ cause = .repetition limit := by
  unfold pieceOfKind at h
  split at h
  · next spelling hspelling =>
    split at h
    · next count =>
      split at h
      · cases h
        exact .inl ⟨rfl, nofun⟩
      · next hcount =>
        obtain ⟨limit, hlimit, hcause⟩ := countedPiece_error h
        have hnat : (count.toNat : Int) = count := Int.toNat_of_nonneg (Int.not_lt.mp hcount)
        exact .inr ⟨spelling, count.toNat, limit, hspelling, by rw [hnat], hlimit, hcause⟩
    · cases h
      exact .inl ⟨rfl, nofun⟩
  · split at h
    · split at h <;> cases h
      exact .inl ⟨rfl, nofun⟩
    · cases h
      exact .inl ⟨rfl, nofun⟩

/-- A member that is not read as null is there. -/
theorem eq_some_of_getD_null {found : Option Json} {stated : Json} (hne : stated ≠ .null)
    (h : found.getD .null = stated) : found = some stated := by
  cases found with
  | none => exact absurd h.symm hne
  | some value => exact congrArg some h

theorem pieceOfJson_error {piece : Json} (h : pieceOfJson piece = .error cause) :
    cause.IsPlain ∨ OvertaxingJsonPiece piece cause := by
  cases piece with
  | obj members =>
    rw [pieceOfJson] at h
    split at h
    · next kind hkind =>
      split at h
      · next name hname =>
        rw [Text.plain?_eq_some_iff.mp hname] at hkind
        rcases pieceOfKind_error h with hplain | ⟨spelling, count, limit, hspelling, hcount, hlimit, rfl⟩
        · exact .inl hplain
        · exact .inr (.count (eq_some_of_getD_null nofun hkind) hspelling (eq_some_of_getD_null nofun hcount) hlimit)
      · obtain rfl := Except.error.inj h
        exact .inl ⟨rfl, nofun⟩
    · next items hkind =>
      obtain rfl := Except.error.inj h
      exact .inr (.kind (eq_some_of_getD_null nofun hkind) trivial)
    · next inner hkind =>
      obtain rfl := Except.error.inj h
      exact .inr (.kind (eq_some_of_getD_null nofun hkind) trivial)
    · obtain rfl := Except.error.inj h
      exact .inl ⟨rfl, nofun⟩
  | _ =>
    obtain rfl := Except.error.inj h
    exact .inl ⟨rfl, nofun⟩

theorem triviaOfJson_error {trivia : Option Json} (h : triviaOfJson trivia = .error cause) :
    cause.IsPlain ∨ ∃ pieces piece, trivia = some (.arr pieces) ∧ piece ∈ pieces ∧
      OvertaxingJsonPiece piece cause := by
  unfold triviaOfJson at h
  split at h
  · nomatch h
  · next pieces =>
    obtain ⟨piece, hmem, hpiece⟩ := readAll_error h
    rcases pieceOfJson_error hpiece with hplain | hover
    · exact .inl hplain
    · exact .inr ⟨pieces, piece, rfl, hmem, hover⟩
  · cases h
    exact .inl ⟨rfl, nofun⟩

theorem tokenOfJson_error {tokenKind : Json} {members : Json.Members} {presence : Presence}
    {id : Option Int} (h : tokenOfJson tokenKind members presence id = .error cause) :
    cause.IsPlain ∨ OvertaxingJson (.obj members) cause := by
  unfold tokenOfJson at h
  split at h
  · split at h
    · rcases bind_error h with htext | ⟨text, -, h⟩
      · exact .inl (textOfJson_error htext)
      rcases bind_error h with hleading | ⟨leading, -, h⟩
      · rcases triviaOfJson_error hleading with hplain | ⟨pieces, piece, hpieces, hmem, hpiece⟩
        · exact .inl hplain
        · exact .inr (.trivia (.inl rfl) hpieces hmem hpiece)
      rcases bind_error h with htrailing | ⟨trailing, -, h⟩
      · rcases triviaOfJson_error htrailing with hplain | ⟨pieces, piece, hpieces, hmem, hpiece⟩
        · exact .inl hplain
        · exact .inr (.trivia (.inr rfl) hpieces hmem hpiece)
      nomatch h
    · cases h
      exact .inl ⟨rfl, nofun⟩
  · cases h
    exact .inl ⟨rfl, nofun⟩

theorem ofMembers_error {members : Json.Members} {slots : List Outline}
    (h : ofMembers members slots = .error cause) :
    cause.IsPlain ∨ OvertaxingJson (.obj members) cause := by
  unfold ofMembers at h
  rcases bind_error h with hid | ⟨id, -, h⟩
  · exact .inl (nodeId_error hid)
  split at h
  · split at h <;> cases h
    exact .inl ⟨rfl, nofun⟩
  rcases bind_error h with hpresence | ⟨presence, -, h⟩
  · exact .inl (nodePresence_error hpresence)
  split at h
  · rcases bind_error h with htoken | ⟨token, -, h⟩
    · exact tokenOfJson_error htoken
    · nomatch h
  · split at h
    · rcases bind_error h with hkind | ⟨kind, -, h⟩
      · exact .inl (kindOfJson_error hkind)
      · nomatch h
    · cases h
      exact .inl ⟨rfl, nofun⟩
  · cases h
    exact .inl ⟨rfl, nofun⟩

/-- A node has the faults of its slots, and what is no node has none. -/
theorem faults_ofMembers {members : Json.Members} {slots : List Outline} {o : Outline}
    (h : ofMembers members slots = .ok o) : o.faults ⊆ faultsOfAll slots := by
  unfold ofMembers at h
  obtain ⟨id, -, h⟩ := bind_ok h
  split at h
  · split at h <;> cases h
    exact List.nil_subset _
  obtain ⟨presence, -, h⟩ := bind_ok h
  split at h
  · obtain ⟨token, -, h⟩ := bind_ok h
    cases h
    exact List.nil_subset _
  · split at h
    · obtain ⟨kind, -, h⟩ := bind_ok h
      cases h
      exact List.Subset.refl _
    · nomatch h
  · nomatch h

mutual

theorem mem_faults_ofJson : ∀ {value : Json}, cause ∈ (ofJson value).faults →
    cause.IsPlain ∨ OvertaxingJson value cause
  | .null, h => nomatch h
  | .obj members, h => by
    rcases mem_faults_ofExcept h with hnode | ⟨o, hnode, hmem⟩
    · exact ofMembers_error hnode
    · rcases mem_faults_slotsOfMembers (faults_ofMembers hnode hmem) with
        hplain | ⟨items, item, hlayout, hitem, hover⟩
      · exact .inl hplain
      · exact .inr (.slot hlayout hitem hover)
  | .bool _, h => .inl (isPlain_of_mem_faults h ⟨rfl, nofun⟩)
  | .int _, h => .inl (isPlain_of_mem_faults h ⟨rfl, nofun⟩)
  | .float _, h => .inl (isPlain_of_mem_faults h ⟨rfl, nofun⟩)
  | .str _, h => .inl (isPlain_of_mem_faults h ⟨rfl, nofun⟩)
  | .arr _, h => .inl (isPlain_of_mem_faults h ⟨rfl, nofun⟩)

theorem mem_faults_slotsOfMembers : ∀ {members : Json.Members},
    cause ∈ faultsOfAll (slotsOfMembers members) →
    cause.IsPlain ∨ ∃ items item, Json.member? members "layout" = some (.arr items) ∧ item ∈ items ∧
      OvertaxingJson item cause
  | [], h => nomatch h
  | (name, value) :: rest, h => by
    rw [slotsOfMembers] at h
    rw [Json.member?, List.lookup_cons]
    by_cases hname : name = Text.ofString "layout"
    · subst hname
      rcases mem_faults_slotsOfJson h with hplain | ⟨items, item, rfl, hmem, hitem⟩
      · exact .inl hplain
      · exact .inr ⟨items, item, rfl, hmem, hitem⟩
    · rw [beq_false_of_ne hname] at h
      rw [beq_false_of_ne (Ne.symm hname)]
      exact mem_faults_slotsOfMembers h

theorem mem_faults_slotsOfJson : ∀ {value : Json}, cause ∈ faultsOfAll (slotsOfJson value) →
    cause.IsPlain ∨ ∃ items item, value = .arr items ∧ item ∈ items ∧ OvertaxingJson item cause
  | .arr items, h => by
    rcases mem_faults_slotsOfItems h with hplain | ⟨item, hmem, hitem⟩
    · exact .inl hplain
    · exact .inr ⟨items, item, rfl, hmem, hitem⟩
  | .null, h => nomatch h
  | .bool _, h => nomatch h
  | .int _, h => nomatch h
  | .float _, h => nomatch h
  | .str _, h => nomatch h
  | .obj _, h => nomatch h

theorem mem_faults_slotsOfItems : ∀ {items : List Json}, cause ∈ faultsOfAll (slotsOfItems items) →
    cause.IsPlain ∨ ∃ item ∈ items, OvertaxingJson item cause
  | [], h => nomatch h
  | item :: rest, h => by
    rw [slotsOfItems, faultsOfAll] at h
    rcases List.mem_append.mp h with hitem | hrest
    · rcases mem_faults_ofJson hitem with hplain | hover
      · exact .inl hplain
      · exact .inr ⟨item, List.mem_cons_self, hover⟩
    · rcases mem_faults_slotsOfItems hrest with hplain | ⟨other, hmem, hover⟩
      · exact .inl hplain
      · exact .inr ⟨other, List.mem_cons_of_mem item hmem, hover⟩

end

/-! ### ByteTree -/

open ByteTree (Field Fields FieldError)

/-- A piece of trivia that is counted, and so large a count cannot be built. -/
inductive OvertaxingFieldsPiece : Fields → Fault → Prop
  | count {piece : Fields} {kind spelling : String} {count : Nat} {limit : Trivia.RepeatError}
      (hkind : piece.stringAt 0 = .ok kind) (hspelling : Trivia.spelling? kind = some spelling)
      (hcount : piece.uintAt 1 = .ok count) (hlimit : Trivia.repeat? spelling count = .error limit) :
      OvertaxingFieldsPiece piece (.repetition limit)

/-- A field in the place of a node has such trivia, or something in its slots has. -/
inductive OvertaxingField : Field → Fault → Prop
  | trivia {fields : Fields} {index : Nat} {pieces piece : Fields} {cause : Fault}
      (hindex : index = 5 ∨ index = 6) (hpieces : fields[index]? = some (.object pieces))
      (hmem : .object piece ∈ pieces) (hpiece : OvertaxingFieldsPiece piece cause) :
      OvertaxingField (.object fields) cause
  | slot {fields slots : Fields} {field : Field} {cause : Fault}
      (hslots : fields[4]? = some (.object slots)) (hmem : field ∈ slots)
      (hfield : OvertaxingField field cause) : OvertaxingField (.object fields) cause

theorem fieldOf_error {α : Type} {x : Except FieldError α} (h : fieldOf x = .error cause) :
    cause.IsPlain := by
  cases x with
  | ok a => nomatch h
  | error found =>
    obtain rfl := Except.error.inj h
    exact ⟨rfl, nofun⟩

theorem fieldOf_ok {α : Type} {x : Except FieldError α} {a : α} (h : fieldOf x = .ok a) :
    x = .ok a := by
  cases x with
  | ok b => exact congrArg Except.ok (Except.ok.inj h)
  | error found => nomatch h

theorem objectAt_ok {fields inner : Fields} {index : Nat} (h : fields.objectAt index = .ok inner) :
    fields[index]? = some (.object inner) := by
  unfold Fields.objectAt Fields.fieldAt at h
  cases hfound : fields[index]? with
  | none =>
    rw [hfound] at h
    nomatch h
  | some field =>
    rw [hfound] at h
    cases field with
    | scalar bytes => nomatch h
    | object found => rw [Except.ok.inj h]

theorem pieceOfFields_error {piece : Fields} (h : pieceOfFields piece = .error cause) :
    cause.IsPlain ∨ OvertaxingFieldsPiece piece cause := by
  unfold pieceOfFields at h
  rcases bind_error h with hkind | ⟨kind, hkind, h⟩
  · exact .inl (fieldOf_error hkind)
  split at h
  · next spelling hspelling =>
    rcases bind_error h with hcount | ⟨count, hcount, h⟩
    · exact .inl (fieldOf_error hcount)
    obtain ⟨limit, hlimit, rfl⟩ := countedPiece_error h
    exact .inr (.count (fieldOf_ok hkind) hspelling (fieldOf_ok hcount) hlimit)
  · rcases bind_error h with htext | ⟨text, -, h⟩
    · exact .inl (fieldOf_error htext)
    split at h <;> cases h
    exact .inl ⟨rfl, nofun⟩

theorem triviaFrom_error {index : Nat} {pieces : Fields} (h : triviaFrom index pieces = .error cause) :
    cause.IsPlain ∨ ∃ piece, .object piece ∈ pieces ∧ OvertaxingFieldsPiece piece cause := by
  induction pieces generalizing index with
  | nil => nomatch h
  | cons field rest ih =>
    cases field with
    | scalar bytes =>
      obtain rfl := Except.error.inj h
      exact .inl ⟨rfl, nofun⟩
    | object piece =>
      rw [triviaFrom] at h
      split at h
      · next found hpiece =>
        obtain rfl := Except.error.inj h
        rcases pieceOfFields_error hpiece with hplain | hover
        · exact .inl hplain
        · exact .inr ⟨piece, List.mem_cons_self, hover⟩
      · split at h
        · next found hrest =>
          obtain rfl := Except.error.inj h
          rcases ih hrest with hplain | ⟨other, hmem, hover⟩
          · exact .inl hplain
          · exact .inr ⟨other, List.mem_cons_of_mem _ hmem, hover⟩
        · nomatch h

theorem overtaxing_of_triviaFrom {fields pieces : Fields} {index : Nat} (hindex : index = 5 ∨ index = 6)
    (hpieces : fieldOf (fields.objectAt index) = .ok pieces) (h : triviaFrom 0 pieces = .error cause) :
    cause.IsPlain ∨ OvertaxingField (.object fields) cause := by
  rcases triviaFrom_error h with hplain | ⟨piece, hmem, hover⟩
  · exact .inl hplain
  · exact .inr (.trivia hindex (objectAt_ok (fieldOf_ok hpieces)) hmem hover)

theorem tokenOfFields_error {fields : Fields} {presence : Presence} {id : Nat}
    (h : tokenOfFields fields presence id = .error cause) :
    cause.IsPlain ∨ OvertaxingField (.object fields) cause := by
  unfold tokenOfFields at h
  rcases bind_error h with hkind | ⟨kind, -, h⟩
  · exact .inl (fieldOf_error hkind)
  rcases bind_error h with hwritten | ⟨written, -, h⟩
  · exact .inl (fieldOf_error hwritten)
  -- both ways to get the text go on in the same way
  extract_lets withText at h
  obtain hplain | ⟨text, h⟩ : cause.IsPlain ∨ ∃ text, withText text = .error cause := by
    split at h
    · rcases bind_error h with htext | ⟨text, -, h⟩
      · exact .inl (fixedText_error htext)
      · exact .inr ⟨text, h⟩
    · exact .inr ⟨written, h⟩
  · exact .inl hplain
  rcases bind_error h with hleading | ⟨leading, hleading, h⟩
  · exact .inl (fieldOf_error hleading)
  rcases bind_error h with hpieces | ⟨pieces, -, h⟩
  · exact overtaxing_of_triviaFrom (.inl rfl) hleading hpieces
  rcases bind_error h with htrailing | ⟨trailing, htrailing, h⟩
  · exact .inl (fieldOf_error htrailing)
  rcases bind_error h with hpieces | ⟨pieces, -, h⟩
  · exact overtaxing_of_triviaFrom (.inr rfl) htrailing hpieces
  nomatch h

theorem ofNodeFields_error {fields : Fields} {slots : List Outline}
    (h : ofNodeFields fields slots = .error cause) :
    cause.IsPlain ∨ OvertaxingField (.object fields) cause := by
  unfold ofNodeFields at h
  rcases bind_error h with htype | ⟨type, -, h⟩
  · exact .inl (fieldOf_error htype)
  rcases bind_error h with hid | ⟨id, -, h⟩
  · exact .inl (fieldOf_error hid)
  split at h
  · nomatch h
  rcases bind_error h with hmark | ⟨mark, -, h⟩
  · exact .inl (fieldOf_error hmark)
  extract_lets presence at h
  split at h
  · rcases bind_error h with htoken | ⟨token, -, h⟩
    · exact tokenOfFields_error htoken
    · nomatch h
  · rcases bind_error h with hlist | ⟨list, -, h⟩
    · exact .inl (fieldOf_error hlist)
    rcases bind_error h with hkind | ⟨kind, -, h⟩
    · exact .inl (fieldOf_error hkind)
    split at h <;> cases h
    exact .inl ⟨rfl, nofun⟩
  · cases h
    exact .inl ⟨rfl, nofun⟩

theorem faults_ofNodeFields {fields : Fields} {slots : List Outline} {o : Outline}
    (h : ofNodeFields fields slots = .ok o) : o.faults ⊆ faultsOfAll slots := by
  unfold ofNodeFields at h
  obtain ⟨type, -, h⟩ := bind_ok h
  obtain ⟨id, -, h⟩ := bind_ok h
  split at h
  · cases h
    exact List.nil_subset _
  obtain ⟨mark, -, h⟩ := bind_ok h
  extract_lets presence at h
  split at h
  · obtain ⟨token, -, h⟩ := bind_ok h
    cases h
    exact List.nil_subset _
  · obtain ⟨list, -, h⟩ := bind_ok h
    obtain ⟨kind, -, h⟩ := bind_ok h
    split at h <;> cases h
    exact List.Subset.refl _
  · nomatch h

mutual

theorem mem_faults_ofField : ∀ {index : Nat} {field : Field}, cause ∈ (ofField index field).faults →
    cause.IsPlain ∨ OvertaxingField field cause
  | _, .scalar _, h => .inl (isPlain_of_mem_faults h ⟨rfl, nofun⟩)
  | _, .object [], h => nomatch h
  | _, .object (first :: more), h => by
    rcases mem_faults_ofExcept h with hnode | ⟨o, hnode, hmem⟩
    · exact ofNodeFields_error hnode
    · rcases mem_faults_slotsAfter (faults_ofNodeFields hnode hmem) with
        hplain | ⟨slots, slot, hslots, hslot, hover⟩
      · exact .inl hplain
      · exact .inr (.slot hslots hslot hover)

theorem mem_faults_slotsAfter : ∀ {skipped : Nat} {fields : Fields},
    cause ∈ faultsOfAll (slotsAfter skipped fields) →
    cause.IsPlain ∨ ∃ slots slot, fields[skipped]? = some (.object slots) ∧ slot ∈ slots ∧
      OvertaxingField slot cause
  | skipped, [], h => by
    rw [slotsAfter] at h
    nomatch h
  | 0, field :: rest, h => by
    rw [slotsAfter] at h
    rcases mem_faults_slotsOfField h with hplain | ⟨slots, slot, rfl, hmem, hslot⟩
    · exact .inl hplain
    · exact .inr ⟨slots, slot, rfl, hmem, hslot⟩
  | skipped + 1, field :: rest, h => by
    rw [slotsAfter] at h
    have hrest := mem_faults_slotsAfter h
    exact hrest

theorem mem_faults_slotsOfField : ∀ {field : Field}, cause ∈ faultsOfAll (slotsOfField field) →
    cause.IsPlain ∨ ∃ slots slot, field = .object slots ∧ slot ∈ slots ∧ OvertaxingField slot cause
  | .scalar _, h => nomatch h
  | .object slots, h => by
    rcases mem_faults_slotsFrom h with hplain | ⟨slot, hmem, hslot⟩
    · exact .inl hplain
    · exact .inr ⟨slots, slot, rfl, hmem, hslot⟩

theorem mem_faults_slotsFrom : ∀ {index : Nat} {fields : Fields},
    cause ∈ faultsOfAll (slotsFrom index fields) →
    cause.IsPlain ∨ ∃ slot ∈ fields, OvertaxingField slot cause
  | _, [], h => by
    rw [slotsFrom] at h
    nomatch h
  | index, field :: rest, h => by
    rw [slotsFrom, faultsOfAll] at h
    rcases List.mem_append.mp h with hfield | hrest
    · rcases mem_faults_ofField hfield with hplain | hover
      · exact .inl hplain
      · exact .inr ⟨field, List.mem_cons_self, hover⟩
    · rcases mem_faults_slotsFrom hrest with hplain | ⟨other, hmem, hover⟩
      · exact .inl hplain
      · exact .inr ⟨other, List.mem_cons_of_mem field hmem, hover⟩

end

/-! ### Payloads -/

/-- The payload asks for more than the reading of payloads provides for, with this cause. -/
inductive Overtaxes : Format → List UInt8 → Fault → Prop
  /-- An integer is written with too many digits. -/
  | integer {payload : List UInt8} {digits : Nat}
      (hread : Json.read payload = .error (.longInteger digits)) :
      Overtaxes .json payload (.integerTooLong digits)
  | json {payload : List UInt8} {value : Json} {cause : Fault} (hread : Json.read payload = .ok value)
      (hvalue : OvertaxingJson value cause) : Overtaxes .json payload cause
  | byteTree {payload : List UInt8} {root : Fields} {cause : Fault}
      (hread : (ByteTree.readDocument payload).1 = .ok root)
      (hroot : OvertaxingField (.object root) cause) : Overtaxes .byteTree payload cause

variable {format : Format} {payload : List UInt8} {root : Outline}

theorem read_error (h : read format payload = .error cause) :
    cause.IsPlain ∨ Overtaxes format payload cause := by
  cases format with
  | json =>
    rw [read] at h
    split at h
    · nomatch h
    · cases h
      exact .inl ⟨rfl, nofun⟩
    · next digits hread =>
      obtain rfl := Except.error.inj h
      exact .inr (.integer hread)
    · cases h
      exact .inl ⟨rfl, nofun⟩
  | byteTree =>
    rw [read] at h
    split at h <;> cases h
    · exact .inl ⟨rfl, nofun⟩
    · exact .inl ⟨rfl, nofun⟩

theorem mem_faults_of_read (h : read format payload = .ok root) (hmem : cause ∈ root.faults) :
    cause.IsPlain ∨ Overtaxes format payload cause := by
  cases format with
  | json =>
    rw [read] at h
    split at h
    · next value hread =>
      obtain rfl := Except.ok.inj h
      rcases mem_faults_ofJson hmem with hplain | hover
      · exact .inl hplain
      · exact .inr (.json hread hover)
    all_goals nomatch h
  | byteTree =>
    rw [read] at h
    split at h
    · next fields hread =>
      obtain rfl := Except.ok.inj h
      rcases mem_faults_ofField hmem with hplain | hover
      · exact .inl hplain
      · exact .inr (.byteTree hread hover)
    all_goals nomatch h

theorem unexpected_repetition (limit : Trivia.RepeatError) :
    (Fault.repetition limit).isExpected = false := by
  cases limit <;> rfl

theorem OvertaxingJsonPiece.unexpected {piece : Json} (h : OvertaxingJsonPiece piece cause) :
    cause.isExpected = false := by
  cases h with
  | kind hkind hcompound => rfl
  | count hkind hspelling hcount hlimit => exact unexpected_repetition _

theorem OvertaxingJson.unexpected {value : Json} (h : OvertaxingJson value cause) :
    cause.isExpected = false := by
  induction h with
  | trivia hname hpieces hmem hpiece => exact hpiece.unexpected
  | slot hlayout hmem hitem ih => exact ih

theorem OvertaxingField.unexpected {field : Field} (h : OvertaxingField field cause) :
    cause.isExpected = false := by
  induction h with
  | trivia hindex hpieces hmem hpiece =>
    cases hpiece
    exact unexpected_repetition _
  | slot hslots hmem hfield ih => exact ih

/-- Nobody provides for what overtaxes the reading. -/
theorem Overtaxes.unexpected (h : Overtaxes format payload cause) : cause.isExpected = false := by
  cases h with
  | integer hread => rfl
  | json hread hvalue => exact hvalue.unexpected
  | byteTree hread hroot => exact hroot.unexpected

/-- What is read never has the fault that only a session can have. -/
theorem ne_unknownReference_of_read (h : cause.IsPlain ∨ Overtaxes format payload cause) (id : Int) :
    cause ≠ .unknownReference id := by
  rcases h with hplain | hover
  · exact hplain.ne_unknownReference id
  · rintro rfl
    nomatch hover.unexpected

end Outline
end SourceTree
