import SourceTree.Proofs.ByteTree.Document

/-!
# How far the reader goes

The reader takes its input from front to back and never goes past it, whatever numbers the words in it
announce: each word that it takes is four bytes of the input, and where bytes are missing it stops. What it does
not stop at for lack of bytes, it does in the same way with more bytes after them. So a document that is cut
short is found to be so, wherever the cut is, and bytes that follow a document are found to be too many.
-/
namespace SourceTree.ByteTree

/-! ### Steps in a row -/

/-- One step, and another one with what it took. Nothing comes after an error. -/
def andThen {α β : Type} (take : Cursor → Step α) (next : α → Cursor → Step β) (c : Cursor) : Step β :=
  match take c with
  | (.ok a, c) => next a c
  | (.error e, c) => (.error e, c)

/-- The step of a result that is known. -/
def done {α : Type} (a : α) (c : Cursor) : Step α := (.ok a, c)

theorem takeFields_succ (field : Cursor → Step Field) (count : Nat) (acc : List Field) :
    (takeFields field (count + 1) · acc) = andThen field fun f => (takeFields field count · (f :: acc)) := by
  funext c
  rw [takeFields, andThen]
  rcases field c with ⟨cause | f, d⟩ <;> rfl

/-- What follows the word of a field. -/
def takeAnnounced (room : Nat) : Header → Cursor → Step Field
  | .scalar count => andThen (takeBytes count) fun bytes => done (.scalar bytes)
  | .object count =>
    match room with
    | 0 => fun c => (.error .tooDeep, c)
    | room + 1 => andThen (takeFields (takeField room) count · []) fun fields => done (.object fields)

theorem takeField_eq (room : Nat) :
    takeField room = andThen takeWord fun word => takeAnnounced room (Header.ofWord word) := by
  funext c
  rw [takeField, andThen]
  rcases takeWord c with ⟨cause | word, d⟩
  · rfl
  · dsimp only
    cases Header.ofWord word with
    | scalar count =>
      dsimp only [takeAnnounced, andThen]
      rcases takeBytes count d with ⟨cause | bytes, e⟩ <;> rfl
    | object count =>
      cases room with
      | zero => rfl
      | succ room =>
        dsimp only [takeAnnounced, andThen]
        rcases takeFields (takeField room) count d [] with ⟨cause | fields, e⟩ <;> rfl

/-- Takes the version and the field after it. -/
def takeVersioned : Cursor → Step Field :=
  andThen takeWord fun found =>
    if found != version then fun c => (.error (.unsupportedVersion found), c) else takeField maxNesting

/-- The root is an object, and nothing follows it. -/
def checkRoot : Field → Cursor → Step Fields
  | .scalar _, c => (.error .rootIsScalar, c)
  | .object fields, c =>
    if c.rest.isEmpty then (.ok fields, c) else (.error (.trailingData c.rest.length), c)

theorem takeDocument_eq : takeDocument = andThen takeVersioned checkRoot := by
  funext c
  rw [takeDocument, andThen, takeVersioned, andThen]
  rcases takeWord c with ⟨cause | found, d⟩
  · rfl
  · dsimp only
    split
    · rfl
    · rcases takeField maxNesting d with ⟨cause | ⟨bytes | fields⟩, e⟩ <;> rfl

variable {α β : Type}

/-! ### Forward and not past the end -/

/-- `d` stands where `c` does or after it, with at least four bytes between them for each word. -/
def Cursor.Advances (c d : Cursor) : Prop :=
  ∃ bytes words, c.Passes bytes words d ∧ 4 * words ≤ bytes.length

theorem Cursor.Advances.refl (c : Cursor) : c.Advances c := ⟨[], 0, .nil c, Nat.le_refl 0⟩

theorem Cursor.Advances.trans {c d e : Cursor} (hcd : c.Advances d) (hde : d.Advances e) : c.Advances e := by
  obtain ⟨front, m, hfront, hm⟩ := hcd
  obtain ⟨back, n, hback, hn⟩ := hde
  refine ⟨front ++ back, m + n, hfront.append hback, ?_⟩
  rw [List.length_append]
  omega

/-- What is taken is missing from the rest, and words are among it. -/
theorem Cursor.Advances.bounds {c d : Cursor} (h : c.Advances d) :
    c.offset ≤ d.offset ∧ d.offset + d.rest.length = c.offset + c.rest.length ∧
      4 * d.words + c.offset ≤ 4 * c.words + d.offset := by
  obtain ⟨bytes, words, hpasses, hwords⟩ := h
  have hrest := congrArg List.length hpasses.rest
  rw [List.length_append] at hrest
  rw [hpasses.offset, hpasses.words]
  omega

/-- A step that goes forward in its input and not past the end. If it complains about an unexpected end, it
says where it stands, and it needs more bytes than are left there. -/
structure Orderly (take : Cursor → Step α) : Prop where
  advances : ∀ c : Cursor, c.Advances (take c).2
  starved : ∀ {c offset needed}, (take c).1 = .error (.unexpectedEnd offset needed) →
    offset = (take c).2.offset ∧ (take c).2.rest.length < needed

theorem Orderly.andThen {take : Cursor → Step α} {next : α → Cursor → Step β} (htake : Orderly take)
    (hnext : ∀ a, Orderly (next a)) : Orderly (andThen take next) := by
  constructor
  · intro c
    have hadvances := htake.advances c
    rw [ByteTree.andThen]
    rcases htaken : take c with ⟨cause | a, d⟩ <;> rw [htaken] at hadvances
    · exact hadvances
    · exact hadvances.trans ((hnext a).advances d)
  · intro c offset needed h
    have hstarved := @htake.starved c offset needed
    rw [ByteTree.andThen] at h ⊢
    rcases htaken : take c with ⟨cause | a, d⟩ <;> rw [htaken] at h hstarved
    · exact hstarved (congrArg Except.error (Except.error.inj h))
    · exact (hnext a).starved h

theorem orderly_done (a : α) : Orderly (done a) := ⟨.refl, nofun⟩

/-- A step that takes nothing and stops for another reason than a lack of bytes. -/
theorem orderly_stop {cause : Cursor → ReadError} (h : ∀ c offset needed, cause c ≠ .unexpectedEnd offset needed) :
    Orderly fun c => ((.error (cause c), c) : Step α) :=
  ⟨.refl, fun hcause => absurd (Except.error.inj hcause) (h _ _ _)⟩

/-- Bytes are taken if there are enough of them, and otherwise none is. -/
theorem takeBytes_eq (count : Nat) (c : Cursor) :
    takeBytes count c =
      if count ≤ c.rest.length then (.ok (c.rest.take count), ⟨c.offset + count, c.words, c.rest.drop count⟩)
      else (.error (.unexpectedEnd c.offset count), c) := by
  rw [takeBytes, splitAt?_eq]
  by_cases hcount : count ≤ c.rest.length
  · rw [if_pos hcount, if_pos hcount]
    rfl
  · rw [if_neg hcount, if_neg hcount]

theorem orderly_takeBytes (count : Nat) : Orderly (takeBytes count) := by
  constructor
  · intro c
    rcases htake : takeBytes count c with ⟨cause | bytes, d⟩
    · rw [takeBytes_eq] at htake
      split at htake
      · cases htake
      · obtain ⟨-, rfl⟩ := Prod.mk.inj htake
        exact .refl c
    · exact ⟨bytes, 0, (takeBytes_ok htake).2, Nat.zero_le _⟩
  · intro c offset needed h
    rw [takeBytes_eq] at h ⊢
    split at h
    · cases h
    · next hcount =>
      obtain ⟨rfl, rfl⟩ := ReadError.unexpectedEnd.inj (Except.error.inj h)
      rw [if_neg hcount]
      exact ⟨rfl, Nat.lt_of_not_le hcount⟩

theorem orderly_takeWord : Orderly takeWord := by
  have hbytes := orderly_takeBytes 4
  constructor
  · intro c
    have hadvances := hbytes.advances c
    rcases htake : takeWord c with ⟨cause | n, d⟩
    · rw [takeWord] at htake
      split at htake
      · cases htake
      · next htaken =>
        obtain ⟨-, rfl⟩ := Prod.mk.inj htake
        rwa [htaken] at hadvances
    · exact ⟨word n, 1, (takeWord_ok htake).2, Nat.le_of_eq (length_word n).symm⟩
  · intro c offset needed h
    have hstarved := @hbytes.starved c offset needed
    rw [takeWord] at h ⊢
    rcases htaken : takeBytes 4 c with ⟨cause | bytes, d⟩ <;> rw [htaken] at h hstarved
    · exact hstarved (congrArg Except.error (Except.error.inj h))
    · cases h

theorem orderly_takeFields {field : Cursor → Step Field} (hfield : Orderly field) (count : Nat)
    (acc : List Field) : Orderly (takeFields field count · acc) := by
  induction count generalizing acc with
  | zero => exact orderly_done acc.reverse
  | succ count ih =>
    rw [takeFields_succ]
    exact hfield.andThen fun f => ih (f :: acc)

/-- The induction is on the room: the fields of an object are taken with less of it. -/
theorem orderly_takeField (room : Nat) : Orderly (takeField room) := by
  induction room using Nat.strongRecOn with
  | ind room ih =>
    rw [takeField_eq]
    refine orderly_takeWord.andThen fun word => ?_
    cases Header.ofWord word with
    | scalar count => exact (orderly_takeBytes count).andThen fun bytes => orderly_done _
    | object count =>
      cases room with
      | zero => exact orderly_stop nofun
      | succ room =>
        exact (orderly_takeFields (ih room (Nat.lt_succ_self room)) count []).andThen fun fields => orderly_done _

theorem orderly_takeVersioned : Orderly takeVersioned := by
  refine orderly_takeWord.andThen fun found => ?_
  split
  · exact orderly_stop nofun
  · exact orderly_takeField maxNesting

theorem orderly_checkRoot (root : Field) : Orderly (checkRoot root) := by
  cases root with
  | scalar bytes => exact orderly_stop nofun
  | object fields =>
    constructor
    · intro c
      rw [checkRoot]
      split <;> exact .refl c
    · intro c offset needed h
      rw [checkRoot] at h
      split at h <;> cases h

theorem orderly_takeDocument : Orderly takeDocument := by
  rw [takeDocument_eq]
  exact orderly_takeVersioned.andThen orderly_checkRoot

/-! ### Bytes that follow -/

/-- The cursor with more bytes at the end of its input. -/
def Cursor.followedBy (c : Cursor) (more : List UInt8) : Cursor := ⟨c.offset, c.words, c.rest ++ more⟩

/-- There were not enough bytes. -/
def Starved (result : Except ReadError α) : Prop :=
  ∃ offset needed, result = .error (.unexpectedEnd offset needed)

/-- A step that does the same with more bytes after its input, if it has enough without them. -/
def Stable (take : Cursor → Step α) : Prop :=
  ∀ c more, ¬ Starved (take c).1 → take (c.followedBy more) = ((take c).1, (take c).2.followedBy more)

theorem starved_error {cause : ReadError} (h : Starved (.error cause : Except ReadError α)) :
    Starved (.error cause : Except ReadError β) := by
  obtain ⟨offset, needed, hcause⟩ := h
  exact ⟨offset, needed, congrArg Except.error (Except.error.inj hcause)⟩

theorem not_starved_ok (a : α) : ¬ Starved (.ok a : Except ReadError α) := nofun

theorem Stable.andThen {take : Cursor → Step α} {next : α → Cursor → Step β} (htake : Stable take)
    (hnext : ∀ a, Stable (next a)) : Stable (andThen take next) := by
  intro c more h
  have hstable := htake c more
  rw [ByteTree.andThen, ByteTree.andThen]
  rw [ByteTree.andThen] at h
  rcases htaken : take c with ⟨cause | a, d⟩ <;> rw [htaken] at h hstable
  · rw [hstable (mt starved_error h)]
  · rw [hstable (not_starved_ok a)]
    exact hnext a d more h

theorem stable_done (a : α) : Stable (done a) := fun _ _ _ => rfl

theorem stable_takeBytes (count : Nat) : Stable (takeBytes count) := by
  intro c more h
  rw [takeBytes_eq] at h ⊢
  rw [takeBytes_eq]
  by_cases hcount : count ≤ c.rest.length
  · have hmore : count ≤ (c.followedBy more).rest.length := by
      simp only [Cursor.followedBy, List.length_append]
      omega
    rw [if_pos hcount, if_pos hmore]
    simp only [Cursor.followedBy, List.take_append_of_le_length hcount, List.drop_append_of_le_length hcount]
  · rw [if_neg hcount] at h
    exact absurd ⟨_, _, rfl⟩ h

theorem stable_takeWord : Stable takeWord := by
  intro c more h
  have hstable := stable_takeBytes 4 c more
  rw [takeWord, takeWord]
  rw [takeWord] at h
  rcases htaken : takeBytes 4 c with ⟨cause | bytes, d⟩ <;> rw [htaken] at h hstable
  · rw [hstable (mt starved_error h)]
  · rw [hstable (not_starved_ok bytes)]
    rfl

theorem stable_takeFields {field : Cursor → Step Field} (hfield : Stable field) (count : Nat)
    (acc : List Field) : Stable (takeFields field count · acc) := by
  induction count generalizing acc with
  | zero => exact stable_done acc.reverse
  | succ count ih =>
    rw [takeFields_succ]
    exact hfield.andThen fun f => ih (f :: acc)

theorem stable_takeField (room : Nat) : Stable (takeField room) := by
  induction room using Nat.strongRecOn with
  | ind room ih =>
    rw [takeField_eq]
    refine stable_takeWord.andThen fun word => ?_
    cases Header.ofWord word with
    | scalar count => exact (stable_takeBytes count).andThen fun bytes => stable_done _
    | object count =>
      cases room with
      | zero => exact fun _ _ _ => rfl
      | succ room =>
        exact (stable_takeFields (ih room (Nat.lt_succ_self room)) count []).andThen fun fields => stable_done _

theorem stable_takeVersioned : Stable takeVersioned := by
  refine stable_takeWord.andThen fun found => ?_
  split
  · exact fun _ _ _ => rfl
  · exact stable_takeField maxNesting

/-! ### Documents -/

/-- The steps that reading a document is made of. -/
inductive Reads : {α : Type} → (Cursor → Step α) → Prop
  | bytes (count : Nat) : Reads (takeBytes count)
  | word : Reads takeWord
  | field (room : Nat) : Reads (takeField room)
  | fields (room count : Nat) (acc : List Field) : Reads (takeFields (takeField room) count · acc)
  | document : Reads takeDocument

theorem Reads.orderly {take : Cursor → Step α} (h : Reads take) : Orderly take := by
  cases h with
  | bytes count => exact orderly_takeBytes count
  | word => exact orderly_takeWord
  | field room => exact orderly_takeField room
  | fields room count acc => exact orderly_takeFields (orderly_takeField room) count acc
  | document => exact orderly_takeDocument

/-- The document is read to its end before its root is checked. -/
theorem takeVersioned_of_readDocument {bytes : List UInt8} {root : Fields}
    (h : (readDocument bytes).1 = .ok root) :
    ∃ words, takeVersioned ⟨0, 0, bytes⟩ = (.ok (.object root), ⟨bytes.length, words, []⟩) := by
  rcases hread : readDocument bytes with ⟨result, c⟩
  rw [hread] at h
  obtain rfl : result = .ok root := h
  obtain ⟨-, -, hoffset⟩ := readDocument_ok hread
  rw [readDocument, takeDocument_eq, andThen] at hread
  rcases htake : takeVersioned ⟨0, 0, bytes⟩ with ⟨cause | ⟨scalar | fields⟩, d⟩ <;> rw [htake] at hread
  · cases hread
  · cases hread
  · dsimp only [checkRoot] at hread
    split at hread
    · next hend =>
      obtain ⟨hroot, rfl⟩ := Prod.mk.inj hread
      obtain rfl := Except.ok.inj hroot
      obtain ⟨offset, words, rest⟩ := d
      obtain rfl : offset = bytes.length := hoffset
      obtain rfl : rest = [] := List.isEmpty_iff.mp hend
      exact ⟨words, rfl⟩
    · cases hread

/-- A document that is cut short is found to be so. -/
theorem starved_of_cut {front back : List UInt8} {root : Fields} (h : (readDocument (front ++ back)).1 = .ok root)
    (hback : back ≠ []) : Starved (readDocument front).1 := by
  obtain ⟨words, hwhole⟩ := takeVersioned_of_readDocument h
  have hfront : Starved (takeVersioned ⟨0, 0, front⟩).1 := by
    refine Classical.byContradiction fun hfed => ?_
    have hmore := stable_takeVersioned ⟨0, 0, front⟩ back hfed
    -- the same bytes were left over then, with those that were cut off at their end
    have hrest := congrArg (fun step => step.2.rest) (hwhole.symm.trans hmore)
    exact hback (List.append_eq_nil_iff.mp hrest.symm).2
  obtain ⟨offset, needed, hresult⟩ := hfront
  refine ⟨offset, needed, ?_⟩
  rw [readDocument, takeDocument_eq, andThen]
  rcases htake : takeVersioned ⟨0, 0, front⟩ with ⟨cause | field, d⟩ <;> rw [htake] at hresult
  · exact congrArg Except.error (Except.error.inj hresult)
  · cases hresult

/-- What follows a document is counted, and the reading has come to the end of the document. -/
theorem readDocument_append {bytes more : List UInt8} {root : Fields} (h : (readDocument bytes).1 = .ok root)
    (hmore : more ≠ []) :
    ∃ words, readDocument (bytes ++ more) =
      (.error (.trailingData more.length), ⟨bytes.length, words, more⟩) := by
  obtain ⟨words, hwhole⟩ := takeVersioned_of_readDocument h
  have hstable := stable_takeVersioned ⟨0, 0, bytes⟩ more
  rw [hwhole] at hstable
  have hlonger : takeVersioned ⟨0, 0, bytes ++ more⟩ = (.ok (.object root), ⟨bytes.length, words, more⟩) :=
    hstable (not_starved_ok _)
  refine ⟨words, ?_⟩
  rw [readDocument, takeDocument_eq, andThen, hlonger]
  dsimp only [checkRoot]
  rw [if_neg fun hend => hmore (List.isEmpty_iff.mp hend)]

/-- **Cut documents, longer documents, and bounds.** Of a document that is read, every shorter beginning comes to
an unexpected end, and with bytes after it there is trailing data, which is counted where the document ends. Every
step of the reader goes forward and not past the end of its input. So of any bytes at all, whatever the words
among them announce, it takes no more words than a fourth of their number and comes no further than to their
end; it comes to the end if it succeeds, and if it complains about an unexpected one, it does so where it stands,
and the bytes that it needs there are more than are left. -/
theorem readDocument_extent :
    (∀ (bytes : List UInt8) (root : Fields), (readDocument bytes).1 = .ok root →
      (∀ front back, bytes = front ++ back → back ≠ [] →
        ∃ offset needed, (readDocument front).1 = .error (.unexpectedEnd offset needed)) ∧
      ∀ more, more ≠ [] → (readDocument (bytes ++ more)).1 = .error (.trailingData more.length) ∧
        (ReadError.trailingData more.length).message =
          "Trailing data after ByteTree root (" ++ toString more.length ++ " bytes)" ∧
        (readDocument (bytes ++ more)).2.offset = bytes.length) ∧
    (∀ {α : Type} (take : Cursor → Step α), Reads take → ∀ c : Cursor,
      c.offset ≤ (take c).2.offset ∧
        (take c).2.offset + (take c).2.rest.length = c.offset + c.rest.length) ∧
    ∀ bytes : List UInt8,
      (readDocument bytes).2.words ≤ bytes.length / 4 ∧
      (readDocument bytes).2.offset ≤ bytes.length ∧
      (∀ root, (readDocument bytes).1 = .ok root → (readDocument bytes).2.offset = bytes.length) ∧
      ∀ offset needed, (readDocument bytes).1 = .error (.unexpectedEnd offset needed) →
        offset = (readDocument bytes).2.offset ∧ bytes.length < offset + needed ∧
        (ReadError.unexpectedEnd offset needed).message = "Unexpected end of ByteTree data at offset " ++
          toString offset ++ " (needed " ++ toString needed ++ " bytes)" := by
  refine ⟨fun bytes root h => ⟨?_, fun more hmore => ?_⟩, fun take htake c => ?_, fun bytes => ?_⟩
  · rintro front back rfl hback
    exact starved_of_cut h hback
  · obtain ⟨words, hread⟩ := readDocument_append h hmore
    rw [hread]
    exact ⟨rfl, rfl, rfl⟩
  · obtain ⟨hforward, htotal, -⟩ := (htake.orderly.advances c).bounds
    exact ⟨hforward, htotal⟩
  · obtain ⟨-, htotal, hwords⟩ := (orderly_takeDocument.advances ⟨0, 0, bytes⟩).bounds
    change (readDocument bytes).2.offset + (readDocument bytes).2.rest.length = 0 + bytes.length at htotal
    change 4 * (readDocument bytes).2.words + 0 ≤ 4 * 0 + (readDocument bytes).2.offset at hwords
    refine ⟨by omega, by omega, fun root h => ?_, fun offset needed h => ?_⟩
    · exact (readDocument_ok (Prod.ext h rfl)).2.2
    · obtain ⟨rfl, hneeded⟩ := orderly_takeDocument.starved h
      change (readDocument bytes).2.rest.length < needed at hneeded
      have hlong : bytes.length < (readDocument bytes).2.offset + needed := by omega
      exact ⟨rfl, hlong, rfl⟩

/-- A document with a scalar of two bytes, without the second of them and with three bytes after it; and a word
that announces more fields than there are bytes. -/
theorem readDocument_extent_scalar :
    let bytes : List UInt8 := [1, 0, 0, 0, 1, 0, 0, 128, 2, 0, 0, 0, 7, 8]
    let huge : List UInt8 := [1, 0, 0, 0, 255, 255, 255, 255, 0, 0, 0, 0, 9]
    (readDocument bytes).1 = .ok [.scalar [7, 8]] ∧
      (∃ offset needed, (readDocument (bytes.take 13)).1 = .error (.unexpectedEnd offset needed)) ∧
      (readDocument (bytes ++ [7, 8, 9])).1 = .error (.trailingData 3) ∧
      (readDocument (bytes ++ [7, 8, 9])).2.offset = 14 ∧
      (readDocument huge).1 = .error (.unexpectedEnd 12 4) ∧ (readDocument huge).2.words ≤ 3 := by
  intro bytes huge
  have hread : (readDocument bytes).1 = .ok [.scalar [7, 8]] := rfl
  obtain ⟨hcut, hlonger⟩ := readDocument_extent.1 bytes _ hread
  obtain ⟨hresult, -, hoffset⟩ := hlonger [7, 8, 9] (List.cons_ne_nil _ _)
  refine ⟨hread, hcut (bytes.take 13) [8] rfl (List.cons_ne_nil _ _), hresult, hoffset, rfl, ?_⟩
  exact Nat.le_trans (readDocument_extent.2.2 huge).1 (by decide)

end SourceTree.ByteTree
