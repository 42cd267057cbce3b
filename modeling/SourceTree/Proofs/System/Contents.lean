import SourceTree.Proofs.Keyed
import SourceTree.Proofs.System.Files

/-!
# Files with other contents

Where paths lead and which directories are made is not a matter of what files hold. So a file that is emptied
leaves nothing behind of what it held before.
-/
namespace SourceTree

/-- The entry with other contents, if it is a file. -/
def Entry.refill (contents : Bytes) : Entry → Entry
  | directory => directory
  | file _ executable => file contents executable

/-- The spot with other contents, if it is a file at this place. -/
def Spot.refill (place : Place) (contents : Bytes) : Spot → Spot
  | taken other entry => taken other (if other = place then entry.refill contents else entry)
  | vacant other => vacant other

theorem Spot.refill_directory (place other : Place) (contents : Bytes) :
    (taken other .directory).refill place contents = taken other .directory := by
  rw [refill]
  split <;> rfl

theorem Spot.refill_file (place other : Place) (contents old : Bytes) (executable : Bool) :
    ∃ new, (taken other (.file old executable)).refill place contents = taken other (.file new executable) := by
  rw [refill]
  split <;> exact ⟨_, rfl⟩

namespace Files

/-- The files with other contents at a place, if a file stands there. -/
def refill (files : Files) (place : Place) (contents : Bytes) : Files :=
  match files.entryAt place with
  | some (.file _ executable) => files.put place (.file contents executable)
  | _ => files

variable (files : Files) (place : Place) (contents : Bytes)

theorem cwd_refill : (files.refill place contents).cwd = files.cwd := by
  unfold refill
  split <;> rfl

theorem entryAt_refill (other : Place) :
    (files.refill place contents).entryAt other =
      (files.entryAt other).map fun entry => if other = place then entry.refill contents else entry := by
  unfold refill
  split
  · next old executable hentry =>
    rw [entryAt_put files other _ (ne_root_of_entry hentry nofun)]
    by_cases hother : other = place
    · rw [hother, hentry, beq_self_eq_true, if_pos rfl, Option.map_some, if_pos rfl]
      rfl
    · rw [beq_false_of_ne hother]
      simp only [hother, Bool.false_eq_true, if_false, Option.map_id']
  · next hentry =>
    by_cases hother : other = place
    · subst hother
      rcases hthere : files.entryAt other with _ | (_ | ⟨old, executable⟩)
      · rfl
      · rw [Option.map_some, if_pos rfl]
        rfl
      · exact absurd hthere (hentry old executable)
    · simp only [hother, if_false, Option.map_id']

theorem isSome_entryAt_refill (other : Place) :
    ((files.refill place contents).entryAt other).isSome = (files.entryAt other).isSome := by
  rw [entryAt_refill, Option.isSome_map]

theorem none_refill {other : Place} (h : files.entryAt other = none) :
    (files.refill place contents).entryAt other = none := by
  rw [entryAt_refill, h, Option.map_none]

theorem directory_refill {other : Place} (h : files.entryAt other = some .directory) :
    (files.refill place contents).entryAt other = some .directory := by
  rw [entryAt_refill, h, Option.map_some]
  split <;> rfl

theorem file_refill {other : Place} {old : Bytes} {executable : Bool}
    (h : files.entryAt other = some (.file old executable)) :
    ∃ new, (files.refill place contents).entryAt other = some (.file new executable) := by
  rw [entryAt_refill, h, Option.map_some]
  split <;> exact ⟨_, rfl⟩

/-! ### Paths -/

theorem walk_refill (start : Place) (names : List String) :
    (files.refill place contents).walk start names =
      (files.walk start names).map (Spot.refill place contents) := by
  induction names generalizing start with
  | nil =>
    rw [walk, walk, entryAt_refill]
    cases files.entryAt start <;> rfl
  | cons name rest ih =>
    rcases hentry : files.entryAt start with _ | (_ | ⟨old, executable⟩)
    · rw [walk, walk, hentry, none_refill files place contents hentry]
      rfl
    · rw [walk_cons name rest hentry, walk_cons name rest (directory_refill files place contents hentry)]
      split
      · exact ih start
      · split
        · exact ih start.dropLast
        · split
          · rfl
          · rw [isSome_entryAt_refill]
            split
            · exact ih (start ++ [name])
            · split <;> rfl
    · obtain ⟨new, hnew⟩ := file_refill files place contents hentry
      rw [walk, walk, hentry, hnew]
      rfl

theorem origin_refill (anchor : Anchor) :
    (files.refill place contents).origin anchor = files.origin anchor := by
  cases anchor with
  | relative => exact cwd_refill files place contents
  | root => rfl
  | doubleRoot => rfl

theorem locate_refill (text : String) :
    (files.refill place contents).locate text = (files.locate text).map (Spot.refill place contents) := by
  rw [locate, locate, origin_refill, walk_refill]
  split
  · rfl
  · split <;> rfl

/-! ### Directories that are made, and files that are emptied -/

theorem namesMissing_refill (start : Place) (names : List String) :
    (files.refill place contents).namesMissing start names = files.namesMissing start names := by
  induction names generalizing start with
  | nil => rfl
  | cons name rest ih =>
    rw [namesMissing, namesMissing]
    split
    · exact ih start.dropLast
    · dsimp only
      rw [entryAt_refill]
      cases files.entryAt (start ++ [name]) with
      | none => rfl
      | some entry => exact ih (start ++ [name])

/-- A directory that is made is made beside the file. -/
theorem put_refill {made : Place} (h : files.entryAt made = none) :
    (files.refill place contents).put made .directory = (files.put made .directory).refill place contents := by
  have hroot : made ≠ [] := ne_root_of_entry h nofun
  by_cases hplace : place = made
  · subst hplace
    have hmade : (files.put place .directory).entryAt place = some .directory := by
      rw [entryAt_put files place _ hroot, if_pos (beq_self_eq_true _)]
    rw [refill, h, refill, hmade]
  · have hkept : (files.put made .directory).entryAt place = files.entryAt place := by
      rw [entryAt_put files place _ hroot, beq_false_of_ne hplace]
      rfl
    rw [refill, refill, hkept]
    split
    · next old executable hentry =>
      have hlookup : files.entries.lookup place ≠ none := by
        have hplaceRoot : place ≠ [] := ne_root_of_entry hentry nofun
        rw [entryAt, if_neg (by simpa using hplaceRoot)] at hentry
        rw [hentry]
        nofun
      exact congrArg (Files.mk files.cwd) (Keyed.put_comm files.entries hplace hlookup _ _)
    · rfl

theorem makeAlong_refill (start : Place) (names : List String) :
    (files.refill place contents).makeAlong start names =
      ((files.makeAlong start names).1, (files.makeAlong start names).2.refill place contents) := by
  induction names generalizing start files with
  | nil => rfl
  | cons name rest ih =>
    rw [makeAlong, makeAlong]
    split
    · exact ih files start.dropLast
    · split
      · rfl
      · dsimp only
        rcases hentry : files.entryAt (start ++ [name]) with _ | (_ | ⟨old, executable⟩)
        · rw [none_refill files place contents hentry]
          dsimp only
          rw [put_refill files place contents hentry]
          exact ih (files.put (start ++ [name]) .directory) (start ++ [name])
        · rw [directory_refill files place contents hentry]
          exact ih files (start ++ [name])
        · obtain ⟨new, hnew⟩ := file_refill files place contents hentry
          rw [hnew]

theorem makeDirectories_refill (path : Path) :
    (files.refill place contents).makeDirectories path =
      ((files.makeDirectories path).1, (files.makeDirectories path).2.refill place contents) := by
  rw [makeDirectories, makeDirectories, locate_refill, origin_refill]
  rcases hspot : files.locate path.text with cause | (⟨other, _ | ⟨old, executable⟩⟩ | other)
  · cases cause with
    | noEntry =>
      dsimp only [Except.map]
      rw [namesMissing_refill, makeAlong_refill]
      split
      · rfl
      · rcases files.makeAlong (files.origin path.anchor) path.names with ⟨cause | _, made⟩ <;> rfl
    | _ => rfl
  · rw [Except.map, Spot.refill_directory]
  · obtain ⟨new, hnew⟩ := Spot.refill_file place other contents old executable
    rw [Except.map, hnew]
  · have hvacant : files.entryAt other = none := (place_of_locate hspot).2
    dsimp only [Except.map, Spot.refill]
    rw [put_refill files place contents hvacant]

/-- A file that is emptied holds nothing of what it held before. -/
theorem truncate_refill {text : String} {emptied : Files} (h : files.truncate text = .ok (place, emptied)) :
    (files.refill place contents).truncate text = .ok (place, emptied) := by
  rw [truncate] at h ⊢
  rw [locate_refill]
  split at h
  · cases h
  · next other hspot =>
    obtain ⟨rfl, rfl⟩ := Prod.mk.inj (Except.ok.inj h)
    have hthere : files.entryAt other = none := (place_of_locate hspot).2
    rw [hspot, refill, hthere]
    rfl
  · cases h
  · next other old executable hspot =>
    obtain ⟨rfl, rfl⟩ := Prod.mk.inj (Except.ok.inj h)
    have hthere : files.entryAt other = some (.file old executable) := (place_of_locate hspot).2
    rw [hspot, refill, hthere, Except.map, Spot.refill, if_pos rfl]
    exact congrArg (fun entries => Except.ok (other, Files.mk files.cwd entries))
      (Keyed.put_put files.entries other _ _)

end Files
end SourceTree
