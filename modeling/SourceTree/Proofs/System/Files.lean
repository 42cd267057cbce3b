import SourceTree.Proofs.System.Path

/-!
# Places that are written to

The place that a path leads to is a matter of its names alone, as long as it leads somewhere. So it can
be said beforehand which file is written and which directories are made, and every other place stays as
it is. What was written under a path is what is read under it.
-/
namespace SourceTree

namespace Spot

def place : Spot → Place
  | taken place _ => place
  | vacant place => place

/-- What stands in the spot. -/
def found? : Spot → Option Entry
  | taken _ entry => some entry
  | vacant _ => none

end Spot

namespace Files

/-! ### Names and the places they lead to -/

/-- The place that a name leads to from another one, whatever is there. -/
def step (place : Place) (name : String) : Place :=
  if name == "." then place else if name == ".." then place.dropLast else place ++ [name]

/-- The place that names lead to, one after the other. -/
def placeOf (place : Place) (names : List String) : Place := names.foldl step place

/-- The place that the spelling of a path leads to. -/
def target (files : Files) (text : String) : Place :=
  placeOf (files.origin (Path.anchorOf text.toList)) (namesOf text)

variable {files files' : Files} {place : Place} {spot : Spot} {text : String}

/-- Where a path leads from is all that counts of the files. -/
theorem target_of_cwd (h : files'.cwd = files.cwd) (text : String) : files'.target text = files.target text := by
  rw [target, target]
  cases Path.anchorOf text.toList <;> simp [origin, h]

theorem entryAt_root : files.entryAt [] = some .directory := rfl

theorem walk_cons (name : String) (rest : List String) (h : files.entryAt place = some .directory) :
    files.walk place (name :: rest) =
      if name == "." then files.walk place rest
      else if name == ".." then files.walk place.dropLast rest
      else if maxName < name.utf8ByteSize then .error .nameTooLong
      else if (files.entryAt (place ++ [name])).isSome then files.walk (place ++ [name]) rest
      else if rest.isEmpty then .ok (.vacant (place ++ [name]))
      else .error .noEntry := by
  rw [walk, h]
  dsimp only
  cases files.entryAt (place ++ [name]) with
  | some entry => rfl
  | none => cases rest <;> rfl

/-- A walk goes on from directories only. -/
theorem directory_of_walk {name : String} {rest : List String}
    (h : files.walk place (name :: rest) = .ok spot) : files.entryAt place = some .directory := by
  rw [walk] at h
  split at h
  · cases h
  · cases h
  · assumption

/-- A walk that leads somewhere leads to the place of its names, and says what stands there. -/
theorem place_of_walk {names : List String} (h : files.walk place names = .ok spot) :
    spot.place = placeOf place names ∧ files.entryAt spot.place = spot.found? := by
  induction names generalizing place with
  | nil =>
    rw [walk] at h
    split at h
    · next entry hentry =>
      obtain rfl := Except.ok.inj h
      exact ⟨rfl, hentry⟩
    · cases h
  | cons name rest ih =>
    rw [walk_cons name rest (directory_of_walk h)] at h
    rw [placeOf, List.foldl_cons, step]
    split at h
    · next hdot =>
      rw [if_pos hdot]
      exact ih h
    · next hdot =>
      rw [if_neg hdot]
      split at h
      · next hparent =>
        rw [if_pos hparent]
        exact ih h
      · next hparent =>
        rw [if_neg hparent]
        split at h
        · cases h
        · split at h
          · exact ih h
          · next hvacant =>
            split at h
            · next hlast =>
              obtain rfl := List.isEmpty_iff.mp hlast
              obtain rfl := Except.ok.inj h
              exact ⟨rfl, Option.not_isSome_iff_eq_none.mp hvacant⟩
            · cases h

theorem walk_of_locate (h : files.locate text = .ok spot) :
    files.walk (files.origin (Path.anchorOf text.toList)) (namesOf text) = .ok spot := by
  rw [locate] at h
  split at h
  · cases h
  · split at h
    · cases h
    · exact h

theorem place_of_locate (h : files.locate text = .ok spot) :
    spot.place = files.target text ∧ files.entryAt spot.place = spot.found? :=
  place_of_walk (walk_of_locate h)

/-! ### A file in the place of another one, or where there was nothing -/

theorem ne_root_of_entry {entry : Option Entry} (h : files.entryAt place = entry)
    (hentry : entry ≠ some .directory) : place ≠ [] := by
  rintro rfl
  exact hentry (h.symm.trans entryAt_root)

/-- Where a walk leads, it still leads after a file was put there. -/
theorem walk_put {names : List String} (contents : Bytes) (executable : Bool)
    (hspot : spot.found? ≠ some .directory) (h : files.walk place names = .ok spot) :
    (files.put spot.place (.file contents executable)).walk place names =
      .ok (.taken spot.place (.file contents executable)) := by
  have hroot : spot.place ≠ [] := ne_root_of_entry (place_of_walk h).2 hspot
  have hhere : (files.put spot.place (.file contents executable)).entryAt spot.place =
      some (.file contents executable) := by
    rw [entryAt_put files spot.place _ hroot, if_pos (beq_self_eq_true _)]
  induction names generalizing place with
  | nil =>
    have hplace : place = spot.place := (place_of_walk h).1.symm
    rw [walk, hplace, hhere]
  | cons name rest ih =>
    have hdirectory := directory_of_walk h
    have hne : place ≠ spot.place := by
      rintro rfl
      exact hspot ((place_of_walk h).2.symm.trans hdirectory)
    have hkept : (files.put spot.place (.file contents executable)).entryAt place = some .directory := by
      rw [entryAt_put files place _ hroot, beq_false_of_ne hne]
      exact hdirectory
    rw [walk_cons name rest hdirectory] at h
    rw [walk_cons name rest hkept]
    split at h
    · next hdot =>
      rw [if_pos hdot]
      exact ih h
    · next hdot =>
      rw [if_neg hdot]
      split at h
      · next hparent =>
        rw [if_pos hparent]
        exact ih h
      · next hparent =>
        rw [if_neg hparent]
        split at h
        · cases h
        · next hsize =>
          rw [if_neg hsize]
          -- the next place is the one that is put in, or it is there as it was
          by_cases hnext : place ++ [name] = spot.place
          · rw [hnext, hhere, Option.isSome_some, if_pos rfl]
            split at h
            · exact ih (hnext ▸ h)
            · split at h
              · next hlast =>
                obtain rfl := List.isEmpty_iff.mp hlast
                rw [walk, hhere]
              · cases h
          · rw [entryAt_put files (place ++ [name]) _ hroot, beq_false_of_ne hnext, if_neg Bool.false_ne_true]
            split at h
            · next hthere =>
              rw [if_pos hthere]
              exact ih h
            · split at h
              · obtain rfl := Except.ok.inj h
                exact absurd rfl hnext
              · cases h

theorem locate_put (contents : Bytes) (executable : Bool) (hspot : spot.found? ≠ some .directory)
    (h : files.locate text = .ok spot) :
    (files.put spot.place (.file contents executable)).locate text =
      .ok (.taken spot.place (.file contents executable)) := by
  have hwalk := walk_put contents executable hspot (walk_of_locate h)
  rw [locate] at h ⊢
  split at h
  · cases h
  · next hlength =>
    rw [if_neg hlength]
    split at h
    · cases h
    · next hempty =>
      rw [if_neg hempty]
      exact hwalk

/-! ### Files that are written -/

/-- All places but those of one kind are as they were. -/
structure SameOutside (places : Place → Prop) (files files' : Files) : Prop where
  cwd : files'.cwd = files.cwd
  entries : ∀ place, ¬ places place → files'.entryAt place = files.entryAt place

section

variable {places : Place → Prop}

theorem SameOutside.refl (places : Place → Prop) (files : Files) : SameOutside places files files :=
  ⟨rfl, fun _ _ => rfl⟩

theorem SameOutside.trans {last : Files} (h : SameOutside places files files')
    (h' : SameOutside places files' last) : SameOutside places files last :=
  ⟨h'.cwd.trans h.cwd, fun place hplace => (h'.entries place hplace).trans (h.entries place hplace)⟩

theorem SameOutside.mono {more : Place → Prop} (h : SameOutside places files files')
    (hmore : ∀ place, places place → more place) : SameOutside more files files' :=
  ⟨h.cwd, fun place hplace => h.entries place fun hmem => hplace (hmore place hmem)⟩

theorem sameOutside_put (files : Files) (entry : Entry) (hroot : place ≠ []) (hplace : places place) :
    SameOutside places files (files.put place entry) := by
  refine ⟨rfl, fun other hother => ?_⟩
  have hne : other ≠ place := fun heq => hother (heq ▸ hplace)
  rw [entryAt_put files other entry hroot, beq_false_of_ne hne]
  rfl

theorem sameOutside_writeAt (files : Files) (offset : Nat) (bytes : Bytes) (hplace : places place) :
    SameOutside places files (files.writeAt place offset bytes) := by
  rw [writeAt]
  split
  · next contents executable hentry =>
    exact sameOutside_put files _ (ne_root_of_entry hentry nofun) hplace
  · exact .refl places files

end

/-- A file is emptied where its path leads. -/
theorem truncate_ok (h : files.truncate text = .ok (place, files')) :
    ∃ spot executable, files.locate text = .ok spot ∧ spot.found? ≠ some .directory ∧
      place = spot.place ∧ files' = files.put place (.file [] executable) := by
  rw [truncate] at h
  split at h
  · cases h
  · next hspot =>
    obtain ⟨rfl, rfl⟩ := Prod.mk.inj (Except.ok.inj h)
    exact ⟨_, false, hspot, nofun, rfl, rfl⟩
  · cases h
  · next executable hspot =>
    obtain ⟨rfl, rfl⟩ := Prod.mk.inj (Except.ok.inj h)
    exact ⟨_, executable, hspot, nofun, rfl, rfl⟩

theorem sameOutside_truncate (h : files.truncate text = .ok (place, files')) :
    place = files.target text ∧ SameOutside (· = place) files files' := by
  obtain ⟨spot, executable, hspot, hentry, rfl, rfl⟩ := truncate_ok h
  obtain ⟨hplace, hthere⟩ := place_of_locate hspot
  exact ⟨hplace, sameOutside_put files _ (ne_root_of_entry hthere hentry) rfl⟩

theorem read_of_locate {contents : Bytes} {executable : Bool}
    (h : files.locate text = .ok (.taken place (.file contents executable))) :
    files.read text = .ok contents := by
  rw [read, h]

theorem overwrite_nil (bytes : Bytes) : overwrite [] 0 bytes = bytes := by
  simp [overwrite]

/-- What is written under a path is then read under it, and all other places are as they were. -/
theorem write_ok {bytes : Bytes} (h : files.write text bytes = .ok files') :
    files'.read text = .ok bytes ∧ SameOutside (· = files.target text) files files' := by
  rw [write] at h
  split at h
  · next place emptied htruncate =>
    obtain rfl := Except.ok.inj h
    obtain ⟨hplace, hsame⟩ := sameOutside_truncate htruncate
    refine ⟨?_, hplace ▸ hsame.trans (sameOutside_writeAt emptied 0 bytes rfl)⟩
    obtain ⟨spot, executable, hspot, hentry, rfl, rfl⟩ := truncate_ok htruncate
    have hroot : spot.place ≠ [] := ne_root_of_entry (place_of_locate hspot).2 hentry
    have hemptied : (files.put spot.place (.file [] executable)).entryAt spot.place =
        some (.file [] executable) := by
      rw [entryAt_put files spot.place _ hroot, if_pos (beq_self_eq_true _)]
    have hwritten := locate_put bytes executable
      (nofun : (Spot.taken spot.place (.file [] executable)).found? ≠ some .directory)
      (locate_put [] executable hentry hspot)
    rw [writeAt, hemptied]
    dsimp only
    rw [overwrite_nil]
    exact read_of_locate hwritten
  · cases h

/-- A file can be written if it can be emptied. -/
theorem write_ok_iff {bytes : Bytes} :
    (∃ files', files.write text bytes = .ok files') ↔ ∃ spot, files.truncate text = .ok spot := by
  rw [write]
  cases files.truncate text <;> simp

/-! ### Directories that are made -/

/-- Directories were made in places of one kind, where nothing was before; all else is as it was. -/
structure Extended (made : Place → Prop) (files files' : Files) : Prop where
  cwd : files'.cwd = files.cwd
  entries : ∀ place, files'.entryAt place = files.entryAt place ∨
    made place ∧ files.entryAt place = none ∧ files'.entryAt place = some .directory

variable {made : Place → Prop}

theorem Extended.refl (made : Place → Prop) (files : Files) : Extended made files files :=
  ⟨rfl, fun _ => .inl rfl⟩

theorem Extended.trans {last : Files} (h : Extended made files files')
    (h' : Extended made files' last) : Extended made files last := by
  refine ⟨h'.cwd.trans h.cwd, fun place => ?_⟩
  rcases h'.entries place with hsame | ⟨hmade, hnone, hdirectory⟩
  · rw [hsame]
    exact h.entries place
  · rcases h.entries place with hsame | ⟨-, -, hbefore⟩
    · exact .inr ⟨hmade, hsame ▸ hnone, hdirectory⟩
    · rw [hnone] at hbefore
      cases hbefore

theorem extended_put (hmade : made place) (h : files.entryAt place = none) :
    Extended made files (files.put place .directory) := by
  have hroot : place ≠ [] := ne_root_of_entry h nofun
  refine ⟨rfl, fun other => ?_⟩
  by_cases hother : other = place
  · subst hother
    exact .inr ⟨hmade, h, by rw [entryAt_put files other _ hroot, if_pos (beq_self_eq_true _)]⟩
  · have hsame : SameOutside (· = place) files (files.put place .directory) :=
      sameOutside_put files _ hroot rfl
    exact .inl (hsame.entries other hother)

theorem extended_makeAlong {names : List String} (hdots : "." ∉ names)
    (hmade : ∀ n, made (placeOf place (names.take n))) :
    Extended made files (files.makeAlong place names).2 := by
  induction names generalizing place files with
  | nil => exact .refl made files
  | cons name rest ih =>
    have hname : (name == ".") = false := beq_false_of_ne fun heq => hdots (heq ▸ List.mem_cons_self)
    have hrest : "." ∉ rest := fun hmem => hdots (List.mem_cons_of_mem _ hmem)
    have hlater : ∀ n, made (placeOf (step place name) (rest.take n)) := fun n => hmade (n + 1)
    rw [makeAlong]
    rw [step, hname, if_neg Bool.false_ne_true] at hlater
    split
    · next hparent =>
      rw [if_pos hparent] at hlater
      exact ih hrest hlater
    · next hparent =>
      rw [if_neg hparent] at hlater
      split
      · exact .refl made files
      · dsimp only
        split
        · exact ih hrest hlater
        · exact .refl made files
        · next hnone => exact (extended_put (hlater 0) hnone).trans (ih hrest hlater)

/-- The directories that are made for a path are those that it leads through. -/
theorem extended_makeDirectories {path : Path} (hproper : path.Proper) (hdots : "." ∉ path.names)
    (files : Files) :
    Extended (fun place => ∃ n, place = placeOf (files.origin path.anchor) (path.names.take n)) files
      (files.makeDirectories path).2 := by
  rw [makeDirectories]
  split
  · exact .refl _ files
  · exact .refl _ files
  · next place hvacant =>
    obtain ⟨hplace, hnone⟩ := place_of_locate hvacant
    refine extended_put ?_ hnone
    change place = files.target path.text at hplace
    by_cases hdot : path.names = [] ∧ path.anchor = .relative
    · refine ⟨0, ?_⟩
      rw [hplace, target, Path.text_dot hdot.1 hdot.2, hdot.2]
      rfl
    · refine ⟨path.names.length, ?_⟩
      rw [hplace, target, hproper.anchorOf_text, hproper.namesOf_text (not_and_or.mp hdot),
        List.take_length]
  · dsimp only
    split
    · exact .refl _ files
    · have hmade : Extended (fun place => ∃ n, place = placeOf (files.origin path.anchor) (path.names.take n))
          files (files.makeAlong (files.origin path.anchor) path.names).2 :=
        extended_makeAlong hdots fun n => ⟨n, rfl⟩
      split
      · next heq =>
        rw [heq] at hmade
        exact hmade
      · next heq =>
        rw [heq] at hmade
        exact hmade
  · exact .refl _ files

end Files

namespace Path

theorem Proper.parent {p : Path} (h : p.Proper) : p.parent.Proper :=
  ⟨fun name hname => h.nonempty name (List.dropLast_subset _ hname),
    fun name hname => h.slashless name (List.dropLast_subset _ hname)⟩

theorem dot_notMem_ofString (text : String) : "." ∉ (ofString text).names := by
  intro hmem
  have hdot := (List.mem_filter.mp hmem).2
  revert hdot
  decide

end Path
end SourceTree
