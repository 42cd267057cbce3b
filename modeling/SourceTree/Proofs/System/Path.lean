import Mathlib.Algebra.GroupWithZero.Nat
import Mathlib.Algebra.Order.BigOperators.Group.List
import Mathlib.Algebra.Order.Group.Nat
import SourceTree.System.Program

/-!
# Short spellings of paths

A path goes to the system in its shortest spelling. That spelling is not longer than any other one, and
where some spelling of a path leads, there the shortest one leads too.
-/
namespace SourceTree

/-! ### Texts and their pieces -/

namespace Text

theorem pieces_eq_splitOn (separator : Char) (text : List Char) :
    pieces separator text = text.splitOn separator := by
  induction text with
  | nil => rfl
  | cons c rest ih =>
    rw [pieces, List.splitOn_cons_eq_if_modifyHead, ← ih]
    split
    · rfl
    · cases hpieces : pieces separator rest with
      | nil => exact absurd hpieces (pieces_ne_nil separator rest)
      | cons piece more => rfl

theorem separator_notMem_pieces {separator : Char} {text piece : List Char}
    (h : piece ∈ pieces separator text) : separator ∉ piece := by
  induction text generalizing piece with
  | nil =>
    obtain rfl := List.mem_singleton.mp h
    exact List.not_mem_nil
  | cons c rest ih =>
    rw [pieces] at h
    split at h
    · rcases List.mem_cons.mp h with rfl | hrest
      · exact List.not_mem_nil
      · exact ih hrest
    · next hc =>
      have hne : separator ≠ c := by
        rintro rfl
        exact hc (beq_self_eq_true _)
      cases hpieces : pieces separator rest with
      | nil => exact absurd hpieces (pieces_ne_nil separator rest)
      | cons first more =>
        simp only [hpieces] at h ih
        rcases List.mem_cons.mp h with rfl | hmore
        · exact List.not_mem_cons_of_ne_of_not_mem hne (ih List.mem_cons_self)
        · exact ih (List.mem_cons_of_mem _ hmore)

theorem intercalate_split (text : String) : "/".intercalate (split '/' text) = text := by
  apply String.ext
  have hpieces : (split '/' text).map String.toList = text.toList.splitOn '/' := by
    rw [split, List.map_map, ← pieces_eq_splitOn]
    exact List.map_id'' (fun _ => String.toList_ofList) _
  rw [String.toList_intercalate, hpieces]
  exact List.intercalate_splitOn '/'

theorem split_intercalate {names : List String} (hne : names ≠ [])
    (h : ∀ name ∈ names, '/' ∉ name.toList) : split '/' ("/".intercalate names) = names := by
  have hlists : names.map String.toList ≠ [] := fun hnil => hne (List.map_eq_nil_iff.mp hnil)
  have hsplit : (['/'].intercalate (names.map String.toList)).splitOn '/' = names.map String.toList :=
    List.splitOn_intercalate '/' (List.forall_mem_map.mpr h) hlists
  rw [split, pieces_eq_splitOn, String.toList_intercalate]
  change List.map _ ((['/'].intercalate _).splitOn '/') = _
  rw [hsplit, List.map_map]
  exact List.map_id'' (fun _ => String.ofList_toList) _

theorem utf8ByteSize_intercalate (names : List String) :
    ("/".intercalate names).utf8ByteSize = (names.map String.utf8ByteSize).sum + (names.length - 1) := by
  induction names with
  | nil => rfl
  | cons name rest ih =>
    cases rest with
    | nil => simp
    | cons next more =>
      rw [String.intercalate_cons_cons, String.utf8ByteSize_append, String.utf8ByteSize_append, ih]
      have hslash : "/".utf8ByteSize = 1 := rfl
      simp only [List.map_cons, List.sum_cons, List.length_cons, hslash]
      omega

/-- Fewer names make a shorter text. -/
theorem utf8ByteSize_intercalate_le {names more : List String} (h : names.Sublist more) :
    ("/".intercalate names).utf8ByteSize ≤ ("/".intercalate more).utf8ByteSize := by
  have hsum := (h.map String.utf8ByteSize).sum_le_sum fun _ _ => Nat.zero_le _
  have hlength := h.length_le
  rw [utf8ByteSize_intercalate, utf8ByteSize_intercalate]
  omega

end Text

/-! ### Paths and their spellings -/

theorem namesOf_slash (text : String) : namesOf ("/" ++ text) = namesOf text := by
  have hpieces : Text.pieces '/' ("/" ++ text).toList = [] :: Text.pieces '/' text.toList := by
    rw [String.toList_append]
    rfl
  rw [namesOf, Text.split, hpieces, List.map_cons, List.filter_cons_of_neg (by decide)]
  rfl

theorem namesOf_anchor (anchor : Anchor) (text : String) :
    namesOf (anchor.text ++ text) = namesOf text := by
  cases anchor with
  | relative => rw [Anchor.text, String.empty_append]
  | root => exact namesOf_slash text
  | doubleRoot =>
    have hslashes : Anchor.text .doubleRoot ++ text = "/" ++ ("/" ++ text) := by
      rw [← String.append_assoc]
      rfl
    rw [hslashes, namesOf_slash, namesOf_slash]

/-- A text that is not empty and has no slash in front has a name. -/
theorem namesOf_ne_nil {text : String} (h : text ≠ "") (hanchor : Path.anchorOf text.toList = .relative) :
    namesOf text ≠ [] := by
  rw [namesOf, Text.split]
  cases hchars : text.toList with
  | nil => exact absurd (String.toList_eq_nil_iff.mp hchars) h
  | cons c rest =>
    have hc : (c == '/') = false := by
      apply beq_false_of_ne
      rintro rfl
      rw [hchars, Path.anchorOf.eq_def] at hanchor
      split at hanchor <;> simp_all
    rw [Text.pieces, hc, if_neg Bool.false_ne_true]
    cases Text.pieces '/' rest with
    | nil => simp
    | cons piece more => simp

namespace Path

/-- A text begins with the anchor of its path. -/
theorem exists_eq_anchor (text : String) : ∃ rest, text = (anchorOf text.toList).text ++ rest := by
  have hlist : ∀ chars : List Char, ∃ rest, chars = (anchorOf chars).text.toList ++ rest := by
    intro chars
    unfold anchorOf
    split <;> exact ⟨_, rfl⟩
  obtain ⟨rest, hrest⟩ := hlist text.toList
  refine ⟨String.ofList rest, String.ext ?_⟩
  rw [String.toList_append, String.toList_ofList]
  exact hrest

/-- The names of a path are what names can be. -/
structure Proper (p : Path) : Prop where
  nonempty : ∀ name ∈ p.names, name ≠ ""
  slashless : ∀ name ∈ p.names, '/' ∉ name.toList

theorem proper_ofString (text : String) : (ofString text).Proper := by
  constructor
  · intro name hname
    obtain ⟨hmem, -⟩ := List.mem_filter.mp hname
    exact ne_of_apply_ne (· != "") (by simpa using (List.mem_filter.mp hmem).2)
  · intro name hname
    obtain ⟨hmem, -⟩ := List.mem_filter.mp hname
    obtain ⟨hsplit, -⟩ := List.mem_filter.mp hmem
    obtain ⟨piece, hpiece, rfl⟩ := List.mem_map.mp hsplit
    rw [String.toList_ofList]
    exact Text.separator_notMem_pieces hpiece

section

variable {p : Path}

/-- A path without names that starts from nowhere is spelled by a dot. -/
theorem text_dot (hnames : p.names = []) (hanchor : p.anchor = .relative) : p.text = "." := by
  rw [text, hnames, hanchor]
  rfl

theorem text_eq (h : p.names ≠ [] ∨ p.anchor ≠ .relative) :
    p.text = p.anchor.text ++ "/".intercalate p.names := by
  rw [text, if_neg]
  simp only [Bool.and_eq_true, List.isEmpty_iff, beq_iff_eq, not_and_or]
  exact h

theorem Proper.namesOf_intercalate (h : p.Proper) : namesOf ("/".intercalate p.names) = p.names := by
  by_cases hnames : p.names = []
  · rw [hnames]
    rfl
  · rw [namesOf, Text.split_intercalate hnames h.slashless, List.filter_eq_self]
    intro name hname
    exact bne_iff_ne.mpr (h.nonempty name hname)

/-- No name begins with a slash, so the slashes in front are those of the anchor. -/
theorem anchorOf_append (anchor : Anchor) {rest : List Char} (h : rest.head? ≠ some '/') :
    anchorOf (anchor.text.toList ++ rest) = anchor := by
  cases rest with
  | nil => cases anchor <;> rfl
  | cons c rest =>
    have hc : c ≠ '/' := fun hslash => h (congrArg some hslash)
    cases anchor <;> simp [Anchor.text, anchorOf, hc]

theorem Proper.head?_intercalate (h : p.Proper) :
    ("/".intercalate p.names).toList.head? ≠ some '/' := by
  cases hnames : p.names with
  | nil => nofun
  | cons name rest =>
    have hmem : name ∈ p.names := by
      rw [hnames]
      exact List.mem_cons_self
    have hslashless := h.slashless name hmem
    have hchars : name.toList ≠ [] := fun hnil => h.nonempty name hmem (String.toList_eq_nil_iff.mp hnil)
    obtain ⟨c, chars, hname⟩ := List.exists_cons_of_ne_nil hchars
    have hhead : ("/".intercalate (name :: rest)).toList.head? = some c := by
      cases rest <;> simp [hname]
    rw [hhead]
    intro hc
    rw [hname, Option.some.inj hc] at hslashless
    exact hslashless List.mem_cons_self

/-- The shortest spelling starts where the path starts. -/
theorem Proper.anchorOf_text (h : p.Proper) : anchorOf p.text.toList = p.anchor := by
  by_cases hdot : p.names = [] ∧ p.anchor = .relative
  · rw [text_dot hdot.1 hdot.2, hdot.2]
    rfl
  · rw [text_eq (not_and_or.mp hdot), String.toList_append]
    exact anchorOf_append p.anchor h.head?_intercalate

/-- The shortest spelling has the names of the path. -/
theorem Proper.namesOf_text (h : p.Proper) (hnames : p.names ≠ [] ∨ p.anchor ≠ .relative) :
    namesOf p.text = p.names := by
  rw [text_eq hnames, namesOf_anchor, h.namesOf_intercalate]

theorem Proper.text_ne_empty (h : p.Proper) : p.text ≠ "" := by
  intro hempty
  have hanchor := h.anchorOf_text
  rw [hempty] at hanchor
  by_cases hnames : p.names = []
  · rw [text_dot hnames hanchor.symm] at hempty
    revert hempty
    decide
  · have hnone := h.namesOf_text (.inl hnames)
    rw [hempty] at hnone
    exact hnames hnone.symm

end

/-- No spelling of a path is shorter. -/
theorem utf8ByteSize_text_le {text : String} (h : text ≠ "") :
    (ofString text).text.utf8ByteSize ≤ text.utf8ByteSize := by
  by_cases hdot : (ofString text).names = [] ∧ (ofString text).anchor = .relative
  · rw [text_dot hdot.1 hdot.2]
    have hsize : text.utf8ByteSize ≠ 0 := fun hzero => h (String.utf8ByteSize_eq_zero_iff.mp hzero)
    exact Nat.one_le_iff_ne_zero.mpr hsize
  · obtain ⟨rest, hrest⟩ := exists_eq_anchor text
    have hnames : (ofString text).names.Sublist (Text.split '/' rest) := by
      have hsame : namesOf text = namesOf rest := by
        rw [hrest, namesOf_anchor]
      change List.Sublist ((namesOf text).filter _) _
      rw [hsame]
      exact List.filter_sublist.trans List.filter_sublist
    have hshort := Text.utf8ByteSize_intercalate_le hnames
    rw [Text.intercalate_split] at hshort
    rw [text_eq (not_and_or.mp hdot), String.utf8ByteSize_append]
    calc (ofString text).anchor.text.utf8ByteSize + ("/".intercalate (ofString text).names).utf8ByteSize
        ≤ (ofString text).anchor.text.utf8ByteSize + rest.utf8ByteSize := Nat.add_le_add_left hshort _
      _ = ((anchorOf text.toList).text ++ rest).utf8ByteSize := String.utf8ByteSize_append.symm
      _ = text.utf8ByteSize := by rw [← hrest]

end Path

/-! ### Where spellings lead -/

namespace Files

variable {files : Files} {spot : Spot}

/-- A walk that ends somewhere ends there without the dots too. -/
theorem walk_filter_dots {names : List String} : ∀ {place : Place},
    files.walk place names = .ok spot → files.walk place (names.filter (· != ".")) = .ok spot := by
  induction names with
  | nil => exact id
  | cons name rest ih =>
    intro place h
    rw [walk] at h
    split at h
    · nomatch h
    · nomatch h
    · next hdirectory =>
      by_cases hdot : name = "."
      · subst hdot
        exact ih h
      · have hname : (name == ".") = false := beq_false_of_ne hdot
        rw [List.filter_cons_of_pos (by simpa using hdot), walk, hdirectory]
        simp only [hname, Bool.false_eq_true, if_false] at h ⊢
        split at h
        · next hparent =>
          rw [if_pos hparent]
          exact ih h
        · next hparent =>
          rw [if_neg hparent]
          split at h
          · nomatch h
          · next hsize =>
            rw [if_neg hsize]
            cases hnext : files.entryAt (place ++ [name]) with
            | some entry =>
              simp only [hnext] at h ⊢
              exact ih h
            | none =>
              simp only [hnext] at h ⊢
              cases rest with
              | nil => exact h
              | cons next more => nomatch h

/-- Names that are all dots are walked along as a single dot is. -/
theorem walk_dot {place : Place} {names : List String} (hnames : names ≠ [])
    (hdots : names.filter (· != ".") = []) (h : files.walk place names = .ok spot) :
    files.walk place ["."] = .ok spot := by
  have hend := walk_filter_dots h
  rw [hdots] at hend
  cases names with
  | nil => exact absurd rfl hnames
  | cons name rest =>
    rw [walk] at h
    split at h
    · nomatch h
    · nomatch h
    · next hdirectory =>
      rw [walk, hdirectory]
      exact hend

/-- Where a spelling of a path leads, the shortest one leads too. -/
theorem locate_text {v : String} (h : files.locate v = .ok spot) :
    files.locate (Path.ofString v).text = .ok spot := by
  have hproper := Path.proper_ofString v
  rw [locate] at h
  split at h
  · nomatch h
  · next hlength =>
    split at h
    · nomatch h
    · next hempty =>
      have hv : v ≠ "" := fun heq => hempty (beq_iff_eq.mpr heq)
      have hshort : ¬ maxPath < (Path.ofString v).text.utf8ByteSize :=
        Nat.not_lt.mpr (Nat.le_trans (Path.utf8ByteSize_text_le hv) (Nat.not_lt.mp hlength))
      have hgiven : ((Path.ofString v).text == "") = false := beq_false_of_ne hproper.text_ne_empty
      rw [locate, if_neg hshort, hgiven, if_neg Bool.false_ne_true, hproper.anchorOf_text]
      by_cases hdot : (Path.ofString v).names = [] ∧ (Path.ofString v).anchor = .relative
      · have hdotted : namesOf (Path.ofString v).text = ["."] := by
          rw [Path.text_dot hdot.1 hdot.2]
          decide
        rw [hdotted]
        exact walk_dot (namesOf_ne_nil hv hdot.2) hdot.1 h
      · rw [hproper.namesOf_text (not_and_or.mp hdot)]
        exact walk_filter_dots h

/-! ### Programs that are started -/

variable {programs : Programs} {arguments : List String}

/-- The program that a path leads to is started under the shortest spelling as under any other. -/
theorem start_text {v : String} (h : files.locate v = .ok spot) :
    files.start programs arguments (Path.ofString v).text = files.start programs arguments v := by
  rw [start, start, locate_text h, h]

/-- Of several spellings the first one under which a program starts is the one it is started under. -/
theorem startFirst_ok_iff {kept : SystemError} {texts : List String} {ending : Ending} :
    files.startFirst programs arguments kept texts = .ok ending ↔
      ∃ before text after, texts = before ++ text :: after ∧
        files.start programs arguments text = .ok ending ∧
        ∀ earlier ∈ before, ∃ e, files.start programs arguments earlier = .error e := by
  induction texts generalizing kept with
  | nil => simp [startFirst]
  | cons first rest ih =>
    rw [startFirst]
    cases hfirst : files.start programs arguments first with
    | ok found =>
      simp only [Except.ok.injEq]
      constructor
      · rintro rfl
        exact ⟨[], first, rest, rfl, hfirst, nofun⟩
      · rintro ⟨before, text, after, htexts, htext, hbefore⟩
        cases before with
        | nil =>
          obtain ⟨rfl, -⟩ := List.cons.inj htexts
          exact Except.ok.inj (hfirst.symm.trans htext)
        | cons other before =>
          obtain ⟨rfl, -⟩ := List.cons.inj htexts
          obtain ⟨e, he⟩ := hbefore first List.mem_cons_self
          rw [hfirst] at he
          nomatch he
    | error e =>
      simp only [ih]
      constructor
      · rintro ⟨before, text, after, rfl, htext, hbefore⟩
        exact ⟨first :: before, text, after, rfl, htext, List.forall_mem_cons.mpr ⟨⟨e, hfirst⟩, hbefore⟩⟩
      · rintro ⟨before, text, after, htexts, htext, hbefore⟩
        cases before with
        | nil =>
          obtain ⟨rfl, -⟩ := List.cons.inj htexts
          rw [hfirst] at htext
          nomatch htext
        | cons other before =>
          obtain ⟨-, rfl⟩ := List.cons.inj htexts
          exact ⟨before, text, after, rfl, htext, (List.forall_mem_cons.mp hbefore).2⟩

end Files
end SourceTree
