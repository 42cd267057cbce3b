import SourceTree.Proofs.Outline.Grammar
import SourceTree.Proofs.Session.Inherited
import SourceTree.Proofs.Tree.Places
import SourceTree.Text.Blank

/-!
# Kinds of nodes

The kinds of the nodes that a session hands out are words, but for the line break that may end one. A word
is all letters, digits and underscores: its tags have no blanks in them, and if it looks like the kind of an
unknown node then it is that kind. Neither is so of a word with a line break after it, which is taken for a
known kind whatever the word is.
-/
namespace SourceTree

/-- A letter or underscore and then letters, digits and underscores. -/
def IsWord (kind : String) : Prop :=
  ∃ first rest, kind.toList = first :: rest ∧ Outline.isKindStart first = true ∧
    ∀ c ∈ rest, Outline.isKindRest c = true

/-- To someone who sees only some characters the kind is that of an unknown node. -/
def LooksUnknown (seen : Char → Bool) (kind : String) : Prop :=
  ∃ unknown ∈ Tree.unknownKinds, kind.toList.filter seen = unknown.toList

/-! ### Words -/

section

variable {kind : String}

theorem isKindRest_of_isKindStart {c : Char} (h : Outline.isKindStart c = true) :
    Outline.isKindRest c = true := by
  simp only [Outline.isKindStart, Outline.isKindRest, Char.isAlphanum, Bool.or_eq_true] at h ⊢
  rcases h with h | h
  · exact .inl (.inl h)
  · exact .inr h

theorem IsWord.isKindRest (h : IsWord kind) {c : Char} (hc : c ∈ kind.toList) :
    Outline.isKindRest c = true := by
  obtain ⟨first, rest, hkind, hfirst, hrest⟩ := h
  rw [hkind] at hc
  rcases List.mem_cons.mp hc with rfl | hc
  · exact isKindRest_of_isKindStart hfirst
  · exact hrest c hc

/-- A kind is a word, or a word and a line break. -/
theorem isWord_or_of_isKind (h : Outline.isKind kind = true) :
    IsWord kind ∨ ∃ word, IsWord word ∧ kind = word ++ "\n" := by
  obtain ⟨first, rest, ending, hkind, hfirst, hrest, rfl | rfl⟩ := Outline.isKind_iff.mp h
  · rw [List.append_nil] at hkind
    exact .inl ⟨first, rest, hkind, hfirst, hrest⟩
  · refine .inr ⟨String.ofList (first :: rest), ⟨first, rest, String.toList_ofList, hfirst, hrest⟩, ?_⟩
    rw [← String.toList_inj, hkind, String.toList_append, String.toList_ofList]
    rfl

theorem isKindRest_or_of_isKind (h : Outline.isKind kind = true) {c : Char} (hc : c ∈ kind.toList) :
    Outline.isKindRest c = true ∨ c = '\n' := by
  rcases isWord_or_of_isKind h with hword | ⟨word, hword, rfl⟩
  · exact .inl (hword.isKindRest hc)
  · rw [String.toList_append, List.mem_append] at hc
    rcases hc with hc | hline
    · exact .inl (hword.isKindRest hc)
    · exact .inr (List.mem_singleton.mp hline)

theorem IsWord.getLast?_ne (h : IsWord kind) : kind.toList.getLast? ≠ some '\n' := by
  intro hlast
  exact absurd (h.isKindRest (List.mem_of_getLast? hlast)) (by decide)

theorem getLast?_append_newline (word : String) : (word ++ "\n").toList.getLast? = some '\n' := by
  simp [String.toList_append]

/-- No blank is a letter, a digit or an underscore. -/
theorem isBlank_of_isKindRest {c : Char} (h : Outline.isKindRest c = true) : Text.isBlank c = false := by
  have hcode : (48 ≤ c.toNat ∧ c.toNat ≤ 57) ∨ (65 ≤ c.toNat ∧ c.toNat ≤ 90) ∨ c.toNat = 95 ∨
      (97 ≤ c.toNat ∧ c.toNat ≤ 122) := by
    rcases Bool.or_eq_true_iff.mp h with halphanum | hline
    · rcases Bool.or_eq_true_iff.mp halphanum with halpha | hdigit
      · rcases Bool.or_eq_true_iff.mp halpha with hupper | hlower
        · obtain ⟨hlow, hhigh⟩ : 65 ≤ c.val ∧ c.val ≤ 90 := of_decide_eq_true hupper
          exact .inr (.inl ⟨hlow, hhigh⟩)
        · obtain ⟨hlow, hhigh⟩ := Bool.and_eq_true_iff.mp hlower
          exact .inr (.inr (.inr ⟨of_decide_eq_true hlow, of_decide_eq_true hhigh⟩))
      · obtain ⟨hlow, hhigh⟩ := Bool.and_eq_true_iff.mp hdigit
        exact .inl ⟨of_decide_eq_true hlow, of_decide_eq_true hhigh⟩
    · obtain rfl : c = '_' := beq_iff_eq.mp hline
      exact .inr (.inr (.inl rfl))
  simp [Text.isBlank]
  omega

theorem IsWord.mem_of_looksUnknown (h : IsWord kind) {seen : Char → Bool}
    (hseen : ∀ c, Outline.isKindRest c = true → seen c = true) (hlooks : LooksUnknown seen kind) :
    kind ∈ Tree.unknownKinds := by
  obtain ⟨unknown, hmem, hkind⟩ := hlooks
  have hall : kind.toList.filter seen = kind.toList :=
    List.filter_eq_self.mpr fun c hc => hseen c (h.isKindRest hc)
  rw [hall] at hkind
  rwa [String.toList_inj.mp hkind]

/-- The tags are the kind between what opens a tag and the ending of the name. -/
theorem structureStep_eq {step : Event} (h : step = .enter kind ∨ step = .leave kind) :
    ∃ opening : String, (opening = "<" ∨ opening = "</") ∧
      Markup.structureStep step = Text.ofString (opening ++ kind ++ "Syntax>") := by
  have hname : ∀ opening : String,
      Text.ofString opening ++ Text.ofString (Tree.nodeName kind) ++ Text.ofString ">" =
        Text.ofString (opening ++ kind ++ "Syntax>") := by
    intro opening
    rw [← Text.ofString_append, ← Text.ofString_append, Tree.nodeName, String.append_assoc,
      String.append_assoc, String.append_assoc]
    rfl
  rcases h with rfl | rfl
  · exact ⟨"<", .inl rfl, hname "<"⟩
  · exact ⟨"</", .inr rfl, hname "</"⟩

theorem IsWord.isBlank_tag (h : IsWord kind) {step : Event}
    (hstep : step = .enter kind ∨ step = .leave kind) {code : Code} (hcode : code ∈ Markup.structureStep step) :
    ∃ c, code = .char c ∧ Text.isBlank c = false := by
  obtain ⟨opening, hopening, htag⟩ := structureStep_eq hstep
  have hfront : opening.toList.all (fun c => !Text.isBlank c) = true := by
    rcases hopening with rfl | rfl <;> decide
  have hending : "Syntax>".toList.all (fun c => !Text.isBlank c) = true := by decide
  rw [htag] at hcode
  obtain ⟨c, hc, rfl⟩ := List.mem_map.mp hcode
  refine ⟨c, rfl, ?_⟩
  rw [String.toList_append, String.toList_append, List.mem_append, List.mem_append] at hc
  rcases hc with (hc | hc) | hc
  · simpa using List.all_eq_true.mp hfront c hc
  · exact isBlank_of_isKindRest (h.isKindRest hc)
  · simpa using List.all_eq_true.mp hending c hc

theorem newline_mem_tag (word : String) {step : Event}
    (hstep : step = .enter (word ++ "\n") ∨ step = .leave (word ++ "\n")) :
    .char '\n' ∈ Markup.structureStep step := by
  obtain ⟨opening, -, htag⟩ := structureStep_eq hstep
  rw [htag]
  apply List.mem_map_of_mem
  simp [String.toList_append]

/-- No kind of an unknown node ends in a line break. -/
theorem append_newline_notMem_unknownKinds (word : String) : word ++ "\n" ∉ Tree.unknownKinds := by
  intro hmem
  have hlast : ∀ unknown ∈ Tree.unknownKinds, unknown.toList.getLast? ≠ some '\n' := by decide
  exact hlast _ hmem (getLast?_append_newline word)

end

namespace Session

/-- **Kinds of nodes.** A node in a tree that a session hands out, wherever it came from, has a word as its
kind, or a word and a line break. It is a word exactly if there is no line break at its end. Then there are
no blanks in the tags of the node, and if the kind looks like that of an unknown node to someone who sees
all letters, digits and underscores, then the node counts as unknown. But with the line break there is a
blank in the tags, and the node does not count as unknown even if the word is the kind of an unknown node. -/
theorem kind_of_deserializeAll {calls : List Call} {t : Tree} (ht : .ok t ∈ (empty.deserializeAll calls).1)
    {path : List Nat} {kind : String} {presence : Presence} {id : Option Int} {layout : List Tree}
    (hnode : t.follow path = .node kind presence id layout) :
    (IsWord kind ∨ ∃ word, IsWord word ∧ kind = word ++ "\n") ∧
    (IsWord kind ↔ kind.toList.getLast? ≠ some '\n') ∧
    (IsWord kind →
      (∀ step, step = .enter kind ∨ step = .leave kind →
        ∀ code ∈ Markup.structureStep step, ∃ c, code = .char c ∧ Text.isBlank c = false) ∧
      ∀ seen : Char → Bool, (∀ c, Outline.isKindRest c = true → seen c = true) →
        LooksUnknown seen kind → (t.follow path).isUnknown = true) ∧
    (¬ IsWord kind →
      (∀ step, step = .enter kind ∨ step = .leave kind →
        ∃ c, .char c ∈ Markup.structureStep step ∧ Text.isBlank c = true) ∧
      (t.follow path).isUnknown = false) := by
  have hsound : (Outline.ofTree (t.follow path)).Sound :=
    Outline.sound_ofTree_follow (sound_of_deserializeAll ht)
  rw [hnode] at hsound
  have hkind := isWord_or_of_isKind hsound.1
  refine ⟨hkind, ?_, ?_, ?_⟩
  · constructor
    · exact IsWord.getLast?_ne
    · intro hlast
      rcases hkind with hword | ⟨word, -, rfl⟩
      · exact hword
      · exact absurd (getLast?_append_newline word) hlast
  · intro hword
    refine ⟨fun step hstep code hcode => hword.isBlank_tag hstep hcode, ?_⟩
    intro seen hseen hlooks
    rw [hnode, Tree.isUnknown]
    exact List.contains_iff_mem.mpr (hword.mem_of_looksUnknown hseen hlooks)
  · intro hnot
    obtain hword | ⟨word, -, rfl⟩ := hkind
    · exact absurd hword hnot
    · refine ⟨fun step hstep => ⟨'\n', newline_mem_tag word hstep, rfl⟩, ?_⟩
      rw [hnode, Tree.isUnknown]
      simpa using append_newline_notMem_unknownKinds word

/-- A payload with a line break at the end of the kind of an unknown node gives a node that does not count as
unknown. -/
theorem kind_of_deserializeAll_newline :
    let payload : List UInt8 := Outline.encode (.node "Unknown\n" .present (some 1) []) .json
    let t : Tree := .node "Unknown\n" .present (some 1) []
    .ok t ∈ (empty.deserializeAll [⟨.json, payload⟩]).1 ∧
      LooksUnknown (fun c => c != '\n') "Unknown\n" ∧ ¬ IsWord "Unknown\n" ∧ t.isUnknown = false ∧
      t.renderStructure = .ok "<Unknown\nSyntax></Unknown\nSyntax>" := by
  intro payload t
  have hread : Outline.read .json payload = .ok (.node "Unknown\n" .present (some 1) []) :=
    Outline.read_encode_json ⟨by decide, hasWordId 1 (by decide), trivial⟩ (by decide)
  have ht : .ok t ∈ (empty.deserializeAll [⟨.json, payload⟩]).1 := by
    rw [deserializeAll_cons, deserialize, hread]
    exact List.mem_cons_self
  have hroot : t.follow [] = .node "Unknown\n" .present (some 1) [] := rfl
  obtain ⟨-, hword, -, hnot⟩ := kind_of_deserializeAll ht hroot
  have hnoWord : ¬ IsWord "Unknown\n" := fun h => hword.mp h (by decide)
  exact ⟨ht, ⟨"Unknown", by decide, by decide⟩, hnoWord, (hnot hnoWord).2, by decide⟩

end Session
end SourceTree
