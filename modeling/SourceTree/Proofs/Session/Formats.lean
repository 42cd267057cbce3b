import SourceTree.Proofs.Outline.Written
import SourceTree.Proofs.Session.Failing
import SourceTree.Proofs.Session.Incremental

/-!
# The two formats

A tree that both formats can say is the same from either of them, except for its tokens without text:
ByteTree has an empty text stand for the one spelling of the kind. That token may be present or
missing, and stand anywhere in the tree.
-/
namespace SourceTree

/-! ### Faults on the way -/

namespace Session

mutual

theorem faults_of_take : ∀ {o : Outline} {s s' : Session} {t : Tree}, s.take o = (.ok t, s') →
    o.faults = []
  | .absent, _, _, _, _ => rfl
  | .fault _, _, _, _, h => nomatch h
  | .reference _, _, _, _, _ => rfl
  | .token _, _, _, _, _ => rfl
  | .node _ _ _ _, _, _, _, h => by
    obtain ⟨layout, mid, hslots, -, -⟩ := take_node_ok h
    exact faultsOfAll_of_takeAll hslots

theorem faultsOfAll_of_takeAll : ∀ {slots : List Outline} {s s' : Session} {trees : List Tree},
    s.takeAll slots = (.ok trees, s') → Outline.faultsOfAll slots = []
  | [], _, _, _, _ => rfl
  | slot :: rest, _, _, _, h => by
    obtain ⟨tree, mid, more, hslot, hrest, -⟩ := takeAll_cons_ok h
    rw [Outline.faultsOfAll, faults_of_take hslot, faultsOfAll_of_takeAll hrest, List.append_nil]

end

/-- Where nothing is left out, it is a fault of the payload that ends the reading. -/
theorem mem_faults_of_take {o : Outline} {s : Session} {cause : Fault} (hrefs : o.references = [])
    (h : (s.take o).1 = .error cause) : cause ∈ o.faults := by
  rcases cause_of_take_error h with hfault | ⟨id, hid, -⟩
  · exact hfault
  · rw [hrefs] at hid
    nomatch hid

end Session

/-! ### Texts that are empty -/

/-- An empty text stands for a spelling of the kind, if there is any. -/
def Token.HasSpelling (t : Token) : Prop := t.text = [] → (Spelling.fixed? t.kind).isSome

/-- The token with the one spelling of its kind if it has no text. -/
def Token.respelled (t : Token) : Token :=
  if t.text = [] then { t with text := (Spelling.fixed? t.kind).getD "" } else t

theorem spelledText_ok {t : Token} (h : t.HasSpelling) :
    (Outline.spelledText t).map (fun text => { t with text }) = .ok t.respelled := by
  unfold Outline.spelledText Token.respelled
  by_cases htext : t.text = []
  · obtain ⟨spelling, hspelling⟩ := Option.isSome_iff_exists.mp (h htext)
    simp only [htext, ↓reduceIte, Outline.fixedText, hspelling]
    rfl
  · simp only [htext, ↓reduceIte]
    rfl

theorem spelledText_error {t : Token} (h : ¬ t.HasSpelling) :
    ∃ cause, Outline.spelledText t = .error cause ∧ cause.isExpected = true := by
  unfold Token.HasSpelling at h
  rw [Classical.not_imp, Option.not_isSome_iff_eq_none] at h
  obtain ⟨htext, hspelling⟩ := h
  simp only [Outline.spelledText, htext, ↓reduceIte, Outline.fixedText, hspelling]
  split
  · exact ⟨_, rfl, rfl⟩
  · exact ⟨_, rfl, rfl⟩

/-- A token is kept if it has a text or its kind has none. -/
theorem respelled_eq_iff {t : Token} (h : t.HasSpelling) :
    t.respelled = t ↔ t.text ≠ [] ∨ Spelling.fixed? t.kind = some "" := by
  unfold Token.respelled
  by_cases htext : t.text = []
  · obtain ⟨spelling, hspelling⟩ := Option.isSome_iff_exists.mp (h htext)
    rw [if_pos htext, hspelling, Option.getD_some]
    constructor
    · intro heq
      have hempty : spelling = "" := Text.ofString_eq_nil_iff.mp ((congrArg Token.text heq).trans htext)
      exact .inr (congrArg some hempty)
    · rintro (hne | hempty)
      · exact absurd htext hne
      · obtain ⟨kind, text, leading, trailing, presence, id⟩ := t
        obtain rfl : text = [] := htext
        rw [Option.some.inj hempty]
        rfl
  · rw [if_neg htext]
    exact ⟨fun _ => .inl htext, fun _ => rfl⟩

namespace Tree

mutual

/-- The tokens of a tree, in their order; those that are missing are among them. -/
def everyToken : Tree → List Token
  | .absent => []
  | .token _ t => [t]
  | .node _ _ _ layout => everyTokenOfAll layout

def everyTokenOfAll : List Tree → List Token
  | [] => []
  | t :: ts => t.everyToken ++ everyTokenOfAll ts

end

mutual

/-- The tree with the one spelling of its kind for every token that has no text. -/
def respelled : Tree → Tree
  | .absent => .absent
  | .token serial t => .token serial t.respelled
  | .node kind presence id layout => .node kind presence id (respelledAll layout)

def respelledAll : List Tree → List Tree
  | [] => []
  | t :: ts => t.respelled :: respelledAll ts

end

mutual

theorem respelled_ofTree : ∀ {t : Tree}, (∀ token ∈ t.everyToken, token.HasSpelling) →
    (Outline.ofTree t).respelled = Outline.ofTree t.respelled
  | .absent, _ => rfl
  | .token _ t, h => by
    have hspelled := spelledText_ok (h t (List.mem_singleton_self t))
    rw [Outline.ofTree, Outline.respelled]
    cases htext : Outline.spelledText t with
    | error cause =>
      rw [htext] at hspelled
      nomatch hspelled
    | ok text =>
      rw [htext] at hspelled
      rw [respelled, Outline.ofTree, ← Except.ok.inj hspelled]
      rfl
  | .node _ _ _ layout, h => by
    rw [Outline.ofTree, Outline.respelled, respelledAll_ofTrees h]
    rfl

theorem respelledAll_ofTrees : ∀ {ts : List Tree},
    (∀ token ∈ everyTokenOfAll ts, token.HasSpelling) →
    Outline.respelledAll (Outline.ofTrees ts) = Outline.ofTrees (respelledAll ts)
  | [], _ => rfl
  | t :: ts, h => by
    rw [Outline.ofTrees, Outline.respelledAll,
      respelled_ofTree fun token htoken => h token (List.mem_append_left _ htoken),
      respelledAll_ofTrees fun token htoken => h token (List.mem_append_right _ htoken)]
    rfl

end

mutual

/-- The faults are those of the tokens that have neither a text nor a spelling. -/
theorem mem_faults_respelled {cause : Fault} : ∀ {t : Tree},
    cause ∈ (Outline.ofTree t).respelled.faults ↔
      ∃ token ∈ t.everyToken, Outline.spelledText token = .error cause
  | .absent => by
    constructor
    · intro h
      nomatch h
    · rintro ⟨_, h, _⟩
      nomatch h
  | .token _ t => by
    have htoken : (∃ token ∈ [t], Outline.spelledText token = .error cause) ↔
        Outline.spelledText t = .error cause := by simp
    rw [everyToken, htoken, Outline.ofTree, Outline.respelled]
    cases Outline.spelledText t with
    | ok text =>
      constructor
      · intro h
        nomatch h
      · intro h
        nomatch h
    | error cause' =>
      constructor
      · intro h
        exact congrArg Except.error (List.mem_singleton.mp h).symm
      · intro h
        rw [Except.error.inj h]
        exact List.mem_singleton_self cause
  | .node _ _ _ layout => mem_faultsOfAll_respelledAll

theorem mem_faultsOfAll_respelledAll {cause : Fault} : ∀ {ts : List Tree},
    cause ∈ Outline.faultsOfAll (Outline.respelledAll (Outline.ofTrees ts)) ↔
      ∃ token ∈ everyTokenOfAll ts, Outline.spelledText token = .error cause
  | [] => by
    constructor
    · intro h
      nomatch h
    · rintro ⟨_, h, _⟩
      nomatch h
  | t :: ts => by
    rw [Outline.ofTrees, Outline.respelledAll, Outline.faultsOfAll, List.mem_append,
      mem_faults_respelled, mem_faultsOfAll_respelledAll, everyTokenOfAll]
    simp only [List.mem_append, or_and_right, exists_or]

end

mutual

theorem respelled_alike_iff : ∀ {t : Tree},
    t.respelled.Alike t ↔ ∀ token ∈ t.everyToken, token.respelled = token
  | .absent => by
    constructor
    · intro _ _ h
      nomatch h
    · intro _
      exact Alike.refl .absent
  | .token serial t => by
    have htoken : (∀ token ∈ [t], token.respelled = token) ↔ t.respelled = t := by simp
    rw [everyToken, htoken]
    exact ⟨Outline.token.inj, congrArg Outline.token⟩
  | .node kind presence id layout => by
    rw [everyToken, ← respelledAll_alike_iff]
    constructor
    · intro h
      exact (Outline.node.inj h).2.2.2
    · intro h
      exact congrArg (Outline.node kind presence id) h

theorem respelledAll_alike_iff : ∀ {ts : List Tree},
    Outline.ofTrees (respelledAll ts) = Outline.ofTrees ts ↔
      ∀ token ∈ everyTokenOfAll ts, token.respelled = token
  | [] => by
    constructor
    · intro _ _ h
      nomatch h
    · intro _
      rfl
  | t :: ts => by
    rw [respelledAll, Outline.ofTrees, Outline.ofTrees, List.cons.injEq, respelledAll_alike_iff,
      everyTokenOfAll]
    change t.respelled.Alike t ∧ _ ↔ _
    rw [respelled_alike_iff]
    simp only [List.mem_append, or_imp, forall_and]

end

end Tree

namespace Outline

mutual

theorem references_respelled : ∀ o : Outline, o.respelled.references = o.references
  | .absent => rfl
  | .fault _ => rfl
  | .reference _ => rfl
  | .token t => by
    rw [respelled]
    cases spelledText t <;> rfl
  | .node _ _ _ slots => referencesOfAll_respelledAll slots

theorem referencesOfAll_respelledAll : ∀ slots : List Outline,
    referencesOfAll (respelledAll slots) = referencesOfAll slots
  | [] => rfl
  | slot :: slots => by
    rw [respelledAll, referencesOfAll, references_respelled slot, referencesOfAll_respelledAll slots,
      referencesOfAll]

end

end Outline

/-! ### Both formats -/

/-- Both formats can say the tree, and neither written form is nested too deep or too large. -/
structure Tree.Transferable (t : Tree) : Prop where
  present : t ≠ .absent
  faithful : (Outline.ofTree t).Faithful
  nested : (Outline.toJson (Outline.ofTree t)).nesting ≤ Json.maxNesting
  fits : ByteTree.Writable (Outline.ofTree t).rootFields

/-- The payload of a tree: all of it, with the text of every token. -/
def Tree.payload (t : Tree) (format : Format) : List UInt8 := (Outline.ofTree t).encode format

namespace Session

variable {t : Tree}

/-- What says all of a tree becomes a tree that is alike it, whatever the session holds. -/
theorem deserialize_of_read {s : Session} {format : Format} {payload : List UInt8}
    (hread : Outline.read format payload = .ok (Outline.ofTree t)) (hpresent : t ≠ .absent) :
    ∃ u s', s.deserialize format payload = (.ok u, s') ∧ u.Alike t := by
  have hnone : (Outline.ofTree t).references = [] := Outline.references_ofTree t
  have hnowhere : ∀ id, id ∉ (Outline.ofTree t).references := by
    rw [hnone]
    intro id h
    nomatch h
  obtain ⟨u, s', htake, halike⟩ := take_of_resolved (s := s)
    (fun id hid => absurd hid (hnowhere id)) (fun id hid => absurd hid (hnowhere id))
    (Outline.resolved_of_references_eq_nil .reference _ hnone)
  exact ⟨u, s', deserialize_of_take hread htake (halike.ne_absent hpresent), halike⟩

/-- A payload with a fault in a place that is read does not give a tree. -/
theorem deserialize_of_faults {s : Session} {format : Format} {payload : List UInt8} {root : Outline}
    (hread : Outline.read format payload = .ok root) (hcomplete : root.references = [])
    (hfaults : root.faults ≠ []) :
    ∃ cause ∈ root.faults, (s.deserialize format payload).1 = .error cause := by
  rcases htake : s.take root with ⟨cause | t, s'⟩
  · have hcause : (s.take root).1 = .error cause := congrArg Prod.fst htake
    exact ⟨cause, mem_faults_of_take hcomplete hcause, deserialize_of_take_error hread hcause⟩
  · exact absurd (faults_of_take htake) hfaults

/-- From ByteTree the tree comes with the spellings put in, if there is one for every empty text. -/
theorem deserialize_byteTree_spelled (h : t.Transferable)
    (hall : ∀ token ∈ t.everyToken, token.HasSpelling) :
    ∃ u s, empty.deserialize .byteTree (t.payload .byteTree) = (.ok u, s) ∧ u.Alike t.respelled := by
  have hread : Outline.read .byteTree (t.payload .byteTree) = .ok (Outline.ofTree t).respelled :=
    Outline.read_encode_byteTree h.faithful h.fits
  rw [Tree.respelled_ofTree hall] at hread
  apply deserialize_of_read hread
  intro hnone
  apply h.present
  cases t with
  | absent => rfl
  | token _ _ => nomatch hnone
  | node _ _ _ _ => nomatch hnone

/-- The fault is that of a token, and so one that is expected. -/
theorem deserialize_byteTree_fault (h : t.Transferable)
    (hsome : ∃ token ∈ t.everyToken, ¬ token.HasSpelling) :
    ∃ cause, (empty.deserialize .byteTree (t.payload .byteTree)).1 = .error cause ∧
      cause.isExpected = true := by
  have hread : Outline.read .byteTree (t.payload .byteTree) = .ok (Outline.ofTree t).respelled :=
    Outline.read_encode_byteTree h.faithful h.fits
  have hcomplete : (Outline.ofTree t).respelled.references = [] := by
    rw [Outline.references_respelled, Outline.references_ofTree]
  obtain ⟨token, htoken, hnone⟩ := hsome
  obtain ⟨cause, hcause, -⟩ := spelledText_error hnone
  have hmem : cause ∈ (Outline.ofTree t).respelled.faults :=
    Tree.mem_faults_respelled.mpr ⟨token, htoken, hcause⟩
  -- the reading ends at the first fault, which may be that of another token
  obtain ⟨first, hfirst, herror⟩ := deserialize_of_faults (s := empty) hread hcomplete
    (List.ne_nil_of_mem hmem)
  obtain ⟨other, -, hother⟩ := Tree.mem_faults_respelled.mp hfirst
  refine ⟨first, herror, ?_⟩
  by_cases hspelling : other.HasSpelling
  · have hok := spelledText_ok hspelling
    rw [hother] at hok
    nomatch hok
  · obtain ⟨cause', hcause', hexpected⟩ := spelledText_error hspelling
    rw [Except.error.inj (hother.symm.trans hcause')]
    exact hexpected

theorem deserialize_byteTree_alike_iff (h : t.Transferable) :
    (∃ u s, empty.deserialize .byteTree (t.payload .byteTree) = (.ok u, s) ∧ u.Alike t) ↔
      ∀ token ∈ t.everyToken, token.text ≠ [] ∨ Spelling.fixed? token.kind = some "" := by
  constructor
  · rintro ⟨u, s, hu, halike⟩
    have hall : ∀ token ∈ t.everyToken, token.HasSpelling := by
      by_contra hsome
      obtain ⟨cause, hcause, -⟩ := deserialize_byteTree_fault h (by simpa using hsome)
      rw [hu] at hcause
      nomatch hcause
    obtain ⟨v, s', hv, hrespelled⟩ := deserialize_byteTree_spelled h hall
    rw [hu] at hv
    obtain rfl : u = v := Except.ok.inj (Prod.mk.inj hv).1
    have hkept : ∀ token ∈ t.everyToken, token.respelled = token :=
      Tree.respelled_alike_iff.mp (hrespelled.symm.trans halike)
    intro token htoken
    exact (respelled_eq_iff (hall token htoken)).mp (hkept token htoken)
  · intro htexts
    have hall : ∀ token ∈ t.everyToken, token.HasSpelling := by
      intro token htoken hempty
      rcases htexts token htoken with hne | hspelling
      · exact absurd hempty hne
      · rw [hspelling]
        rfl
    have hkept : t.respelled.Alike t := by
      apply Tree.respelled_alike_iff.mpr
      intro token htoken
      exact (respelled_eq_iff (hall token htoken)).mpr (htexts token htoken)
    obtain ⟨u, s, hu, halike⟩ := deserialize_byteTree_spelled h hall
    exact ⟨u, s, hu, halike.trans hkept⟩

/-- **The two formats agree up to texts that are empty.** A tree that both formats can say is read
back from any JSON text of its JSON value. From ByteTree it is read back exactly if every token, be it
present or missing, has a text or is of a kind whose one spelling is empty. If a token has neither a
text nor a spelling then ByteTree gives a fault, and one that is expected of a bad payload; otherwise
it gives the tree with those spellings put in. -/
theorem deserialize_payload (h : t.Transferable) :
    Json.read (t.payload .json) = .ok (Outline.toJson (Outline.ofTree t)) ∧
    (∀ payload, Json.read payload = .ok (Outline.toJson (Outline.ofTree t)) →
      ∃ u s, empty.deserialize .json payload = (.ok u, s) ∧ u.Alike t) ∧
    ((∃ u s, empty.deserialize .byteTree (t.payload .byteTree) = (.ok u, s) ∧ u.Alike t) ↔
      ∀ token ∈ t.everyToken, token.text ≠ [] ∨ Spelling.fixed? token.kind = some "") ∧
    ((∃ token ∈ t.everyToken, token.text = [] ∧ Spelling.fixed? token.kind = none) →
      ∃ cause, (empty.deserialize .byteTree (t.payload .byteTree)).1 = .error cause ∧
        cause.isExpected = true) ∧
    ((∀ token ∈ t.everyToken, token.text = [] → (Spelling.fixed? token.kind).isSome) →
      ∃ u s, empty.deserialize .byteTree (t.payload .byteTree) = (.ok u, s) ∧
        u.Alike t.respelled) := by
  have hjson : Json.read (t.payload .json) = .ok (Outline.toJson (Outline.ofTree t)) :=
    Json.read_encode ⟨Outline.plain_toJson h.faithful, h.nested⟩
  refine ⟨hjson, ?_, deserialize_byteTree_alike_iff h, ?_, deserialize_byteTree_spelled h⟩
  · intro payload hpayload
    have hread : Outline.read .json payload = .ok (Outline.ofTree t) := by
      rw [Outline.read, hpayload]
      exact congrArg Except.ok (Outline.ofJson_toJson h.faithful)
    exact deserialize_of_read hread h.present
  · rintro ⟨token, htoken, hempty, hnone⟩
    apply deserialize_byteTree_fault h
    refine ⟨token, htoken, ?_⟩
    intro hspelling
    have hsome := hspelling hempty
    rw [hnone] at hsome
    cases hsome

/-- A comma that is missing and has no text, in a node beside an empty slot: JSON keeps it, ByteTree
spells it. -/
theorem deserialize_payload_comma :
    let t : Tree := .node "A" .present (some 2)
      [.token 0 ⟨"comma", "", [⟨"Space", "  "⟩], [⟨"LineComment", "//"⟩], .missing, some 1⟩, .absent]
    t.Transferable ∧
      (∃ u s, empty.deserialize .json (t.payload .json) = (.ok u, s) ∧ u.Alike t) ∧
      (∃ u s, empty.deserialize .byteTree (t.payload .byteTree) = (.ok u, s) ∧
        u.Alike t.respelled) ∧ ¬ t.respelled.Alike t := by
  intro t
  have ht : t.Transferable := by
    have hspace : Trivia.Faithful ⟨"Space", "  "⟩ := ⟨2, by decide, by decide⟩
    have hcomment : Trivia.Faithful ⟨"LineComment", "//"⟩ :=
      ⟨show "LineComment" ∈ Trivia.textKinds by decide, rfl⟩
    have hcomma : Token.Faithful
        ⟨"comma", "", [⟨"Space", "  "⟩], [⟨"LineComment", "//"⟩], .missing, some 1⟩ := by
      refine ⟨⟨1, by decide, rfl⟩, rfl, rfl, ?_, ?_⟩
      · intro piece hpiece
        rwa [List.mem_singleton.mp hpiece]
      · intro piece hpiece
        rwa [List.mem_singleton.mp hpiece]
    refine ⟨nofun, ⟨by decide, ⟨2, by decide, rfl⟩, hcomma, trivial, trivial⟩, by decide, by decide⟩
  obtain ⟨hread, hjson, -, -, hbytes⟩ := deserialize_payload ht
  refine ⟨ht, hjson _ hread, hbytes ?_, ?_⟩
  · intro token htoken _
    obtain rfl := List.mem_singleton.mp htoken
    decide
  · intro h
    have hkept := Tree.respelled_alike_iff.mp h _ (List.mem_singleton_self _)
    exact absurd (congrArg Token.text hkept) (by decide)

end Session
end SourceTree
