import SourceTree.Proofs.Json.Document
import SourceTree.Proofs.Outline.Rearranged
import SourceTree.Session.Basic

/-!
# Sessions and rearranged payloads

Two runs over outlines that agree take the same steps: they remember the same nodes, and where one meets a
fault the other does too. So a payload may be rearranged, up to one thing: an integer that is too long ends
the reading of a text even where nothing is looked up.
-/
namespace SourceTree.Session

open Json (Rearranged)
open Outline (Agrees AllAgree)

/-- Both runs have the same result, or faults of one category, and leave the same session. -/
structure SameEnd {α : Type} (x y : Except Fault α × Session) : Prop where
  result : Agree Eq x.1 y.1
  session : x.2 = y.2

theorem SameEnd.refl {α : Type} (x : Except Fault α × Session) : SameEnd x x := ⟨.refl _, rfl⟩

/-- Where both runs do not fail, they are the same. -/
theorem SameEnd.eq_or_fails {α : Type} {x y : Except Fault α × Session} (h : SameEnd x y) :
    x = y ∨ ∃ cause cause' last, x = (.error cause, last) ∧ y = (.error cause', last) ∧
      cause.category = cause'.category := by
  obtain ⟨x, last⟩ := x
  obtain ⟨y, last'⟩ := y
  obtain ⟨hresult, rfl⟩ := h
  cases hresult with
  | ok h => exact .inl (by rw [h])
  | error h => exact .inr ⟨_, _, _, rfl, rfl, h⟩

mutual

/-- Outlines that agree are taken in with the same end, from the first slot to the first fault. -/
theorem take_agrees (s : Session) : ∀ {o o' : Outline}, Agrees o o' → SameEnd (s.take o) (s.take o')
  | _, _, .same _ => .refl _
  | _, _, .fault h => ⟨.error h, rfl⟩
  | _, _, .node h => by
    rw [take, take]
    rcases (takeAll_agree s h).eq_or_fails with hsame | ⟨cause, cause', last, hx, hy, hcategory⟩
    · rw [hsame]
      exact .refl _
    · rw [hx, hy]
      exact ⟨.error hcategory, rfl⟩

theorem takeAll_agree (s : Session) : ∀ {slots slots' : List Outline}, AllAgree slots slots' →
    SameEnd (s.takeAll slots) (s.takeAll slots')
  | _, _, .nil => .refl _
  | slot :: slots, slot' :: slots', .cons h hrest => by
    rw [takeAll, takeAll]
    rcases (take_agrees s h).eq_or_fails with hsame | ⟨cause, cause', last, hx, hy, hcategory⟩
    · rw [hsame]
      rcases s.take slot' with ⟨cause | tree, mid⟩
      · exact .refl _
      · dsimp only
        rcases (takeAll_agree mid hrest).eq_or_fails with hsame | ⟨cause, cause', last, hx, hy, hcategory⟩
        · rw [hsame]
          exact .refl _
        · rw [hx, hy]
          exact ⟨.error hcategory, rfl⟩
    · rw [hx, hy]
      exact ⟨.error hcategory, rfl⟩

end

/-- An outline that agrees with one at the root of a payload may stand in its place. -/
theorem takeRoot_agrees (s : Session) {o o' : Outline} (h : Agrees o o') :
    SameEnd (s.takeRoot o) (s.takeRoot o') := by
  rw [takeRoot, takeRoot]
  rcases (take_agrees s h).eq_or_fails with hsame | ⟨cause, cause', last, hx, hy, hcategory⟩
  · rw [hsame]
    exact .refl _
  · rw [hx, hy]
    exact ⟨.error hcategory, rfl⟩

/-- The second payload is the first one rearranged: both are read, and the values are rearranged, or both
hold an integer that is too long to be read. -/
inductive Rearranges (payload other : List UInt8) : Prop
  | read {v w : Json} (hv : Json.read payload = .ok v) (hw : Json.read other = .ok w)
      (h : Rearranged .node v w) : Rearranges payload other
  | stopped {digits digits' : Nat} (h : Json.read payload = .error (.longInteger digits))
      (h' : Json.read other = .error (.longInteger digits')) : Rearranges payload other

/-- **Rearranged payloads say the same.** In the same session a payload and the same payload rearranged give
the same tree, or both give none and the faults are of one category; either way they leave the same
session behind. -/
theorem deserialize_rearranged (s : Session) {payload other : List UInt8} (h : Rearranges payload other) :
    (s.deserialize .json payload).2 = (s.deserialize .json other).2 ∧
      ((∃ t, (s.deserialize .json payload).1 = .ok t ∧ (s.deserialize .json other).1 = .ok t) ∨
        ∃ cause cause', (s.deserialize .json payload).1 = .error cause ∧
          (s.deserialize .json other).1 = .error cause' ∧ cause.category = cause'.category) := by
  have hend : SameEnd (s.deserialize .json payload) (s.deserialize .json other) := by
    cases h with
    | read hv hw h =>
      rw [deserialize, deserialize, Outline.read, Outline.read, hv, hw]
      exact takeRoot_agrees s (Outline.ofJson_agrees _ _ h)
    | stopped h h' =>
      rw [deserialize, deserialize, Outline.read, Outline.read, h, h']
      exact ⟨.error rfl, rfl⟩
  refine ⟨hend.session, ?_⟩
  have hresult := hend.result
  generalize (s.deserialize .json payload).1 = x, (s.deserialize .json other).1 = y at hresult ⊢
  cases hresult with
  | ok h => exact .inl ⟨_, rfl, by rw [h]⟩
  | error h => exact .inr ⟨_, _, rfl, rfl, h⟩

/-- A list of nothing, a comma after two spaces and the comma again. In the other payload every object has its
members in the opposite order, and the comma, its kind and its spaces have one more each. -/
theorem deserialize_rearranged_list :
    let space : Json := .obj [("kind", .str "Space"), ("value", .int 2)]
    let space' : Json := .obj [("text", .str "x"), ("value", .int 2), ("kind", .str "Space")]
    let kind : Json := .obj [("kind", .str "comma"), ("text", .null)]
    let kind' : Json := .obj [("value", .int 3), ("text", .null), ("kind", .str "comma")]
    let node : Json := .obj [("id", .int 1), ("tokenKind", kind), ("leadingTrivia", .arr [space])]
    let node' : Json := .obj [("note", .obj []), ("leadingTrivia", .arr [space']), ("tokenKind", kind'),
      ("id", .int 1)]
    let again : Json := .obj [("id", .int 1), ("omitted", .bool true)]
    let again' : Json := .obj [("omitted", .bool true), ("id", .int 1)]
    let list : Json := .obj [("id", .int 2), ("kind", .str "List"), ("layout", .arr [.null, node, again])]
    let other : Json := .obj [("layout", .arr [.null, node', again']), ("kind", .str "List"), ("id", .int 2)]
    let comma : Tree := .token 0 ⟨"comma", ",", [⟨"Space", "  "⟩], [], .present, some 1⟩
    Rearranges (Json.encode list) (Json.encode other) ∧
      (empty.deserialize .json (Json.encode list)).1 =
        .ok (.node "List" .present (some 2) [.absent, comma, comma]) ∧
      (empty.deserialize .json (Json.encode other)).1 =
        .ok (.node "List" .present (some 2) [.absent, comma, comma]) := by
  intro space space' kind kind' node node' again again' list other comma
  have hlist : Json.read (Json.encode list) = .ok list := by
    refine Json.read_encode ⟨?_, by decide⟩
    simp only [list, node, again, kind, space, Json.Plain, Json.PlainMembers, Json.PlainAll]
    decide
  have hother : Json.read (Json.encode other) = .ok other := by
    refine Json.read_encode ⟨?_, by decide⟩
    simp only [other, node', again', kind', space', Json.Plain, Json.PlainMembers, Json.PlainAll]
    decide
  have hspace : Rearranged .piece space space' :=
    .reversed (.refl _) [("text", .str "x")] (by decide) (by decide)
  have hkind : Rearranged .tokenKind kind kind' :=
    .reversed (.refl _) [("value", .int 3)] (by decide) (by decide)
  have hmembers : Json.RearrangedMembers .node
      [("id", .int 1), ("tokenKind", kind), ("leadingTrivia", .arr [space])]
      [("id", .int 1), ("tokenKind", kind'), ("leadingTrivia", .arr [space'])] :=
    .cons (.same _) (.cons hkind (.cons (.arr (.cons hspace .nil)) .nil))
  have hnode : Rearranged .node node node' :=
    .reversed hmembers [("note", .obj [])] (by decide) (by decide)
  have hagain : Rearranged .node again again' := .reversed (.refl _) [] (by decide) (by decide)
  have hslots : Rearranged .slots (.arr [.null, node, again]) (.arr [.null, node', again']) :=
    .arr (.cons (.same .null) (.cons hnode (.cons hagain .nil)))
  have hlisted : Json.RearrangedMembers .node
      [("id", .int 2), ("kind", .str "List"), ("layout", .arr [.null, node, again])]
      [("id", .int 2), ("kind", .str "List"), ("layout", .arr [.null, node', again'])] :=
    .cons (.same _) (.cons (.same _) (.cons hslots .nil))
  have hrearranged : Rearranged .node list other := .reversed hlisted [] (by decide) (by decide)
  have hrearranges : Rearranges (Json.encode list) (Json.encode other) := .read hlist hother hrearranged
  have hfirst : (empty.deserialize .json (Json.encode list)).1 =
      .ok (.node "List" .present (some 2) [.absent, comma, comma]) := by
    rw [deserialize, Outline.read, hlist]
    rfl
  refine ⟨hrearranges, hfirst, ?_⟩
  rcases (deserialize_rearranged empty hrearranges).2 with ⟨t, ht, ht'⟩ | ⟨cause, -, hcause, -, -⟩
  · rw [ht', ← ht, hfirst]
  · rw [hfirst] at hcause
    cases hcause

/-- A comma is read, but not after a member is added that nothing looks up, if that is an integer with too
many digits. -/
theorem not_deserialize_rearranged_long :
    let n : Nat := 10 ^ Json.maxIntegerDigits
    let members : Json.Members := [("id", .int 1), ("tokenKind", .obj [("kind", .str "comma")])]
    let comma : Json := .obj members
    let other : Json := .obj (("x", .int n) :: members)
    Rearranged .node comma other ∧ other.nesting ≤ Json.maxNesting ∧
      (empty.deserialize .json (Json.encode comma)).1 =
        .ok (.token 0 ⟨"comma", ",", [], [], .present, some 1⟩) ∧
      ∃ cause, (empty.deserialize .json (Json.encode other)).1 = .error cause ∧
        cause.category = .value := by
  intro n members comma other
  have hdigits : Json.maxIntegerDigits < (Nat.toDigits 10 n).length := by
    by_contra hshort
    have hlt : n < 10 ^ Json.maxIntegerDigits :=
      (Nat.length_toDigits_le_iff (by decide) (by decide)).mp (Nat.not_lt.mp hshort)
    exact Nat.lt_irrefl _ hlt
  clear_value n
  have hrearranged : Rearranged .node comma other := by
    let added : Json.Members := [("x", .int n)]
    have hadded : ∀ entry ∈ added, Json.Role.node.ignores entry.1 = true := by
      intro entry hmem
      obtain rfl := List.mem_singleton.mp hmem
      exact (by decide : Json.Role.node.ignores "x" = true)
    have hperm : (added ++ members).Perm (members ++ added) := List.perm_append_comm
    have hdistinct : (Keyed.keys (added ++ members)).Nodup :=
      Outline.nodup_names (show ["x", "id", "tokenKind"].Nodup by decide)
    exact .obj (.refl members) hadded hperm hdistinct
  have hread : Json.read (Json.encode comma) = .ok comma := by
    refine Json.read_encode ⟨?_, by decide⟩
    simp only [comma, members, Json.Plain, Json.PlainMembers]
    decide
  have hlong : Json.read (Json.encode other) = .error (.longInteger (Nat.toDigits 10 n).length) :=
    Json.read_encode_long hdigits
      ⟨(by decide : Json.Short 1), ⟨⟨by decide, trivial, trivial⟩, trivial⟩⟩
  refine ⟨hrearranged, ?_, ?_, .integerTooLong (Nat.toDigits 10 n).length, ?_, rfl⟩
  · change max 0 (max 0 (max (max 0 0 + 1) 0)) + 1 ≤ Json.maxNesting
    decide
  · rw [deserialize, Outline.read, hread]
    rfl
  · rw [deserialize, Outline.read, hlong]

end SourceTree.Session
