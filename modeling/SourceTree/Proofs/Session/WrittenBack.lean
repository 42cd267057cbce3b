import SourceTree.Proofs.Session.Formats
import SourceTree.Proofs.Session.Inherited

/-!
# Trees that are written back

Whatever a session hands out can be said in JSON, ids that are negative or not there and white space of any
length included: it has been read before, from one format or the other, and what was taken from the store
had been read before that. So the JSON value of the tree is read as the tree again.
-/
namespace SourceTree.Session

theorem ne_absent_of_deserializeAll {calls : List Call} {t : Tree}
    (ht : .ok t ∈ (empty.deserializeAll calls).1) : t ≠ .absent := by
  obtain ⟨front, c, back, -, hc⟩ := exists_call_of_ok ht
  obtain ⟨root, hread, -⟩ := exists_take_of_deserialize (Prod.ext hc rfl)
  exact (take_of_deserialize hread (Prod.ext hc rfl)).2

/-- **Trees that are written back.** A tree that a session hands out after any calls, some of which may
have failed, is read back from every JSON text of its value, in any session, as a tree that is alike it. If
its value is not nested too deep then its payload is such a text. -/
theorem deserialize_written {calls : List Call} {t : Tree}
    (ht : .ok t ∈ (empty.deserializeAll calls).1) :
    (∀ (s : Session) (payload : List UInt8),
      Json.read payload = .ok (Outline.toJson (Outline.ofTree t)) →
      ∃ u s', s.deserialize .json payload = (.ok u, s') ∧ u.Alike t) ∧
    ((Outline.toJson (Outline.ofTree t)).nesting ≤ Json.maxNesting →
      Json.read (t.payload .json) = .ok (Outline.toJson (Outline.ofTree t)) ∧
      ∀ s : Session, ∃ u s', s.deserialize .json (t.payload .json) = (.ok u, s') ∧ u.Alike t) := by
  have hsound : (Outline.ofTree t).Sound := sound_of_deserializeAll ht
  have hback : ∀ (s : Session) (payload : List UInt8),
      Json.read payload = .ok (Outline.toJson (Outline.ofTree t)) →
      ∃ u s', s.deserialize .json payload = (.ok u, s') ∧ u.Alike t := by
    intro s payload hpayload
    have hread : Outline.read .json payload = .ok (Outline.ofTree t) := by
      rw [Outline.read, hpayload]
      exact congrArg Except.ok (hsound.ofJson_toJson (Outline.faults_ofTree t))
    exact deserialize_of_read hread (ne_absent_of_deserializeAll ht)
  refine ⟨hback, ?_⟩
  intro hnested
  have hpayload : Json.read (t.payload .json) = .ok (Outline.toJson (Outline.ofTree t)) :=
    Json.read_encode ⟨hsound.plain_toJson, hnested⟩
  exact ⟨hpayload, fun s => hback s _ hpayload⟩

/-- A name with a negative id that was read before the call failed, in a node without an id. -/
theorem deserialize_written_name :
    let name : Token :=
      ⟨"identifier", "", [⟨"CarriageReturnLineFeed", "\r\n\r\n"⟩], [], .missing, some (-7)⟩
    let failing : Outline := .node "List" .present none [.token name, .reference 5]
    let file : Outline := .node "File" .present none [.reference (-7), .absent]
    let t : Tree := .node "File" .present none [.token 0 name, .absent]
    .ok t ∈ (empty.deserializeAll
        [⟨.json, failing.encode .json⟩, ⟨.json, file.encode .json⟩]).1 ∧
      ∀ s : Session, ∃ u s', s.deserialize .json (t.payload .json) = (.ok u, s') ∧ u.Alike t := by
  intro name failing file t
  have hpiece : Trivia.Sound ⟨"CarriageReturnLineFeed", "\r\n\r\n"⟩ := ⟨2, by decide, by decide⟩
  have hname : name.Sound := by
    refine ⟨?_, ?_, nofun⟩
    · intro n hn
      obtain rfl := Option.some.inj hn
      decide
    · intro piece hmem
      rwa [List.mem_singleton.mp hmem]
  have hreadFailing : Outline.read .json (failing.encode .json) = .ok failing :=
    Outline.Sound.read_encode_json ⟨by decide, nofun, hname, show Json.Short 5 by decide, trivial⟩ rfl
      (by decide)
  have hreadFile : Outline.read .json (file.encode .json) = .ok file :=
    Outline.Sound.read_encode_json ⟨by decide, nofun, show Json.Short (-7) by decide, trivial, trivial⟩
      rfl (by decide)
  have hfailing : (empty.deserialize .json (failing.encode .json)).2 = ⟨[(-7, .token 0 name)], 1⟩ := by
    rw [deserialize, hreadFailing]
    rfl
  have hfile : (Session.deserialize ⟨[(-7, .token 0 name)], 1⟩ .json (file.encode .json)).1 = .ok t := by
    rw [deserialize, hreadFile]
    rfl
  have ht : .ok t ∈ (empty.deserializeAll
      [⟨.json, failing.encode .json⟩, ⟨.json, file.encode .json⟩]).1 := by
    rw [deserializeAll_cons, hfailing, deserializeAll_cons, hfile]
    exact List.mem_cons_of_mem _ List.mem_cons_self
  obtain ⟨-, hwritten⟩ := deserialize_written ht
  exact ⟨ht, (hwritten (by decide)).2⟩

end SourceTree.Session
