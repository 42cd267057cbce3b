import SourceTree.Proofs.Outline.Abridged
import SourceTree.Proofs.Outline.Written
import SourceTree.Proofs.Session.Taking

/-!
# Incremental transfer

A session that has read one payload may be sent the next one without the nodes that it has already:
what it makes of the short payload is what a new session makes of the full one. The session holds
every node of the first tree under its id, and reading the short payload does not touch the ids that
the payload refers to, so each reference still finds what it stands for when its turn comes.
-/
namespace SourceTree

/-- In a new session the outline becomes a tree that is alike the node of `p` with this id. -/
def StandsFor (p : Tree) (o : Outline) (id : Int) : Prop :=
  ∃ path t, (p.follow path).id = some id ∧ (Session.empty.take o).1 = .ok t ∧
    t.Alike (p.follow path)

namespace Session

variable {s s' : Session}

/-- Every node of the first tree stands for what it says, and goes on doing so in the session that
has read it. -/
theorem holds_of_standsFor {first : Outline} {p : Tree} (hrefs : first.references = [])
    (hdistinct : first.freshIds.Nodup) (h : s.take first = (.ok p, s')) {o : Outline} {id : Int}
    (hcomplete : o.references = []) (hstands : StandsFor p o id) : s'.Holds id o := by
  obtain ⟨path, t, hid, htake, halike⟩ := hstands
  have hmeans : Outline.ofTree t = o := ofTree_of_take hcomplete (Prod.ext htake rfl)
  have hfound : s'.store.find? id = some (p.follow path) := find?_of_take hrefs hdistinct h hid
  exact ⟨p.follow path, hfound, Eq.trans halike.symm hmeans⟩

/-- What the session holds under an id; a reference to it if it holds nothing. -/
def standing (s : Session) (id : Int) : Outline :=
  ((s.store.find? id).map Outline.ofTree).getD (.reference id)

theorem standing_of_holds {id : Int} {o : Outline} (h : s.Holds id o) : s.standing id = o := by
  obtain ⟨held, hfound, hmeans⟩ := h
  rw [standing, hfound]
  exact hmeans

/-- **Incremental transfer is transparent.** After a payload that is complete and gives no id twice, a
second payload may leave out whatever stands in the first one, as long as it does not itself bring an
id that it refers to: it is read, and gives a tree that is alike the one of the full second payload in
a new session. So the source text, every walk and the node structure are the same. -/
theorem deserialize_abridged {format format' : Format} {first full short : List UInt8}
    {root whole part : Outline} {p f : Tree} {s₁ : Session}
    (hfirst : Outline.read format first = .ok root)
    (hfirstRefs : root.references = []) (hdistinct : root.freshIds.Nodup)
    (hp : empty.deserialize format first = (.ok p, s₁))
    (hfull : Outline.read format' full = .ok whole) (hfullRefs : whole.references = [])
    (hf : (empty.deserialize format' full).1 = .ok f)
    (hshort : Outline.read format' short = .ok part)
    (habridges : Outline.Abridges (StandsFor p) format' full short)
    (hapart : ∀ id ∈ part.references, id ∉ part.freshIds) :
    ∃ q s₂, s₁.deserialize format' short = (.ok q, s₂) ∧ q.Alike f ∧
      q.renderSource = f.renderSource ∧ q.renderStructure = f.renderStructure ∧
      ∀ skips, (q.renderEvents skips).map (List.map Event.unnumbered) =
        (f.renderEvents skips).map (List.map Event.unnumbered) := by
  obtain ⟨whole', part', hfull', hshort', habridged⟩ := Outline.read_of_abridges habridges
  obtain rfl : whole = whole' := Except.ok.inj (hfull.symm.trans hfull')
  obtain rfl : part = part' := Except.ok.inj (hshort.symm.trans hshort')
  obtain ⟨htakeFirst, -⟩ := take_of_deserialize hfirst hp
  obtain ⟨htakeFull, hpresent⟩ := take_of_deserialize hfull (Prod.ext hf rfl)
  have hmeans : Outline.ofTree f = whole := ofTree_of_take hfullRefs htakeFull
  -- what each reference stands for is what the session holds before the short payload is read
  have hheld : ∀ o id, o.references = [] → StandsFor p o id → s₁.Holds id o :=
    fun o id => holds_of_standsFor hfirstRefs hdistinct htakeFirst
  obtain ⟨hresolved, hstands⟩ := habridged.resolved
    (fun o id hrefs h => standing_of_holds (hheld o id hrefs h)) hfullRefs
  have hholds : ∀ id ∈ part.references, s₁.Holds id (s₁.standing id) := by
    intro id hid
    obtain ⟨o, hrefs, h⟩ := hstands id hid
    have ho := hheld o id hrefs h
    rw [standing_of_holds ho]
    exact ho
  obtain ⟨q, s₂, htake, halike⟩ := take_of_resolved hholds hapart (hresolved.trans hmeans.symm)
  exact ⟨q, s₂, deserialize_of_take hshort htake (halike.ne_absent hpresent), halike,
    halike.renderSource, halike.renderStructure, halike.renderEvents⟩

/-- A list that came as ByteTree, with its comma, is left out of a JSON payload that puts it into a
new node. -/
theorem deserialize_abridged_list :
    let comma : Token := ⟨"comma", ",", [], [], .present, some 1⟩
    let first : Outline := .node "List" .present (some 2) [.token comma]
    let full : Outline := .node "File" .present (some 3) [first, .absent]
    let short : Outline := .node "File" .present (some 3) [.reference 2, .absent]
    let s₁ : Session := (empty.deserialize .byteTree (first.encode .byteTree)).2
    ∃ f q s₂, (empty.deserialize .json (full.encode .json)).1 = .ok f ∧
      s₁.deserialize .json (short.encode .json) = (.ok q, s₂) ∧ q.Alike f ∧
      q.renderSource = f.renderSource ∧ q.renderSource = .ok "," := by
  intro comma first full short s₁
  have hid : ∀ n : Nat, n < 2 ^ 32 → HasWordId (some (n : Int)) := fun n hn => ⟨n, hn, rfl⟩
  have hcomma : comma.Faithful := ⟨hid 1 (by decide), rfl, rfl, nofun, nofun⟩
  have hfirst : first.Faithful := ⟨by decide, hid 2 (by decide), hcomma, trivial⟩
  have hfull : full.Faithful := ⟨by decide, hid 3 (by decide), hfirst, trivial, trivial⟩
  have hshort : short.Faithful := ⟨by decide, hid 3 (by decide), hid 2 (by decide), trivial, trivial⟩
  have hreadFirst : Outline.read .byteTree (first.encode .byteTree) = .ok first :=
    Outline.read_encode_byteTree hfirst (by decide)
  have hreadFull : Outline.read .json (full.encode .json) = .ok full :=
    Outline.read_encode_json hfull (by decide)
  have hreadShort : Outline.read .json (short.encode .json) = .ok short :=
    Outline.read_encode_json hshort (by decide)
  have hp : (empty.deserialize .byteTree (first.encode .byteTree)).1 =
      .ok (.node "List" .present (some 2) [.token 0 comma]) :=
    congrArg Prod.fst (deserialize_of_take hreadFirst rfl nofun)
  have hf : (empty.deserialize .json (full.encode .json)).1 = .ok (.node "File" .present (some 3)
      [.node "List" .present (some 2) [.token 0 comma], .absent]) :=
    congrArg Prod.fst (deserialize_of_take hreadFull rfl nofun)
  have hstands : StandsFor (.node "List" .present (some 2) [.token 0 comma])
      (Outline.ofJson (Outline.toJson first)) 2 := by
    rw [Outline.ofJson_toJson hfirst]
    exact ⟨[], .node "List" .present (some 2) [.token 0 comma], rfl, rfl, rfl⟩
  have habridges : Outline.Abridges (StandsFor (.node "List" .present (some 2) [.token 0 comma]))
      .json (full.encode .json) (short.encode .json) := by
    refine ⟨Outline.toJson full, Outline.toJson short,
      Json.read_encode ⟨Outline.plain_toJson hfull, by decide⟩,
      Json.read_encode ⟨Outline.plain_toJson hshort, by decide⟩, ?_⟩
    exact @Json.Abridged.within _ [("id", .int 3), ("kind", .str "File")]
      [("presence", Outline.presenceToJson .present)] _ _ (by decide)
      (.cons (.leftOut hstands rfl) (.cons (.kept _) .nil))
  obtain ⟨q, s₂, hq, halike, hsource, -, -⟩ := deserialize_abridged hreadFirst rfl (by decide)
    (Prod.ext hp rfl) hreadFull rfl hf hreadShort habridges (by decide)
  exact ⟨_, q, s₂, hf, hq, halike, hsource, hsource⟩

end Session
end SourceTree
