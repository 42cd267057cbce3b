import SourceTree.Proofs.Session.Taking

/-!
# Serial numbers of new tokens

Every token that is read gets the next serial number. So a tree that is read without references has each of
its tokens in one place only.
-/
namespace SourceTree.Session

/-- Serial numbers that were given out in their order, from `first` on and up to `next`. -/
structure GivenOut (first next : Nat) (serials : List Nat) : Prop where
  le : first ≤ next
  order : serials.Pairwise (· < ·)
  bounds : ∀ n ∈ serials, first ≤ n ∧ n < next

theorem GivenOut.nil {first next : Nat} (h : first ≤ next) : GivenOut first next [] :=
  ⟨h, List.Pairwise.nil, nofun⟩

theorem GivenOut.append {first mid next : Nat} {front back : List Nat} (h : GivenOut first mid front)
    (h' : GivenOut mid next back) : GivenOut first next (front ++ back) := by
  have hmid := h.le
  have hlast := h'.le
  refine ⟨by omega, ?_, ?_⟩
  · rw [List.pairwise_append]
    refine ⟨h.order, h'.order, ?_⟩
    intro m hm n hn
    have hlow := h.bounds m hm
    have hhigh := h'.bounds n hn
    omega
  · intro n hn
    rcases List.mem_append.mp hn with hn | hn
    · have hb := h.bounds n hn
      omega
    · have hb := h'.bounds n hn
      omega

mutual

theorem givenOut_of_take : ∀ {o : Outline} {s s' : Session} {t : Tree}, o.references = [] →
    s.take o = (.ok t, s') →
    GivenOut s.nextSerial s'.nextSerial (t.tokens.map Tree.Occurrence.serial)
  | .absent, _, _, _, _, h => by
    obtain ⟨ht, rfl⟩ := Prod.mk.inj h
    obtain rfl := Except.ok.inj ht
    exact .nil (Nat.le_refl _)
  | .fault _, _, _, _, _, h => nomatch h
  | .reference _, _, _, _, hrefs, _ => nomatch hrefs
  | .token t, s, _, _, _, h => by
    obtain ⟨ht, rfl⟩ := Prod.mk.inj h
    obtain rfl := Except.ok.inj ht
    change GivenOut s.nextSerial (s.nextSerial + 1) ((Tree.token s.nextSerial t).tokens.map _)
    rw [Tree.tokens]
    split
    · exact ⟨Nat.le_succ _, List.pairwise_singleton _ _, by simp⟩
    · exact .nil (Nat.le_succ _)
  | .node kind presence id slots, s, _, _, hrefs, h => by
    obtain ⟨layout, mid, hslots, rfl, rfl⟩ := take_node_ok h
    have hall := givenOut_of_takeAll hrefs hslots
    rw [Tree.tokens]
    split
    · exact hall
    · exact .nil hall.le

theorem givenOut_of_takeAll : ∀ {slots : List Outline} {s s' : Session} {trees : List Tree},
    Outline.referencesOfAll slots = [] → s.takeAll slots = (.ok trees, s') →
    GivenOut s.nextSerial s'.nextSerial ((Tree.tokensOfAll trees).map Tree.Occurrence.serial)
  | [], _, _, _, _, h => by
    obtain ⟨ht, rfl⟩ := Prod.mk.inj h
    obtain rfl := Except.ok.inj ht
    exact .nil (Nat.le_refl _)
  | slot :: rest, _, _, _, hrefs, h => by
    obtain ⟨tree, mid, more, hslot, hrest, rfl⟩ := takeAll_cons_ok h
    obtain ⟨hslotRefs, hrestRefs⟩ := List.append_eq_nil_iff.mp hrefs
    rw [Tree.tokensOfAll, List.map_append]
    exact (givenOut_of_take hslotRefs hslot).append (givenOut_of_takeAll hrestRefs hrest)

end

theorem nodup_serials_of_deserialize {s s' : Session} {format : Format} {payload : List UInt8}
    {root : Outline} {t : Tree} (hread : Outline.read format payload = .ok root)
    (hrefs : root.references = []) (h : s.deserialize format payload = (.ok t, s')) :
    (t.tokens.map Tree.Occurrence.serial).Nodup := by
  obtain ⟨htake, -⟩ := take_of_deserialize hread h
  exact (givenOut_of_take hrefs htake).order.imp Nat.ne_of_lt

end SourceTree.Session
