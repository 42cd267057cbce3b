import SourceTree.Proofs.Json.Scalar
import SourceTree.Proofs.Text.Utf8

/-!
# Written JSON documents

A value whose numbers are integers is read back from its bytes, provided that no object gives a name
twice, no integer is too long and nothing is nested too deep. The value is followed through the text up
to a comma or a closing bracket, so the same lemma serves at the top, in arrays and in objects.
-/
namespace SourceTree.Json

/-! ### What is read back -/

mutual

/-- There are no numbers with a point, no integers that are too long, and no names that come twice. -/
def Plain : Json → Prop
  | .null => True
  | .bool _ => True
  | .int n => (Nat.toDigits 10 n.natAbs).length ≤ maxIntegerDigits
  | .float _ => False
  | .str _ => True
  | .arr items => PlainAll items
  | .obj members => (Keyed.keys members).Nodup ∧ PlainMembers members

def PlainAll : List Json → Prop
  | [] => True
  | item :: items => item.Plain ∧ PlainAll items

def PlainMembers : List (Text × Json) → Prop
  | [] => True
  | (_, value) :: members => value.Plain ∧ PlainMembers members

end

mutual

/-- How many arrays and objects are open at a time. -/
def nesting : Json → Nat
  | .null => 0
  | .bool _ => 0
  | .int _ => 0
  | .float _ => 0
  | .str _ => 0
  | .arr items => nestingOfAll items + 1
  | .obj members => nestingOfMembers members + 1

def nestingOfAll : List Json → Nat
  | [] => 0
  | item :: items => max item.nesting (nestingOfAll items)

def nestingOfMembers : List (Text × Json) → Nat
  | [] => 0
  | (_, value) :: members => max value.nesting (nestingOfMembers members)

end

/-- The written form of the value is faithful. -/
structure Writable (v : Json) : Prop where
  plain : v.Plain
  nested : v.nesting ≤ maxNesting

/-! ### Text -/

theorem closed_writtenItems (items : List Json) (rest : Text) :
    Closed (writtenItems items ++ rest) := by
  intro code more h
  cases items with
  | nil => exact .inr (.inl (List.cons.inj h).1.symm)
  | cons item items => exact .inl (List.cons.inj h).1.symm

theorem closed_writtenMembers (members : List (Text × Json)) (rest : Text) :
    Closed (writtenMembers members ++ rest) := by
  intro code more h
  cases members with
  | nil => exact .inr (.inr (List.cons.inj h).1.symm)
  | cons member members => exact .inl (List.cons.inj h).1.symm

theorem writtenInt_front (n : Int) :
    ∃ c more, writtenInt n = c :: more ∧ isSpace (.char c) = false ∧ c ≠ ']' := by
  obtain ⟨c, more, hwritten, hc⟩ := writtenInt_eq_cons n
  refine ⟨c, more, hwritten, ?_⟩
  rcases hc with rfl | hc
  · exact ⟨rfl, by decide⟩
  · have hne : ∀ d : Char, d.isDigit = false → (c == d) = false :=
      fun d hd => beq_false_of_ne (isDigit_ne hc hd)
    exact ⟨by simp [isSpace, hne], isDigit_ne hc rfl⟩

/-- A written value begins with no space and with no closing bracket. -/
theorem written_eq_cons {v : Json} (h : v.Plain) :
    ∃ c more, v.written = .char c :: more ∧ isSpace (.char c) = false ∧ c ≠ ']' := by
  match v, h with
  | .null, _ => exact ⟨_, _, rfl, rfl, by decide⟩
  | .bool true, _ => exact ⟨_, _, rfl, rfl, by decide⟩
  | .bool false, _ => exact ⟨_, _, rfl, rfl, by decide⟩
  | .str _, _ => exact ⟨_, _, rfl, rfl, by decide⟩
  | .arr [], _ => exact ⟨_, _, rfl, rfl, by decide⟩
  | .arr (_ :: _), _ => exact ⟨_, _, rfl, rfl, by decide⟩
  | .obj [], _ => exact ⟨_, _, rfl, rfl, by decide⟩
  | .obj ((_, _) :: _), _ => exact ⟨_, _, rfl, rfl, by decide⟩
  | .int n, _ =>
    obtain ⟨c, more, hwritten, hc⟩ := writtenInt_front n
    exact ⟨c, Text.ofChars more, by rw [written, hwritten, Text.ofChars_cons], hc⟩

/-- Space in front is skipped, up to what is none. -/
theorem skipSpace_blank {code : Code} (h : isSpace code = false) (rest : Text) :
    skipSpace (code :: rest) = code :: rest ∧ skipSpace (.char ' ' :: code :: rest) = code :: rest := by
  have hstop : skipSpace (code :: rest) = code :: rest := by
    rw [skipSpace, List.dropWhile_cons_of_neg (by rw [h]; decide)]
  have hblank : skipSpace (.char ' ' :: code :: rest) = skipSpace (code :: rest) := rfl
  rw [hblank]
  exact ⟨hstop, hstop⟩

theorem skipSpace_written {v : Json} (h : v.Plain) (rest : Text) :
    skipSpace (v.written ++ rest) = v.written ++ rest ∧
      skipSpace (.char ' ' :: (v.written ++ rest)) = v.written ++ rest := by
  obtain ⟨c, more, hwritten, hspace, -⟩ := written_eq_cons h
  rw [hwritten, List.cons_append]
  exact skipSpace_blank hspace _

theorem value_scalar {bound room : Nat} {c : Char} {rest : Text} (hquote : c ≠ '\x22')
    (harr : c ≠ '[') (hobj : c ≠ '\x7b') :
    value bound room (.char c :: rest) = scalar (.char c :: rest) := by
  rw [value.eq_def]
  simp [hquote, harr, hobj]

theorem value_writtenInt (bound room : Nat) (n : Int) (rest : Text) :
    value bound room (Text.ofChars (writtenInt n) ++ rest) = scalar (Text.ofChars (writtenInt n) ++ rest) := by
  obtain ⟨c, more, hwritten, hc⟩ := writtenInt_eq_cons n
  have hother : ∀ d : Char, d.isDigit = false → d ≠ '-' → c ≠ d := by
    intro d hd hdash
    rcases hc with rfl | hc
    · exact hdash.symm
    · exact isDigit_ne hc hd
  rw [hwritten, Text.ofChars_cons, List.cons_append]
  exact value_scalar (hother _ rfl (by decide)) (hother _ rfl (by decide)) (hother _ rfl (by decide))

theorem length_lt_writtenItems (items : List Json) : items.length < (writtenItems items).length := by
  induction items with
  | nil => decide
  | cons item items ih =>
    rw [writtenItems, List.length_cons, List.length_cons, List.length_cons, List.length_append]
    omega

theorem length_lt_writtenMembers (members : List (Text × Json)) :
    members.length < (writtenMembers members).length := by
  induction members with
  | nil => decide
  | cons member members ih =>
    obtain ⟨name, value⟩ := member
    simp only [writtenMembers, List.length_cons, List.length_append]
    omega

section

variable {read : Text → Read Json} {v : Json} {text after rest : Text}

theorem elements_close (hread : read text = .ok (v, after)) (hafter : skipSpace after = .char ']' :: rest)
    (n : Nat) (acc : List Json) :
    elements read (n + 1) text acc = .ok ((v :: acc).reverse, rest) := by
  rw [elements, hread]
  simp only [hafter]

theorem elements_next (hread : read text = .ok (v, after)) (hafter : skipSpace after = .char ',' :: rest)
    (n : Nat) (acc : List Json) :
    elements read (n + 1) text acc = elements read n (skipSpace rest) (v :: acc) := by
  rw [elements, hread]
  simp only [hafter]

/-- The name of a member and the colon are read, up to its value. -/
theorem members_value (hskip : skipSpace (.char ' ' :: text) = text) (name : Text) :
    ∃ tail, writtenString name ++ .char ':' :: .char ' ' :: text = .char '\x22' :: tail ∧
      stringFrom (.char '\x22' :: tail) tail none [] = .ok (name, .char ':' :: .char ' ' :: text) ∧
      skipSpace (.char ':' :: .char ' ' :: text) = .char ':' :: .char ' ' :: text ∧
      skipSpace (.char ' ' :: text) = text := by
  refine ⟨name.flatMap escapeCode ++ .char '\x22' :: .char ':' :: .char ' ' :: text, ?_,
    stringFrom_writtenString name, rfl, hskip⟩
  rw [writtenString, List.cons_append, List.append_assoc]
  rfl

theorem members_close (hskip : skipSpace (.char ' ' :: text) = text) (hread : read text = .ok (v, after))
    (hafter : skipSpace after = .char '\x7d' :: rest) (n : Nat) (name : Text) (acc : Members) :
    members read (n + 1) (writtenString name ++ .char ':' :: .char ' ' :: text) acc = .ok (acc.put name v, rest) := by
  obtain ⟨tail, htext, hname, hcolon, hskip⟩ := members_value hskip name
  rw [htext, members]
  simp only [hname, hcolon, hskip, hread, hafter]

theorem members_next (hskip : skipSpace (.char ' ' :: text) = text) (hread : read text = .ok (v, after))
    (hafter : skipSpace after = .char ',' :: rest) (n : Nat) (name : Text) (acc : Members) :
    members read (n + 1) (writtenString name ++ .char ':' :: .char ' ' :: text) acc =
      members read n (skipSpace rest) (acc.put name v) := by
  obtain ⟨tail, htext, hname, hcolon, hskip⟩ := members_value hskip name
  rw [htext, members]
  simp only [hname, hcolon, hskip, hread, hafter]

/-- A value that is not read stops the object. -/
theorem members_stop {stop : Stop} (hskip : skipSpace (.char ' ' :: text) = text)
    (hread : read text = .error stop) (n : Nat) (name : Text) (acc : Members) :
    members read (n + 1) (writtenString name ++ .char ':' :: .char ' ' :: text) acc = .error stop := by
  obtain ⟨tail, htext, hname, hcolon, hskip⟩ := members_value hskip name
  rw [htext, members]
  simp only [hname, hcolon, hskip, hread]

end

/-- A new name comes last. -/
theorem put_new {members : Members} {name : Text} (h : name ∉ Keyed.keys members) (v : Json) :
    Keyed.put members name v = members ++ [(name, v)] := by
  induction members with
  | nil => rfl
  | cons member members ih =>
    obtain ⟨other, w⟩ := member
    have hother : (other == name) = false :=
      beq_false_of_ne fun heq => h (heq ▸ List.mem_cons_self)
    rw [Keyed.put, hother, ih fun hrest => h (List.mem_cons_of_mem _ hrest)]
    rfl

mutual

/-- A written value is read, up to what follows it. -/
theorem value_written : ∀ {v : Json} {bound room : Nat} {rest : Text}, v.Plain →
    v.nesting ≤ room → v.written.length ≤ bound → Closed rest →
    value bound room (v.written ++ rest) = .ok (v, rest)
  | .null, _, _, _, _, _, _, _ => by
    rw [written, Text.ofChars_cons, List.cons_append, value_scalar (by decide) (by decide) (by decide)]
    rfl
  | .bool true, _, _, _, _, _, _, _ => by
    rw [written, Text.ofChars_cons, List.cons_append, value_scalar (by decide) (by decide) (by decide)]
    rfl
  | .bool false, _, _, _, _, _, _, _ => by
    rw [written, Text.ofChars_cons, List.cons_append, value_scalar (by decide) (by decide) (by decide)]
    rfl
  | .int n, _, _, _, hplain, _, _, hrest => by
    rw [written, value_writtenInt, scalar_writtenInt n hplain hrest]
  | .str s, _, _, rest, _, _, _, _ => by
    rw [written, writtenString, List.cons_append, List.append_assoc, value.eq_def]
    simp only [List.singleton_append, stringFrom_writtenString, Except.map]
  | .arr [], _, room, rest, _, hnested, _, _ => by
    cases room with
    | zero => nomatch hnested
    | succ room => rfl
  | .arr (item :: items), bound, room, rest, ⟨hitem, hitems⟩, hnested, hlength, _ => by
    rw [written, List.length_cons, List.length_append] at hlength
    cases room with
    | zero => nomatch hnested
    | succ room =>
      have hmax : max item.nesting (nestingOfAll items) ≤ room := Nat.le_of_succ_le_succ hnested
      have hcount : items.length < (writtenItems items).length := length_lt_writtenItems items
      have hread : value bound room (item.written ++ (writtenItems items ++ rest)) =
          .ok (item, writtenItems items ++ rest) :=
        value_written hitem (by omega) (by omega) (closed_writtenItems items rest)
      have hall : elements (value bound room) bound (item.written ++ (writtenItems items ++ rest)) [] =
          .ok (item :: items, rest) :=
        elements_written [] hitems (by omega) (by omega) (by omega) hread
      obtain ⟨c, more, hwritten, hspace, hbracket⟩ := written_eq_cons hitem
      have hskip := (skipSpace_written hitem (writtenItems items ++ rest)).1
      rw [written, List.cons_append, List.append_assoc, value.eq_def]
      rw [hwritten, List.cons_append] at hskip hall ⊢
      simp [hskip, hbracket, hall, Except.map]
  | .obj [], _, room, rest, _, hnested, _, _ => by
    cases room with
    | zero => nomatch hnested
    | succ room => rfl
  | .obj ((name, v) :: members), bound, room, rest, ⟨hdistinct, hv, hmembers⟩, hnested, hlength,
      _ => by
    have htext : written (.obj ((name, v) :: members)) ++ rest = .char '\x7b' ::
        (writtenString name ++ .char ':' :: .char ' ' :: (v.written ++ (writtenMembers members ++ rest))) := by
      simp [written]
    simp only [written, List.length_cons, List.length_append] at hlength
    cases room with
    | zero => nomatch hnested
    | succ room =>
      have hmax : max v.nesting (nestingOfMembers members) ≤ room :=
        Nat.le_of_succ_le_succ hnested
      have hcount : members.length < (writtenMembers members).length :=
        length_lt_writtenMembers members
      have hread : value bound room (v.written ++ (writtenMembers members ++ rest)) =
          .ok (v, writtenMembers members ++ rest) :=
        value_written hv (by omega) (by omega) (closed_writtenMembers members rest)
      have hall := members_written [] hv hmembers (by omega) (by omega)
        (show members.length < bound by omega) hdistinct hread
      rw [htext, value.eq_def]
      change (Json.members (value bound room) bound (writtenString name ++ _) []).map _ = _
      rw [hall]
      rfl

/-- The items after one that was read are read up to the bracket. -/
theorem elements_written : ∀ {items : List Json} {bound room n : Nat} {v : Json}
    {text rest : Text} (acc : List Json), PlainAll items → nestingOfAll items ≤ room →
    (writtenItems items).length ≤ bound → items.length < n →
    value bound room text = .ok (v, writtenItems items ++ rest) →
    elements (value bound room) n text acc = .ok (acc.reverse ++ v :: items, rest)
  | [], _, _, n + 1, v, _, rest, acc, _, _, _, _, hread => by
    have hafter : skipSpace (writtenItems [] ++ rest) = .char ']' :: rest := rfl
    rw [elements_close hread hafter, List.reverse_cons]
  | item :: items, bound, room, n + 1, v, _, rest, acc, ⟨hitem, hitems⟩, hnested, hlength, hn,
      hread => by
    have hmax : max item.nesting (nestingOfAll items) ≤ room := hnested
    have hcount : items.length < n := Nat.lt_of_succ_lt_succ hn
    rw [writtenItems, List.length_cons, List.length_cons, List.length_append] at hlength
    have hnext : value bound room (item.written ++ (writtenItems items ++ rest)) =
        .ok (item, writtenItems items ++ rest) :=
      value_written hitem (by omega) (by omega) (closed_writtenItems items rest)
    have htext : writtenItems (item :: items) ++ rest =
        .char ',' :: .char ' ' :: (item.written ++ (writtenItems items ++ rest)) := by
      simp [writtenItems]
    rw [htext] at hread
    rw [elements_next hread rfl, (skipSpace_written hitem _).2,
      elements_written (v :: acc) hitems (by omega) (by omega) hcount hnext, List.reverse_cons,
      List.append_assoc]
    rfl

theorem members_written : ∀ {members : List (Text × Json)} {bound room n : Nat} {name : Text}
    {v : Json} {rest : Text} (acc : Members), v.Plain → PlainMembers members →
    nestingOfMembers members ≤ room → (writtenMembers members).length ≤ bound → members.length < n →
    (Keyed.keys acc ++ name :: Keyed.keys members).Nodup →
    value bound room (v.written ++ (writtenMembers members ++ rest)) =
      .ok (v, writtenMembers members ++ rest) →
    Json.members (value bound room) n
        (writtenString name ++ .char ':' :: .char ' ' :: (v.written ++ (writtenMembers members ++ rest))) acc =
      .ok (acc ++ (name, v) :: members, rest)
  | [], _, _, n + 1, name, v, rest, acc, hv, _, _, _, _, hdistinct, hread => by
    have hnew : name ∉ Keyed.keys acc := fun h =>
      (List.nodup_append.mp hdistinct).2.2 name h name List.mem_cons_self rfl
    have hafter : skipSpace (writtenMembers [] ++ rest) = .char '\x7d' :: rest := rfl
    rw [members_close (skipSpace_written hv _).2 hread hafter, put_new hnew]
  | (name', w) :: members, bound, room, n + 1, name, v, rest, acc, hv, ⟨hw, hmembers⟩, hnested,
      hlength, hn, hdistinct, hread => by
    have hnew : name ∉ Keyed.keys acc := fun h =>
      (List.nodup_append.mp hdistinct).2.2 name h name List.mem_cons_self rfl
    have hmax : max w.nesting (nestingOfMembers members) ≤ room := hnested
    have hcount : members.length < n := Nat.lt_of_succ_lt_succ hn
    simp only [writtenMembers, List.length_cons, List.length_append] at hlength
    have hnext : value bound room (w.written ++ (writtenMembers members ++ rest)) =
        .ok (w, writtenMembers members ++ rest) :=
      value_written hw (by omega) (by omega) (closed_writtenMembers members rest)
    have hkeys : (Keyed.keys (acc ++ [(name, v)]) ++ name' :: Keyed.keys members).Nodup := by
      have hsame : Keyed.keys (acc ++ [(name, v)]) ++ name' :: Keyed.keys members =
          Keyed.keys acc ++ name :: Keyed.keys ((name', w) :: members) := by
        simp [Keyed.keys]
      rw [hsame]
      exact hdistinct
    have htext : writtenMembers ((name', w) :: members) ++ rest = .char ',' :: .char ' ' ::
        (writtenString name' ++ .char ':' :: .char ' ' :: (w.written ++ (writtenMembers members ++ rest))) := by
      simp [writtenMembers]
    rw [htext] at hread ⊢
    rw [members_next (skipSpace_written hv _).2 hread rfl, put_new hnew]
    change Json.members _ n (writtenString name' ++ _) _ = _
    rw [members_written _ hw hmembers (by omega) (by omega) hcount hkeys hnext, List.append_assoc]
    rfl

end

/-! ### Bytes -/

/-- The character is an ASCII character that is no control character. -/
def Visible (c : Char) : Prop := 0x20 ≤ c.toNat ∧ c.toNat < 0x7f

/-- The code point is such a character, or a surrogate that stands alone. -/
def Legible : Code → Prop
  | .char c => Visible c
  | .lone _ => True

/-- Every code point is one that a written value may hold. -/
def AllLegible (text : Text) : Prop := ∀ code ∈ text, Legible code

theorem AllLegible.append {text more : Text} (h : AllLegible text) (h' : AllLegible more) :
    AllLegible (text ++ more) := fun code hcode =>
  (List.mem_append.mp hcode).elim (h code) (h' code)

theorem AllLegible.cons {c : Char} {text : Text} (hc : Visible c) (h : AllLegible text) :
    AllLegible (.char c :: text) := by
  intro code hcode
  rcases List.mem_cons.mp hcode with rfl | hcode
  · exact hc
  · exact h code hcode

theorem allLegible_ofChars {chars : List Char} (h : ∀ c ∈ chars, Visible c) :
    AllLegible (Text.ofChars chars) := by
  intro code hcode
  obtain ⟨c, hc, rfl⟩ := List.mem_map.mp hcode
  exact h c hc

theorem visible_of_all {chars : List Char}
    (h : chars.all (fun c => 0x20 ≤ c.toNat && c.toNat < 0x7f) = true) : ∀ c ∈ chars, Visible c := by
  intro c hc
  have := List.all_eq_true.mp h c hc
  simpa [Visible] using this

theorem visible_digitChar : ∀ n < 16, 0x20 ≤ n.digitChar.toNat ∧ n.digitChar.toNat < 0x7f := by decide

theorem visible_escapeUnit (unit : Nat) : ∀ c ∈ escapeUnit unit, Visible c := by
  have hdigit : ∀ n, Visible (n % 16).digitChar :=
    fun n => visible_digitChar _ (Nat.mod_lt n (by decide))
  intro c hc
  rcases List.mem_cons.mp hc with rfl | hc
  · exact ⟨by decide, by decide⟩
  rcases List.mem_cons.mp hc with rfl | hc
  · exact ⟨by decide, by decide⟩
  obtain ⟨n, -, rfl⟩ := List.mem_map.mp hc
  exact hdigit n

theorem visible_escapeChar (c : Char) : ∀ d ∈ escapeChar c, Visible d := by
  have hshort : ∀ e : Char, 0x20 ≤ e.toNat ∧ e.toNat < 0x7f → ∀ d ∈ ['\x5c', e], Visible d := by
    intro e he d hd
    rcases List.mem_cons.mp hd with rfl | hd
    · exact ⟨by decide, by decide⟩
    · obtain rfl := List.mem_singleton.mp hd
      exact he
  unfold escapeChar
  split
  · rename_i h
    rcases Bool.or_eq_true_iff.mp h with h | h <;> obtain rfl := eq_of_beq h <;>
      exact hshort _ (by decide)
  split
  · exact hshort _ (by decide)
  split
  · exact hshort _ (by decide)
  split
  · exact hshort _ (by decide)
  split
  · exact hshort _ (by decide)
  split
  · exact hshort _ (by decide)
  split
  · rename_i h
    simp only [Bool.and_eq_true, decide_eq_true_eq] at h
    intro d hd
    obtain rfl := List.mem_singleton.mp hd
    exact h
  split
  · exact visible_escapeUnit _
  · intro d hd
    exact (List.mem_append.mp hd).elim (visible_escapeUnit _ d) (visible_escapeUnit _ d)

theorem legible_escapeCode (code : Code) : AllLegible (escapeCode code) := by
  cases code with
  | char c => exact allLegible_ofChars (visible_escapeChar c)
  | lone offset =>
    intro code hcode
    obtain rfl := List.mem_singleton.mp hcode
    trivial

theorem legible_writtenString (s : Text) : AllLegible (writtenString s) := by
  refine .cons ⟨by decide, by decide⟩ (.append (fun code hcode => ?_)
    (.cons ⟨by decide, by decide⟩ fun _ h => nomatch h))
  obtain ⟨d, -, hd⟩ := List.mem_flatMap.mp hcode
  exact legible_escapeCode d code hd

theorem legible_writtenInt (n : Int) : AllLegible (Text.ofChars (writtenInt n)) := by
  have hdigits : ∀ c ∈ Nat.toDigits 10 n.natAbs, Visible c := by
    intro c hc
    have hdigit := isDigit_of_mem_toDigits hc
    simp only [Char.isDigit, Bool.and_eq_true, decide_eq_true_eq] at hdigit
    obtain ⟨hlow, hhigh⟩ := hdigit
    have h48 : 48 ≤ c.toNat := hlow
    have h57 : c.toNat ≤ 57 := hhigh
    exact ⟨by omega, by omega⟩
  unfold writtenInt
  split
  · exact .cons ⟨by decide, by decide⟩ (allLegible_ofChars hdigits)
  · exact allLegible_ofChars hdigits

mutual

theorem legible_written : ∀ {v : Json}, v.Plain → AllLegible v.written
  | .null, _ => allLegible_ofChars (visible_of_all rfl)
  | .bool true, _ => allLegible_ofChars (visible_of_all rfl)
  | .bool false, _ => allLegible_ofChars (visible_of_all rfl)
  | .int n, _ => legible_writtenInt n
  | .str s, _ => legible_writtenString s
  | .arr [], _ => allLegible_ofChars (show ∀ c ∈ ['[', ']'], Visible c from visible_of_all rfl)
  | .arr (_ :: _), ⟨hitem, hitems⟩ =>
    .cons ⟨by decide, by decide⟩ (.append (legible_written hitem) (legible_writtenItems hitems))
  | .obj [], _ => allLegible_ofChars (show ∀ c ∈ ['\x7b', '\x7d'], Visible c from visible_of_all rfl)
  | .obj ((name, _) :: _), ⟨_, hv, hmembers⟩ =>
    .cons ⟨by decide, by decide⟩ (.append (legible_writtenString name)
      (.cons ⟨by decide, by decide⟩ (.cons ⟨by decide, by decide⟩
        (.append (legible_written hv) (legible_writtenMembers hmembers)))))

theorem legible_writtenItems : ∀ {items : List Json}, PlainAll items → AllLegible (writtenItems items)
  | [], _ => allLegible_ofChars (show ∀ c ∈ [']'], Visible c from visible_of_all rfl)
  | _ :: _, ⟨hitem, hitems⟩ => .cons ⟨by decide, by decide⟩ (.cons ⟨by decide, by decide⟩
      (.append (legible_written hitem) (legible_writtenItems hitems)))

theorem legible_writtenMembers : ∀ {members : List (Text × Json)}, PlainMembers members →
    AllLegible (writtenMembers members)
  | [], _ => allLegible_ofChars (show ∀ c ∈ ['\x7d'], Visible c from visible_of_all rfl)
  | (name, _) :: _, ⟨hv, hmembers⟩ => .cons ⟨by decide, by decide⟩ (.cons ⟨by decide, by decide⟩
      (.append (legible_writtenString name) (.cons ⟨by decide, by decide⟩ (.cons ⟨by decide, by decide⟩
        (.append (legible_written hv) (legible_writtenMembers hmembers))))))

end

theorem unmarked_of_legible : ∀ {code : Code}, Legible code → Text.Utf8.Unmarked code
  | .char _, ⟨hlow, hhigh⟩ => ⟨Nat.lt_of_lt_of_le (by decide) hlow, Nat.lt_trans hhigh (by decide)⟩
  | .lone _, _ => trivial

/-- A written value is decoded from its bytes; it begins with a character, so nothing is announced. -/
theorem decodeAnnounced_encode {v : Json} {c : Char} {more : Text} (hfront : v.written = .char c :: more)
    (h : AllLegible v.written) : Text.decodeAnnounced (encode v) = .ok v.written := by
  rw [encode, hfront] at *
  exact Text.Utf8.decodeAnnounced_unmarked fun code hcode => unmarked_of_legible (h code hcode)

/-- **A value is read back from its bytes.** -/
theorem read_encode {v : Json} (h : Writable v) : read (encode v) = .ok v := by
  have hskip : skipSpace v.written = v.written := by
    have hfront := (skipSpace_written h.plain []).1
    rw [List.append_nil] at hfront
    exact hfront
  have hvalue : value v.written.length maxNesting v.written = .ok (v, []) := by
    have hwhole := @value_written v _ maxNesting [] h.plain h.nested (Nat.le_refl v.written.length)
      nofun
    rw [List.append_nil] at hwhole
    exact hwhole
  obtain ⟨c, more, hfront, -⟩ := written_eq_cons h.plain
  rw [read, decodeAnnounced_encode hfront (legible_written h.plain)]
  simp only [document, hskip, hvalue]
  rfl

/-- An object whose first member is an integer with too many digits is not read. -/
theorem read_encode_long {name : Text} {n : Int} {members : List (Text × Json)}
    (hlong : maxIntegerDigits < (Nat.toDigits 10 n.natAbs).length) (hmembers : PlainMembers members) :
    read (encode (.obj ((name, .int n) :: members))) =
      .error (.longInteger (Nat.toDigits 10 n.natAbs).length) := by
  let text := Text.ofChars (writtenInt n) ++ writtenMembers members
  have hwritten : written (.obj ((name, .int n) :: members)) =
      .char '\x7b' :: (writtenString name ++ .char ':' :: .char ' ' :: text) := rfl
  have hlegible : AllLegible (written (.obj ((name, .int n) :: members))) :=
    .cons ⟨by decide, by decide⟩ ((legible_writtenString name).append
      (.cons ⟨by decide, by decide⟩ (.cons ⟨by decide, by decide⟩
        ((legible_writtenInt n).append (legible_writtenMembers hmembers)))))
  have hclosed : Closed (writtenMembers members) := by
    have hend := closed_writtenMembers members []
    rwa [List.append_nil] at hend
  have hstop : ∀ bound room, value bound room text =
      .error (.longInteger (Nat.toDigits 10 n.natAbs).length) := by
    intro bound room
    rw [value_writtenInt, scalar_writtenInt_eq n hclosed, if_pos hlong]
  have hskip : skipSpace (.char ' ' :: text) = text := by
    obtain ⟨c, more, hfront, hspace, -⟩ := writtenInt_front n
    have htext : text = .char c :: (Text.ofChars more ++ writtenMembers members) := by
      rw [← List.cons_append, ← Text.ofChars_cons, ← hfront]
    rw [htext]
    exact (skipSpace_blank hspace _).2
  have hvalue : ∀ bound room, value (bound + 1) (room + 1)
      (.char '\x7b' :: (writtenString name ++ .char ':' :: .char ' ' :: text)) =
        .error (.longInteger (Nat.toDigits 10 n.natAbs).length) := by
    intro bound room
    rw [value.eq_def]
    change (Json.members _ _ (writtenString name ++ _) []).map _ = _
    rw [members_stop hskip (hstop _ _)]
    rfl
  have hblank : skipSpace (.char '\x7b' :: (writtenString name ++ .char ':' :: .char ' ' :: text)) =
      .char '\x7b' :: (writtenString name ++ .char ':' :: .char ' ' :: text) := rfl
  have hnesting : maxNesting = 989 + 1 := rfl
  rw [read, decodeAnnounced_encode hwritten hlegible, hwritten]
  simp only [document, hblank, List.length_cons, hnesting, hvalue]

end SourceTree.Json
