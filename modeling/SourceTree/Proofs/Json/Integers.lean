import SourceTree.Proofs.Json.Scalar
import Mathlib.Algebra.Group.Nat.Defs
import Mathlib.Data.List.Induction
import Mathlib.Data.List.TakeWhile

/-!
# Integers that are read

An integer with too many digits ends the reading of a text, wherever it stands. So no integer in a value
that was read has more digits than the limit allows.
-/
namespace SourceTree.Json

/-- The integer has no more digits than are read. -/
def Short (n : Int) : Prop := (Nat.toDigits 10 n.natAbs).length ≤ maxIntegerDigits

instance (n : Int) : Decidable (Short n) :=
  inferInstanceAs (Decidable ((Nat.toDigits 10 n.natAbs).length ≤ maxIntegerDigits))

theorem short_iff {n : Int} : Short n ↔ n.natAbs < 10 ^ maxIntegerDigits :=
  Nat.length_toDigits_le_iff (by decide) (by decide)

/-- An integer that fits in eight bytes is short. -/
theorem short_natCast {n : Nat} (h : n < 2 ^ 64) : Short n := by
  have hdigits : (Nat.toDigits 10 n).length ≤ 20 :=
    (Nat.length_toDigits_le_iff (by decide) (by decide)).mpr (Nat.lt_trans h (by decide))
  exact Nat.le_trans hdigits (by decide)

/-- The integer stands somewhere in the value. -/
inductive Mentions (n : Int) : Json → Prop
  | int : Mentions n (.int n)
  | item {items : List Json} {item : Json} (hmem : item ∈ items) (hitem : Mentions n item) :
      Mentions n (.arr items)
  | member {members : Members} {entry : Text × Json} (hmem : entry ∈ members)
      (hentry : Mentions n entry.2) : Mentions n (.obj members)

theorem Mentions.of_member? {members : Members} {name : String} {v : Json} {n : Int}
    (hname : member? members name = some v) (h : v.Mentions n) : (Json.obj members).Mentions n := by
  obtain ⟨front, back, rfl, -⟩ := List.lookup_eq_some_iff.mp hname
  have hmem : (Text.ofString name, v) ∈ front ++ (Text.ofString name, v) :: back := by simp
  exact .member hmem h

/-! ### Numerals -/

theorem ofDigits_lt {digits : List Char} (h : ∀ c ∈ digits, c.isDigit) :
    ofDigits digits < 10 ^ digits.length := by
  induction digits using List.reverseRecOn with
  | nil => decide
  | append_singleton digits c ih =>
    have hc : c.isDigit := h c (by simp)
    have hcode : c.toNat ≤ 57 := by
      simp only [Char.isDigit, Bool.and_eq_true, decide_eq_true_eq] at hc
      exact hc.2
    have hfront := ih fun d hd => h d (by simp [hd])
    have hstep : ofDigits (digits ++ [c]) = ofDigits digits * 10 + (c.toNat - 48) := by
      simp [ofDigits]
    rw [hstep, List.length_append, List.length_singleton, Nat.pow_succ]
    omega

/-- The whole part of a number is made of digits, and there is at least one. -/
theorem whole_of_scanNumber {text rest : List Char} {numeral : Numeral}
    (h : scanNumber text = some (numeral, rest)) :
    0 < numeral.whole.length ∧ ∀ c ∈ numeral.whole, c.isDigit := by
  have hmore : ∀ (d : Char) (rest : List Char), d.isDigit →
      ∀ c ∈ d :: (if d == '0' then [] else rest.takeWhile Char.isDigit), c.isDigit := by
    intro d rest hd c hc
    rcases List.mem_cons.mp hc with rfl | hc
    · exact hd
    · split at hc
      · nomatch hc
      · exact List.mem_takeWhile_imp hc
  unfold scanNumber at h
  dsimp only at h
  split at h
  · nomatch h
  · next d more _ =>
    split at h
    · next hd =>
      obtain ⟨rfl, -⟩ := Prod.mk.inj (Option.some.inj h)
      exact ⟨Nat.succ_pos _, hmore d more hd⟩
    · nomatch h

theorem natAbs_toInt (numeral : Numeral) : numeral.toInt.natAbs = ofDigits numeral.whole := by
  rw [Numeral.toInt]
  split <;> simp

theorem short_of_scalar {text rest : Text} {v : Json} (h : scalar text = .ok (v, rest)) {n : Int}
    (hn : v.Mentions n) : Short n := by
  unfold scalar at h
  dsimp only at h
  split at h
  · next name found hnamed =>
    obtain ⟨rfl, -⟩ := Prod.mk.inj (Except.ok.inj h)
    -- none of the names stands for an integer
    have hfound := List.mem_of_find?_eq_some hnamed
    simp only [List.mem_cons, List.not_mem_nil, or_false, Prod.mk.injEq] at hfound
    rcases hfound with ⟨-, rfl⟩ | ⟨-, rfl⟩ | ⟨-, rfl⟩ | ⟨-, rfl⟩ | ⟨-, rfl⟩ | ⟨-, rfl⟩ <;> cases hn
  · split at h
    · nomatch h
    · next numeral after hscan =>
      split at h
      · obtain ⟨rfl, -⟩ := Prod.mk.inj (Except.ok.inj h)
        cases hn
      · split at h
        · nomatch h
        · next hdigits =>
          obtain ⟨rfl, -⟩ := Prod.mk.inj (Except.ok.inj h)
          cases hn
          obtain ⟨-, hall⟩ := whole_of_scanNumber hscan
          rw [short_iff, natAbs_toInt]
          exact Nat.lt_of_lt_of_le (ofDigits_lt hall)
            (Nat.pow_le_pow_right (by decide) (Nat.not_lt.mp hdigits))

/-! ### Arrays and objects -/

section

variable {P : Json → Prop} {read : Text → Read Json}

/-- What every value has that is read, the elements of an array have. -/
theorem elements_all (hread : ∀ text v rest, read text = .ok (v, rest) → P v) {bound : Nat} :
    ∀ {text : Text} {acc vs : List Json} {rest : Text},
      elements read bound text acc = .ok (vs, rest) → (∀ v ∈ acc, P v) → ∀ v ∈ vs, P v := by
  induction bound with
  | zero =>
    intro text acc vs rest h
    nomatch h
  | succ bound ih =>
    intro text acc vs rest h hacc
    rw [elements] at h
    split at h
    · nomatch h
    · next v after hv =>
      have hmore : ∀ w ∈ v :: acc, P w := by
        simpa using ⟨hread _ _ _ hv, hacc⟩
      split at h
      · obtain ⟨rfl, -⟩ := Prod.mk.inj (Except.ok.inj h)
        intro w hw
        exact hmore w (List.mem_reverse.mp hw)
      · exact ih h hmore
      · nomatch h

theorem mem_put {members : Members} {name : Text} {v : Json} {entry : Text × Json}
    (h : entry ∈ Keyed.put members name v) : entry ∈ members ∨ entry.2 = v := by
  induction members with
  | nil => exact .inr (congrArg Prod.snd (List.mem_singleton.mp h))
  | cons first members ih =>
    obtain ⟨other, w⟩ := first
    rw [Keyed.put] at h
    split at h
    · rcases List.mem_cons.mp h with rfl | hrest
      · exact .inr rfl
      · exact .inl (List.mem_cons_of_mem _ hrest)
    · rcases List.mem_cons.mp h with rfl | hrest
      · exact .inl List.mem_cons_self
      · exact (ih hrest).imp_left (List.mem_cons_of_mem _)

/-- What every value has that is read, the members of an object have. -/
theorem members_all (hread : ∀ text v rest, read text = .ok (v, rest) → P v) {bound : Nat} :
    ∀ {text : Text} {acc ms : Members} {rest : Text},
      members read bound text acc = .ok (ms, rest) → (∀ entry ∈ acc, P entry.2) →
      ∀ entry ∈ ms, P entry.2 := by
  induction bound with
  | zero =>
    intro text acc ms rest h
    nomatch h
  | succ bound ih =>
    intro text acc ms rest h hacc
    rw [members.eq_def] at h
    dsimp only at h
    split at h
    · split at h
      · nomatch h
      · next name after _ =>
        split at h
        · split at h
          · nomatch h
          · next v last hv =>
            have hmore : ∀ entry ∈ acc.put name v, P entry.2 := by
              intro entry hentry
              rcases mem_put hentry with hold | hnew
              · exact hacc entry hold
              · rw [hnew]
                exact hread _ _ _ hv
            split at h
            · obtain ⟨rfl, -⟩ := Prod.mk.inj (Except.ok.inj h)
              exact hmore
            · exact ih h hmore
            · nomatch h
        · nomatch h
    · nomatch h

end

theorem map_ok {ε α β : Type} {x : Except ε α} {f : α → β} {b : β} (h : x.map f = .ok b) :
    ∃ a, x = .ok a ∧ f a = b := by
  cases x with
  | error found => nomatch h
  | ok a => exact ⟨a, rfl, Except.ok.inj h⟩

theorem short_of_value (bound : Nat) : ∀ {room : Nat} {text rest : Text} {v : Json},
    value bound room text = .ok (v, rest) → ∀ n, v.Mentions n → Short n := by
  intro room
  induction room with
  | zero =>
    intro text rest v h n hn
    rw [value.eq_def] at h
    dsimp only at h
    split at h
    · obtain ⟨s, -, hs⟩ := map_ok h
      obtain ⟨rfl, -⟩ := Prod.mk.inj hs
      cases hn
    · nomatch h
    · nomatch h
    · exact short_of_scalar h hn
  | succ room ih =>
    intro text rest v h n hn
    rw [value.eq_def] at h
    dsimp only at h
    split at h
    · obtain ⟨s, -, hs⟩ := map_ok h
      obtain ⟨rfl, -⟩ := Prod.mk.inj hs
      cases hn
    · split at h
      · obtain ⟨rfl, -⟩ := Prod.mk.inj (Except.ok.inj h)
        cases hn with
        | item hmem _ => nomatch hmem
      · obtain ⟨⟨vs, after⟩, hvs, hv⟩ := map_ok h
        obtain ⟨rfl, -⟩ := Prod.mk.inj hv
        cases hn with
        | item hmem hitem =>
          have hall := elements_all (P := fun v => ∀ n, v.Mentions n → Short n)
            (fun _ _ _ hread => ih hread) hvs (by simp)
          exact hall _ hmem n hitem
    · split at h
      · obtain ⟨rfl, -⟩ := Prod.mk.inj (Except.ok.inj h)
        cases hn with
        | member hmem _ => nomatch hmem
      · obtain ⟨⟨ms, after⟩, hms, hv⟩ := map_ok h
        obtain ⟨rfl, -⟩ := Prod.mk.inj hv
        cases hn with
        | member hmem hentry =>
          have hall := members_all (P := fun v => ∀ n, v.Mentions n → Short n)
            (fun _ _ _ hread => ih hread) hms (by simp)
          exact hall _ hmem n hentry
    · exact short_of_scalar h hn

/-- No integer that stands in a value that was read has too many digits. -/
theorem short_of_read {bytes : List UInt8} {v : Json} (h : read bytes = .ok v) {n : Int}
    (hn : v.Mentions n) : Short n := by
  unfold read document at h
  split at h
  · nomatch h
  · split at h
    · next text _ found hdocument =>
      obtain rfl := Except.ok.inj h
      split at hdocument
      · nomatch hdocument
      · next v rest hvalue =>
        split at hdocument
        · obtain rfl := Except.ok.inj hdocument
          exact short_of_value _ hvalue n hn
        · nomatch hdocument
    all_goals nomatch h

end SourceTree.Json
