import Mathlib.Data.List.Forall2
import Mathlib.Data.List.Induction
import Mathlib.Data.List.Nodup
import SourceTree.Keyed

/-!
# Entries put in one after the other

Of the values that are put in under one key the last one is found, while the key stays in the place
where it was put in first. So it comes to the same if entries are put in one by one or are gathered
before: they count, and the keys that were there come first. If the entries come from places that are
in order, the value that is found comes from the last place of its key.
-/
namespace SourceTree

theorem exists_mem_of_forall₂ {α β : Type} {r : α → β → Prop} {as : List α} {bs : List β}
    (h : List.Forall₂ r as bs) {a : α} (ha : a ∈ as) : ∃ b ∈ bs, r a b := by
  induction h with
  | nil => nomatch ha
  | cons hfirst hrest ih =>
    rcases List.mem_cons.mp ha with rfl | hlater
    · exact ⟨_, List.mem_cons_self, hfirst⟩
    · obtain ⟨b, hb, hr⟩ := ih hlater
      exact ⟨b, List.mem_cons_of_mem _ hb, hr⟩

namespace Keyed

variable {κ υ : Type} [BEq κ] [LawfulBEq κ]

/-- Puts entries in, from first to last. -/
def putAll (entries more : Keyed κ υ) : Keyed κ υ :=
  more.foldl (fun entries entry => entries.put entry.1 entry.2) entries

omit [LawfulBEq κ] in
theorem putAll_append_singleton (entries more : Keyed κ υ) (entry : κ × υ) :
    entries.putAll (more ++ [entry]) = (entries.putAll more).put entry.1 entry.2 := by
  rw [putAll, List.foldl_append]
  rfl

theorem lookup_putAll (entries more : Keyed κ υ) (key : κ) :
    (entries.putAll more).lookup key = (more.reverse.lookup key).or (entries.lookup key) := by
  induction more using List.reverseRecOn with
  | nil => rfl
  | append_singleton more entry ih =>
    obtain ⟨k, v⟩ := entry
    rw [putAll_append_singleton, lookup_put, ih, List.reverse_append, List.reverse_singleton,
      List.singleton_append, List.lookup_cons]
    by_cases h : key = k
    · simp [h]
    · simp [beq_false_of_ne h]

theorem isSome_lookup_iff (entries : Keyed κ υ) (key : κ) :
    (entries.lookup key).isSome ↔ key ∈ entries.keys := by
  rw [← Option.ne_none_iff_isSome, Ne, List.lookup_eq_none_iff]
  simp [keys]

theorem keys_putAll_nil (more : Keyed κ υ) : (putAll [] more).keys = more.keys.eraseDups := by
  induction more using List.reverseRecOn with
  | nil => rfl
  | append_singleton more entry ih =>
    have hold : ((putAll [] more).lookup entry.1).isSome ↔ entry.1 ∈ keys more := by
      rw [isSome_lookup_iff, ih, List.mem_eraseDups]
    have hkeys : keys (more ++ [entry]) = keys more ++ [entry.1] := List.map_append
    rw [putAll_append_singleton, keys_put, ih, hkeys, List.eraseDups_append]
    by_cases hmem : entry.1 ∈ keys more
    · rw [if_pos (hold.mpr hmem)]
      simp [List.removeAll, hmem]
    · rw [if_neg (fun h => hmem (hold.mp h))]
      simp [List.removeAll, hmem, List.eraseDups_cons]

theorem nodup_keys_putAll (entries more : Keyed κ υ) (h : entries.keys.Nodup) :
    (entries.putAll more).keys.Nodup := by
  induction more using List.reverseRecOn with
  | nil => exact h
  | append_singleton more entry ih =>
    rw [putAll_append_singleton, keys_put]
    split
    · exact ih
    · next hnew =>
      rw [isSome_lookup_iff] at hnew
      rw [← List.concat_eq_append]
      exact List.Nodup.concat hnew ih

/-- If no key is repeated, every value is found under its key. -/
theorem lookup_of_mem {entries : Keyed κ υ} (h : entries.keys.Nodup) {entry : κ × υ} (hmem : entry ∈ entries) :
    entries.lookup entry.1 = some entry.2 := by
  obtain ⟨front, back, rfl⟩ := List.append_of_mem hmem
  refine List.lookup_eq_some_iff.mpr ⟨front, back, rfl, fun other hother => ?_⟩
  have hkeys : keys (front ++ entry :: back) = keys front ++ entry.1 :: keys back := List.map_append
  rw [hkeys, List.nodup_append] at h
  have hne := h.2.2 other.1 (List.mem_map_of_mem hother) entry.1 List.mem_cons_self
  exact bne_iff_ne.mpr (Ne.symm hne)

/-- If no key is repeated, it does not matter in which order the entries stand. -/
theorem lookup_of_perm {entries others : Keyed κ υ} (h : entries.keys.Nodup) (hperm : entries.Perm others)
    (key : κ) : entries.lookup key = others.lookup key := by
  cases hfound : others.lookup key with
  | none =>
    rw [List.lookup_eq_none_iff] at hfound ⊢
    exact fun entry hmem => hfound entry (hperm.mem_iff.mp hmem)
  | some value =>
    obtain ⟨front, back, rfl, -⟩ := List.lookup_eq_some_iff.mp hfound
    have hmem : (key, value) ∈ entries := hperm.mem_iff.mpr (by simp)
    exact lookup_of_mem h hmem

theorem put_cons_self (entries : Keyed κ υ) (key : κ) (old value : υ) :
    put ((key, old) :: entries) key value = (key, value) :: entries := by
  rw [put, if_pos (beq_self_eq_true key)]

omit [LawfulBEq κ] in
theorem put_cons_of_ne (entries : Keyed κ υ) {k key : κ} (h : (k == key) = false) (old value : υ) :
    put ((k, old) :: entries) key value = (k, old) :: entries.put key value := by
  rw [put, h, if_neg Bool.false_ne_true]

/-- The value that is put in last is the one that counts. -/
theorem put_put (entries : Keyed κ υ) (key : κ) (old value : υ) :
    (entries.put key old).put key value = entries.put key value := by
  induction entries with
  | nil => exact put_cons_self [] key old value
  | cons entry rest ih =>
    obtain ⟨k, v⟩ := entry
    by_cases hk : k = key
    · subst hk
      rw [put_cons_self, put_cons_self, put_cons_self]
    · rw [put_cons_of_ne _ (beq_false_of_ne hk), put_cons_of_ne _ (beq_false_of_ne hk),
        put_cons_of_ne _ (beq_false_of_ne hk), ih]

/-- A key that is there keeps its place, so what is put in under it may be put in before or after. -/
theorem put_comm (entries : Keyed κ υ) {key other : κ} (hne : key ≠ other)
    (hkey : entries.lookup key ≠ none) (value value' : υ) :
    (entries.put key value).put other value' = (entries.put other value').put key value := by
  induction entries with
  | nil => exact absurd List.lookup_nil hkey
  | cons entry rest ih =>
    obtain ⟨k, v⟩ := entry
    by_cases hk : k = key
    · subst hk
      rw [put_cons_self, put_cons_of_ne _ (beq_false_of_ne hne), put_cons_of_ne _ (beq_false_of_ne hne),
        put_cons_self]
    · rw [List.lookup_cons, beq_false_of_ne (Ne.symm hk)] at hkey
      rw [put_cons_of_ne _ (beq_false_of_ne hk)]
      by_cases hother : k = other
      · subst hother
        rw [put_cons_self, put_cons_self, put_cons_of_ne _ (beq_false_of_ne hk)]
      · rw [put_cons_of_ne _ (beq_false_of_ne hother), put_cons_of_ne _ (beq_false_of_ne hother),
          put_cons_of_ne _ (beq_false_of_ne hk), ih hkey]

/-! ### Entries put in over others -/

omit [LawfulBEq κ] in
theorem putAll_cons (entries more : Keyed κ υ) (entry : κ × υ) :
    entries.putAll (entry :: more) = (entries.put entry.1 entry.2).putAll more := rfl

omit [LawfulBEq κ] in
theorem putAll_append (entries more others : Keyed κ υ) :
    entries.putAll (more ++ others) = (entries.putAll more).putAll others := List.foldl_append

/-- What is put in under a key that is there already may be put in before all entries of other keys. -/
theorem put_putAll_comm (entries more : Keyed κ υ) {key : κ} (hother : key ∉ more.keys)
    (hkey : entries.lookup key ≠ none) (value : υ) :
    (entries.putAll more).put key value = (entries.put key value).putAll more := by
  induction more generalizing entries with
  | nil => rfl
  | cons entry rest ih =>
    obtain ⟨hne, hrest⟩ := not_or.mp (mt List.mem_cons.mpr hother)
    have hstays : (entries.put entry.1 entry.2).lookup key ≠ none := by
      rw [lookup_put, beq_false_of_ne hne]
      exact hkey
    rw [putAll_cons, putAll_cons, ih _ hrest hstays, put_comm entries hne hkey]

theorem putAll_put (entries more : Keyed κ υ) (h : more.keys.Nodup) (key : κ) (value : υ) :
    entries.putAll (more.put key value) = (entries.putAll more).put key value := by
  induction more generalizing entries with
  | nil => rfl
  | cons entry rest ih =>
    obtain ⟨k, v⟩ := entry
    obtain ⟨hnew, hrest⟩ := List.nodup_cons.mp h
    by_cases hk : k = key
    · subst hk
      have hthere : (entries.put k v).lookup k ≠ none := by simp [lookup_put]
      rw [put_cons_self, putAll_cons, putAll_cons, put_putAll_comm _ _ hnew hthere, put_put]
    · rw [put_cons_of_ne _ (beq_false_of_ne hk), putAll_cons, putAll_cons, ih _ hrest]

/-- Entries may be gathered first, and what has come of them put in then. -/
theorem putAll_putAll_nil (entries more : Keyed κ υ) :
    entries.putAll (putAll [] more) = entries.putAll more := by
  induction more using List.reverseRecOn with
  | nil => rfl
  | append_singleton more entry ih =>
    have hnodup : (putAll [] more).keys.Nodup := nodup_keys_putAll [] more List.nodup_nil
    rw [putAll_append_singleton, putAll_append_singleton, putAll_put entries _ hnodup, ih]

/-- If no key is repeated among the entries that are put in, each of them is found, and what was there before is
found under all other keys. -/
theorem lookup_putAll_of_nodup (entries : Keyed κ υ) {more : Keyed κ υ} (h : more.keys.Nodup) (key : κ) :
    (entries.putAll more).lookup key = (more.lookup key).or (entries.lookup key) := by
  rw [lookup_putAll, lookup_of_perm h more.reverse_perm.symm]

/-- The keys that were there keep their places, and new ones come after them in their own order. -/
theorem keys_putAll (entries : Keyed κ υ) {more : Keyed κ υ} (h : more.keys.Nodup) :
    (entries.putAll more).keys = entries.keys ++ more.keys.filter fun key => (entries.lookup key).isNone := by
  induction more using List.reverseRecOn with
  | nil => exact (List.append_nil _).symm
  | append_singleton more entry ih =>
    have hkeys : keys (more ++ [entry]) = keys more ++ [entry.1] := List.map_append
    rw [hkeys, List.nodup_append] at h
    obtain ⟨hmore, -, hapart⟩ := h
    have hnew : more.lookup entry.1 = none := by
      rw [← Option.not_isSome_iff_eq_none, isSome_lookup_iff]
      exact fun hmem => hapart _ hmem _ List.mem_cons_self rfl
    rw [putAll_append_singleton, keys_put, lookup_putAll_of_nodup entries hmore, hnew, Option.none_or, ih hmore,
      hkeys, List.filter_append]
    cases hold : entries.lookup entry.1 <;> simp [hold]

/-! ### Entries from places -/

variable {α : Type} {r : α → κ × υ → Prop} {places : List α} {entries : Keyed κ υ}

/-- The value that is found comes from a place of its key, and all other places of the key are before
that one. -/
theorem exists_last_place [LT α] (h : List.Forall₂ r places entries) (horder : places.Pairwise (· < ·))
    (hkey : ∀ place entry entry', r place entry → r place entry' → entry.1 = entry'.1) {key : κ}
    {value : υ} (hfound : (putAll [] entries).lookup key = some value) :
    ∃ place ∈ places, r place (key, value) ∧
      ∀ other ∈ places, ∀ value', r other (key, value') → other ≠ place → other < place := by
  rw [lookup_putAll, List.lookup_nil, Option.or_none] at hfound
  induction h with
  | nil => nomatch hfound
  | @cons place entry places entries hfirst hrest ih =>
    obtain ⟨hbefore, hsorted⟩ := List.pairwise_cons.mp horder
    rw [List.reverse_cons, List.lookup_append] at hfound
    cases hlater : entries.reverse.lookup key with
    | some later =>
      rw [hlater, Option.some_or] at hfound
      obtain rfl := Option.some.inj hfound
      obtain ⟨last, hlast, hr, hothers⟩ := ih hsorted hlater
      refine ⟨last, List.mem_cons_of_mem _ hlast, hr, ?_⟩
      intro other hother value' hr' hne
      rcases List.mem_cons.mp hother with rfl | hother
      · exact hbefore last hlast
      · exact hothers other hother value' hr' hne
    | none =>
      rw [hlater, Option.none_or] at hfound
      obtain ⟨k, v⟩ := entry
      obtain ⟨rfl, rfl⟩ : key = k ∧ v = value := by
        by_cases hk : key = k
        · simpa [hk] using hfound
        · simp [List.lookup_cons, beq_false_of_ne hk] at hfound
      refine ⟨place, List.mem_cons_self, hfirst, ?_⟩
      -- a later place of the key would have put in the value that is found
      intro other hother value' hr' hne
      rcases List.mem_cons.mp hother with rfl | hother
      · exact absurd rfl hne
      · obtain ⟨⟨k', v'⟩, hentry, hr⟩ := exists_mem_of_forall₂ hrest hother
        obtain rfl : key = k' := hkey other _ _ hr' hr
        have habsent := List.lookup_eq_none_iff.mp hlater (key, v') (List.mem_reverse.mpr hentry)
        simp at habsent

end Keyed
end SourceTree
