/-!
# Lists by key

Values by key, in the order in which the keys were first put in. Putting a value in under a key that
is there already replaces the old value and leaves the order as it is.
-/
namespace SourceTree

/-- Values with their keys. -/
abbrev Keyed (κ υ : Type) := List (κ × υ)

namespace Keyed

variable {κ υ : Type} [BEq κ]

/-- Puts a value in under a key. -/
def put : Keyed κ υ → κ → υ → Keyed κ υ
  | [], key, value => [(key, value)]
  | (k, v) :: rest, key, value =>
    if k == key then (k, value) :: rest else (k, v) :: put rest key value

/-- The keys, in their order. -/
def keys (entries : Keyed κ υ) : List κ := entries.map Prod.fst

/-- What is found after a value was put in: that value under its key, all else as before. -/
theorem lookup_put [LawfulBEq κ] (entries : Keyed κ υ) (key other : κ) (value : υ) :
    (entries.put key value).lookup other =
      if other == key then some value else entries.lookup other := by
  induction entries with
  | nil =>
    by_cases h : other = key
    · subst h; simp [put]
    · simp [put, List.lookup_cons, beq_false_of_ne h]
  | cons entry rest ih =>
    obtain ⟨k, v⟩ := entry
    by_cases hk : k = key
    · subst hk
      by_cases h : other = k
      · subst h; simp [put]
      · simp [put, List.lookup_cons, beq_false_of_ne h]
    · have hput : put ((k, v) :: rest) key value = (k, v) :: put rest key value := by
        simp [put, hk]
      rw [hput, List.lookup_cons, List.lookup_cons, ih]
      by_cases h : other = k
      · subst h; simp [hk]
      · simp [beq_false_of_ne h]

/-- A new key comes last; an old one keeps its place. -/
theorem keys_put [LawfulBEq κ] (entries : Keyed κ υ) (key : κ) (value : υ) :
    (entries.put key value).keys =
      if (entries.lookup key).isSome then entries.keys else entries.keys ++ [key] := by
  induction entries with
  | nil => simp [put, keys]
  | cons entry rest ih =>
    obtain ⟨k, v⟩ := entry
    by_cases hk : k = key
    · subst hk; simp [put, keys]
    · have hput : put ((k, v) :: rest) key value = (k, v) :: put rest key value := by
        simp [put, hk]
      have hcons : keys ((k, v) :: put rest key value) = k :: keys (put rest key value) := rfl
      rw [hput, hcons, ih, List.lookup_cons, beq_false_of_ne (Ne.symm hk)]
      by_cases h : (rest.lookup key).isSome <;> simp [h, keys]

end Keyed
end SourceTree
