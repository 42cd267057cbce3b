import SourceTree.Proofs.Command.Grammar

/-!
# Arguments after arguments

A flag at the end of arguments that are taken may still get a value when others follow. It gets none if they do not
begin with one, and arguments that are taken by themselves never do. So they are read after others as they are read by
themselves, and what comes of them is put in over what was there: each of their flags has its entry from them, be it a
value or none, all other flags keep theirs, and new flags come last. Arguments that begin with a flag begin with no
value either, so arguments may be cut before any flag as long as those in front of it are taken.
-/
namespace SourceTree.Command

namespace Flags

/-! ### Where the second arguments begin -/

section

variable {after : List String} (hafter : leadingValue after = none)
include hafter

theorem leadingValue_append (before : List String) :
    leadingValue (before ++ after) = leadingValue before := by
  cases before with
  | nil => exact hafter
  | cons argument rest => rfl

/-- No value goes over from the second arguments to a flag at the end of the first. -/
theorem given_append (before : List String) : given (before ++ after) = given before ++ given after := by
  induction before with
  | nil => rfl
  | cons argument rest ih =>
    cases hargument : Flag.isFlag argument with
    | true =>
      rw [List.cons_append, given_flag hargument, given_flag hargument, leadingValue_append hafter, ih,
        List.cons_append]
    | false => rw [List.cons_append, given_value hargument, given_value hargument, ih]

/-- If arguments begin with no value, it does not matter if a flag stands right before them. -/
theorem stray?_of_leadingValue (led : Bool) : stray? led after = stray? false after := by
  cases after with
  | nil => rfl
  | cons argument rest =>
    cases hargument : Flag.isFlag argument with
    | true => rw [stray?, stray?, if_pos hargument, if_pos hargument]
    | false => cases (leadingValue_value hargument rest).symm.trans hafter

theorem stray?_append {led : Bool} {before : List String} (hbefore : stray? led before = none) :
    stray? led (before ++ after) = stray? false after := by
  induction before generalizing led with
  | nil => exact stray?_of_leadingValue hafter led
  | cons argument rest ih =>
    rw [stray?] at hbefore
    rw [List.cons_append, stray?]
    cases hargument : Flag.isFlag argument <;> rw [hargument] at hbefore
    · cases led with
      | false => cases hbefore
      | true => exact ih hbefore
    · exact ih hbefore

theorem complete_append {before : List String} {front : Flags} (hbefore : complete [] before = .ok front)
    (hfront : front = Keyed.putAll [] (given before)) :
    complete [] (before ++ after) = (complete [] after).map front.putAll := by
  -- the flag at the end that may need a value is that of the second arguments, unless there are none
  rw [complete, List.getLast?_append]
  cases hlast : after.getLast? with
  | none =>
    obtain rfl := List.getLast?_eq_none_iff.mp hlast
    rw [List.append_nil]
    exact hbefore
  | some last =>
    have hgiven : Keyed.putAll [] (given (before ++ after)) = front.putAll (Keyed.putAll [] (given after)) := by
      rw [given_append hafter, Keyed.putAll_append, ← hfront, Keyed.putAll_putAll_nil]
    rw [hgiven, complete, hlast]
    dsimp only [Option.some_or]
    split
    · rfl
    · rfl

/-- Arguments that begin with no value are read after others as by themselves, and what comes of them is put in over
what was there. -/
theorem parse_append_eq {before : List String} {front : Flags} (hbefore : parse before = .ok front) :
    parse (before ++ after) = (parse after).map front.putAll := by
  obtain ⟨hplaced, hfront⟩ := parse_ok hbefore
  have hstray := stray?_eq_none_iff.mpr hplaced
  rw [parse_eq, hstray] at hbefore
  rw [parse_eq, parse_eq, stray?_append hafter hstray]
  cases stray? false after with
  | some value => rfl
  | none => exact complete_append hafter hbefore hfront

end

/-- Arguments that are taken begin with no value. -/
theorem leadingValue_of_parse {arguments : List String} {flags : Flags} (h : parse arguments = .ok flags) :
    leadingValue arguments = none := by
  cases arguments with
  | nil => rfl
  | cons argument rest =>
    cases hargument : Flag.isFlag argument with
    | true => exact leadingValue_flag hargument rest
    | false => exact absurd ⟨rfl, hargument, rfl⟩ ((parse_ok h).1 0 argument)

/-! ### What becomes of the flags -/

theorem nodup_keys_of_parse {arguments : List String} {flags : Flags} (h : parse arguments = .ok flags) :
    flags.keys.Nodup := by
  obtain ⟨-, rfl⟩ := parse_ok h
  exact Keyed.nodup_keys_putAll [] (given arguments) List.nodup_nil

theorem label_of_parse {arguments : List String} {flags : Flags} (h : parse arguments = .ok flags) :
    flags.label = "ArgumentStore(\x7b" ++ ", ".intercalate (flags.keys.map
      fun name => entryText (name, flags.get? name)) ++ "\x7d)" := by
  have hlabel := (givenBy_of_parse h).label
  obtain ⟨-, rfl⟩ := parse_ok h
  rw [Keyed.keys_putAll_nil, keys_given]
  exact hlabel

section

variable {front back : Flags} (hback : back.keys.Nodup)
include hback

theorem has_putAll (name : String) : has (front.putAll back) name = (front.has name || back.has name) := by
  rw [has, Keyed.lookup_putAll_of_nodup front hback, Option.isSome_or, Bool.or_comm]
  rfl

theorem get?_putAll_of_has {name : String} (h : back.has name = true) :
    get? (front.putAll back) name = back.get? name := by
  obtain ⟨value, hvalue⟩ := Option.isSome_iff_exists.mp h
  rw [get?, get?, Keyed.lookup_putAll_of_nodup front hback, hvalue, Option.some_or]

theorem get?_putAll_of_not_has {name : String} (h : ¬ back.has name = true) :
    get? (front.putAll back) name = front.get? name := by
  rw [has, Option.not_isSome_iff_eq_none] at h
  rw [get?, get?, Keyed.lookup_putAll_of_nodup front hback, h, Option.none_or]

theorem keys_putAll : (front.putAll back).keys = front.keys ++ back.keys.filter fun name => !front.has name := by
  rw [Keyed.keys_putAll front hback]
  simp only [has, Option.not_isSome]

end

/-- What flags are if the arguments `after` follow on those that gave `front`, and give `back` by themselves. -/
structure Overridden (after : List String) (front back flags : Flags) : Prop where
  has : ∀ name, flags.has name = true ↔ front.has name = true ∨ back.has name = true
  /-- A flag that occurs in the later arguments has its entry from there, be it a value or none. -/
  later : ∀ name ∈ after, Flag.isFlag name = true → flags.get? name = back.get? name
  earlier : ∀ name, ¬ (name ∈ after ∧ Flag.isFlag name = true) → flags.get? name = front.get? name
  /-- The earlier flags are shown first, in their order, and then the new ones. -/
  label : flags.label = "ArgumentStore(\x7b" ++ ", ".intercalate
    ((front.keys ++ back.keys.filter fun name => !front.has name).map
      fun name => entryText (name, flags.get? name)) ++ "\x7d)"

section

variable {before after : List String} {front back : Flags} (hbefore : parse before = .ok front)
  (hback : parse after = .ok back)
include hbefore hback

theorem parse_append_ok : parse (before ++ after) = .ok (front.putAll back) := by
  rw [parse_append_eq (leadingValue_of_parse hback) hbefore, hback]
  rfl

theorem overridden_putAll : Overridden after front back (front.putAll back) := by
  have hnodup := nodup_keys_of_parse hback
  have hoccurs := (givenBy_of_parse hback).has
  constructor
  case has =>
    intro name
    rw [has_putAll hnodup, Bool.or_eq_true]
  case later =>
    intro name hmem hname
    exact get?_putAll_of_has hnodup ((hoccurs name).mpr ⟨hmem, hname⟩)
  case earlier =>
    intro name hnot
    exact get?_putAll_of_not_has hnodup (mt (hoccurs name).mp hnot)
  case label => rw [label_of_parse (parse_append_ok hbefore hback), keys_putAll hnodup]

end

/-! ### Composition -/

/-- **Arguments compose.** Two lists of arguments that are taken make one that is taken, and its flags are those of
the first overridden by those of the second. Arguments may be cut before any flag if what stands in front of it is
taken: they are refused exactly if the rest is, for the same reason, and otherwise every flag has the value that it
has in the two parts. -/
theorem parse_append {before : List String} {front : Flags} (hbefore : parse before = .ok front) :
    (∀ after back, parse after = .ok back →
      parse (before ++ after) = .ok (front.putAll back) ∧ Overridden after front back (front.putAll back)) ∧
    ∀ flag rest, Flag.isFlag flag = true →
      (∀ failure, parse (before ++ flag :: rest) = .error failure ↔ parse (flag :: rest) = .error failure) ∧
      ∀ flags, parse (before ++ flag :: rest) = .ok flags →
        ∃ back, parse (flag :: rest) = .ok back ∧ Overridden (flag :: rest) front back flags := by
  constructor
  · intro after back hback
    exact ⟨parse_append_ok hbefore hback, overridden_putAll hbefore hback⟩
  · intro flag rest hflag
    -- the rest need not be taken, so what the whole comes to is compared and not only its flags
    have hwhole := parse_append_eq (leadingValue_flag hflag rest) hbefore
    cases hrest : parse (flag :: rest) with
    | error failure =>
      rw [hrest] at hwhole
      rw [hwhole]
      exact ⟨fun other => Iff.rfl, nofun⟩
    | ok back =>
      rw [hrest] at hwhole
      rw [hwhole]
      refine ⟨fun failure => iff_of_false nofun nofun, fun flags hflags => ⟨back, rfl, ?_⟩⟩
      obtain rfl := Except.ok.inj hflags
      exact overridden_putAll hbefore hrest

/-- The flag at the end of the first arguments stays without a value, and one that is given again without a value
loses the one that it had. A flag that needs a value and ends the second arguments ends both. -/
theorem parse_append_switch :
    let before := ["-out", "a", "-help"]
    let after := ["-swiftc", "s", "-out", "-print-source"]
    ∃ front back, parse before = .ok front ∧ parse after = .ok back ∧ front.get? "-out" = some "a" ∧
      parse (before ++ after) = .ok (front.putAll back) ∧ get? (front.putAll back) "-out" = none ∧
      get? (front.putAll back) "-help" = none ∧ get? (front.putAll back) "-swiftc" = some "s" ∧
      label (front.putAll back) =
        "ArgumentStore(\x7b'-out': None, '-help': None, '-swiftc': 's', '-print-source': None\x7d)" ∧
      (∃ cut, parse after = .ok cut ∧ Overridden after front cut (front.putAll back)) ∧
      parse (before ++ ["-out"]) = .error (.missingValue "-out") := by
  intro before after
  have hbefore : parse before = .ok [("-out", some "a"), ("-help", none)] := rfl
  have hafter : parse after = .ok [("-swiftc", some "s"), ("-out", none), ("-print-source", none)] := rfl
  obtain ⟨hcompose, hcut⟩ := parse_append hbefore
  obtain ⟨hwhole, hoverridden⟩ := hcompose after _ hafter
  refine ⟨_, _, hbefore, hafter, rfl, hwhole, ?_, ?_, ?_, ?_, ?_, ?_⟩
  · exact hoverridden.later "-out" (by decide) (by decide)
  · exact hoverridden.earlier "-help" (by decide)
  · exact hoverridden.later "-swiftc" (by decide) (by decide)
  · exact hoverridden.label.trans (by decide +kernel)
  · exact (hcut "-swiftc" ["s", "-out", "-print-source"] (by decide)).2 _ hwhole
  · exact ((hcut "-out" [] (by decide)).1 (.missingValue "-out")).mpr rfl

end Flags
end SourceTree.Command
