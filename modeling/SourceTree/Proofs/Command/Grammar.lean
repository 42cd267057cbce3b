import SourceTree.Command.Flags
import SourceTree.Proofs.Keyed

/-!
# The grammar of arguments

Arguments are flags and values. They follow the grammar if every value stands right after a flag and the last
argument is no flag that needs a value. Then the flags that were given are those among the arguments, in the order
in which each of them stands first, and the value of a flag is what stands right after it where it stands last, if
that is a value. Arguments that do not follow the grammar are refused for the first value out of place, and for
the flag at their end only if there is none.
-/
namespace SourceTree.Command

namespace Flags

/-! ### What stands where -/

/-- The value that arguments begin with. -/
def leadingValue : List String → Option String
  | [] => none
  | argument :: _ => if Flag.isFlag argument then none else some argument

/-- The flags among arguments, each with the value right after it. -/
def given : List String → Keyed String (Option String)
  | [] => []
  | argument :: rest =>
    if Flag.isFlag argument then (argument, leadingValue rest) :: given rest else given rest

/-- The first value with no flag right before it. `led` says if there is a flag right before the arguments. -/
def stray? (led : Bool) : List String → Option String
  | [] => none
  | argument :: rest =>
    if Flag.isFlag argument then stray? true rest
    else if led then stray? false rest else some argument

theorem given_flag {flag : String} (h : Flag.isFlag flag = true) (rest : List String) :
    given (flag :: rest) = (flag, leadingValue rest) :: given rest := if_pos h

theorem given_value {value : String} (h : Flag.isFlag value = false) (rest : List String) :
    given (value :: rest) = given rest := by
  rw [given, h, if_neg Bool.false_ne_true]

theorem leadingValue_flag {flag : String} (h : Flag.isFlag flag = true) (rest : List String) :
    leadingValue (flag :: rest) = none := if_pos h

theorem leadingValue_value {value : String} (h : Flag.isFlag value = false) (rest : List String) :
    leadingValue (value :: rest) = some value := by
  rw [leadingValue, h, if_neg Bool.false_ne_true]

theorem isFlag_of_needingValue : ∀ flag ∈ Flag.needingValue, Flag.isFlag flag = true := by decide

/-- Arguments with all values in place: a flag that needs a value is missing it if it stands at the end. -/
def complete (flags : Flags) (arguments : List String) : Except Failure Flags :=
  match arguments.getLast? with
  | none => .ok flags
  | some last =>
    if Flag.needingValue.contains last then .error (.missingValue last)
    else .ok (Keyed.putAll flags (given arguments))

theorem complete_flag {flag next : String} (hflag : Flag.isFlag flag = true) (hnext : Flag.isFlag next = true)
    (flags : Flags) (rest : List String) :
    complete flags (flag :: next :: rest) = complete (flags.put flag none) (next :: rest) := by
  rw [complete, complete, List.getLast?_cons_cons, given_flag hflag, leadingValue_flag hnext]
  cases hlast : (next :: rest).getLast? with
  | none => cases List.getLast?_eq_none_iff.mp hlast
  | some last => rfl

theorem complete_value {flag value : String} (hflag : Flag.isFlag flag = true)
    (hvalue : Flag.isFlag value = false) (flags : Flags) (rest : List String) :
    complete flags (flag :: value :: rest) = complete (flags.put flag (some value)) rest := by
  rw [complete, given_flag hflag, leadingValue_value hvalue, given_value hvalue]
  cases rest with
  | nil =>
    have hneeds : ¬ Flag.needingValue.contains value := fun hmem => by
      have hflag := isFlag_of_needingValue value (List.contains_iff_mem.mp hmem)
      rw [hvalue] at hflag
      cases hflag
    exact if_neg hneeds
  | cons next rest =>
    rw [complete, List.getLast?_cons_cons, List.getLast?_cons_cons]
    cases hlast : (next :: rest).getLast? with
    | none => cases List.getLast?_eq_none_iff.mp hlast
    | some last => rfl

/-- The loop, from any point on: the flag that may still get a value stands before the arguments that are left. -/
theorem parseFrom_eq (flags : Flags) {current : Option String} (arguments : List String)
    (h : ∀ flag, current = some flag → Flag.isFlag flag = true) :
    parseFrom flags current arguments =
      match stray? current.isSome arguments with
      | some value => .error (.strayValue value)
      | none => complete flags (current.toList ++ arguments) := by
  induction arguments generalizing flags current with
  | nil =>
    cases current with
    | none => rfl
    | some flag =>
      change _ = complete flags [flag]
      rw [complete, given_flag (h flag rfl)]
      rfl
  | cons argument rest ih =>
    cases hargument : Flag.isFlag argument with
    | true =>
      have hnext : ∀ flag, some argument = some flag → Flag.isFlag flag = true := by
        rintro flag ⟨⟩
        exact hargument
      have hstray : ∀ led, stray? led (argument :: rest) = stray? true rest := fun led => if_pos hargument
      rw [hstray]
      cases current with
      | none =>
        have hstep : parseFrom flags none (argument :: rest) = parseFrom flags (some argument) rest :=
          if_pos hargument
        exact hstep.trans (ih flags hnext)
      | some flag =>
        have hstep : parseFrom flags (some flag) (argument :: rest) =
            parseFrom (flags.put flag none) (some argument) rest := if_pos hargument
        rw [hstep, ih _ hnext]
        change _ = match stray? true rest with
          | some value => _
          | none => complete flags (flag :: argument :: rest)
        rw [complete_flag (h flag rfl) hargument]
        rfl
    | false =>
      have hnot : ¬ Flag.isFlag argument = true := by rw [hargument]; nofun
      cases current with
      | none =>
        have hstep : parseFrom flags none (argument :: rest) = .error (.strayValue argument) := if_neg hnot
        have hstray : stray? false (argument :: rest) = some argument := if_neg hnot
        rw [hstep, Option.isSome_none, hstray]
      | some flag =>
        have hstep : parseFrom flags (some flag) (argument :: rest) =
            parseFrom (flags.put flag (some argument)) none rest := if_neg hnot
        have hstray : stray? true (argument :: rest) = stray? false rest := if_neg hnot
        have hnone : ∀ flag, none = some flag → Flag.isFlag flag = true := nofun
        rw [hstep, ih _ hnone, Option.isSome_some, hstray]
        change _ = match stray? false rest with
          | some value => _
          | none => complete flags (flag :: argument :: rest)
        rw [complete_value (h flag rfl) hargument]
        rfl

theorem parse_eq (arguments : List String) :
    parse arguments =
      match stray? false arguments with
      | some value => .error (.strayValue value)
      | none => complete [] arguments := parseFrom_eq [] arguments nofun

/-! ### Values out of place -/

/-- A flag stands right before the place `n`. -/
def isLed (arguments : List String) : Nat → Bool
  | 0 => false
  | n + 1 => arguments[n]?.any Flag.isFlag

/-- At the place `n` stands a value with no flag right before it. -/
structure Stray (arguments : List String) (n : Nat) (value : String) : Prop where
  here : arguments[n]? = some value
  isValue : Flag.isFlag value = false
  unled : isLed arguments n = false

/-- Every value stands right after a flag. -/
def Placed (arguments : List String) : Prop := ∀ n value, ¬ Stray arguments n value

/-- The first value with no flag right before it stands at the place `n`. -/
structure FirstStray (arguments : List String) (n : Nat) (value : String) : Prop where
  stray : Stray arguments n value
  first : ∀ k < n, ∀ other, ¬ Stray arguments k other

theorem stray_cons_iff {argument : String} {rest : List String} {n : Nat} {value : String} :
    Stray (argument :: rest) (n + 1) value ↔ Stray rest n value ∧ (n = 0 → Flag.isFlag argument = false) := by
  cases n with
  | zero =>
    constructor
    · exact fun h => ⟨⟨h.here, h.isValue, rfl⟩, fun _ => h.unled⟩
    · exact fun h => ⟨h.1.here, h.1.isValue, h.2 rfl⟩
  | succ n =>
    constructor
    · exact fun h => ⟨⟨h.here, h.isValue, h.unled⟩, nofun⟩
    · exact fun h => ⟨h.1.here, h.1.isValue, h.1.unled⟩

theorem stray_zero_iff {argument : String} {rest : List String} {value : String} :
    Stray (argument :: rest) 0 value ↔ argument = value ∧ Flag.isFlag value = false :=
  ⟨fun h => ⟨Option.some.inj h.here, h.isValue⟩, fun h => ⟨congrArg some h.1, h.2, rfl⟩⟩

theorem not_stray_of_stray? {led : Bool} {arguments : List String} (h : stray? led arguments = none) {n : Nat}
    {value : String} (hstray : Stray arguments n value) : n = 0 ∧ led = true := by
  induction arguments generalizing led n with
  | nil => cases hstray.here
  | cons argument rest ih =>
    rw [stray?] at h
    cases hargument : Flag.isFlag argument <;> rw [hargument] at h
    · cases led with
      | false => cases h
      | true =>
        cases n with
        | zero => exact ⟨rfl, rfl⟩
        | succ n => cases (ih h (stray_cons_iff.mp hstray).1).2
    · cases n with
      | zero =>
        obtain ⟨rfl, hvalue⟩ := stray_zero_iff.mp hstray
        cases hargument.symm.trans hvalue
      | succ n =>
        obtain ⟨hrest, hfirst⟩ := stray_cons_iff.mp hstray
        cases hargument.symm.trans (hfirst (ih h hrest).1)

theorem stray_of_stray? {led : Bool} {arguments : List String} {value : String}
    (h : stray? led arguments = some value) :
    ∃ n, Stray arguments n value ∧ (n = 0 → led = false) ∧
      ∀ k < n, ∀ other, Stray arguments k other → k = 0 ∧ led = true := by
  induction arguments generalizing led with
  | nil => cases h
  | cons argument rest ih =>
    rw [stray?] at h
    cases hargument : Flag.isFlag argument <;> rw [hargument] at h
    · cases led with
      | false =>
        obtain rfl := Option.some.inj h
        exact ⟨0, stray_zero_iff.mpr ⟨rfl, hargument⟩, fun _ => rfl, nofun⟩
      | true =>
        obtain ⟨n, hstray, -, hfirst⟩ := ih h
        refine ⟨n + 1, stray_cons_iff.mpr ⟨hstray, fun _ => hargument⟩, nofun, fun k hk other hother => ?_⟩
        cases k with
        | zero => exact ⟨rfl, rfl⟩
        | succ k => cases (hfirst k (Nat.lt_of_succ_lt_succ hk) other (stray_cons_iff.mp hother).1).2
    · obtain ⟨n, hstray, hled, hfirst⟩ := ih h
      refine ⟨n + 1, stray_cons_iff.mpr ⟨hstray, fun hn => nomatch hled hn⟩, nofun, fun k hk other hother => ?_⟩
      cases k with
      | zero =>
        obtain ⟨rfl, hvalue⟩ := stray_zero_iff.mp hother
        cases hargument.symm.trans hvalue
      | succ k =>
        obtain ⟨hrest, hflag⟩ := stray_cons_iff.mp hother
        have hzero := (hfirst k (Nat.lt_of_succ_lt_succ hk) other hrest).1
        cases hargument.symm.trans (hflag hzero)

theorem FirstStray.unique {arguments : List String} {n k : Nat} {value other : String}
    (h : FirstStray arguments n value) (h' : FirstStray arguments k other) : value = other := by
  rcases Nat.lt_trichotomy n k with hlt | rfl | hlt
  · exact absurd h.stray (h'.first n hlt value)
  · exact Option.some.inj (h.stray.here.symm.trans h'.stray.here)
  · exact absurd h'.stray (h.first k hlt other)

theorem stray?_eq_some_iff {arguments : List String} {value : String} :
    stray? false arguments = some value ↔ ∃ n, FirstStray arguments n value := by
  have hfound : ∀ {value}, stray? false arguments = some value → ∃ n, FirstStray arguments n value := by
    intro value h
    obtain ⟨n, hstray, -, hfirst⟩ := stray_of_stray? h
    exact ⟨n, hstray, fun k hk other hother => nomatch (hfirst k hk other hother).2⟩
  refine ⟨hfound, fun ⟨n, hfirst⟩ => ?_⟩
  cases h : stray? false arguments with
  | none => cases (not_stray_of_stray? h hfirst.stray).2
  | some other =>
    obtain ⟨k, hother⟩ := hfound h
    rw [hfirst.unique hother]

theorem stray?_eq_none_iff {arguments : List String} :
    stray? false arguments = none ↔ Placed arguments := by
  constructor
  · intro h n value hstray
    cases (not_stray_of_stray? h hstray).2
  · intro h
    cases hstray : stray? false arguments with
    | none => rfl
    | some value =>
      obtain ⟨n, hfirst⟩ := stray?_eq_some_iff.mp hstray
      exact absurd hfirst.stray (h n value)

/-! ### What was given -/

/-- The value right after a flag, where it stands last. -/
def lastValue (name : String) : List String → Option String
  | [] => none
  | argument :: rest =>
    if name ∈ rest then lastValue name rest
    else if argument = name then leadingValue rest else none

theorem lastValue_of_notMem {name : String} {arguments : List String} (h : name ∉ arguments) :
    lastValue name arguments = none := by
  cases arguments with
  | nil => rfl
  | cons argument rest =>
    rw [List.mem_cons, not_or] at h
    rw [lastValue, if_neg h.2, if_neg (Ne.symm h.1)]

theorem lastValue_split {name : String} {after : List String} (h : name ∉ after) (before : List String) :
    lastValue name (before ++ name :: after) = leadingValue after := by
  induction before with
  | nil => rw [List.nil_append, lastValue, if_neg h, if_pos rfl]
  | cons argument before ih =>
    rw [List.cons_append, lastValue, if_pos (List.mem_append_right before List.mem_cons_self), ih]

theorem keys_given (arguments : List String) : (given arguments).keys = arguments.filter Flag.isFlag := by
  induction arguments with
  | nil => rfl
  | cons argument rest ih =>
    cases hargument : Flag.isFlag argument with
    | true => rw [given_flag hargument, List.filter_cons_of_pos hargument, ← ih]; rfl
    | false =>
      have hnot : ¬ Flag.isFlag argument = true := by rw [hargument]; nofun
      rw [given_value hargument, List.filter_cons_of_neg hnot, ih]

/-- Of the values that were given to a flag the last one counts. -/
theorem lookup_given {name : String} (hname : Flag.isFlag name = true) (arguments : List String) :
    (given arguments).reverse.lookup name =
      if name ∈ arguments then some (lastValue name arguments) else none := by
  induction arguments with
  | nil => rfl
  | cons argument rest ih =>
    cases hargument : Flag.isFlag argument with
    | true =>
      rw [given_flag hargument, List.reverse_cons, List.lookup_append, ih, lastValue]
      by_cases hrest : name ∈ rest
      · simp [hrest]
      · by_cases hhere : name = argument
        · subst hhere
          simp [hrest]
        · simp [hrest, hhere, List.lookup_cons, beq_false_of_ne hhere]
    | false =>
      have hne : name ≠ argument := by
        rintro rfl
        cases hname.symm.trans hargument
      rw [given_value hargument, ih, lastValue]
      by_cases hrest : name ∈ rest
      · simp [hrest]
      · simp [hrest, hne]

/-- What the flags of arguments are, and what they say. -/
structure GivenBy (arguments : List String) (flags : Flags) : Prop where
  has : ∀ name, flags.has name = true ↔ name ∈ arguments ∧ Flag.isFlag name = true
  /-- The value of a flag is what stands right after it where it stands last, if that is a value. -/
  value : ∀ before name after, arguments = before ++ name :: after → name ∉ after →
    flags.get? name = leadingValue after
  absent : ∀ name, name ∉ arguments → flags.get? name = none
  /-- The flags are shown in the order in which each of them stands first. -/
  label : flags.label = "ArgumentStore(\x7b" ++ ", ".intercalate ((arguments.filter Flag.isFlag).eraseDups.map
    fun name => entryText (name, flags.get? name)) ++ "\x7d)"

theorem has_putAll_given (arguments : List String) (name : String) :
    has (Keyed.putAll [] (given arguments)) name = true ↔ name ∈ arguments ∧ Flag.isFlag name = true := by
  rw [has, Keyed.isSome_lookup_iff, Keyed.keys_putAll_nil, keys_given, List.mem_eraseDups, List.mem_filter]

theorem get?_putAll_given {name : String} (hname : Flag.isFlag name = true) (arguments : List String) :
    get? (Keyed.putAll [] (given arguments)) name = lastValue name arguments := by
  rw [get?, Keyed.lookup_putAll, lookup_given hname]
  by_cases hmem : name ∈ arguments
  · rw [if_pos hmem]
    rfl
  · rw [if_neg hmem, lastValue_of_notMem hmem]
    rfl

theorem get?_eq_none_of_not_has {flags : Flags} {name : String} (h : ¬ flags.has name = true) :
    flags.get? name = none := by
  rw [has, Option.not_isSome_iff_eq_none] at h
  rw [get?, h]
  rfl

/-- If no value is out of place, none stands right after another argument that is no flag. -/
theorem leadingValue_of_value {arguments before after : List String} {name : String}
    (hplaced : Placed arguments) (h : arguments = before ++ name :: after)
    (hname : Flag.isFlag name = false) : leadingValue after = none := by
  cases after with
  | nil => rfl
  | cons next rest =>
    cases hnext : Flag.isFlag next with
    | true => exact leadingValue_flag hnext rest
    | false =>
      have hhere : arguments[before.length + 1]? = some next := by
        rw [h]
        simp
      have hbefore : arguments[before.length]? = some name := by
        rw [h]
        simp
      have hunled : isLed arguments (before.length + 1) = false := by
        rw [isLed, hbefore]
        exact hname
      exact absurd ⟨hhere, hnext, hunled⟩ (hplaced (before.length + 1) next)

/-- Flags with their values, in the order in which each of them stands first. -/
theorem map_putAll_given {α : Type} (f : String × Option String → α) (arguments : List String) :
    (Keyed.putAll [] (given arguments)).map f = (arguments.filter Flag.isFlag).eraseDups.map
      fun name => f (name, get? (Keyed.putAll [] (given arguments)) name) := by
  have hnodup : (Keyed.putAll [] (given arguments)).keys.Nodup :=
    Keyed.nodup_keys_putAll [] (given arguments) List.nodup_nil
  rw [← keys_given, ← Keyed.keys_putAll_nil]
  refine Eq.trans (List.map_congr_left fun entry hentry => ?_) List.map_map.symm
  have hget : get? (Keyed.putAll [] (given arguments)) entry.1 = entry.2 := by
    rw [get?, Keyed.lookup_of_mem hnodup hentry]
    rfl
  rw [Function.comp_apply, hget]

theorem givenBy_putAll {arguments : List String} (h : Placed arguments) :
    GivenBy arguments (Keyed.putAll [] (given arguments)) := by
  have hhas := has_putAll_given arguments
  constructor
  case has => exact hhas
  case value =>
    intro before name after hsplit hafter
    cases hname : Flag.isFlag name with
    | true =>
      rw [get?_putAll_given hname, hsplit]
      exact lastValue_split hafter before
    | false =>
      rw [leadingValue_of_value h hsplit hname]
      refine get?_eq_none_of_not_has fun hflag => ?_
      cases hname.symm.trans ((hhas name).mp hflag).2
  case absent =>
    exact fun name hname => get?_eq_none_of_not_has fun hflag => hname ((hhas name).mp hflag).1
  case label =>
    exact congrArg (fun lines => "ArgumentStore(\x7b" ++ ", ".intercalate lines ++ "\x7d)")
      (map_putAll_given entryText arguments)

/-! ### The grammar -/

/-- The last argument is a flag that needs a value. -/
def EndsIn (arguments : List String) (flag : String) : Prop :=
  arguments.getLast? = some flag ∧ flag ∈ Flag.needingValue

/-- Arguments have a value out of place, or all of them in place and a flag at the end that needs one, or
neither. -/
theorem parse_cases (arguments : List String) :
    (∃ n value, FirstStray arguments n value ∧ parse arguments = .error (.strayValue value)) ∨
    (∃ flag, Placed arguments ∧ EndsIn arguments flag ∧ parse arguments = .error (.missingValue flag)) ∨
    (Placed arguments ∧ (∀ flag, ¬ EndsIn arguments flag) ∧
      parse arguments = .ok (Keyed.putAll [] (given arguments))) := by
  have hparse := parse_eq arguments
  cases hstray : stray? false arguments with
  | some value =>
    obtain ⟨n, hfirst⟩ := stray?_eq_some_iff.mp hstray
    rw [hstray] at hparse
    exact .inl ⟨n, value, hfirst, hparse⟩
  | none =>
    have hplaced := stray?_eq_none_iff.mp hstray
    rw [hstray] at hparse
    dsimp only at hparse
    rw [complete] at hparse
    cases hlast : arguments.getLast? with
    | none =>
      obtain rfl := List.getLast?_eq_none_iff.mp hlast
      exact .inr (.inr ⟨hplaced, nofun, rfl⟩)
    | some last =>
      rw [hlast] at hparse
      dsimp only at hparse
      by_cases hneeds : last ∈ Flag.needingValue
      · rw [if_pos (List.contains_iff_mem.mpr hneeds)] at hparse
        exact .inr (.inl ⟨last, hplaced, ⟨hlast, hneeds⟩, hparse⟩)
      · rw [if_neg (mt List.contains_iff_mem.mp hneeds)] at hparse
        refine .inr (.inr ⟨hplaced, fun flag hend => ?_, hparse⟩)
        obtain rfl := Option.some.inj (hlast.symm.trans hend.1)
        exact hneeds hend.2

theorem parse_ok {arguments : List String} {flags : Flags} (h : parse arguments = .ok flags) :
    Placed arguments ∧ flags = Keyed.putAll [] (given arguments) := by
  rcases parse_cases arguments with ⟨n, value, -, hparse⟩ | ⟨flag, -, -, hparse⟩ | ⟨hplaced, -, hparse⟩
  · cases h.symm.trans hparse
  · cases h.symm.trans hparse
  · exact ⟨hplaced, Except.ok.inj (h.symm.trans hparse)⟩

theorem givenBy_of_parse {arguments : List String} {flags : Flags} (h : parse arguments = .ok flags) :
    GivenBy arguments flags := by
  obtain ⟨hplaced, rfl⟩ := parse_ok h
  exact givenBy_putAll hplaced

/-- Flags that are read have the value that stands after them last. -/
theorem get?_of_parse {arguments : List String} {flags : Flags} (h : parse arguments = .ok flags) {name : String}
    (hname : Flag.isFlag name = true) : flags.get? name = lastValue name arguments := by
  obtain ⟨-, rfl⟩ := parse_ok h
  exact get?_putAll_given hname arguments

/-- **The grammar of arguments.** Arguments are refused for a value out of place exactly if there is one, and
then for the first one; for the flag at their end exactly if all values are in place and that flag needs one; and
in all other cases they give their flags, each with the value right after it where it stands last. -/
theorem parse_grammar (arguments : List String) :
    (∀ value, (parse arguments = .error (.strayValue value) ↔ ∃ n, FirstStray arguments n value) ∧
      (Failure.strayValue value).message =
        "Malformed argument " ++ value ++ ": value given without a preceding flag") ∧
    (∀ flag, (parse arguments = .error (.missingValue flag) ↔ Placed arguments ∧ EndsIn arguments flag) ∧
      (Failure.missingValue flag).message =
        "Malformed argument " ++ flag ++ ": expected a value after the flag") ∧
    ((∃ flags, parse arguments = .ok flags) ↔ Placed arguments ∧ ∀ flag, ¬ EndsIn arguments flag) ∧
    ∀ flags, parse arguments = .ok flags → GivenBy arguments flags := by
  rcases parse_cases arguments with ⟨n, value, hfirst, hparse⟩ | ⟨flag, hplaced, hend, hparse⟩ |
    ⟨hplaced, hend, hparse⟩
  · have hstray : ¬ Placed arguments := fun hplaced => hplaced n value hfirst.stray
    rw [hparse]
    refine ⟨fun other => ⟨⟨fun h => ?_, fun ⟨k, hother⟩ => ?_⟩, rfl⟩,
      fun flag => ⟨iff_of_false nofun fun h => hstray h.1, rfl⟩, iff_of_false nofun fun h => hstray h.1, nofun⟩
    · obtain rfl := Failure.strayValue.inj (Except.error.inj h)
      exact ⟨n, hfirst⟩
    · rw [hfirst.unique hother]
  · rw [hparse]
    refine ⟨fun value => ⟨iff_of_false nofun fun ⟨n, hfirst⟩ => hplaced n value hfirst.stray, rfl⟩,
      fun other => ⟨⟨fun h => ?_, fun h => ?_⟩, rfl⟩, iff_of_false nofun fun h => h.2 flag hend, nofun⟩
    · obtain rfl := Failure.missingValue.inj (Except.error.inj h)
      exact ⟨hplaced, hend⟩
    · rw [Option.some.inj (hend.1.symm.trans h.2.1)]
  · rw [hparse]
    refine ⟨fun value => ⟨iff_of_false nofun fun ⟨n, hfirst⟩ => hplaced n value hfirst.stray, rfl⟩,
      fun flag => ⟨iff_of_false nofun fun h => hend flag h.2, rfl⟩, iff_of_true ⟨_, rfl⟩ ⟨hplaced, hend⟩,
      fun flags h => ?_⟩
    obtain rfl := Except.ok.inj h
    exact givenBy_putAll hplaced

/-- A flag that is given again without a value loses the one that it had, and one that is given again with an
empty value has that; both keep their first place. The first of two values out of place is the one that counts,
although the arguments end in a flag that needs a value. -/
theorem parse_grammar_repeated :
    let arguments := ["-out", "a", "-help", "-out", "-help", ""]
    let refused := ["-", "x", "y", "z", "-out"]
    (∃ flags, parse arguments = .ok flags ∧ flags.has "-out" = true ∧ flags.get? "-out" = none ∧
      flags.get? "-help" = some "" ∧ flags.label = "ArgumentStore(\x7b'-out': None, '-help': ''\x7d)") ∧
    Stray refused 2 "y" ∧ parse refused = .error (.strayValue "y") ∧
    EndsIn refused "-out" ∧ parse (refused.drop 4) = .error (.missingValue "-out") := by
  intro arguments refused
  have hplaced : Placed arguments := stray?_eq_none_iff.mp (by decide)
  have hends : ∀ flag, ¬ EndsIn arguments flag := by
    rintro flag ⟨hlast, hneeds⟩
    obtain rfl : "" = flag := Option.some.inj hlast
    revert hneeds
    decide
  obtain ⟨-, -, haccepted, hgiven⟩ := parse_grammar arguments
  obtain ⟨flags, hflags⟩ := haccepted.mpr ⟨hplaced, hends⟩
  have hfirst : ∃ n, FirstStray refused n "y" := stray?_eq_some_iff.mp (by decide)
  have hend : EndsIn refused "-out" := ⟨rfl, by decide⟩
  have hsingle : Placed (refused.drop 4) := stray?_eq_none_iff.mp (by decide)
  refine ⟨⟨flags, hflags, ?_, ?_, ?_, ?_⟩, ⟨rfl, by decide, by decide⟩, ?_, hend, ?_⟩
  · exact ((hgiven flags hflags).has "-out").mpr ⟨by decide, by decide⟩
  · exact (hgiven flags hflags).value ["-out", "a", "-help"] "-out" ["-help", ""] rfl (by decide)
  · exact (hgiven flags hflags).value ["-out", "a", "-help", "-out"] "-help" [""] rfl (by decide)
  · obtain rfl := Except.ok.inj hflags
    decide +kernel
  · exact ((parse_grammar refused).1 "y").1.mpr hfirst
  · exact ((parse_grammar (refused.drop 4)).2.1 "-out").1.mpr ⟨hsingle, rfl, by decide⟩

end Flags
end SourceTree.Command
