import SourceTree.Command.Run
import SourceTree.Proofs.Command.Grammar

/-!
# What a run reads of its arguments

Of the actions whose flags are among the arguments the first one in the order of precedence is done, wherever its
flag stands and whatever stands after it. An action reads the values of a few flags, and of a flag it reads what
stands after it last. So two runs do the same whose arguments ask for the same action and agree on what it reads,
whatever else stands among them.
-/
namespace SourceTree.Command

/-! ### The action -/

/-- The flags of actions, as all flags, begin with a dash. -/
theorem Action.isFlag_flag (action : Action) : Flag.isFlag action.flag = true := by
  cases action <;> decide

theorem Action.mem_precedence (action : Action) : action ∈ Action.precedence := by
  cases action <;> decide

/-- The flag of the action is among the arguments, and the flag of no action that has precedence. -/
def Selects (arguments : List String) (action : Action) : Prop :=
  action.flag ∈ arguments ∧ ∃ before after, Action.precedence = before ++ action :: after ∧
    ∀ other ∈ before, other.flag ∉ arguments

theorem select_cases (flags : Flags) :
    (∃ action, Action.select flags = .ok action) ∨ Action.select flags = .error .noAction := by
  rw [Action.select]
  cases Action.precedence.find? fun action => flags.has action.flag with
  | none => exact .inr rfl
  | some action => exact .inl ⟨action, rfl⟩

section

variable {arguments : List String} {flags : Flags} (h : Flags.parse arguments = .ok flags)
include h

theorem has_flag_iff (action : Action) : flags.has action.flag = true ↔ action.flag ∈ arguments := by
  rw [((Flags.givenBy_of_parse h).has action.flag), and_iff_left action.isFlag_flag]

/-- The action that the flags ask for is the one that wins over the others among the arguments. -/
theorem select_ok_iff (action : Action) : Action.select flags = .ok action ↔ Selects arguments action := by
  have hfind : Action.select flags = .ok action ↔
      Action.precedence.find? (fun action => flags.has action.flag) = some action := by
    rw [Action.select]
    cases Action.precedence.find? (fun action => flags.has action.flag) with
    | none => exact iff_of_false nofun nofun
    | some found => exact ⟨fun h => congrArg some (Except.ok.inj h), fun h => congrArg Except.ok (Option.some.inj h)⟩
  have hnot : ∀ other : Action, (!flags.has other.flag) = true ↔ other.flag ∉ arguments := fun other => by
    rw [← has_flag_iff h, Bool.not_eq_true', Bool.not_eq_true]
  rw [hfind, List.find?_eq_some_iff_append, has_flag_iff h]
  simp only [hnot]
  rfl

theorem select_none_iff :
    Action.select flags = .error .noAction ↔ ∀ action : Action, action.flag ∉ arguments := by
  have hfind : Action.select flags = .error .noAction ↔
      Action.precedence.find? (fun action => flags.has action.flag) = none := by
    rw [Action.select]
    cases Action.precedence.find? (fun action => flags.has action.flag) with
    | none => exact iff_of_true rfl rfl
    | some found => exact iff_of_false nofun nofun
  rw [hfind, List.find?_eq_none]
  constructor
  · exact fun hnone action hmem => hnone action action.mem_precedence ((has_flag_iff h action).mpr hmem)
  · exact fun hnone action _ hhas => hnone action ((has_flag_iff h action).mp hhas)

end

/-- Arguments that select the same actions, if any, are taken in the same way. -/
theorem select_congr {arguments arguments' : List String} {flags flags' : Flags}
    (h : Flags.parse arguments = .ok flags) (h' : Flags.parse arguments' = .ok flags')
    (hselects : ∀ action, Selects arguments action ↔ Selects arguments' action) :
    Action.select flags = Action.select flags' := by
  have hiff : ∀ action, Action.select flags = .ok action ↔ Action.select flags' = .ok action := fun action => by
    rw [select_ok_iff h, select_ok_iff h', hselects]
  rcases select_cases flags with ⟨action, haction⟩ | hnone
  · rw [haction, (hiff action).mp haction]
  · rcases select_cases flags' with ⟨action, haction⟩ | hnone'
    · rw [haction, (hiff action).mpr haction]
    · rw [hnone, hnone']

/-! ### The values that an action reads -/

/-- The flags whose values an action reads. -/
def Action.reads : Action → List String
  | deserialize => [Flag.preEditTree, Flag.out, Flag.serializationFormat]
  | incrementalRoundTrip => [Flag.preEditTree, Flag.incrTree, Flag.out, Flag.serializationFormat]
  | classifySyntaxColoring => [Flag.sourceFile, Flag.swiftc, Flag.out]
  | printTreeStructure => [Flag.sourceFile, Flag.swiftc]
  | help => []

theorem Action.isFlag_of_reads {action : Action} : ∀ name ∈ action.reads, Flag.isFlag name = true := by
  cases action <;> decide

section

variable {flags flags' : Flags} {name : String}

theorem requirePath_congr (h : flags.get? name = flags'.get? name) :
    flags.requirePath name = flags'.requirePath name := by
  rw [Flags.requirePath, Flags.requirePath, Flags.require, Flags.require, h]

theorem path?_congr (h : flags.get? name = flags'.get? name) : flags.path? name = flags'.path? name := by
  rw [Flags.path?, Flags.path?, h]

theorem format_congr (h : flags.get? Flag.serializationFormat = flags'.get? Flag.serializationFormat) :
    flags.format = flags'.format := by
  rw [Flags.format, Flags.format, h]

/-- What an action does is a matter of the values that it reads. -/
theorem act_congr_reads {action : Action} (h : ∀ name ∈ action.reads, flags.get? name = flags'.get? name)
    (host : Host) (searchPath : SearchPath) :
    Run.act host searchPath flags action = Run.act host searchPath flags' action := by
  cases action with
  | deserialize =>
    have htree := requirePath_congr (h Flag.preEditTree (by decide))
    have hout := requirePath_congr (h Flag.out (by decide))
    have hformat := format_congr (h Flag.serializationFormat (by decide))
    simp only [Run.act, Run.deserialize, htree, hout, hformat]
  | incrementalRoundTrip =>
    have htree := requirePath_congr (h Flag.preEditTree (by decide))
    have hincremental := requirePath_congr (h Flag.incrTree (by decide))
    have hout := requirePath_congr (h Flag.out (by decide))
    have hformat := format_congr (h Flag.serializationFormat (by decide))
    simp only [Run.act, Run.incrementalRoundTrip, htree, hincremental, hout, hformat]
  | classifySyntaxColoring =>
    have hsource := requirePath_congr (h Flag.sourceFile (by decide))
    have hcompiler := path?_congr (h Flag.swiftc (by decide))
    have hout := path?_congr (h Flag.out (by decide))
    simp only [Run.act, Run.classifySyntax, hsource, hcompiler, hout]
  | printTreeStructure =>
    have hsource := requirePath_congr (h Flag.sourceFile (by decide))
    have hcompiler := path?_congr (h Flag.swiftc (by decide))
    simp only [Run.act, Run.printStructure, hsource, hcompiler]
  | help => rfl

end

/-! ### Runs -/

/-- The arguments follow the grammar. -/
def Accepted (arguments : List String) : Prop := ∃ flags, Flags.parse arguments = .ok flags

/-- The arguments ask for the same action, or for none, and say the same about what it reads. -/
structure SameRequest (arguments arguments' : List String) : Prop where
  action : ∀ action, Selects arguments action ↔ Selects arguments' action
  reads : ∀ action, Selects arguments action → ∀ name ∈ action.reads,
    Flags.lastValue name arguments = Flags.lastValue name arguments'

theorem body_of_sameRequest {arguments arguments' : List String} (h : Accepted arguments)
    (h' : Accepted arguments') (hsame : SameRequest arguments arguments') (host : Host)
    (environment : Environment) (settings : Settings) :
    Run.body host ⟨arguments, environment⟩ settings = Run.body host ⟨arguments', environment⟩ settings := by
  obtain ⟨flags, hflags⟩ := h
  obtain ⟨flags', hflags'⟩ := h'
  have hselect := select_congr hflags hflags' hsame.action
  simp only [Run.body, hflags, hflags', hselect, Run.ofExcept, pure_bind]
  rcases select_cases flags' with ⟨action, haction⟩ | hnone
  · have hreads : ∀ name ∈ action.reads, flags.get? name = flags'.get? name := by
      intro name hname
      have hselects := (select_ok_iff hflags action).mp (hselect.trans haction)
      rw [Flags.get?_of_parse hflags (Action.isFlag_of_reads name hname),
        Flags.get?_of_parse hflags' (Action.isFlag_of_reads name hname), hsame.reads action hselects name hname]
    simp only [haction, pure_bind, act_congr_reads hreads]
    rfl
  · simp only [hnone]
    rfl

/-- **The request of arguments.** Arguments that follow the grammar ask for the first action in the order of
precedence whose flag is among them, and for none if there is no such flag. Runs whose arguments ask for the same
action and have the same values after the flags that it reads, where each of these stands last, do the same on
every machine and in every environment. -/
theorem run_selected :
    (∀ arguments flags, Flags.parse arguments = .ok flags →
      (∀ action, Action.select flags = .ok action ↔ Selects arguments action) ∧
      (Action.select flags = .error .noAction ↔ ∀ action : Action, action.flag ∉ arguments)) ∧
    ∀ arguments arguments', Accepted arguments → Accepted arguments' → SameRequest arguments arguments' →
      ∀ (m : Machine) (host : Host) (environment : Environment),
        m.run host ⟨arguments, environment⟩ = m.run host ⟨arguments', environment⟩ := by
  refine ⟨fun arguments flags h => ⟨select_ok_iff h, select_none_iff h⟩, ?_⟩
  intro arguments arguments' h h' hsame m host environment
  rw [Machine.run, Machine.run]
  dsimp only
  rw [body_of_sameRequest h h' hsame]

/-- Two ways to have a tree read and written, one of which also asks for help, has a file printed, names another
output first and gives the action itself a value: both do the same, on every machine. -/
theorem run_selected_deserialize :
    let arguments := ["-help", "-out", "a", "-deserialize", "x", "-pre-edit-tree", "t", "-print-source",
      "-swiftc", "c", "-out", "b"]
    let arguments' := ["-pre-edit-tree", "t", "-deserialize", "-out", "b"]
    Accepted arguments ∧ Accepted arguments' ∧ SameRequest arguments arguments' ∧
      (∃ flags, Flags.parse arguments = .ok flags ∧ Action.select flags = .ok .deserialize) ∧
      ∀ (m : Machine) (host : Host) (environment : Environment),
        m.run host ⟨arguments, environment⟩ = m.run host ⟨arguments', environment⟩ := by
  intro arguments arguments'
  let flags : Flags := [("-help", none), ("-out", some "b"), ("-deserialize", some "x"),
    ("-pre-edit-tree", some "t"), ("-print-source", none), ("-swiftc", some "c")]
  let flags' : Flags := [("-pre-edit-tree", some "t"), ("-deserialize", none), ("-out", some "b")]
  have hflags : Flags.parse arguments = .ok flags := rfl
  have hflags' : Flags.parse arguments' = .ok flags' := rfl
  have hselect : Action.select flags = .ok .deserialize := rfl
  have hselect' : Action.select flags' = .ok .deserialize := rfl
  have hselects : ∀ action, Selects arguments action ↔ Selects arguments' action := fun action => by
    rw [← (run_selected.1 arguments flags hflags).1, ← (run_selected.1 arguments' flags' hflags').1, hselect,
      hselect']
  have hsame : SameRequest arguments arguments' := by
    refine ⟨hselects, fun action hselected => ?_⟩
    have haction := ((run_selected.1 arguments flags hflags).1 action).mpr hselected
    obtain rfl : Action.deserialize = action := Except.ok.inj (hselect.symm.trans haction)
    decide
  have h : Accepted arguments := ⟨flags, hflags⟩
  have h' : Accepted arguments' := ⟨flags', hflags'⟩
  exact ⟨h, h', hsame, ⟨flags, hflags, hselect⟩, run_selected.2 arguments arguments' h h' hsame⟩

end SourceTree.Command
