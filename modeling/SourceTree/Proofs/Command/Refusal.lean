import SourceTree.Proofs.Command.Streams

/-!
# Arguments that are refused

A run checks its arguments before it touches a file or starts a program: first the grammar, then the action,
then the flags that the action needs, each in its turn, and the format of payloads last. So what a run says
about arguments that fail a check is a matter of the arguments alone, and not of the order in which they
stand.
-/
namespace SourceTree.Command

/-! ### Checks of arguments -/

namespace Action

/-- The flags whose values an action needs, in the order in which they are checked. -/
def needs : Action → List String
  | deserialize => [Flag.preEditTree, Flag.out]
  | incrementalRoundTrip => [Flag.preEditTree, Flag.incrTree, Flag.out]
  | classifySyntaxColoring => [Flag.sourceFile]
  | printTreeStructure => [Flag.sourceFile]
  | help => []

/-- The action reads payloads, and flags may name their format. -/
def ReadsPayloads (action : Action) : Prop := action = deserialize ∨ action = incrementalRoundTrip

end Action

/-- There is something wrong with the arguments by themselves. -/
inductive Faulty (arguments : List String) : Prop
  | grammar {cause : Failure} (h : Flags.parse arguments = .error cause)
  | action {flags : Flags} (hflags : Flags.parse arguments = .ok flags)
      (h : ∀ action : Action, flags.has action.flag = false)
  | value {flags : Flags} {action : Action} {name : String} (hflags : Flags.parse arguments = .ok flags)
      (haction : Action.select flags = .ok action) (hneeds : name ∈ action.needs) (h : flags.get? name = none)
  | format {flags : Flags} {action : Action} {name : String} (hflags : Flags.parse arguments = .ok flags)
      (haction : Action.select flags = .ok action) (hreads : action.ReadsPayloads)
      (hgiven : flags.get? Flag.serializationFormat = some name) (h : name ∉ ["", "json", "byteTree"])

/-- The first check that the arguments fail says this. A value is missing if those that are checked before it
are there, and a format is unknown if all values are there. -/
inductive Refused (arguments : List String) : Failure → Prop
  | grammar {cause : Failure} (h : Flags.parse arguments = .error cause) : Refused arguments cause
  | action {flags : Flags} (hflags : Flags.parse arguments = .ok flags)
      (h : ∀ action : Action, flags.has action.flag = false) : Refused arguments .noAction
  | value {flags : Flags} {action : Action} {before after : List String} {name : String}
      (hflags : Flags.parse arguments = .ok flags) (haction : Action.select flags = .ok action)
      (hneeds : action.needs = before ++ name :: after) (hbefore : ∀ earlier ∈ before, flags.get? earlier ≠ none)
      (h : flags.get? name = none) : Refused arguments (.missingArgument name)
  | format {flags : Flags} {action : Action} {name : String} (hflags : Flags.parse arguments = .ok flags)
      (haction : Action.select flags = .ok action) (hneeds : ∀ needed ∈ action.needs, flags.get? needed ≠ none)
      (hreads : action.ReadsPayloads) (hgiven : flags.get? Flag.serializationFormat = some name)
      (h : name ∉ ["", "json", "byteTree"]) :
      Refused arguments (.invalidValue Flag.serializationFormat name)

/-- Arguments that fail a check fail one first. -/
theorem Faulty.exists_refused {arguments : List String} (h : Faulty arguments) :
    ∃ cause, Refused arguments cause := by
  -- the first of the needed values that is missing, if one is
  have hfirst : ∀ {flags : Flags} {action : Action}, Flags.parse arguments = .ok flags →
      Action.select flags = .ok action → (∃ name ∈ action.needs, flags.get? name = none) →
      ∃ cause, Refused arguments cause := by
    intro flags action hflags haction hmissing
    obtain ⟨name, hname⟩ : ∃ name, action.needs.find? (fun name => flags.get? name == none) = some name := by
      rw [← Option.isSome_iff_exists, List.find?_isSome]
      obtain ⟨name, hmem, hnone⟩ := hmissing
      exact ⟨name, hmem, beq_iff_eq.mpr hnone⟩
    obtain ⟨hnone, before, after, hneeds, hbefore⟩ := List.find?_eq_some_iff_append.mp hname
    refine ⟨_, .value hflags haction hneeds (fun earlier hmem hearlier => ?_) (beq_iff_eq.mp hnone)⟩
    have hgiven := hbefore earlier hmem
    rw [hearlier] at hgiven
    cases hgiven
  cases h with
  | grammar h => exact ⟨_, .grammar h⟩
  | action hflags h => exact ⟨_, .action hflags h⟩
  | value hflags haction hneeds h => exact hfirst hflags haction ⟨_, hneeds, h⟩
  | @format flags action name hflags haction hreads hgiven h =>
    by_cases hmissing : ∃ needed ∈ action.needs, flags.get? needed = none
    · exact hfirst hflags haction hmissing
    · refine ⟨_, .format hflags haction (fun needed hmem hnone => ?_) hreads hgiven h⟩
      exact hmissing ⟨needed, hmem, hnone⟩

/-- The arguments give the same flags with the same values, in whatever order, or break the grammar in the same
way. -/
inductive SameFlags (arguments arguments' : List String) : Prop
  | malformed {cause : Failure} (h : Flags.parse arguments = .error cause)
      (h' : Flags.parse arguments' = .error cause)
  | given {flags flags' : Flags} (h : Flags.parse arguments = .ok flags)
      (h' : Flags.parse arguments' = .ok flags') (hsame : ∀ flag, flags.lookup flag = flags'.lookup flag)

theorem SameFlags.refl (arguments : List String) : SameFlags arguments arguments := by
  cases h : Flags.parse arguments with
  | error cause => exact .malformed h h
  | ok flags => exact .given h h fun _ => rfl

/-- What is asked of flags is asked of their values. -/
theorem SameFlags.of_parse {arguments arguments' : List String} {flags : Flags}
    (h : SameFlags arguments arguments') (hflags : Flags.parse arguments = .ok flags) :
    ∃ flags', Flags.parse arguments' = .ok flags' ∧ (∀ flag, flags'.has flag = flags.has flag) ∧
      (∀ flag, flags'.get? flag = flags.get? flag) ∧ Action.select flags' = Action.select flags := by
  cases h with
  | malformed h h' => cases hflags.symm.trans h
  | @given given flags' h h' hsame =>
    obtain rfl := Except.ok.inj (hflags.symm.trans h)
    have hhas : ∀ flag, flags'.has flag = flags.has flag := fun flag => by
      rw [Flags.has, Flags.has, hsame flag]
    refine ⟨flags', h', hhas, fun flag => ?_, ?_⟩
    · rw [Flags.get?, Flags.get?, hsame flag]
    · rw [Action.select, Action.select]
      simp only [hhas]

/-! ### Runs on refused arguments -/

namespace Run

variable {host : Host} {searchPath : SearchPath} {flags : Flags} {action : Action}

/-- The run first takes the values of these flags, one after the other. -/
inductive Takes {α : Type} (flags : Flags) : List String → Run α → Prop
  | done (x : Run α) : Takes flags [] x
  | take {names : List String} (name : String) {f : Path → Run α} (h : ∀ path, Takes flags names (f path)) :
      Takes flags (name :: names) (ofExcept (flags.requirePath name) >>= f)

theorem takes_act (host : Host) (searchPath : SearchPath) (flags : Flags) (action : Action) :
    Takes flags action.needs (act host searchPath flags action) := by
  cases action with
  | deserialize => exact .take _ fun _ => .take _ fun _ => .done _
  | incrementalRoundTrip => exact .take _ fun _ => .take _ fun _ => .take _ fun _ => .done _
  | classifySyntaxColoring => exact .take _ fun _ => .done _
  | printTreeStructure => exact .take _ fun _ => .done _
  | help => exact .done _

theorem requirePath_of_none {name : String} (h : flags.get? name = none) :
    flags.requirePath name = .error (.missingArgument name) := by
  rw [Flags.requirePath, Flags.require, h]
  rfl

theorem requirePath_of_ne_none {name : String} (h : flags.get? name ≠ none) :
    ∃ path, flags.requirePath name = .ok path := by
  obtain ⟨value, hvalue⟩ := Option.ne_none_iff_exists'.mp h
  refine ⟨Path.ofString value, ?_⟩
  rw [Flags.requirePath, Flags.require, hvalue]
  rfl

/-- The run ends at the first value that is missing. -/
theorem Takes.run_missing {α : Type} {x : Run α} {before after : List String} {name : String}
    (hx : Takes flags (before ++ name :: after) x) (hbefore : ∀ earlier ∈ before, flags.get? earlier ≠ none)
    (h : flags.get? name = none) (m : Machine) :
    x.run.run m = (.error (.failure (.missingArgument name)), m) := by
  induction before generalizing x with
  | nil =>
    cases hx with
    | take name hrest =>
      rw [requirePath_of_none h]
      rfl
  | cons first before ih =>
    cases hx with
    | take first hrest =>
      obtain ⟨path, hpath⟩ := requirePath_of_ne_none (hbefore first List.mem_cons_self)
      rw [hpath]
      exact ih (hrest path) fun earlier hmem => hbefore earlier (List.mem_cons_of_mem _ hmem)

theorem format_of_unknown {name : String} (hgiven : flags.get? Flag.serializationFormat = some name)
    (h : name ∉ ["", "json", "byteTree"]) :
    flags.format = .error (.invalidValue Flag.serializationFormat name) := by
  simp only [List.mem_cons, List.not_mem_nil, or_false, not_or] at h
  obtain ⟨hempty, hjson, hbyteTree⟩ := h
  have hname : Format.ofName? name = none := by
    rw [Format.ofName?, beq_false_of_ne hjson, beq_false_of_ne hbyteTree]
    rfl
  rw [Flags.format, hgiven]
  split
  · next hnone => cases hnone
  · next hsome => exact absurd (Option.some.inj hsome) hempty
  · next hsome =>
    obtain rfl := Option.some.inj hsome
    rw [hname]

/-- The format is checked when all values are there. -/
theorem run_act_format (hreads : action.ReadsPayloads)
    (hneeds : ∀ needed ∈ action.needs, flags.get? needed ≠ none) {cause : Failure}
    (hformat : flags.format = .error cause) (m : Machine) :
    (act host searchPath flags action).run.run m = (.error (.failure cause), m) := by
  have hpath : ∀ name ∈ action.needs, ∃ path, flags.requirePath name = .ok path := fun name hmem =>
    requirePath_of_ne_none (hneeds name hmem)
  rcases hreads with rfl | rfl
  · obtain ⟨tree, htree⟩ := hpath Flag.preEditTree (by simp [Action.needs])
    obtain ⟨out, hout⟩ := hpath Flag.out (by simp [Action.needs])
    rw [act, deserialize, htree, hout, hformat]
    rfl
  · obtain ⟨tree, htree⟩ := hpath Flag.preEditTree (by simp [Action.needs])
    obtain ⟨incremental, hincremental⟩ := hpath Flag.incrTree (by simp [Action.needs])
    obtain ⟨out, hout⟩ := hpath Flag.out (by simp [Action.needs])
    rw [act, incrementalRoundTrip, htree, hincremental, hout, hformat]
    rfl

variable {call : Call} {level : Int}

theorem run_body_malformed {cause : Failure} (h : Flags.parse call.arguments = .error cause) (host : Host)
    (m : Machine) : (body host call ⟨level, none⟩).run.run m = (.error (.failure cause), m) := by
  change (ofExcept (Flags.parse call.arguments) >>= _).run.run m = _
  rw [h]
  rfl

theorem run_body_unselected (hflags : Flags.parse call.arguments = .ok flags) {cause : Failure}
    (hselect : Action.select flags = .error cause) (host : Host) (m : Machine) :
    (body host call ⟨level, none⟩).run.run m = (.error (.failure cause), m) := by
  change (ofExcept (Flags.parse call.arguments) >>= _).run.run m = _
  rw [hflags]
  change (ofExcept (Action.select flags) >>= _).run.run m = _
  rw [hselect]
  rfl

theorem run_body_selected (hflags : Flags.parse call.arguments = .ok flags)
    (hselect : Action.select flags = .ok action) (host : Host) (m : Machine) :
    (body host call ⟨level, none⟩).run.run m = (act host call.searchPath flags action).run.run
      (m.log (record host.clock actionSource ("Running action " ++ action.flag))) := by
  change (ofExcept (Flags.parse call.arguments) >>= _).run.run m = _
  rw [hflags]
  change (ofExcept (Action.select flags) >>= _).run.run m = _
  rw [hselect]
  rfl

/-- A run on refused arguments logs that its action has begun, if it comes to that, and fails. -/
theorem run_body_refused {arguments : List String} {cause : Failure} (h : Refused arguments cause)
    (clock : String) :
    ∃ records : List String, ∀ arguments', SameFlags arguments arguments' →
      ∀ (programs : Programs) (environment : Environment) (level : Int) (m : Machine),
        (body ⟨programs, clock⟩ ⟨arguments', environment⟩ ⟨level, none⟩).run.run m =
          (.error (.failure cause), records.foldl Machine.log m) := by
  cases h with
  | grammar h =>
    refine ⟨[], fun arguments' hsame programs environment level m => run_body_malformed ?_ _ m⟩
    cases hsame with
    | malformed hcause h' =>
      obtain rfl := Except.error.inj (h.symm.trans hcause)
      exact h'
    | given hflags => cases h.symm.trans hflags
  | action hflags h =>
    refine ⟨[], fun arguments' hsame programs environment level m => ?_⟩
    obtain ⟨flags', hflags', hhas, -, -⟩ := hsame.of_parse hflags
    have hselect : Action.select flags' = .error .noAction := by
      rw [Action.select, List.find?_eq_none.mpr]
      intro action _
      rw [hhas, h]
      nofun
    exact run_body_unselected hflags' hselect _ m
  | @value flags action before after name hflags haction hneeds hbefore h =>
    refine ⟨[record clock actionSource ("Running action " ++ action.flag)],
      fun arguments' hsame programs environment level m => ?_⟩
    obtain ⟨flags', hflags', -, hget, hselect⟩ := hsame.of_parse hflags
    rw [run_body_selected hflags' (hselect.trans haction)]
    have htakes := takes_act ⟨programs, clock⟩ (Call.searchPath ⟨arguments', environment⟩) flags' action
    rw [hneeds] at htakes
    exact htakes.run_missing (fun earlier hmem => hget earlier ▸ hbefore earlier hmem) ((hget _).trans h) _
  | @format flags action name hflags haction hneeds hreads hgiven h =>
    refine ⟨[record clock actionSource ("Running action " ++ action.flag)],
      fun arguments' hsame programs environment level m => ?_⟩
    obtain ⟨flags', hflags', -, hget, hselect⟩ := hsame.of_parse hflags
    rw [run_body_selected hflags' (hselect.trans haction)]
    exact run_act_format hreads (fun needed hmem => hget needed ▸ hneeds needed hmem)
      (format_of_unknown ((hget _).trans hgiven) h) _

end Run

/-- One check fails first. -/
theorem Refused.unique {arguments : List String} {cause cause' : Failure} (h : Refused arguments cause)
    (h' : Refused arguments cause') : cause = cause' := by
  obtain ⟨records, hrun⟩ := Run.run_body_refused h ""
  obtain ⟨records', hrun'⟩ := Run.run_body_refused h' ""
  have hbody := hrun arguments (.refl arguments) (fun _ => none) [] 0 (.fresh ⟨[], []⟩)
  have hbody' := hrun' arguments (.refl arguments) (fun _ => none) [] 0 (.fresh ⟨[], []⟩)
  have hresult := congrArg Prod.fst (hbody.symm.trans hbody')
  exact Stop.failure.inj (Except.error.inj hresult)

/-- **Refused arguments.** Arguments that are faulty fail one check first. What a run on them does is a matter
of the flags that they give and of their values, in whatever order: there are records, none of which is shown
above their level, so that on every machine, whatever its files, its programs and the search path are, the run
ends with status one, has written the records, the message of that check and the hint to its error stream, and
has done nothing else. Of a run that asks for help the same is true, but that it ends well and has written the
usage to its output stream. -/
theorem run_refused (arguments : List String) :
    (Faulty arguments → ∃ cause, Refused arguments cause ∧ (∀ other, Refused arguments other → other = cause) ∧
      ∀ clock level, ∃ records, (recordLevel < level → records = "") ∧
        ∀ arguments', SameFlags arguments arguments' →
          ∀ (m : Machine) (programs : Programs) (environment : Environment),
            Settings.ofEnvironment environment = ⟨level, none⟩ →
            m.run ⟨programs, clock⟩ ⟨arguments', environment⟩ = (.exit 1, .onConsole m.files m.runs level
              ⟨"", records ++ (cause.message ++ "\n" ++ helpHint ++ "\n")⟩)) ∧
    (∀ flags, Flags.parse arguments = .ok flags → Action.select flags = .ok .help →
      ∀ clock level, ∃ records, (recordLevel < level → records = "") ∧
        ∀ arguments', SameFlags arguments arguments' →
          ∀ (m : Machine) (programs : Programs) (environment : Environment),
            Settings.ofEnvironment environment = ⟨level, none⟩ →
            m.run ⟨programs, clock⟩ ⟨arguments', environment⟩ =
              (.exit 0, .onConsole m.files m.runs level ⟨usage, records⟩)) := by
  have hshown : ∀ {level text}, recordLevel < level → Machine.shown level text = "" := fun hlevel => by
    rw [Machine.shown, if_neg (Int.not_le.mpr hlevel)]
  constructor
  · intro hfaulty
    obtain ⟨cause, hcause⟩ := hfaulty.exists_refused
    refine ⟨cause, hcause, fun other hother => hother.unique hcause, fun clock level => ?_⟩
    obtain ⟨begun, hbody⟩ := Run.run_body_refused hcause clock
    refine ⟨Machine.shown level (String.join begun) ++
      Machine.shown level (record clock Run.mainSource ("Action failed: " ++ cause.label)),
      fun hlevel => by rw [hshown hlevel, hshown hlevel]; rfl,
      fun arguments' hsame m programs environment hsettings => ?_⟩
    have hbegun : m.beginRun level = .onConsole m.files m.runs level ⟨"", ""⟩ := rfl
    rw [Machine.run, hsettings]
    dsimp only
    rw [hbody arguments' hsame, hbegun, Machine.logs_onConsole]
    dsimp only
    rw [Machine.report_onConsole]
    simp only [String.empty_append]
  · intro flags hflags hhelp clock level
    refine ⟨Machine.shown level (record clock Run.actionSource ("Running action " ++ Action.help.flag)),
      hshown, fun arguments' hsame m programs environment hsettings => ?_⟩
    obtain ⟨flags', hflags', -, -, hselect⟩ := hsame.of_parse hflags
    have hbegun : m.beginRun level = .onConsole m.files m.runs level ⟨"", ""⟩ := rfl
    rw [Machine.run, hsettings]
    dsimp only
    rw [Run.run_body_selected hflags' (hselect.trans hhelp), hbegun, Machine.log_onConsole]
    change (Outcome.exit 0, Machine.writeOutput (.onConsole _ _ _ _) (Machine.current (.onConsole _ _ _ _)) _) = _
    rw [Machine.writeOutput_onConsole]
    simp only [String.empty_append]

/-- Arguments with three faults, in two orders: both runs complain about the same one, on whatever machine.
And a run that asks for help gives it. -/
theorem run_refused_incremental :
    let arguments := ["-deserialize-incremental", "-serialization-format", "xml", "-incr-tree", "new"]
    let arguments' := ["-incr-tree", "new", "-serialization-format", "xml", "-deserialize-incremental"]
    let report := "Missing required argument: -pre-edit-tree\n" ++ helpHint ++ "\n"
    Faulty arguments ∧ SameFlags arguments arguments' ∧
      (∀ (m : Machine) (programs : Programs),
        m.run ⟨programs, ""⟩ ⟨arguments, []⟩ =
            (.exit 1, .onConsole m.files m.runs Settings.defaultLevel ⟨"", report⟩) ∧
          m.run ⟨programs, ""⟩ ⟨arguments', []⟩ =
            (.exit 1, .onConsole m.files m.runs Settings.defaultLevel ⟨"", report⟩)) ∧
      ∀ (m : Machine) (programs : Programs), m.run ⟨programs, ""⟩ ⟨["-help"], []⟩ =
        (.exit 0, .onConsole m.files m.runs Settings.defaultLevel ⟨usage, ""⟩) := by
  intro arguments arguments' report
  have hfaulty : Faulty arguments :=
    .value rfl rfl (by decide : Flag.out ∈ Action.incrementalRoundTrip.needs) rfl
  have hsame : SameFlags arguments arguments' := by
    let flags : Flags := [("-deserialize-incremental", none), ("-serialization-format", some "xml"),
      ("-incr-tree", some "new")]
    let flags' : Flags := [("-incr-tree", some "new"), ("-serialization-format", some "xml"),
      ("-deserialize-incremental", none)]
    have hflags : Flags.parse arguments = .ok flags := rfl
    have hflags' : Flags.parse arguments' = .ok flags' := rfl
    refine .given hflags hflags' fun flag => ?_
    by_cases haction : flag = "-deserialize-incremental"
    · rw [haction]
      rfl
    · by_cases hformat : flag = "-serialization-format"
      · rw [hformat]
        rfl
      · simp only [flags, flags', List.lookup_cons, beq_false_of_ne haction, beq_false_of_ne hformat]
  have hneeds : Action.incrementalRoundTrip.needs = [] ++ Flag.preEditTree :: [Flag.incrTree, Flag.out] := rfl
  have hrefused : Refused arguments (.missingArgument Flag.preEditTree) :=
    .value rfl rfl hneeds nofun rfl
  obtain ⟨cause, -, hunique, hruns⟩ := (run_refused arguments).1 hfaulty
  obtain rfl := hunique _ hrefused
  obtain ⟨records, hrecords, hrun⟩ := hruns "" Settings.defaultLevel
  obtain rfl := hrecords (by decide)
  obtain ⟨help, hhelp, hrunHelp⟩ := (run_refused ["-help"]).2 _ rfl rfl "" Settings.defaultLevel
  obtain rfl := hhelp (by decide)
  refine ⟨hfaulty, hsame, fun m programs => ⟨hrun _ (.refl _) m programs [] rfl, hrun _ hsame m programs [] rfl⟩,
    fun m programs => hrunHelp _ (.refl _) m programs [] rfl⟩

end SourceTree.Command
