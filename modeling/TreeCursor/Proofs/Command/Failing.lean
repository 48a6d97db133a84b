import TreeCursor.Proofs.Command.Phases
import TreeCursor.Proofs.Command.Walking
import TreeCursor.Proofs.Zipper.Contents

/-!
# Runs that fail

A run ends at the first of its phases that fails, and reports the failure of that phase.  Such a run
prints nothing.  A search without a match prints nothing either, but it is no failure and has an
exit code of its own.
-/

namespace TreeCursor

open TreeCursor.Tree
open CommandLine (inputOf)

/-! ## The failure of a stage -/

namespace Stage

variable {β γ : Type}

/-- The failure that a stage comes to, if it does not succeed. -/
def failure? (stage : Stage β) : Option Failure :=
  Failure.of? id stage.result

theorem failure?_ofExcept {ε : Type} (failure : ε → Failure) (result : Except ε β) :
    (ofExcept failure result).failure? = Failure.of? failure result := by
  cases result <;> rfl

/-- What comes after a stage is asked for its failure only if the stage succeeds. -/
theorem failure?_bind {stage : Stage β} {next : β → Stage γ} {later : Option Failure}
    (hnext : ∀ value, stage.result = .ok value → (next value).failure? = later) :
    (stage >>= next).failure? = stage.failure?.or later := by
  change (stage.andThen next).failure? = _
  rw [failure?, failure?, andThen]
  cases hresult : stage.result with
  | error failure => rfl
  | ok value => exact hnext value hresult

/-- A stage fails as the one that it begins with, if no other can fail. -/
theorem failure?_bind_of_none {stage : Stage β} {next : β → Stage γ}
    (hnext : ∀ value, stage.result = .ok value → (next value).failure? = none) :
    (stage >>= next).failure? = stage.failure? := by
  rw [failure?_bind hnext, Option.or_none]

end Stage

namespace Command

variable {world : World} {input path : String}

theorem readDocument_eq (world : World) (input : String) :
    (readDocument world input).result =
      (Stage.ofExcept (.reading input) (world.document input)).result := by
  unfold readDocument World.document
  split
  · rfl
  · cases Document.ofBytes (world.file input) <;> rfl

theorem result_readDocument_eq_ok_iff {document : Document} :
    (readDocument world input).result = .ok document ↔ world.document input = .ok document := by
  rw [readDocument_eq, Stage.result_ofExcept_eq_ok_iff]

theorem failure?_readDocument (world : World) (input : String) :
    (readDocument world input).failure? =
      Failure.of? (.reading input) (world.document input) := by
  rw [Stage.failure?, readDocument_eq, ← Stage.failure?, Stage.failure?_ofExcept]

theorem result_navigate_eq_ok_iff {z : Zipper Document} :
    (navigate world input path).result = .ok z ↔ arrival? world input path = some (.ok z) := by
  unfold navigate arrival?
  simp only [Stage.result_bind_eq_ok_iff, Stage.result_ofExcept_eq_ok_iff,
    result_readDocument_eq_ok_iff]
  cases Script.parse path with
  | error e => simp [Except.toOption]
  | ok steps =>
      cases world.document input with
      | error e => simp [Except.toOption]
      | ok document => simp [Except.toOption, Stage.report, pure]

theorem failure?_navigate (world : World) (input path : String) :
    (navigate world input path).failure? =
      (Failure.of? (.parsingScript path) (Script.parse path)).or
        ((Failure.of? (.reading input) (world.document input)).or
          ((arrival? world input path).bind (Failure.of? .moving))) := by
  unfold navigate
  rw [← Stage.failure?_ofExcept, ← failure?_readDocument]
  refine Stage.failure?_bind fun steps hsteps => Stage.failure?_bind fun document hdocument => ?_
  rw [Stage.result_ofExcept_eq_ok_iff] at hsteps
  rw [result_readDocument_eq_ok_iff] at hdocument
  have harrival : arrival? world input path = some (Script.run steps (.ofTree document)) := by
    rw [arrival?, hsteps, hdocument]
    rfl
  rw [harrival, Option.bind_some, ← Stage.failure?_ofExcept]
  exact Stage.failure?_bind_of_none fun z _ => rfl

/-- Removal is refused at the root and nowhere else. -/
theorem failure?_removeFocus (z : Zipper Document) :
    (removeFocus z).failure? = if z.isRoot then some (.removing (.atRoot .remove)) else none := by
  unfold removeFocus
  cases z using Zipper.placeCases with
  | root node => rfl
  | child node parent lefts rights rest =>
      obtain ⟨w, hremove⟩ := Zipper.exists_remove node parent lefts rights rest
      rw [hremove]
      rfl

/-- From its start on a walk succeeds. -/
theorem yields_walk_from_start (leavesOnly : Bool) (limit : Option ℕ)
    (positions : List (Zipper Document)) :
    ∃ text, (walkFrom leavesOnly limit 0 positions).Yields text () :=
  ⟨_, yields_walkFrom leavesOnly (fun count _ => count.zero_le) positions⟩

theorem walked_of_arrival {z : Zipper Document}
    (harrival : arrival? world input path = some (.ok z)) :
    ∃ document, Zipper.Walked document z := by
  obtain ⟨steps, -, harrival⟩ := Option.bind_eq_some_iff.mp harrival
  obtain ⟨document, -, hrun⟩ := Option.map_eq_some_iff.mp harrival
  exact ⟨document, Script.walked_run hrun⟩

/-! ## What a command prints -/

theorem silent_removeFocus (z : Zipper Document) : (removeFocus z).Silent := by
  unfold removeFocus
  split
  · exact Stage.silent_pure _
  · exact Stage.silent_bind (Stage.silent_report _) fun _ _ => Stage.silent_ofExcept _ _

/-- A command prints when nothing of it can fail any more. -/
theorem failsSilently_run (settings : Settings) (command : Command) :
    (command.run settings world).FailsSilently := by
  cases command with
  | «show» input path | get input path =>
      refine Stage.failsSilently_bind (silent_navigate world input path) fun z _ => ?_
      exact (Stage.yields_bind_pure (Stage.yields_print _) 0).failsSilently
  | find input equals start dir =>
      refine Stage.failsSilently_bind (Stage.silent_ofExcept _ _) fun needle _ => ?_
      refine Stage.failsSilently_bind (silent_navigate world input start) fun z _ => ?_
      cases z.find dir (· == needle) with
      | some found =>
          exact (Stage.yields_bind_pure (Stage.yields_print _) 0).failsSilently
      | none =>
          exact (Stage.yields_bind_pure (Stage.yields_report _) 1).failsSilently
  | replace input path value =>
      refine Stage.failsSilently_bind (Stage.silent_ofExcept _ _) fun node _ => ?_
      refine Stage.failsSilently_bind (silent_navigate world input path) fun z _ => ?_
      exact (Stage.yields_bind_pure (Stage.yields_print _) 0).failsSilently
  | remove input path =>
      refine Stage.failsSilently_bind (silent_navigate world input path) fun z _ => ?_
      refine Stage.failsSilently_bind (silent_removeFocus z) fun w _ => ?_
      exact (Stage.yields_bind_pure (Stage.yields_print _) 0).failsSilently
  | walk input leavesOnly =>
      refine Stage.failsSilently_bind (silent_readDocument world input) fun document _ => ?_
      obtain ⟨text, hwalked⟩ := yields_walk_from_start leavesOnly settings.command.maxSteps
        (Zipper.ofTree document).positions
      exact (Stage.yields_bind_pure hwalked 0).failsSilently

/-- A search without a match has an exit code of its own and prints nothing.  All else that does not
fail has the exit code of success. -/
theorem result_cases {settings : Settings} {command : Command} {code : ℕ}
    (hcode : (command.run settings world).result = .ok code) :
    (code = 0 ∧ ¬command.Unmatched world) ∨
      (code = 1 ∧ (command.run settings world).Silent ∧ command.Unmatched world) := by
  cases command with
  | «show» input path | get input path =>
      obtain ⟨z, -, hcode⟩ := Stage.result_bind_eq_ok_iff.mp hcode
      cases hcode
      exact .inl ⟨rfl, nofun⟩
  | replace input path value =>
      obtain ⟨node, -, hcode⟩ := Stage.result_bind_eq_ok_iff.mp hcode
      obtain ⟨z, -, hcode⟩ := Stage.result_bind_eq_ok_iff.mp hcode
      cases hcode
      exact .inl ⟨rfl, nofun⟩
  | remove input path =>
      obtain ⟨z, -, hcode⟩ := Stage.result_bind_eq_ok_iff.mp hcode
      obtain ⟨w, -, hcode⟩ := Stage.result_bind_eq_ok_iff.mp hcode
      cases hcode
      exact .inl ⟨rfl, nofun⟩
  | walk input leavesOnly =>
      obtain ⟨document, -, hcode⟩ := Stage.result_bind_eq_ok_iff.mp hcode
      obtain ⟨_, -, hcode⟩ := Stage.result_bind_eq_ok_iff.mp hcode
      cases hcode
      exact .inl ⟨rfl, nofun⟩
  | find input equals start dir =>
      obtain ⟨needle, hneedle, hcode⟩ := Stage.result_bind_eq_ok_iff.mp hcode
      obtain ⟨z, hz, hcode⟩ := Stage.result_bind_eq_ok_iff.mp hcode
      rw [Stage.result_ofExcept_eq_ok_iff] at hneedle
      have hnavigate : (navigate world input start).Yields "" z :=
        ⟨silent_navigate world input start, hz⟩
      rw [result_navigate_eq_ok_iff] at hz
      obtain ⟨document, hwalked⟩ := walked_of_arrival hz
      have hsound : Zipper.Sound z := Zipper.sound_of_reachable hwalked.reachable
      have hfound : (∃ w, z.find dir (· == needle) = some w) ↔ _ := Zipper.exists_find_iff hsound
      cases hfind : z.find dir (· == needle) with
      | some w =>
          rw [hfind] at hcode
          cases hcode
          refine .inl ⟨rfl, ?_⟩
          rintro ⟨_, _, _, _, needle', z', hneedle', hz', hnone⟩
          cases hneedle.symm.trans hneedle'
          cases hz.symm.trans hz'
          exact hnone (hfound.mp ⟨w, hfind⟩)
      | none =>
          have hyields := yields_find_of_none settings hneedle hnavigate hfind
          rw [hfind] at hcode
          cases hcode
          refine .inr ⟨rfl, hyields.output, .intro input equals start dir needle z hneedle hz ?_⟩
          intro hmatch
          obtain ⟨w, hw⟩ := hfound.mpr hmatch
          cases hfind.symm.trans hw

end Command

/-! ## The failure of a run -/

theorem LogSettings.breaksFilter_of_start {log : LogSettings} {world : World}
    (hstart : log.start world = .error .brokenFilter) : world.BreaksFilter := by
  unfold start at hstart
  split at hstart
  · cases hstart
  · next hfilter =>
      unfold Filter.ofSettings at hfilter
      split at hfilter
      · cases hfilter
      · cases hfilter
      · cases hfilter
      · next hparse => exact Option.map_eq_some_iff.mp hparse
  · split at hstart <;> cases hstart

theorem Phase.findSome?_cons_eq_or (f : Phase → Option Failure) (phase : Phase)
    (phases : List Phase) : (phase :: phases).findSome? f = (f phase).or (phases.findSome? f) := by
  rw [List.findSome?_cons]
  cases f phase <;> rfl

namespace Invocation

variable (invocation : Invocation) (world : World)

/-- A command fails as its first phase that fails. -/
theorem failure?_command (settings : Settings) :
    (invocation.command.run settings world).failure? =
      Phase.ofCommand.findSome? fun phase => phase.failure? invocation world := by
  obtain ⟨config, level, format, command⟩ := invocation
  simp only [Phase.ofCommand, Phase.findSome?_cons_eq_or, List.findSome?_nil, Option.or_none]
  cases command with
  | «show» input path | get input path =>
      simp only [Phase.failure?, Command.script?, Command.cursor?, inputOf, Option.bind_some,
        Option.none_or, Option.or_none]
      rw [← Command.failure?_navigate]
      exact Stage.failure?_bind_of_none fun z _ => rfl
  | find input equals start dir =>
      simp only [Phase.failure?, Command.script?, Command.cursor?, inputOf, Option.bind_some,
        Option.or_none]
      rw [← Command.failure?_navigate, ← Stage.failure?_ofExcept]
      refine Stage.failure?_bind fun needle _ => Stage.failure?_bind_of_none fun z _ => ?_
      cases z.find dir (· == needle) <;> rfl
  | replace input path value =>
      simp only [Phase.failure?, Command.script?, Command.cursor?, inputOf, Option.bind_some,
        Option.or_none]
      rw [← Command.failure?_navigate, ← Stage.failure?_ofExcept]
      exact Stage.failure?_bind fun node _ => Stage.failure?_bind_of_none fun z _ => rfl
  | remove input path =>
      simp only [Phase.failure?, Command.script?, Command.cursor?, inputOf, Option.bind_some,
        Option.none_or]
      -- the check for the root needs the cursor, so the phases that lead to it are taken as one
      calc ((Command.remove input path).run settings world).failure?
          = (Command.navigate world input path).failure?.or
              ((Command.arrival? world input path).bind fun cursor => cursor.toOption.bind fun z =>
                if z.isRoot then some (.removing (.atRoot .remove)) else none) := by
            refine Stage.failure?_bind fun z hz => ?_
            rw [Command.result_navigate_eq_ok_iff.mp hz]
            have hremove := Command.failure?_removeFocus z
            exact (Stage.failure?_bind_of_none fun w _ => rfl).trans hremove
        _ = _ := by rw [Command.failure?_navigate, Option.or_assoc, Option.or_assoc]
  | walk input leavesOnly =>
      simp only [Phase.failure?, Command.script?, Command.cursor?, inputOf, Option.bind_none,
        Option.none_or, Option.or_none]
      rw [← Command.failure?_readDocument]
      refine Stage.failure?_bind_of_none fun document _ => ?_
      obtain ⟨text, hwalked⟩ := Command.yields_walk_from_start leavesOnly settings.command.maxSteps
        (Zipper.ofTree document).positions
      exact congrArg (Failure.of? id) (Stage.yields_bind_pure hwalked 0).result

/-- A run does not start if one of its first phases fails, and fails as the first of them. -/
theorem failure?_start :
    Failure.of? id (invocation.start world) =
      Phase.ofStart.findSome? fun phase => phase.failure? invocation world := by
  simp only [Phase.ofStart, Phase.findSome?_cons_eq_or, List.findSome?_nil, Option.or_none,
    Phase.failure?, settings?]
  unfold start
  cases Settings.discover invocation.config world with
  | error e => rfl
  | ok loaded =>
      simp only [Except.toOption, Option.map_some, Option.bind_some]
      cases hvalid : (loaded.override invocation).validate with
      | error e => rfl
      | ok settings =>
          -- the log is started with the settings that were validated, which are those of its phase
          obtain ⟨-, rfl⟩ := Settings.validate_eq_ok_iff.mp hvalid
          dsimp only
          cases (loaded.override invocation).log.start world <;> rfl

/-- A run fails as the first of its phases that fails. -/
theorem failure_run :
    (invocation.run world).failure =
      Phase.inOrder.findSome? fun phase => phase.failure? invocation world := by
  rw [Phase.inOrder, List.findSome?_append, ← failure?_start, run]
  cases invocation.start world with
  | error failure => rfl
  | ok started =>
      have hcommand := failure?_command invocation world started.1
      rw [Failure.of?, Option.none_or, ← hcommand, Stage.failure?]
      dsimp only
      cases (invocation.command.run started.1 world).result <;> rfl

/-- A run fails, or it is a search without a match, or it succeeds, and only then does it print
anything. -/
theorem run_cases :
    (∃ failure, (invocation.run world).failure = some failure ∧
      (invocation.run world).exitCode = failure.exitCode ∧ (invocation.run world).output = "") ∨
    ((invocation.run world).failure = none ∧ (invocation.run world).exitCode = 1 ∧
      (invocation.run world).output = "" ∧ invocation.command.Unmatched world) ∨
    ((invocation.run world).failure = none ∧ (invocation.run world).exitCode = 0 ∧
      ¬invocation.command.Unmatched world) := by
  rw [run]
  cases invocation.start world with
  | error failure => exact .inl ⟨failure, rfl, rfl, rfl⟩
  | ok started =>
      dsimp only
      cases hresult : (invocation.command.run started.1 world).result with
      | error failure =>
          exact .inl ⟨failure, rfl, rfl, Command.failsSilently_run _ _ failure hresult⟩
      | ok code =>
          rcases Command.result_cases hresult with ⟨hzero, hmatched⟩ | ⟨hone, hsilent, hunmatched⟩
          · exact .inr (.inr ⟨rfl, hzero, hmatched⟩)
          · exact .inr (.inl ⟨rfl, hone, hsilent, hunmatched⟩)

variable {invocation world}

theorem failure_eq_some_iff {failure : Failure} :
    (invocation.run world).failure = some failure ↔
      ∃ phase : Phase, phase.FailsFirst invocation world failure := by
  rw [failure_run, List.findSome?_eq_some_iff]
  constructor
  · rintro ⟨before, phase, after, hsplit, hfailure, hbefore⟩
    exact ⟨phase, before, after, hsplit, hfailure, hbefore⟩
  · rintro ⟨phase, before, after, hsplit, hfailure, hbefore⟩
    exact ⟨before, phase, after, hsplit, hfailure, hbefore⟩

theorem failure_eq_none_iff :
    (invocation.run world).failure = none ↔
      ∀ phase : Phase, phase.failure? invocation world = none := by
  rw [failure_run, List.findSome?_eq_none_iff]
  exact ⟨fun hnone phase => hnone phase phase.mem_inOrder, fun hnone phase _ => hnone phase⟩

theorem failure_isSome_iff :
    (invocation.run world).failure.isSome ↔
      ∃ phase : Phase, (phase.failure? invocation world).isSome := by
  rw [failure_run, List.findSome?_isSome_iff]
  exact ⟨fun ⟨phase, _, hsome⟩ => ⟨phase, hsome⟩,
    fun ⟨phase, hsome⟩ => ⟨phase, phase.mem_inOrder, hsome⟩⟩

/-- Only a broken filter in the environment aborts a run. -/
theorem not_aborts_of_failure (hfilter : ¬world.BreaksFilter) {failure : Failure}
    (hfailure : (invocation.run world).failure = some failure) : failure.aborts = false := by
  obtain ⟨phase, -, -, -, hphase, -⟩ := failure_eq_some_iff.mp hfailure
  cases haborts : failure.aborts with
  | false => rfl
  | true =>
      obtain rfl : failure = .initializingLogging .brokenFilter := by
        unfold Failure.aborts at haborts
        split at haborts
        · rfl
        · cases haborts
      obtain rfl : Phase.logging = phase := Phase.phase_of_failure? hphase
      obtain ⟨settings, -, hstart⟩ := Option.bind_eq_some_iff.mp hphase
      obtain ⟨e, hstart, he⟩ := Failure.of?_eq_some_iff.mp hstart
      cases he
      exact absurd (LogSettings.breaksFilter_of_start hstart) hfilter

/-- Settings with a fault cannot be loaded, and what comes after that, the flags and the command, is
not asked for. -/
theorem failure_of_fault {path text : String} {bytes : ByteArray} {settings : Settings}
    {fault : SettingFault} (hpath : invocation.settingsFile? world = some path)
    (hfile : world.file path = .ok bytes) (htext : String.fromUTF8? bytes = some text)
    (hsettings : (Toml.parse? text).bind Settings.ofEntries? = some settings)
    (hfault : settings.fault? = some fault) :
    (invocation.run world).failure = some (.loadingConfig (.invalid fault)) := by
  have hdiscover : Settings.discover invocation.config world = .error (.invalid fault) := by
    rw [Settings.discover_of_settingsFile hpath, hfile, Settings.load]
    simp only [htext, Settings.parse, hsettings]
    exact Settings.validate_eq_error_iff.mpr ⟨fault, hfault, rfl⟩
  rw [failure_run, Phase.inOrder, Phase.ofStart, List.cons_append, Phase.findSome?_cons_eq_or,
    Phase.failure?, hdiscover]
  rfl

section Flags

variable {loaded : Settings} (hdiscover : Settings.discover invocation.config world = .ok loaded)
include hdiscover

/-- After a file that loads, the settings phase fails at what the flags make of the settings. -/
theorem failure_eq_invalidSettings_iff {error : SettingsError} :
    (invocation.run world).failure = some (.invalidSettings error) ↔
      (loaded.override invocation).validate = .error error := by
  have hsettings : Phase.settings.failure? invocation world =
      Failure.of? .invalidSettings (loaded.override invocation).validate := by
    rw [Phase.failure?, Settings.settings?_of_discover hdiscover]
    rfl
  have hloading : Phase.loading.failure? invocation world = none := by
    rw [Phase.failure?, hdiscover]
    rfl
  rw [failure_eq_some_iff]
  constructor
  · rintro ⟨phase, -, -, -, hphase, -⟩
    obtain rfl : Phase.settings = phase := Phase.phase_of_failure? hphase
    rw [hsettings] at hphase
    obtain ⟨e, he, heq⟩ := Failure.of?_eq_some_iff.mp hphase
    cases heq
    exact he
  · intro herror
    have hphase := hsettings.trans (Failure.of?_eq_some_iff.mpr ⟨error, herror, rfl⟩)
    exact ⟨.settings, [.loading], _, rfl, hphase, List.forall_mem_singleton.mpr hloading⟩

/-- Settings that load are unfit only by a flag with a level that has no name. -/
theorem exists_invalidSettings_iff :
    (∃ error, (invocation.run world).failure = some (.invalidSettings error)) ↔
      ∃ word, invocation.logLevel = some word ∧ ¬Level.Named word := by
  rw [← Settings.exists_fault_override_iff invocation (Settings.fault?_of_discover hdiscover)]
  simp only [failure_eq_invalidSettings_iff hdiscover, Settings.validate_eq_error_iff]
  constructor
  · rintro ⟨error, fault, hfault, -⟩
    exact ⟨fault, hfault⟩
  · rintro ⟨fault, hfault⟩
    exact ⟨.invalid fault, fault, hfault, rfl⟩

theorem field_of_invalidSettings {error : SettingsError}
    (hfailure : (invocation.run world).failure = some (.invalidSettings error)) :
    ∃ fault, error = .invalid fault ∧ fault.field = "log.level" := by
  rw [failure_eq_invalidSettings_iff hdiscover, Settings.validate_eq_error_iff] at hfailure
  obtain ⟨fault, hfault, rfl⟩ := hfailure
  exact ⟨fault, rfl, Settings.field_of_fault_override invocation
    (Settings.fault?_of_discover hdiscover) hfault⟩

theorem flaggedBy_of_start {settings : Settings} {filter : Filter}
    (hstart : invocation.start world = .ok (settings, filter)) :
    settings.FlaggedBy loaded invocation := by
  unfold start at hstart
  rw [hdiscover] at hstart
  dsimp only at hstart
  split at hstart
  · cases hstart
  · next valid hvalid =>
      obtain ⟨-, rfl⟩ := Settings.validate_eq_ok_iff.mp hvalid
      split at hstart
      · cases hstart
      · cases hstart
        exact loaded.flaggedBy_override invocation

end Flags

theorem exitCode_eq_one_iff :
    (invocation.run world).exitCode = 1 ↔ invocation.command.Unmatched world ∧
      ∀ phase : Phase, phase.failure? invocation world = none := by
  rw [← failure_eq_none_iff]
  rcases run_cases invocation world with
    ⟨failure, hfailure, hexit, -⟩ | ⟨hfailure, hexit, -, hunmatched⟩ | ⟨hfailure, hexit, hmatched⟩
  · rw [hfailure, hexit, Failure.exitCode]
    split <;> simp
  · exact iff_of_true hexit ⟨hunmatched, hfailure⟩
  · rw [hexit]
    exact iff_of_false Nat.zero_ne_one fun hboth => hmatched hboth.1

theorem exitCode_eq_two_iff (hfilter : ¬world.BreaksFilter) :
    (invocation.run world).exitCode = 2 ↔
      ∃ phase : Phase, (phase.failure? invocation world).isSome := by
  rw [← failure_isSome_iff]
  rcases run_cases invocation world with
    ⟨failure, hfailure, hexit, -⟩ | ⟨hfailure, hexit, -, -⟩ | ⟨hfailure, hexit, -⟩
  · rw [hfailure, hexit, Failure.exitCode, not_aborts_of_failure hfilter hfailure]
    exact iff_of_true rfl rfl
  · simp [hfailure, hexit]
  · simp [hfailure, hexit]

theorem output_of_exitCode_ne_zero (hexit : (invocation.run world).exitCode ≠ 0) :
    (invocation.run world).output = "" := by
  rcases run_cases invocation world with
    ⟨failure, -, -, houtput⟩ | ⟨-, -, houtput, -⟩ | ⟨-, hzero, -⟩
  · exact houtput
  · exact houtput
  · exact absurd hzero hexit

/-- A run reports the first phase that fails, as its text tells by its beginning, and has the exit
code of failures if there is such a phase and not else.  A search without a match has an exit code
of its own.  Whatever does not succeed prints nothing.  No flag can make up for a settings file with
a fault.  After a file that loads, it is for a flag with a level that has no name, and for nothing
else, that the settings are refused, and else they are those of the file with the flags in their
place. -/
theorem run_reports_first_failure (invocation : Invocation) (world : World) :
    (∀ failure, (invocation.run world).failure = some failure ↔
      ∃ phase : Phase, phase.FailsFirst invocation world failure) ∧
    (∀ (phase : Phase) (failure : Failure), phase.failure? invocation world = some failure →
      ∀ other : Phase, other.opening.toList <+: failure.message.toList ↔ other = phase) ∧
    ((invocation.run world).exitCode = 1 ↔ invocation.command.Unmatched world ∧
      ∀ phase : Phase, phase.failure? invocation world = none) ∧
    (¬world.BreaksFilter →
      ((invocation.run world).exitCode = 2 ↔
        ∃ phase : Phase, (phase.failure? invocation world).isSome) ∧
      ∀ failure, (invocation.run world).failure = some failure →
        failure.report = "tz: " ++ failure.message) ∧
    ((invocation.run world).exitCode ≠ 0 → (invocation.run world).output = "") ∧
    (∀ path bytes text settings fault, invocation.settingsFile? world = some path →
      world.file path = .ok bytes → String.fromUTF8? bytes = some text →
      (Toml.parse? text).bind Settings.ofEntries? = some settings →
      settings.fault? = some fault →
      (invocation.run world).failure = some (.loadingConfig (.invalid fault))) ∧
    ∀ loaded, Settings.discover invocation.config world = .ok loaded →
      ((∃ error, (invocation.run world).failure = some (.invalidSettings error)) ↔
        ∃ word, invocation.logLevel = some word ∧ ¬Level.Named word) ∧
      (∀ error, (invocation.run world).failure = some (.invalidSettings error) →
        ∃ fault, error = .invalid fault ∧ fault.field = "log.level") ∧
      ∀ settings filter, invocation.start world = .ok (settings, filter) →
        settings.FlaggedBy loaded invocation := by
  refine ⟨fun failure => failure_eq_some_iff, ?_, ?_, ?_, ?_, ?_, ?_⟩
  · intro phase failure hfailure other
    rw [Failure.opening_prefix_iff, Phase.phase_of_failure? hfailure]
  · exact exitCode_eq_one_iff
  · intro hfilter
    refine ⟨exitCode_eq_two_iff hfilter, fun failure hfailure => ?_⟩
    rw [Failure.report, not_aborts_of_failure hfilter hfailure]
    rfl
  · exact output_of_exitCode_ne_zero
  · intro path bytes text settings fault hpath hfile htext hsettings hfault
    exact failure_of_fault hpath hfile htext hsettings hfault
  · intro loaded hdiscover
    exact ⟨exists_invalidSettings_iff hdiscover, fun _ => field_of_invalidSettings hdiscover,
      fun _ _ => flaggedBy_of_start hdiscover⟩

/-- Of four phases that fail, the first is reported, although a flag names a level in place of the
broken one.  With the settings put right it is the next of them, but for a flag that names none. -/
theorem run_reports_first_failure_of_many :
    let search (command : Command) : Invocation :=
      { config := some "treezip.toml", logLevel := some "info", command }
    let world (settings : String) : World :=
      { input := "[1]".toUTF8,
        file := fun path =>
          if path = "treezip.toml" then .ok settings.toUTF8 else .error .missing,
        configVariable := none, logVariable := none, logFault := fun _ => none }
    let broken : Invocation := search (.find "absent.json" "[1" "sideways" .next)
    let shouting : Invocation := { broken with logLevel := some "loud" }
    let loud : World := world "[log]\nlevel = \"loud\"\n"
    let fault : SettingFault :=
      .unknownLevel ⟨"log level", "loud", ["trace", "debug", "info", "warn", "error"]⟩
    (∀ phase ∈ [Phase.loading, .argument, .script, .reading],
      (phase.failure? broken loud).isSome) ∧
      (broken.run loud).failure = some (.loadingConfig (.invalid fault)) ∧
      (broken.run loud).exitCode = 2 ∧ (broken.run loud).output = "" ∧
      (broken.run (world "")).failure = some (.parsingEquals .endOfText) ∧
      (∃ error, (shouting.run (world "")).failure = some (.invalidSettings error)) ∧
      (Command.find "-" "2" "" .next).Unmatched (world "") := by
  intro search world broken shouting loud fault
  have hfail : ∀ phase ∈ [Phase.loading, .argument, .script, .reading],
      (phase.failure? broken loud).isSome := by decide +kernel
  have hfilter : ¬loud.BreaksFilter := by
    rintro ⟨text, htext, -⟩
    cases htext
  have hfirst : Phase.argument.FailsFirst broken (world "") (.parsingEquals .endOfText) :=
    ⟨Phase.ofStart, [.script, .reading, .moving, .removing], rfl, by decide +kernel,
      by decide +kernel⟩
  obtain ⟨-, -, -, hexit, houtput, hfault, -⟩ := run_reports_first_failure broken loud
  have htwo : (broken.run loud).exitCode = 2 :=
    (hexit hfilter).1.mpr ⟨.loading, hfail _ (by decide)⟩
  have hunnamed : ¬Level.Named "loud" := by
    rintro ⟨level, hlevel⟩
    rw [Level.parse_eq_ok_iff] at hlevel
    revert hlevel
    cases level <;> decide +kernel
  refine ⟨hfail, ?_, htwo, houtput (by rw [htwo]; decide), ?_, ?_, ?_⟩
  · exact hfault "treezip.toml" _ "[log]\nlevel = \"loud\"\n" { log := { level := "loud" } } fault
      rfl rfl (by decide +kernel) (by decide +kernel) (by decide +kernel)
  · exact ((run_reports_first_failure broken (world "")).1 _).mpr ⟨.argument, hfirst⟩
  · have hdefault : Settings.discover shouting.config (world "") = .ok {} := by decide +kernel
    obtain ⟨-, -, -, -, -, -, hflags⟩ := run_reports_first_failure shouting (world "")
    exact (hflags {} hdefault).1.mpr ⟨"loud", rfl, hunnamed⟩
  · have hone : ((search (.find "-" "2" "" .next)).run (world "")).exitCode = 1 := by decide +kernel
    exact ((run_reports_first_failure (search (.find "-" "2" "" .next)) (world "")).2.2.1.mp hone).1

end Invocation

end TreeCursor
