import TreeCursor.Proofs.Command.Stage
import TreeCursor.Proofs.Log.Threshold

/-!
# The log of a run

A run logs those of its events that are severe enough for the level of its settings, with one
exception: under the second name of warnings it logs nothing.  The filter asks for a target then,
and all targets of the library begin otherwise.
-/

namespace TreeCursor

/-! ## The events of a command -/

namespace Command

/-- The targets of the events that commands report. -/
def targets : List String :=
  ["treezip_core::json", "treezip_core::edit", "tz::script", "tz"]

/-- All events of the stage are those of a command. -/
abbrev IsOwn {β : Type} (stage : Stage β) : Prop :=
  stage.Reports fun event => event.target ∈ targets

theorem own_readDocument (world : World) (input : String) : IsOwn (readDocument world input) := by
  unfold readDocument
  split
  · exact Stage.reports_ofExcept _ _
  · refine Stage.reports_bind (Stage.reports_ofExcept _ _) fun document => ?_
    have hloaded : IsOwn (Stage.report (.loaded input)) :=
      Stage.reports_report (by decide : "treezip_core::json" ∈ targets)
    exact Stage.reports_bind hloaded fun _ => Stage.reports_pure _

theorem own_navigate (world : World) (input path : String) : IsOwn (navigate world input path) := by
  refine Stage.reports_bind (Stage.reports_ofExcept _ _) fun steps => ?_
  refine Stage.reports_bind (own_readDocument world input) fun document => ?_
  refine Stage.reports_bind (Stage.reports_ofExcept _ _) fun z => ?_
  have hmoved : IsOwn (Stage.report (.moved steps.length z.depth)) :=
    Stage.reports_report (by decide : "tz::script" ∈ targets)
  exact Stage.reports_bind hmoved fun _ => Stage.reports_pure _

theorem own_removeFocus (z : Zipper Document) : IsOwn (removeFocus z) := by
  unfold removeFocus
  split
  · exact Stage.reports_pure _
  · next edit hremove =>
      have hrejected : IsOwn (Stage.report (.rejected edit)) :=
        Stage.reports_report (by decide : "treezip_core::edit" ∈ targets)
      exact Stage.reports_bind hrejected fun _ => Stage.reports_ofExcept _ _

theorem own_walkLine (leavesOnly : Bool) (z : Zipper Document) : IsOwn (walkLine leavesOnly z) := by
  unfold walkLine
  split
  · exact Stage.reports_pure _
  · exact Stage.reports_print _

theorem own_walkFrom (leavesOnly : Bool) (limit : Option ℕ) (seen : ℕ)
    (positions : List (Zipper Document)) : IsOwn (walkFrom leavesOnly limit seen positions) := by
  induction positions generalizing seen with
  | nil => exact Stage.reports_pure _
  | cons z positions ih =>
      rw [walkFrom]
      split
      · exact Stage.reports_report (by decide : "tz" ∈ targets)
      · exact Stage.reports_bind (own_walkLine leavesOnly z) fun _ => ih (seen + 1)

/-- To print something and come to an exit code reports nothing. -/
theorem own_printed (text : String) (code : ℕ) :
    IsOwn (do Stage.print text; pure code : Stage ℕ) :=
  Stage.reports_bind (Stage.reports_print text) fun _ => Stage.reports_pure code

theorem own_run (settings : Settings) (world : World) (command : Command) :
    IsOwn (command.run settings world) := by
  cases command with
  | «show» input path | get input path =>
      exact Stage.reports_bind (own_navigate world input path) fun _ => own_printed _ 0
  | find input equals start dir =>
      refine Stage.reports_bind (Stage.reports_ofExcept _ _) fun needle => ?_
      refine Stage.reports_bind (own_navigate world input start) fun z => ?_
      cases z.find dir (· == needle) with
      | some found => exact own_printed _ 0
      | none =>
          have hunmatched : IsOwn (Stage.report (.unmatched needle.compact)) :=
            Stage.reports_report (by decide : "tz" ∈ targets)
          exact Stage.reports_bind hunmatched fun _ => Stage.reports_pure _
  | replace input path value =>
      refine Stage.reports_bind (Stage.reports_ofExcept _ _) fun node => ?_
      exact Stage.reports_bind (own_navigate world input path) fun _ => own_printed _ 0
  | remove input path =>
      refine Stage.reports_bind (own_navigate world input path) fun z => ?_
      exact Stage.reports_bind (own_removeFocus z) fun _ => own_printed _ 0
  | walk input leavesOnly =>
      refine Stage.reports_bind (own_readDocument world input) fun document => ?_
      exact Stage.reports_bind (own_walkFrom _ _ 0 _) fun _ => Stage.reports_pure _

end Command

/-! ## The log of a run -/

theorem LogSettings.start_eq_ok {log : LogSettings} {world : World} {filter : Filter}
    (hstart : log.start world = .ok filter) :
    (∃ level, Level.parse log.level = .ok level) ∧
      Filter.ofSettings world.logVariable log.level = .ok filter := by
  unfold start at hstart
  split at hstart
  · cases hstart
  · cases hstart
  · next level filter' hlevel hfilter =>
      split at hstart
      · cases hstart
      · cases hstart
        exact ⟨⟨level, hlevel⟩, hfilter⟩

namespace Invocation

section Started

variable {invocation : Invocation} {world : World} {settings : Settings} {filter : Filter}
variable (hstart : invocation.start world = .ok (settings, filter))
include hstart

theorem log_start_of_start : settings.log.start world = .ok filter := by
  unfold start at hstart
  split at hstart
  · cases hstart
  · split at hstart
    · cases hstart
    · split at hstart
      · cases hstart
      · next hlog =>
          cases hstart
          exact hlog

/-- A run that has started logging reports that first, and logs what passes its filter. -/
theorem events_of_start :
    (invocation.run world).log = some settings.log ∧
      (invocation.run world).events =
        .initialized settings.log.level settings.log.format settings.log.file ::
          (invocation.command.run settings world).events ∧
      (invocation.run world).logged = (invocation.run world).events.filter fun event =>
        filter.passes event.target event.fieldNames event.level := by
  rw [run, hstart]
  cases hresult : (invocation.command.run settings world).result <;> simp [hresult]

theorem target_of_mem_events {event : Event} (hevent : event ∈ (invocation.run world).events) :
    event.target ∈ "treezip_core::logging" :: Command.targets := by
  rw [(events_of_start hstart).2.1] at hevent
  rcases List.mem_cons.mp hevent with rfl | hcommand
  · exact List.mem_cons_self
  · exact List.mem_cons_of_mem _ (Command.own_run settings world _ event hcommand)

section Unrequested

variable (hvariable : world.logVariable = none)
include hvariable

theorem filter_of_start : filter = Filter.ofLevel settings.log.level := by
  have hfilter := (LogSettings.start_eq_ok (log_start_of_start hstart)).2
  rw [hvariable] at hfilter
  cases hfilter
  rfl

theorem logged_of_word {level : Level} (hname : Text.lowerAscii settings.log.level = level.word) :
    (invocation.run world).logged =
      (invocation.run world).events.filter fun event => level.admits event.level := by
  rw [(events_of_start hstart).2.2, filter_of_start hstart hvariable, Filter.ofLevel_of_word hname]
  exact List.filter_congr fun event _ => Filter.passes_of_threshold level _ _ _

/-- The level is taken for a target, and no target begins with its letter. -/
theorem logged_of_warning (hname : Text.lowerAscii settings.log.level = "warning") :
    (invocation.run world).logged = [] := by
  rw [(events_of_start hstart).2.2, filter_of_start hstart hvariable,
    Filter.ofLevel_of_warning hname, List.filter_eq_nil_iff]
  intro event hevent
  obtain ⟨c, hc, hlower⟩ := Option.map_eq_some_iff.mp (Text.head?_of_lowerAscii hname)
  have htarget : event.target.toList.head? = some 't' := by
    have hall : ∀ target ∈ "treezip_core::logging" :: Command.targets,
        target.toList.head? = some 't' := by decide
    exact hall _ (target_of_mem_events hstart hevent)
  have hne : c ≠ 't' := by
    rintro rfl
    revert hlower
    decide
  rw [Filter.not_passes_of_target hc htarget hne]
  exact Bool.false_ne_true

/-- Without a filter in the environment, a run logs the events from the level on that its settings
name, in their order and the start of logging first.  Where they name it by the second name of
warnings, it logs nothing. -/
theorem logLines_of_level (hformat : settings.log.format = .json) :
    ∃ level, Level.parse settings.log.level = .ok level ∧
      (∃ rest, (invocation.run world).events =
        .initialized settings.log.level .json settings.log.file :: rest) ∧
      (invocation.run world).logLines =
        if Text.lowerAscii settings.log.level = "warning" then []
        else ((invocation.run world).events.filter fun event => level.admits event.level).map
          (Event.line .json) := by
  obtain ⟨level, hlevel⟩ := (LogSettings.start_eq_ok (log_start_of_start hstart)).1
  obtain ⟨hlog, hevents, -⟩ := events_of_start hstart
  have hlines : (invocation.run world).logLines =
      (invocation.run world).logged.map (Event.line .json) := by
    rw [Observation.logLines, hlog, ← hformat]
  refine ⟨level, hlevel, ⟨_, hformat ▸ hevents⟩, ?_⟩
  split
  · next hname => rw [hlines, logged_of_warning hstart hvariable hname, List.map_nil]
  · next hname =>
      have hword := (Level.parse_eq_ok_iff.mp hlevel).resolve_right fun hwarning =>
        hname hwarning.2
      rw [hlines, logged_of_word hstart hvariable hword]

end Unrequested

end Started

/-- A search that finds nothing, with the name of its level in another case. -/
theorem logLines_of_level_info :
    let invocation : Invocation :=
      { logLevel := some "Info", logFormat := some .json, command := .find "-" "2" "" .next }
    let world : World :=
      { input := "[1]".toUTF8, file := fun _ => .error .missing, configVariable := none,
        logVariable := none, logFault := fun _ => none }
    invocation.start world =
        .ok ({ log := { level := "Info", format := .json } }, ⟨[{ threshold := some .info }]⟩) ∧
      (invocation.run world).events.length = 3 ∧
      (invocation.run world).logLines = [Event.line .json (.unmatched "2")] := by
  intro invocation world
  have hstart : invocation.start world =
      .ok ({ log := { level := "Info", format := .json } }, ⟨[{ threshold := some .info }]⟩) := by
    decide +kernel
  have hinfo : Level.parse "Info" = .ok .info := by decide +kernel
  obtain ⟨level, hlevel, -, hlines⟩ := logLines_of_level hstart rfl rfl
  obtain rfl : level = .info := Except.ok.inj (hlevel.symm.trans hinfo)
  refine ⟨hstart, by decide +kernel, hlines.trans ?_⟩
  decide +kernel

/-- A walk warns when it stops at its limit.  Under the second name of warnings, which is as good as
the first for the settings, nothing is logged of it. -/
theorem warning_is_not_logged :
    let invocation : Invocation :=
      { config := some "treezip.toml", logLevel := some "warning", logFormat := some .json,
        command := .walk "-" false }
    let world : World :=
      { input := "[1, [2, 3]]".toUTF8, file := fun _ => .ok "[cli]\nmax_steps = 1\n".toUTF8,
        configVariable := none, logVariable := none, logFault := fun _ => none }
    (invocation.start world).toOption.map (fun started => started.1.log) =
        some { level := "warning", format := .json } ∧
      Level.parse "warning" = .ok .warn ∧
      (invocation.run world).events.filter (fun event => Level.warn.admits event.level) =
        [.stopped 1] ∧
      (invocation.run world).logLines = [] := by
  decide +kernel

end Invocation

end TreeCursor
