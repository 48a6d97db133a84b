import TreeCursor.Command.Run
import TreeCursor.Proofs.Log.Threshold

/-!
# The settings of a run

Settings are of use if their level has a name and neither of their numbers is zero.  Those that are
loaded are.  Flags put a level and a format in the place of theirs, and as every format is of use, a
flag can only do harm by its level.
-/

namespace TreeCursor

namespace Level

/-- The word names a level, for settings. -/
def Named (word : String) : Prop :=
  ∃ level, parse word = .ok level

/-- The names are words of letters. -/
theorem not_blank_of_named {word : String} (hnamed : Named word) :
    ¬word.toList.all Text.isBlank := by
  obtain ⟨level, hlevel⟩ := hnamed
  have hsmall : ∃ small : String, Text.lowerAscii word = small ∧ small.toList ≠ [] ∧
      ∀ c ∈ small.toList, c.isAlpha = true := by
    obtain hword | ⟨-, hwarning⟩ := parse_eq_ok_iff.mp hlevel
    · exact ⟨level.word, hword, by cases level <;> decide, level.letters_word⟩
    · exact ⟨"warning", hwarning, by decide, List.all_eq_true.mp (by decide)⟩
  obtain ⟨small, hword, hne, hletters⟩ := hsmall
  intro hblank
  obtain ⟨c, hc⟩ := List.exists_mem_of_ne_nil _ (Text.ne_nil_of_lowerAscii hword hne)
  have hletter := Text.letters_of_lowerAscii hletters hword c hc
  exact Bool.false_ne_true
    ((Text.not_isBlank_of_isAlpha hletter).symm.trans (List.all_eq_true.mp hblank c hc))

end Level

/-- The settings file of an invocation. -/
def Invocation.settingsFile? (invocation : Invocation) (world : World) : Option String :=
  invocation.config.or (world.configVariable.filter (· ≠ ""))

/-- The settings of an invocation with its flags in their place. -/
def Invocation.settings? (invocation : Invocation) (world : World) : Option Settings :=
  (Settings.discover invocation.config world).toOption.map fun settings =>
    settings.override invocation

namespace Settings

variable {invocation : Invocation} {world : World}

/-! ## Settings of use -/

theorem fault?_eq_none_iff {settings : Settings} :
    settings.fault? = none ↔ Level.Named settings.log.level ∧
      settings.display.maxWidth ≠ some 0 ∧ settings.command.maxSteps ≠ some 0 := by
  unfold fault?
  split
  · next hblank =>
      refine iff_of_false nofun fun huse => ?_
      exact Level.not_blank_of_named huse.1 hblank
  · cases hlevel : Level.parse settings.log.level with
    | error e => simp [Level.Named, hlevel]
    | ok level =>
        by_cases hwidth : settings.display.maxWidth = some 0
        · simp [hwidth]
        · simp [Level.Named, hlevel, hwidth]

/-- A level without a name is the first fault there is. -/
theorem exists_fault_of_not_named {settings : Settings}
    (hlevel : ¬Level.Named settings.log.level) :
    ∃ fault, settings.fault? = some fault ∧ fault.field = "log.level" := by
  unfold fault?
  split
  · exact ⟨.emptyLevel, rfl, rfl⟩
  · split
    · next e hparse => exact ⟨.unknownLevel e, rfl, rfl⟩
    · next level hparse => exact absurd ⟨level, hparse⟩ hlevel

theorem validate_eq_ok_iff {settings valid : Settings} :
    settings.validate = .ok valid ↔ settings.fault? = none ∧ settings = valid := by
  unfold validate
  cases settings.fault? <;> simp

theorem validate_eq_error_iff {settings : Settings} {error : SettingsError} :
    settings.validate = .error error ↔
      ∃ fault, settings.fault? = some fault ∧ .invalid fault = error := by
  unfold validate
  cases settings.fault? <;> simp

theorem fault?_of_load {path : String} {content : Except FileError ByteArray} {loaded : Settings}
    (hload : load path content = .ok loaded) : loaded.fault? = none := by
  unfold load at hload
  split at hload
  · cases hload
  · split at hload
    · cases hload
    · unfold parse at hload
      split at hload
      · cases hload
      · obtain ⟨hfault, rfl⟩ := validate_eq_ok_iff.mp hload
        exact hfault

theorem discover_of_settingsFile {path : String}
    (hpath : invocation.settingsFile? world = some path) :
    discover invocation.config world = load path (world.file path) := by
  unfold Invocation.settingsFile? at hpath
  unfold discover
  cases hconfig : invocation.config with
  | some name =>
      rw [hconfig] at hpath
      cases hpath
      rfl
  | none =>
      rw [hconfig, Option.none_or, Option.filter_eq_some_iff] at hpath
      obtain ⟨hvariable, hname⟩ := hpath
      rw [hvariable]
      exact if_neg (of_decide_eq_true hname)

/-- Settings that are loaded are of use, and so are the default ones. -/
theorem fault?_of_discover {flag : Option String} {loaded : Settings}
    (hdiscover : discover flag world = .ok loaded) : loaded.fault? = none := by
  have hdefault : ({} : Settings).fault? = none :=
    fault?_eq_none_iff.mpr ⟨⟨.warn, by decide +kernel⟩, nofun, nofun⟩
  unfold discover at hdiscover
  split at hdiscover
  · exact fault?_of_load hdiscover
  · split at hdiscover
    · cases hdiscover
      exact hdefault
    · exact fault?_of_load hdiscover
  · cases hdiscover
    exact hdefault

/-! ## Flags -/

/-- The settings are others with the flags of an invocation in their place. -/
structure FlaggedBy (settings others : Settings) (invocation : Invocation) : Prop where
  level : settings.log.level = invocation.logLevel.getD others.log.level
  format : settings.log.format = invocation.logFormat.getD others.log.format
  file : settings.log.file = others.log.file
  display : settings.display = others.display
  command : settings.command = others.command

theorem flaggedBy_override (loaded : Settings) (invocation : Invocation) :
    (loaded.override invocation).FlaggedBy loaded invocation :=
  ⟨rfl, rfl, rfl, rfl, rfl⟩

theorem settings?_of_discover {loaded : Settings}
    (hdiscover : discover invocation.config world = .ok loaded) :
    invocation.settings? world = some (loaded.override invocation) := by
  rw [Invocation.settings?, hdiscover]
  rfl

section Override

variable (invocation) {loaded : Settings} (hloaded : loaded.fault? = none)
include hloaded

/-- Settings of use are so with flags as well, but for a level without a name. -/
theorem fault?_override_eq_none_iff :
    (loaded.override invocation).fault? = none ↔
      ∀ word, invocation.logLevel = some word → Level.Named word := by
  obtain ⟨hlevel, huse⟩ := fault?_eq_none_iff.mp hloaded
  have hflagged := flaggedBy_override loaded invocation
  rw [fault?_eq_none_iff, hflagged.level, hflagged.display, hflagged.command, and_iff_left huse]
  cases invocation.logLevel with
  | none => exact iff_of_true hlevel nofun
  | some word =>
      constructor
      · rintro hnamed _ ⟨⟩
        exact hnamed
      · exact fun hnamed => hnamed word rfl

theorem exists_fault_override_iff :
    (∃ fault, (loaded.override invocation).fault? = some fault) ↔
      ∃ word, invocation.logLevel = some word ∧ ¬Level.Named word := by
  rw [← Option.isSome_iff_exists, ← Option.ne_none_iff_isSome, ne_eq,
    fault?_override_eq_none_iff invocation hloaded]
  simp only [not_forall, exists_prop]

/-- It is the level that is at fault then. -/
theorem field_of_fault_override {fault : SettingFault}
    (hfault : (loaded.override invocation).fault? = some fault) : fault.field = "log.level" := by
  obtain ⟨word, hword, hnamed⟩ :=
    (exists_fault_override_iff invocation hloaded).mp ⟨fault, hfault⟩
  have hlevel : (loaded.override invocation).log.level = word := by
    rw [(flaggedBy_override loaded invocation).level, hword, Option.getD_some]
  obtain ⟨fault', hfault', hfield⟩ := exists_fault_of_not_named (hlevel ▸ hnamed)
  obtain rfl : fault' = fault := Option.some.inj (hfault'.symm.trans hfault)
  exact hfield

end Override

end Settings

end TreeCursor
