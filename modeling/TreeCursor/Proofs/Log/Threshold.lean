import TreeCursor.Log.Filter
import TreeCursor.Proofs.Script.Reading

/-!
# The filter of a level

The level of the settings is read twice: as the name of a level, and as the directives of a filter.
A word of letters is a single directive, which is a threshold for the names that both readings know.
The second name of warnings is none of them: the filter takes it for a target.
-/

namespace TreeCursor

/-! ## Letters -/

namespace Text

theorem isAlpha_iff {c : Char} :
    c.isAlpha = true ↔ (65 ≤ c.toNat ∧ c.toNat ≤ 90) ∨ (97 ≤ c.toNat ∧ c.toNat ≤ 122) := by
  change (decide (c.val ≥ 'A'.val ∧ c.val ≤ 'Z'.val) ||
    (decide (c.val ≥ 'a'.val) && decide (c.val ≤ 'z'.val))) = true ↔ _
  simp [UInt32.le_iff_toNat_le, ← Char.toNat_val]

theorem ne_of_isAlpha {c d : Char} (hletter : c.isAlpha = true) (hother : d.isAlpha = false) :
    c ≠ d := by
  rintro rfl
  rw [hletter] at hother
  cases hother

theorem toList_lowerAscii (word : String) :
    (lowerAscii word).toList = word.toList.map Char.toLower :=
  String.toList_map

theorem isAlpha_of_isAlpha_toLower {c : Char} (hlower : c.toLower.isAlpha = true) :
    c.isAlpha = true := by
  by_cases hupper : c.val ≥ 'A'.val ∧ c.val ≤ 'Z'.val
  · have hcapital : c.isUpper = true := decide_eq_true hupper
    exact Bool.or_eq_true_iff.mpr (.inl hcapital)
  · have hsame : c.toLower = c := dif_neg hupper
    rwa [hsame] at hlower

/-- Written in small letters a word keeps to letters, so that it had no others before. -/
theorem letters_of_lowerAscii {word small : String} (hsmall : ∀ c ∈ small.toList, c.isAlpha = true)
    (hword : lowerAscii word = small) : ∀ c ∈ word.toList, c.isAlpha = true := by
  intro c hc
  apply isAlpha_of_isAlpha_toLower
  apply hsmall
  rw [← hword, toList_lowerAscii]
  exact List.mem_map_of_mem hc

theorem head?_of_lowerAscii {word small : String} (hword : lowerAscii word = small) :
    word.toList.head?.map Char.toLower = small.toList.head? := by
  rw [← hword, toList_lowerAscii, List.head?_map]

theorem ne_nil_of_lowerAscii {word small : String} (hword : lowerAscii word = small)
    (hsmall : small.toList ≠ []) : word.toList ≠ [] := by
  rintro hnil
  rw [← hword, toList_lowerAscii, hnil] at hsmall
  exact hsmall rfl

theorem not_isBlank_of_isAlpha {c : Char} (hletter : c.isAlpha = true) : isBlank c = false := by
  have hcode := isAlpha_iff.mp hletter
  rw [Bool.eq_false_iff]
  simp only [isBlank, ne_eq, Bool.or_eq_true, Bool.and_eq_true, decide_eq_true_eq, beq_iff_eq]
  omega

theorem count_of_letters {word : List Char} (hletters : ∀ c ∈ word, c.isAlpha = true) :
    ∃ fault, count word = .error fault := by
  cases word with
  | nil => exact ⟨.empty, rfl⟩
  | cons c rest =>
      have hletter := hletters c List.mem_cons_self
      have hcode := isAlpha_iff.mp hletter
      have hplus : c ≠ '+' := ne_of_isAlpha hletter (by decide)
      have hdigit : ¬c.isDigit := by
        rw [Char.isDigit_iff_toNat]
        change ¬(48 ≤ c.toNat ∧ c.toNat ≤ 57)
        omega
      exact ⟨.invalidDigit, by rw [count_cons hplus, countDigits, if_neg hdigit]⟩

end Text

namespace Level

/-- The name of a level that settings and filters share. -/
def word : Level → String
  | trace => "trace"
  | debug => "debug"
  | info => "info"
  | warn => "warn"
  | error => "error"

theorem letters_word (level : Level) : ∀ c ∈ level.word.toList, c.isAlpha = true := by
  rw [← List.all_eq_true]
  cases level <;> decide

/-- In settings warnings have two names. -/
theorem parse_eq_ok_iff {name : String} {level : Level} :
    parse name = .ok level ↔
      Text.lowerAscii name = level.word ∨ level = .warn ∧ Text.lowerAscii name = "warning" := by
  unfold parse
  split
  case h_7 => cases level <;> simp_all [word]
  all_goals cases level <;> simp_all [word]

end Level

/-! ## Directives -/

namespace Directive

theorem threshold?_of_letters {word : String} (hletters : ∀ c ∈ word.toList, c.isAlpha = true)
    {level : Level} (hword : Text.lowerAscii word = level.word) :
    threshold? word.toList = some (some level) := by
  obtain ⟨fault, hcount⟩ := Text.count_of_letters hletters
  rw [threshold?, hcount, String.ofList_toList]
  cases level <;> simp [hword, Level.word]

theorem threshold?_of_warning {word : String} (hletters : ∀ c ∈ word.toList, c.isAlpha = true)
    (hword : Text.lowerAscii word = "warning") : threshold? word.toList = none := by
  obtain ⟨fault, hcount⟩ := Text.count_of_letters hletters
  rw [threshold?, hcount, String.ofList_toList]
  simp [hword]

/-- A word of letters is a threshold or else a target. -/
theorem parse_of_letters {word : List Char} (hne : word ≠ [])
    (hletters : ∀ c ∈ word, c.isAlpha = true) :
    parse word = .ok (match threshold? word with
      | some threshold => { threshold }
      | none => { target := String.ofList word }) := by
  cases word with
  | nil => exact absurd rfl hne
  | cons c rest =>
      obtain ⟨hletter, hrest⟩ := List.forall_mem_cons.mp hletters
      have hbracket : c ≠ '[' := Text.ne_of_isAlpha hletter (by decide)
      have hstart : startsTarget c = true := by
        have halphanumeric : Text.isAlphanumeric c = true :=
          Text.isAlphanumeric_of_isAlphanum (by rw [Char.isAlphanum, hletter, Bool.true_or])
        rw [startsTarget, halphanumeric]
        rfl
      have hname : rest.dropWhile (fun d => d != '=' && d != '[') = [] := by
        rw [List.dropWhile_eq_nil_iff]
        intro d hd
        have hequals := Text.ne_of_isAlpha (hrest d hd) (by decide : '='.isAlpha = false)
        have hopen := Text.ne_of_isAlpha (hrest d hd) (by decide : '['.isAlpha = false)
        rw [bne_iff_ne.mpr hequals, bne_iff_ne.mpr hopen, Bool.and_true]
      rw [parse, Text.trim_eq_self fun d hd => Text.not_isBlank_of_isAlpha (hletters d hd)]
      simp only [hstart, hname, if_true]
      cases threshold? (c :: rest) <;> rfl

end Directive

namespace Filter

theorem splitCommas_of_letters {word : List Char} (hletters : ∀ c ∈ word, c.isAlpha = true) :
    splitCommas word = [word] := by
  induction word with
  | nil => rfl
  | cons c rest ih =>
      obtain ⟨hletter, hrest⟩ := List.forall_mem_cons.mp hletters
      have hcomma : c ≠ ',' := Text.ne_of_isAlpha hletter (by decide)
      rw [splitCommas, if_neg hcomma, ih hrest]

theorem ofLevel_of_letters {word : String} (hne : word.toList ≠ [])
    (hletters : ∀ c ∈ word.toList, c.isAlpha = true) :
    ofLevel word = ⟨[match Directive.threshold? word.toList with
      | some threshold => { threshold }
      | none => { target := word }]⟩ := by
  have hparts : parts word = [word.toList] := by
    rw [parts, splitCommas_of_letters hletters, List.filter_cons_of_pos (by simpa using hne)]
    rfl
  rw [ofLevel, hparts, List.filterMap_cons, Directive.parse_of_letters hne hletters,
    String.ofList_toList]
  rfl

/-- The name of a level is a threshold for all events. -/
theorem ofLevel_of_word {name : String} {level : Level}
    (hname : Text.lowerAscii name = level.word) :
    ofLevel name = ⟨[{ threshold := some level }]⟩ := by
  have hletters := Text.letters_of_lowerAscii level.letters_word hname
  have hne := Text.ne_nil_of_lowerAscii hname (by cases level <;> decide)
  rw [ofLevel_of_letters hne hletters, Directive.threshold?_of_letters hletters hname]

/-- The second name of warnings is a target. -/
theorem ofLevel_of_warning {name : String} (hname : Text.lowerAscii name = "warning") :
    ofLevel name = ⟨[{ target := name }]⟩ := by
  have hsmall : ∀ c ∈ "warning".toList, c.isAlpha = true := List.all_eq_true.mp (by decide)
  have hletters := Text.letters_of_lowerAscii hsmall hname
  have hne := Text.ne_nil_of_lowerAscii hname (by decide)
  rw [ofLevel_of_letters hne hletters, Directive.threshold?_of_warning hletters hname]

theorem passes_of_threshold (level : Level) (target : String) (fields : List String)
    (severity : Level) :
    passes ⟨[{ threshold := some level }]⟩ target fields severity = level.admits severity := by
  simp [passes, deciding?, Directive.holds]

/-- No event passes whose target begins with another letter than the one that is asked for. -/
theorem not_passes_of_target {name target : String} {c d : Char}
    (hname : name.toList.head? = some c) (htarget : target.toList.head? = some d) (hne : c ≠ d)
    (fields : List String) (severity : Level) :
    passes ⟨[{ target := name }]⟩ target fields severity = false := by
  obtain ⟨rest, hlist⟩ := List.head?_eq_some_iff.mp hname
  obtain ⟨rest', hlist'⟩ := List.head?_eq_some_iff.mp htarget
  simp [passes, deciding?, Directive.holds, hlist, hlist', hne]

end Filter

end TreeCursor
