import TreeCursor.Proofs.Script.Reading
import TreeCursor.Script.Run

/-!
# The texts of reports

The text of a report tells the whole report.  That of a run begins with the number of the step, has
the word of the move between backticks and ends with the count.  That of a script that is not read
has what is to blame between backticks, and what stands before and after it tells the fault.
-/

namespace TreeCursor

/-! ## Runs -/

namespace RunError

/-- A text that tells a report. -/
structure ToldBy (error : RunError) (text : String) : Prop where
  position : ("move " ++ toString error.position ++ " ").toList <+: text.toList
  move : ("`" ++ String.ofList error.move.word ++ "`").toList <:+: text.toList
  completed : (" after " ++ toString error.completed ++ " repetition(s)").toList <:+ text.toList

theorem toldBy_message (error : RunError) : error.ToldBy error.message := by
  have hmessage : error.message.toList =
      ("move " ++ toString error.position ++ " ").toList ++ "(".toList ++
        ("`" ++ String.ofList error.move.word ++ "`").toList ++ (") has no target".toList ++
          (" after " ++ toString error.completed ++ " repetition(s)").toList) := by
    simp [message]
  rw [List.append_assoc, List.append_assoc] at hmessage
  constructor
  · exact ⟨_, hmessage.symm⟩
  · rw [hmessage, ← List.append_assoc]
    exact ⟨_, _, (List.append_assoc ..)⟩
  · rw [hmessage, ← List.append_assoc, ← List.append_assoc, ← List.append_assoc]
    exact ⟨_, rfl⟩

theorem notMem_toDigits {mark : Char} (hmark : mark.isDigit = false) (n : ℕ) :
    mark ∉ Nat.toDigits 10 n := by
  intro hmem
  have hdigit : mark.isDigit := Nat.isDigit_of_mem_toDigits (by decide) (by decide) hmem
  exact Bool.false_ne_true (hmark.symm.trans hdigit)

theorem toDigits_injective : Function.Injective (Nat.toDigits 10) := by
  intro m n heq
  calc
    m = Nat.ofDigitChars 10 (Nat.toDigits 10 m) 0 := Nat.ofDigitChars_ten_toDigits.symm
    _ = Nat.ofDigitChars 10 (Nat.toDigits 10 n) 0 := by rw [heq]
    _ = n := Nat.ofDigitChars_ten_toDigits

theorem toList_message (error : RunError) :
    error.message.toList = "move ".toList ++ (Nat.toDigits 10 error.position ++ ' ' ::
      ("(`".toList ++ (error.move.word ++ '`' ::
        (") has no target after ".toList ++ (Nat.toDigits 10 error.completed ++ ' ' ::
          "repetition(s)".toList))))) := by
  simp [message, Nat.repr_eq_ofList_toDigits]

/-- No two reports have the same text. -/
theorem message_injective : Function.Injective message := by
  intro error other heq
  have htext := congrArg String.toList heq
  rw [toList_message, toList_message] at htext
  obtain ⟨hposition, htext⟩ := Script.eq_of_divided_eq (notMem_toDigits rfl _)
    (notMem_toDigits rfl _) (List.append_cancel_left htext)
  have hbacktick (kind : Move) : '`' ∉ kind.word := by cases kind <;> decide
  obtain ⟨hmove, htext⟩ := Script.eq_of_divided_eq (hbacktick _) (hbacktick _)
    (List.append_cancel_left htext)
  obtain ⟨hcompleted, -⟩ := Script.eq_of_divided_eq (notMem_toDigits rfl _)
    (notMem_toDigits rfl _) (List.append_cancel_left htext)
  obtain ⟨position, kind, completed⟩ := error
  obtain ⟨position', kind', completed'⟩ := other
  obtain rfl : position = position' := toDigits_injective hposition
  obtain rfl : completed = completed' := toDigits_injective hcompleted
  have hkind : Except.ok kind = (Except.ok kind' : Except ScriptError Move) :=
    calc
      Except.ok kind = Script.move kind.word := (Script.move_word kind).symm
      _ = Script.move kind'.word := congrArg Script.move hmove
      _ = Except.ok kind' := Script.move_word kind'
  rw [Except.ok.inj hkind]

end RunError

/-! ## Scripts that are not read -/

namespace ScriptError

/-- The part of a script that an error blames. -/
def quoted : ScriptError → List Char
  | .badCount token _ => token
  | .zeroCount token => token
  | .unknownMove word => word

/-- What the text of an error has before that. -/
def opening : ScriptError → String
  | .badCount _ _ => "bad repeat count in "
  | .zeroCount _ => "repeat count in "
  | .unknownMove _ => "unknown move "

/-- What the text of an error has after that. -/
def closing : ScriptError → String
  | .badCount _ cause => ": " ++ cause.message
  | .zeroCount _ => " must be at least 1"
  | .unknownMove _ => ""

theorem message_eq (error : ScriptError) :
    error.message =
      error.opening ++ "`" ++ String.ofList error.quoted ++ "`" ++ error.closing := by
  rw [← String.toList_inj]
  cases error with
  | badCount token cause =>
      change ("bad repeat count in `" ++ String.ofList token ++ "`: " ++ cause.message).toList =
        ("bad repeat count in " ++ "`" ++ String.ofList token ++ "`" ++
          (": " ++ cause.message)).toList
      simp
  | zeroCount token =>
      change ("repeat count in `" ++ String.ofList token ++ "` must be at least 1").toList =
        ("repeat count in " ++ "`" ++ String.ofList token ++ "`" ++ " must be at least 1").toList
      simp
  | unknownMove word =>
      change ("unknown move `" ++ String.ofList word ++ "`").toList =
        ("unknown move " ++ "`" ++ String.ofList word ++ "`" ++ "").toList
      simp

theorem quoted_infix_message (error : ScriptError) :
    ("`" ++ String.ofList error.quoted ++ "`").toList <:+: error.message.toList := by
  refine ⟨error.opening.toList, error.closing.toList, ?_⟩
  simp only [message_eq, String.toList_append, List.append_assoc]

/-- The reasons against a count end differently. -/
theorem cause_eq_of_suffix {cause cause' : Text.CountError} {text : List Char}
    (hcause : cause.message.toList <:+ text) (hcause' : cause'.message.toList <:+ text) :
    cause = cause' := by
  have hends : cause.message.toList <:+ cause'.message.toList ∨
      cause'.message.toList <:+ cause.message.toList :=
    List.suffix_or_suffix_of_suffix hcause hcause'
  revert hends
  cases cause <;> cases cause' <;> decide

theorem suffix_closing (token : List Char) (cause : Text.CountError) :
    cause.message.toList <:+
      (badCount token cause).quoted ++ ("`".toList ++ (badCount token cause).closing.toList) := by
  refine List.suffix_append_of_suffix (List.suffix_append_of_suffix ?_)
  rw [closing, String.toList_append]
  exact List.suffix_append _ _

/-- No two errors have the same text. -/
theorem message_injective : Function.Injective message := by
  intro error other heq
  have htext : error.opening.toList ++
        ("`".toList ++ (error.quoted ++ ("`".toList ++ error.closing.toList))) =
      other.opening.toList ++
        ("`".toList ++ (other.quoted ++ ("`".toList ++ other.closing.toList))) := by
    have hmessage := congrArg String.toList heq
    simpa only [message_eq, String.toList_append, String.toList_ofList, List.append_assoc]
      using hmessage
  cases error with
  | badCount token cause =>
      cases other with
      | badCount token' cause' =>
          -- the tokens may hold anything, so that it is the ends of the texts that are compared
          have hrest := List.append_cancel_left (List.append_cancel_left htext)
          obtain rfl : cause = cause' := by
            apply cause_eq_of_suffix (suffix_closing token cause)
            rw [hrest]
            exact suffix_closing token' cause'
          exact congrArg (badCount · cause) (List.append_cancel_right hrest)
      | zeroCount token' => simp [opening] at htext
      | unknownMove word' => simp [opening] at htext
  | zeroCount token =>
      cases other with
      | badCount token' cause' => simp [opening] at htext
      | zeroCount token' =>
          have hrest := List.append_cancel_left (List.append_cancel_left htext)
          exact congrArg zeroCount (List.append_cancel_right hrest)
      | unknownMove word' => simp [opening] at htext
  | unknownMove word =>
      cases other with
      | badCount token' cause' => simp [opening] at htext
      | zeroCount token' => simp [opening] at htext
      | unknownMove word' =>
          have hrest := List.append_cancel_left (List.append_cancel_left htext)
          exact congrArg unknownMove (List.append_cancel_right hrest)

end ScriptError

end TreeCursor
