import Mathlib.Algebra.Order.Group.Nat
import Mathlib.Data.List.TakeWhile
import TreeCursor.Script.Basic

/-!
# Reading what is written

Tokens are found by one rule: cut at a separator, a text has the tokens of its two parts.  A count
is read exactly if it is a number of 64 bits in digits.  So the steps that are written with
separators between them are read again as they were.
-/

namespace TreeCursor

/-! ## Counts -/

namespace Text

theorem le_ofDigitChars (digits : List Char) (value : ℕ) :
    value ≤ Nat.ofDigitChars 10 digits value := by
  have hpos : 0 < 10 ^ digits.length := Nat.pow_pos (Nat.zero_lt_succ 9)
  calc
    value ≤ 10 ^ digits.length * value := Nat.le_mul_of_pos_left value hpos
    _ ≤ 10 ^ digits.length * value + Nat.ofDigitChars 10 digits 0 := Nat.le_add_right _ _
    _ = Nat.ofDigitChars 10 digits value := Nat.ofDigitChars_eq_ofDigitChars_zero.symm

/-- Digits are read if the number that they end up with has 64 bits, since it never gets less. -/
theorem countDigits_eq_ok_iff {digits : List Char} {value : ℕ} (hvalue : value < 2 ^ 64) {n : ℕ} :
    countDigits value digits = .ok n ↔
      (∀ c ∈ digits, c.isDigit) ∧ Nat.ofDigitChars 10 digits value = n ∧ n < 2 ^ 64 := by
  induction digits generalizing value with
  | nil =>
      rw [countDigits, Nat.ofDigitChars_nil, Except.ok.injEq]
      constructor
      · rintro rfl
        exact ⟨List.forall_mem_nil _, rfl, hvalue⟩
      · rintro ⟨-, hn, -⟩
        exact hn
  | cons c digits ih =>
      have hnumber : Nat.ofDigitChars 10 (c :: digits) value =
          Nat.ofDigitChars 10 digits (value * 10 + (c.toNat - 48)) := by
        rw [Nat.ofDigitChars_cons, Nat.mul_comm]
        rfl
      rw [countDigits, hnumber, List.forall_mem_cons]
      by_cases hdigit : c.isDigit
      · by_cases hroom : value * 10 + (c.toNat - 48) < 2 ^ 64
        · simp only [hdigit, hroom, if_true, ih hroom, true_and]
        · have hle := le_ofDigitChars digits (value * 10 + (c.toNat - 48))
          simp only [hdigit, hroom, if_true, if_false, reduceCtorEq, false_iff]
          rintro ⟨-, hn, hless⟩
          omega
      · simp [hdigit]

theorem count_cons {c : Char} (hc : c ≠ '+') (digits : List Char) :
    count (c :: digits) = countDigits 0 (c :: digits) := by
  unfold count
  split <;> simp_all

theorem count_toDigits {n : ℕ} (hn : n < 2 ^ 64) : count (Nat.toDigits 10 n) = .ok n := by
  have hdigits : ∀ c ∈ Nat.toDigits 10 n, c.isDigit := by
    intro c hc
    exact Nat.isDigit_of_mem_toDigits (by decide) (by decide) hc
  have hread : countDigits 0 (Nat.toDigits 10 n) = .ok n :=
    (countDigits_eq_ok_iff (by decide)).mpr ⟨hdigits, Nat.ofDigitChars_ten_toDigits, hn⟩
  cases htext : Nat.toDigits 10 n with
  | nil => exact absurd htext Nat.toDigits_ne_nil
  | cons c digits =>
      rw [htext] at hdigits hread
      have hplus : c ≠ '+' := by
        rintro rfl
        exact absurd (hdigits '+' List.mem_cons_self) (by decide)
      rw [count_cons hplus, hread]

/-! ## Blanks -/

theorem dropWhile_isBlank_eq_self {text : List Char} (htext : ∀ c ∈ text, isBlank c = false) :
    text.dropWhile isBlank = text := by
  refine List.dropWhile_eq_self_iff.mpr fun hlength => ?_
  rw [htext text[0] (List.getElem_mem hlength)]
  exact Bool.false_ne_true

/-- Blanks around a text without blanks are all that is taken away. -/
theorem trim_append_blanks {text blanks : List Char} (htext : ∀ c ∈ text, isBlank c = false)
    (hblanks : ∀ c ∈ blanks, isBlank c = true) : trim (text ++ blanks) = text := by
  cases text with
  | nil =>
      rw [List.nil_append, trim, List.dropWhile_eq_nil_iff.mpr hblanks]
      rfl
  | cons c rest =>
      have hfirst : isBlank c = false := htext c List.mem_cons_self
      have hreverse : ∀ d ∈ (c :: rest).reverse, isBlank d = false := fun d hd =>
        htext d (List.mem_reverse.mp hd)
      have hblanks' : ∀ d ∈ blanks.reverse, isBlank d = true := fun d hd =>
        hblanks d (List.mem_reverse.mp hd)
      have hcons : ¬isBlank c = true := Bool.eq_false_iff.mp hfirst
      rw [trim, List.cons_append, List.dropWhile_cons_of_neg hcons, ← List.cons_append,
        List.reverse_append, List.dropWhile_append_of_pos hblanks',
        dropWhile_isBlank_eq_self hreverse, List.reverse_reverse]

theorem trim_eq_self {text : List Char} (htext : ∀ c ∈ text, isBlank c = false) :
    trim text = text := by
  have htrim := trim_append_blanks htext (List.forall_mem_nil _)
  rwa [List.append_nil] at htrim

end Text

namespace Script

/-! ## Tokens -/

theorem tokens_cons_of_separator {c : Char} (hc : isSeparator c) (text : List Char) :
    tokens (c :: text) = tokens text := by
  cases text with
  | nil => simp [tokens, hc]
  | cons d text => simp [tokens, hc]

theorem tokens_cons_ne_nil {c : Char} (hc : ¬isSeparator c) (text : List Char) :
    tokens (c :: text) ≠ [] := by
  cases text with
  | nil => simp [tokens, hc]
  | cons d text =>
      rw [tokens, if_neg hc]
      split
      · exact List.cons_ne_nil _ _
      · split <;> exact List.cons_ne_nil _ _

/-- No token goes on across a separator. -/
theorem tokens_append_cons {c : Char} (hc : isSeparator c) (before after : List Char) :
    tokens (before ++ c :: after) = tokens before ++ tokens after := by
  fun_induction tokens before with
  | case1 => exact tokens_cons_of_separator hc after
  | case2 d hd =>
      rw [List.singleton_append, tokens_cons_of_separator hd, tokens_cons_of_separator hc]
      rfl
  | case3 d hd =>
      rw [List.singleton_append, tokens, if_neg hd, if_pos hc, tokens_cons_of_separator hc]
      rfl
  | case4 d e rest hd ih => rw [List.cons_append, tokens_cons_of_separator hd, ih]
  | case5 d e rest hd he ih =>
      rw [List.cons_append, List.cons_append, tokens, if_neg hd, if_pos he, ← List.cons_append, ih]
      rfl
  | case6 d e rest hd he hnone ih => exact absurd hnone (tokens_cons_ne_nil he rest)
  | case7 d e rest hd he token others hsome ih =>
      rw [hsome] at ih
      rw [List.cons_append, List.cons_append, tokens, if_neg hd, if_neg he, ← List.cons_append, ih]
      rfl

/-- A text that begins with a separator, or with nothing, has its own tokens. -/
theorem tokens_append_of_head {after : List Char} (hafter : ∀ c ∈ after.head?, isSeparator c)
    (before : List Char) : tokens (before ++ after) = tokens before ++ tokens after := by
  cases after with
  | nil => rw [List.append_nil, tokens, List.append_nil]
  | cons c after =>
      have hc : isSeparator c := hafter c rfl
      rw [tokens_append_cons hc, tokens_cons_of_separator hc]

/-- A text without separators is a token. -/
theorem tokens_of_word {word : List Char} (hne : word ≠ [])
    (hword : ∀ c ∈ word, ¬isSeparator c) : tokens word = [word] := by
  induction word with
  | nil => exact absurd rfl hne
  | cons c word ih =>
      obtain ⟨hc, hrest⟩ := List.forall_mem_cons.mp hword
      cases word with
      | nil => simp [tokens, hc]
      | cons d word =>
          have hd : ¬isSeparator d := hrest d List.mem_cons_self
          rw [tokens, if_neg hc, if_neg hd, ih (List.cons_ne_nil d word) hrest]

theorem tokens_append_of_separators {gap : List Char} (hgap : ∀ c ∈ gap, isSeparator c)
    (text : List Char) : tokens (gap ++ text) = tokens text := by
  induction gap with
  | nil => rfl
  | cons c gap ih =>
      obtain ⟨hc, hrest⟩ := List.forall_mem_cons.mp hgap
      rw [List.cons_append, tokens_cons_of_separator hc, ih hrest]

section Separator

variable {separator : List Char} (hne : separator ≠ [])
  (hseparator : ∀ c ∈ separator, isSeparator c)
include hne hseparator

theorem tokens_append_separators (before after : List Char) :
    tokens (before ++ (separator ++ after)) = tokens before ++ tokens after := by
  obtain ⟨c, more, rfl⟩ := List.exists_cons_of_ne_nil hne
  obtain ⟨hc, hmore⟩ := List.forall_mem_cons.mp hseparator
  rw [List.cons_append, tokens_append_cons hc, tokens_append_of_separators hmore]

/-- Words are found again between any separators. -/
theorem tokens_intercalate {words : List (List Char)}
    (hwords : ∀ word ∈ words, word ≠ [] ∧ ∀ c ∈ word, ¬isSeparator c) :
    tokens (List.intercalate separator words) = words := by
  induction words with
  | nil => rfl
  | cons word words ih =>
      obtain ⟨⟨hword, hletters⟩, hothers⟩ := List.forall_mem_cons.mp hwords
      cases words with
      | nil => rw [List.intercalate_singleton, tokens_of_word hword hletters]
      | cons other words =>
          rw [List.intercalate_cons_cons, List.append_assoc,
            tokens_append_separators hne hseparator, tokens_of_word hword hletters, ih hothers]
          rfl

end Separator

/-! ## Steps -/

theorem move_word (kind : Move) : move kind.word = .ok kind := by
  cases kind <;> rfl

theorem plain_of_mem_word {kind : Move} {c : Char} (hc : c ∈ kind.word) :
    (c != '*') = true ∧ ¬isSeparator c := by
  have hword : (kind.word.all fun c => c != '*' && !isSeparator c) = true := by
    cases kind <;> decide
  have hplain : (c != '*' && !isSeparator c) = true := List.all_eq_true.mp hword c hc
  rwa [Bool.and_eq_true, Bool.not_eq_true', ← Bool.not_eq_true] at hplain

theorem not_separator_of_isDigit {c : Char} (hc : c.isDigit) : ¬isSeparator c := by
  have hcode : 48 ≤ c.toNat ∧ c.toNat ≤ 57 := Char.isDigit_iff_toNat.mp hc
  have hcomma : c ≠ ',' := by
    rintro rfl
    exact absurd hc (by decide)
  simp [isSeparator, hcomma, Text.isBlank]
  omega

/-- A step is written without separators. -/
theorem not_separator_of_mem_text {step : Step} {c : Char} (hc : c ∈ step.text) :
    ¬isSeparator c := by
  have hword : c ∈ step.move.word → ¬isSeparator c := fun hmem => (plain_of_mem_word hmem).2
  rw [Step.text] at hc
  split at hc
  · exact hword hc
  · rw [List.mem_append, List.mem_cons] at hc
    obtain hmem | rfl | hdigit := hc
    · exact hword hmem
    · decide
    · exact not_separator_of_isDigit (Nat.isDigit_of_mem_toDigits (by decide) (by decide) hdigit)

/-- Neither are there blanks in a script that is written. -/
theorem not_isBlank_of_mem_render {steps : List Step} {c : Char} (hc : c ∈ render steps) :
    Text.isBlank c = false := by
  have htext {step : Step} (hmem : c ∈ step.text) : Text.isBlank c = false := by
    have hseparator := not_separator_of_mem_text hmem
    rw [isSeparator, Bool.or_eq_true, not_or] at hseparator
    exact Bool.eq_false_iff.mpr hseparator.2
  rw [render] at hc
  induction steps with
  | nil => cases hc
  | cons step steps ih =>
      cases steps with
      | nil =>
          rw [List.map_singleton, List.intercalate_singleton] at hc
          exact htext hc
      | cons other steps =>
          rw [List.map_cons, List.map_cons, List.intercalate_cons_cons, List.append_assoc,
            List.mem_append, List.mem_append, List.mem_singleton] at hc
          obtain hmem | rfl | hmem := hc
          · exact htext hmem
          · decide
          · exact ih hmem

theorem text_ne_nil (step : Step) : step.text ≠ [] := by
  have hword : step.move.word ≠ [] := by
    cases step.move <;> decide
  rw [Step.text]
  split
  · exact hword
  · exact List.append_ne_nil_of_left_ne_nil hword _

/-! ## Words before a mark -/

section Divided

variable {word : List Char} {mark : Char} (hword : mark ∉ word)
include hword

theorem forall_mem_ne_mark : ∀ c ∈ word, (c != mark) = true := fun _ hc =>
  bne_iff_ne.mpr (ne_of_mem_of_not_mem hc hword)

theorem takeWhile_divided (rest : List Char) :
    (word ++ mark :: rest).takeWhile (· != mark) = word := by
  rw [List.takeWhile_append_of_pos (forall_mem_ne_mark hword),
    List.takeWhile_cons_of_neg (by simp), List.append_nil]

theorem dropWhile_divided (rest : List Char) :
    (word ++ mark :: rest).dropWhile (· != mark) = mark :: rest := by
  rw [List.dropWhile_append_of_pos (forall_mem_ne_mark hword),
    List.dropWhile_cons_of_neg (by simp)]

/-- A text is divided at its first mark in one way. -/
theorem eq_of_divided_eq {word' rest rest' : List Char} (hword' : mark ∉ word')
    (heq : word ++ mark :: rest = word' ++ mark :: rest') : word = word' ∧ rest = rest' := by
  constructor
  · rw [← takeWhile_divided hword rest, heq, takeWhile_divided hword']
  · have hdrop := congrArg (List.dropWhile (· != mark)) heq
    rw [dropWhile_divided hword, dropWhile_divided hword'] at hdrop
    exact (List.cons.inj hdrop).2

end Divided

/-! ## Steps -/

section Step

variable {word : List Char} (hword : '*' ∉ word)
include hword

theorem step_of_word : step word = (move word).map fun kind => ⟨kind, 1⟩ := by
  have hall := forall_mem_ne_mark hword
  rw [step, List.takeWhile_eq_self_iff.mpr hall, List.dropWhile_eq_nil_iff.mpr hall]

/-! The first asterisk divides a step, and the count after it is looked at before the name. -/

theorem step_of_badCount {digits : List Char} {cause : Text.CountError}
    (hcount : Text.count digits = .error cause) :
    step (word ++ '*' :: digits) = .error (.badCount (word ++ '*' :: digits) cause) := by
  simp only [step, dropWhile_divided hword, hcount]

theorem step_of_zeroCount {digits : List Char} (hcount : Text.count digits = .ok 0) :
    step (word ++ '*' :: digits) = .error (.zeroCount (word ++ '*' :: digits)) := by
  simp only [step, dropWhile_divided hword, hcount]

theorem step_of_count {digits : List Char} {times : ℕ} (hcount : Text.count digits = .ok times)
    (hpos : 0 < times) :
    step (word ++ '*' :: digits) = (move word).map fun kind => ⟨kind, times⟩ := by
  obtain ⟨more, rfl⟩ := Nat.exists_eq_succ_of_ne_zero hpos.ne'
  simp only [step, takeWhile_divided hword, dropWhile_divided hword, hcount]

end Step

/-- A step is read as it was before it was written. -/
theorem step_text {made : Step} (hpos : 0 < made.times) (hroom : made.times < 2 ^ 64) :
    step made.text = .ok made := by
  have hword : '*' ∉ made.move.word := fun hstar =>
    absurd (plain_of_mem_word hstar).1 (by decide)
  rw [Step.text]
  split
  · next hsingle =>
      rw [step_of_word hword, move_word, ← hsingle]
      rfl
  · rw [step_of_count hword (Text.count_toDigits hroom) hpos, move_word]
    rfl

/-- Steps that are written with any separators between them are read as they were, in their
order. -/
theorem parse_intercalate {separator : List Char} (hne : separator ≠ [])
    (hseparator : ∀ c ∈ separator, isSeparator c) {steps : List Step}
    (hsteps : ∀ step ∈ steps, 0 < step.times ∧ step.times < 2 ^ 64) :
    parse (String.ofList (List.intercalate separator (steps.map Step.text))) = .ok steps := by
  have htokens : tokens (List.intercalate separator (steps.map Step.text)) =
      steps.map Step.text := by
    apply tokens_intercalate hne hseparator
    intro word hword
    obtain ⟨step, -, rfl⟩ := List.mem_map.mp hword
    exact ⟨text_ne_nil step, fun c hc => not_separator_of_mem_text hc⟩
  rw [parse, String.toList_ofList, htokens]
  clear htokens
  induction steps with
  | nil => rfl
  | cons step steps ih =>
      obtain ⟨⟨hpos, hroom⟩, hothers⟩ := List.forall_mem_cons.mp hsteps
      rw [List.map_cons, List.mapM_cons, step_text hpos hroom, ih hothers]
      rfl

/-- The steps of a script that is written for them are these again. -/
theorem parse_render {steps : List Step}
    (hsteps : ∀ step ∈ steps, 0 < step.times ∧ step.times < 2 ^ 64) :
    parse (String.ofList (render steps)) = .ok steps :=
  parse_intercalate (List.cons_ne_nil ',' []) (List.forall_mem_singleton.mpr rfl) hsteps

end Script

end TreeCursor
