import Mathlib.Data.List.Forall2
import TreeCursor.Proofs.Script.Messages

/-!
# The grammar of scripts

A script is cut into the maximal runs of characters that separate no steps.  Such a word spells a
step if it names a move, perhaps with an asterisk and the numeral of a count after the name.  The
relations below say so without a parser, and the parser is shown to agree with them: it reads a
script if each of its words spells a step, and reports the first word that does not.
-/

namespace TreeCursor

/-! ## Counts -/

namespace Text

/-- The digits of a number in base ten. -/
structure IsDecimal (digits : List Char) (n : ℕ) : Prop where
  ne_nil : digits ≠ []
  isDigit : ∀ c ∈ digits, c.isDigit
  value : Nat.ofDigitChars 10 digits 0 = n

/-- How a number is written as a count: in decimal digits, perhaps after a plus sign. -/
inductive Numeral : List Char → ℕ → Prop
  | unsigned {digits : List Char} {n : ℕ} : IsDecimal digits n → Numeral digits n
  | signed {digits : List Char} {n : ℕ} : IsDecimal digits n → Numeral ('+' :: digits) n

theorem not_isDecimal_nil {n : ℕ} : ¬IsDecimal [] n :=
  fun hdecimal => hdecimal.ne_nil rfl

theorem not_isDecimal_plus {digits : List Char} {n : ℕ} : ¬IsDecimal ('+' :: digits) n :=
  fun hdecimal => absurd (hdecimal.isDigit '+' List.mem_cons_self) (by decide)

theorem numeral_plus_iff {digits : List Char} {n : ℕ} :
    Numeral ('+' :: digits) n ↔ IsDecimal digits n := by
  constructor
  · rintro (hdecimal | hdecimal)
    · exact absurd hdecimal not_isDecimal_plus
    · exact hdecimal
  · exact .signed

theorem numeral_iff {digits : List Char} (hplus : digits.head? ≠ some '+') {n : ℕ} :
    Numeral digits n ↔ IsDecimal digits n := by
  constructor
  · rintro (hdecimal | hdecimal)
    · exact hdecimal
    · exact absurd rfl hplus
  · exact .unsigned

theorem countDigits_eq_ok_iff_isDecimal {digits : List Char} (hne : digits ≠ []) {n : ℕ} :
    countDigits 0 digits = .ok n ↔ IsDecimal digits n ∧ n < 2 ^ 64 := by
  rw [countDigits_eq_ok_iff (by decide)]
  constructor
  · rintro ⟨hdigits, hvalue, hroom⟩
    exact ⟨⟨hne, hdigits, hvalue⟩, hroom⟩
  · rintro ⟨hdecimal, hroom⟩
    exact ⟨hdecimal.isDigit, hdecimal.value, hroom⟩

/-- Counts are read exactly if they are numerals of 64 bits. -/
theorem count_eq_ok_iff {text : List Char} {n : ℕ} :
    count text = .ok n ↔ Numeral text n ∧ n < 2 ^ 64 := by
  cases text with
  | nil =>
      rw [numeral_iff (by decide)]
      exact iff_of_false (by rintro ⟨⟩) fun h => not_isDecimal_nil h.1
  | cons c digits =>
      by_cases hc : c = '+'
      · subst hc
        rw [numeral_plus_iff]
        cases digits with
        | nil => exact iff_of_false (by rintro ⟨⟩) fun h => not_isDecimal_nil h.1
        | cons d digits => exact countDigits_eq_ok_iff_isDecimal (List.cons_ne_nil d digits)
      · have hhead : (c :: digits).head? ≠ some '+' := fun hplus => hc (Option.some.inj hplus)
        rw [count_cons hc, numeral_iff hhead,
          countDigits_eq_ok_iff_isDecimal (List.cons_ne_nil c digits)]

theorem le_of_count_eq_error {text : List Char} {cause : CountError}
    (hcount : count text = .error cause) {n : ℕ} (hnumeral : Numeral text n) : 2 ^ 64 ≤ n := by
  by_contra hroom
  have hread : count text = .ok n := count_eq_ok_iff.mpr ⟨hnumeral, not_le.mp hroom⟩
  rw [hcount] at hread
  cases hread

end Text

/-! ## Names of moves -/

namespace Move

/-- The words for a move, in small letters. -/
def names : Move → List String
  | .down => ["down", "d"]
  | .up => ["up", "u"]
  | .left => ["left", "l"]
  | .right => ["right", "r"]
  | .leftmost => ["leftmost"]
  | .rightmost => ["rightmost"]
  | .next => ["next", "n"]
  | .prev => ["prev", "p"]
  | .top => ["top"]

theorem ofWord?_eq_some_iff {word : List Char} {kind : Move} :
    ofWord? word = some kind ↔ String.ofList word ∈ kind.names := by
  unfold ofWord?
  split <;> cases kind <;> simp_all [names]

end Move

namespace Script

/-- Whether a word is one of a move, where the case of ASCII letters does not matter. -/
def Names (word : List Char) (kind : Move) : Prop :=
  String.ofList (word.map Char.toLower) ∈ kind.names

theorem move_eq_ok_iff {word : List Char} {kind : Move} :
    move word = .ok kind ↔ Names word kind := by
  rw [Names, ← Move.ofWord?_eq_some_iff, move]
  cases Move.ofWord? (word.map Char.toLower) <;> simp

theorem move_eq_error {word : List Char} (hnone : ∀ kind, ¬Names word kind) :
    move word = .error (.unknownMove word) := by
  rw [move]
  split
  · next kind hkind => exact absurd (Move.ofWord?_eq_some_iff.mp hkind) (hnone kind)
  · rfl

/-! ## Words -/

/-- The maximal runs of a text between separators, in their order. -/
inductive Runs : List Char → List (List Char) → Prop
  | none {gap : List Char} : (∀ c ∈ gap, isSeparator c) → Runs gap []
  /-- A run goes on to a separator or to the end of the text. -/
  | run {gap word text : List Char} {words : List (List Char)} : (∀ c ∈ gap, isSeparator c) →
      word ≠ [] → (∀ c ∈ word, ¬isSeparator c) → (∀ c ∈ text.head?, isSeparator c) →
      Runs text words → Runs (gap ++ (word ++ text)) (word :: words)

namespace Runs

theorem eq_tokens {text : List Char} {words : List (List Char)} (hruns : Runs text words) :
    words = tokens text := by
  induction hruns with
  | @none gap hgap =>
      rw [← List.append_nil gap, tokens_append_of_separators hgap]
      rfl
  | @run gap word text words hgap hne hword hstop _ ih =>
      calc
        word :: words = [word] ++ tokens text := by rw [ih, List.singleton_append]
        _ = tokens word ++ tokens text := by rw [tokens_of_word hne hword]
        _ = tokens (word ++ text) := (tokens_append_of_head hstop word).symm
        _ = tokens (gap ++ (word ++ text)) := (tokens_append_of_separators hgap _).symm

theorem cons_separator {c : Char} (hc : isSeparator c) {text : List Char}
    {words : List (List Char)} (hruns : Runs text words) : Runs (c :: text) words := by
  cases hruns with
  | none hgap => exact .none (List.forall_mem_cons.mpr ⟨hc, hgap⟩)
  | run hgap hne hword hstop hrest =>
      exact .run (List.forall_mem_cons.mpr ⟨hc, hgap⟩) hne hword hstop hrest

/-- A character before a run that begins the text makes the run longer. -/
theorem cons_letter {c d : Char} (hc : ¬isSeparator c) (hd : ¬isSeparator d)
    {text word : List Char} {words : List (List Char)} (hruns : Runs (d :: text) (word :: words)) :
    Runs (c :: d :: text) ((c :: word) :: words) := by
  generalize htext : d :: text = letters at hruns
  cases hruns with
  | @run gap _ rest _ hgap hne hword hstop hrest =>
      -- the text begins with a letter, so that nothing is before the run
      cases gap with
      | nil =>
          rw [List.nil_append, ← List.cons_append, ← List.nil_append (_ ++ _)]
          exact .run (List.forall_mem_nil _) (List.cons_ne_nil c word)
            (List.forall_mem_cons.mpr ⟨hc, hword⟩) hstop hrest
      | cons e gap =>
          obtain ⟨rfl, -⟩ := List.cons.inj htext
          exact absurd (hgap d List.mem_cons_self) hd

end Runs

theorem runs_tokens (text : List Char) : Runs text (tokens text) := by
  fun_induction tokens text with
  | case1 => exact .none (List.forall_mem_nil _)
  | case2 c hc => exact .none (List.forall_mem_singleton.mpr hc)
  | case3 c hc =>
      exact .run (List.forall_mem_nil _) (List.cons_ne_nil c []) (List.forall_mem_singleton.mpr hc)
        (by rintro _ ⟨⟩) (.none (List.forall_mem_nil _))
  | case4 c d text hc ih => exact ih.cons_separator hc
  | case5 c d text hc hd ih =>
      exact .run (List.forall_mem_nil _) (List.cons_ne_nil c []) (List.forall_mem_singleton.mpr hc)
        (by rintro _ ⟨⟩; exact hd) ih
  | case6 c d text hc hd hnone => exact absurd hnone (tokens_cons_ne_nil hd text)
  | case7 c d text hc hd token others hsome ih =>
      rw [hsome] at ih
      exact ih.cons_letter hc hd

/-- A text has its words in one way only, the one that it is cut in. -/
theorem runs_iff {text : List Char} {words : List (List Char)} :
    Runs text words ↔ words = tokens text := by
  constructor
  · exact Runs.eq_tokens
  · rintro rfl
    exact runs_tokens text

/-! ## Steps -/

/-- The step that a word spells: the name of a move, alone or with a count after the first
asterisk. -/
inductive Spells : List Char → Step → Prop
  | single {word : List Char} {kind : Move} : '*' ∉ word → Names word kind → Spells word ⟨kind, 1⟩
  | counted {word digits : List Char} {kind : Move} {times : ℕ} : '*' ∉ word → Names word kind →
      Text.Numeral digits times → 0 < times → times < 2 ^ 64 →
      Spells (word ++ '*' :: digits) ⟨kind, times⟩

/-- What is wrong with a word that spells no step.  A name is to blame only if the count after it
is right. -/
inductive Fault : List Char → ScriptError → Prop
  | badCount {word digits : List Char} {cause : Text.CountError} : '*' ∉ word →
      (∀ times, Text.Numeral digits times → 2 ^ 64 ≤ times) → Text.count digits = .error cause →
      Fault (word ++ '*' :: digits) (.badCount (word ++ '*' :: digits) cause)
  | zeroCount {word digits : List Char} : '*' ∉ word → Text.Numeral digits 0 →
      Fault (word ++ '*' :: digits) (.zeroCount (word ++ '*' :: digits))
  | unknownMove {word : List Char} : '*' ∉ word → (∀ kind, ¬Names word kind) →
      Fault word (.unknownMove word)
  | unknownCounted {word digits : List Char} {times : ℕ} : '*' ∉ word →
      (∀ kind, ¬Names word kind) → Text.Numeral digits times → 0 < times → times < 2 ^ 64 →
      Fault (word ++ '*' :: digits) (.unknownMove word)

/-- What an error blames is the word, or the name that the word begins with. -/
theorem Fault.quoted_prefix {word : List Char} {error : ScriptError} (hfault : Fault word error) :
    error.quoted <+: word := by
  cases hfault with
  | badCount | zeroCount | unknownMove => exact List.prefix_rfl
  | unknownCounted => exact List.prefix_append _ _

theorem Spells.step_eq {word : List Char} {made : Step} (hspells : Spells word made) :
    step word = .ok made := by
  cases hspells with
  | single hname hmove =>
      rw [step_of_word hname, move_eq_ok_iff.mpr hmove]
      rfl
  | counted hname hmove hnumeral hpos hroom =>
      have hcount := Text.count_eq_ok_iff.mpr ⟨hnumeral, hroom⟩
      rw [step_of_count hname hcount hpos, move_eq_ok_iff.mpr hmove]
      rfl

theorem Fault.step_eq {word : List Char} {error : ScriptError} (hfault : Fault word error) :
    step word = .error error := by
  cases hfault with
  | badCount hname _ hcount => exact step_of_badCount hname hcount
  | zeroCount hname hnumeral =>
      exact step_of_zeroCount hname (Text.count_eq_ok_iff.mpr ⟨hnumeral, Nat.two_pow_pos 64⟩)
  | unknownMove hname hmove =>
      rw [step_of_word hname, move_eq_error hmove]
      rfl
  | unknownCounted hname hmove hnumeral hpos hroom =>
      have hcount := Text.count_eq_ok_iff.mpr ⟨hnumeral, hroom⟩
      rw [step_of_count hname hcount hpos, move_eq_error hmove]
      rfl

/-- Whatever is in a word, it spells a step or there is something wrong with it. -/
theorem spells_or_fault (word : List Char) :
    (∃ made, Spells word made) ∨ ∃ error, Fault word error := by
  by_cases hstar : '*' ∈ word
  · obtain ⟨name, digits, rfl, hname⟩ := List.eq_append_cons_of_mem hstar
    cases hcount : Text.count digits with
    | error cause =>
        exact Or.inr ⟨_, .badCount hname (fun _ => Text.le_of_count_eq_error hcount) hcount⟩
    | ok times =>
        obtain ⟨hnumeral, hroom⟩ := Text.count_eq_ok_iff.mp hcount
        obtain rfl | hpos := Nat.eq_zero_or_pos times
        · exact Or.inr ⟨_, .zeroCount hname hnumeral⟩
        · by_cases hmove : ∃ kind, Names name kind
          · obtain ⟨kind, hkind⟩ := hmove
            exact Or.inl ⟨_, .counted hname hkind hnumeral hpos hroom⟩
          · exact Or.inr ⟨_, .unknownCounted hname (not_exists.mp hmove) hnumeral hpos hroom⟩
  · by_cases hmove : ∃ kind, Names word kind
    · obtain ⟨kind, hkind⟩ := hmove
      exact Or.inl ⟨_, .single hstar hkind⟩
    · exact Or.inr ⟨_, .unknownMove hstar (not_exists.mp hmove)⟩

/-- A word is read as the step that it spells, and as no other. -/
theorem step_eq_ok_iff {word : List Char} {made : Step} :
    step word = .ok made ↔ Spells word made := by
  constructor
  · intro hstep
    obtain ⟨spelled, hspells⟩ | ⟨error, hfault⟩ := spells_or_fault word
    · obtain rfl : spelled = made := Except.ok.inj (hspells.step_eq.symm.trans hstep)
      exact hspells
    · cases hfault.step_eq.symm.trans hstep
  · exact Spells.step_eq

/-- A word that is not read is reported with what is wrong with it. -/
theorem step_eq_error_iff {word : List Char} {error : ScriptError} :
    step word = .error error ↔ Fault word error := by
  constructor
  · intro hstep
    obtain ⟨spelled, hspells⟩ | ⟨found, hfault⟩ := spells_or_fault word
    · cases hspells.step_eq.symm.trans hstep
    · obtain rfl : found = error := Except.error.inj (hfault.step_eq.symm.trans hstep)
      exact hfault
  · exact Fault.step_eq

/-! ## Scripts -/

section InTurn

variable {α β ε : Type*} {f : α → Except ε β}

/-- All of a list is read if each of its entries is. -/
theorem mapM_eq_ok_iff {l : List α} {results : List β} :
    l.mapM f = .ok results ↔ List.Forall₂ (fun a b => f a = .ok b) l results := by
  induction l generalizing results with
  | nil => simp [pure, Except.pure, eq_comm]
  | cons a l ih =>
      rw [List.mapM_cons, List.forall₂_cons_left_iff]
      cases hhead : f a with
      | error e => simp [bind, Except.bind]
      | ok b =>
          simp only [← ih]
          cases hrest : l.mapM f with
          | error e => simp [bind, Except.bind]
          | ok others => simp [bind, Except.bind, pure, Except.pure, eq_comm]

theorem mapM_cons_eq_error_iff {a : α} {l : List α} {e : ε} :
    (a :: l).mapM f = .error e ↔ f a = .error e ∨ ∃ b, f a = .ok b ∧ l.mapM f = .error e := by
  rw [List.mapM_cons]
  cases f a with
  | error e' => simp [bind, Except.bind]
  | ok b => cases l.mapM f <;> simp [bind, Except.bind, pure, Except.pure]

/-- A list is not read because of the first entry that is not. -/
theorem mapM_eq_error_iff {l : List α} {e : ε} :
    l.mapM f = .error e ↔ ∃ before a after, l = before ++ a :: after ∧
      (∀ b ∈ before, ∃ result, f b = .ok result) ∧ f a = .error e := by
  induction l with
  | nil => simp [pure, Except.pure]
  | cons a l ih =>
      rw [mapM_cons_eq_error_iff, ih]
      constructor
      · rintro (hhead | ⟨result, hhead, before, c, after, rfl, hbefore, hc⟩)
        · exact ⟨[], a, l, rfl, List.forall_mem_nil _, hhead⟩
        · have hall : ∀ b ∈ a :: before, ∃ result, f b = .ok result :=
            List.forall_mem_cons.mpr ⟨⟨result, hhead⟩, hbefore⟩
          exact ⟨a :: before, c, after, rfl, hall, hc⟩
      · rintro ⟨before, c, after, hl, hbefore, hc⟩
        cases before with
        | nil =>
            obtain ⟨rfl, rfl⟩ := List.cons.inj hl
            exact Or.inl hc
        | cons b before =>
            obtain ⟨rfl, rfl⟩ := List.cons.inj hl
            obtain ⟨⟨result, hhead⟩, hothers⟩ := List.forall_mem_cons.mp hbefore
            exact Or.inr ⟨result, hhead, before, c, after, rfl, hothers, hc⟩

end InTurn

/-- The first fault of words from the left: all words before it spell steps. -/
def FirstFault (words : List (List Char)) (error : ScriptError) : Prop :=
  ∃ before word after, words = before ++ word :: after ∧
    (∀ earlier ∈ before, ∃ made, Spells earlier made) ∧ Fault word error

theorem parse_eq_ok_iff {text : String} {steps : List Step} :
    parse text = .ok steps ↔ List.Forall₂ Spells (tokens text.toList) steps := by
  rw [parse, mapM_eq_ok_iff]
  simp only [step_eq_ok_iff]

theorem parse_eq_error_iff {text : String} {error : ScriptError} :
    parse text = .error error ↔ FirstFault (tokens text.toList) error := by
  rw [parse, mapM_eq_error_iff]
  simp only [step_eq_ok_iff, step_eq_error_iff]
  rfl

section Separator

variable {separator : String} (hne : separator ≠ "")
  (hseparator : ∀ c ∈ separator.toList, isSeparator c)
include hne hseparator

/-- Steps are read again from their texts, whatever separates these. -/
theorem parse_joined {steps : List Step}
    (hsteps : ∀ made ∈ steps, 0 < made.times ∧ made.times < 2 ^ 64) :
    parse (separator.intercalate (steps.map fun made => String.ofList made.text)) = .ok steps := by
  have hchars : separator.toList ≠ [] := fun hnil => hne (String.toList_eq_nil_iff.mp hnil)
  have htext : separator.intercalate (steps.map fun made => String.ofList made.text) =
      String.ofList (List.intercalate separator.toList (steps.map Step.text)) := by
    rw [← String.toList_inj, String.toList_ofList, String.toList_intercalate, List.map_map]
    simp only [Function.comp_def, String.toList_ofList]
  rw [htext]
  exact parse_intercalate hchars hseparator hsteps

/-- Scripts with a separator between them are read one after the other. -/
theorem parse_append {before after : String} {first second : List Step}
    (hbefore : parse before = .ok first) (hafter : parse after = .ok second) :
    parse (before ++ separator ++ after) = .ok (first ++ second) := by
  have hchars : separator.toList ≠ [] := fun hnil => hne (String.toList_eq_nil_iff.mp hnil)
  have htokens : tokens (before ++ separator ++ after).toList =
      tokens before.toList ++ tokens after.toList := by
    rw [String.toList_append, String.toList_append, List.append_assoc]
    exact tokens_append_separators hchars hseparator before.toList after.toList
  rw [parse] at hbefore hafter
  rw [parse, htokens, List.mapM_append, hbefore, hafter]
  rfl

end Separator

/-- What scripts there are.  A text has one division into words.  It is read if each of them spells
a step, as these steps in their order, and else the first fault from the left is reported.  The text
of the report quotes the word, or the name in it if that is to blame, and is the text of no other
report.  So the texts of steps are read again with any separators between them, and so are two
scripts. -/
theorem parse_agrees_with_grammar :
    (∀ text : String, ∃ words, (∀ others, Runs text.toList others ↔ others = words) ∧
      (∀ steps, parse text = .ok steps ↔ List.Forall₂ Spells words steps) ∧
      (∀ error, parse text = .error error ↔ FirstFault words error) ∧
      ∀ error, parse text = .error error →
        (∃ word ∈ words, error.quoted <+: word ∧
          ("`" ++ String.ofList error.quoted ++ "`").toList <:+: error.message.toList) ∧
        ∀ other : ScriptError, other.message = error.message → other = error) ∧
    ∀ separator : String, separator ≠ "" → (∀ c ∈ separator.toList, isSeparator c) →
      (∀ steps : List Step, (∀ made ∈ steps, 0 < made.times ∧ made.times < 2 ^ 64) →
        parse (separator.intercalate (steps.map fun made => String.ofList made.text)) =
          .ok steps) ∧
      ∀ before after first second, parse before = .ok first → parse after = .ok second →
        parse (before ++ separator ++ after) = .ok (first ++ second) := by
  constructor
  · intro text
    refine ⟨tokens text.toList, fun others => runs_iff, fun steps => parse_eq_ok_iff,
      fun error => parse_eq_error_iff, fun error herror => ⟨?_, fun other hmessage => ?_⟩⟩
    · obtain ⟨before, word, after, hwords, -, hfault⟩ := parse_eq_error_iff.mp herror
      have hmem : word ∈ tokens text.toList := by
        rw [hwords]
        exact List.mem_append_right before List.mem_cons_self
      exact ⟨word, hmem, hfault.quoted_prefix, error.quoted_infix_message⟩
    · exact ScriptError.message_injective hmessage
  · intro separator hne hseparator
    constructor
    · intro steps hsteps
      exact parse_joined hne hseparator hsteps
    · intro before after first second hbefore hafter
      exact parse_append hne hseparator hbefore hafter

/-- A count after a sign and a zero is read, the first of two faults is reported, and more than
commas separates steps. -/
theorem parse_agrees_with_grammar_of_signed_count :
    (∃ words, Runs "D,\tRIGHT*+02".toList words ∧
      List.Forall₂ Spells words [⟨.down, 1⟩, ⟨.right, 2⟩]) ∧
    (∃ words, Runs "down,spin*0,spin".toList words ∧
      FirstFault words (.zeroCount "spin*0".toList)) ∧
    parse (" ,\n".intercalate ["down", "right*2"]) = .ok [⟨.down, 1⟩, ⟨.right, 2⟩] ∧
    parse ("D,\tRIGHT*+02" ++ " ,\n" ++ "top") = .ok [⟨.down, 1⟩, ⟨.right, 2⟩, ⟨.top, 1⟩] := by
  obtain ⟨hgrammar, hseparated⟩ := parse_agrees_with_grammar
  obtain ⟨hjoined, happend⟩ := hseparated " ,\n" (by decide) (List.all_eq_true.mp rfl)
  refine ⟨?_, ?_, ?_, ?_⟩
  · obtain ⟨words, hwords, hok, -⟩ := hgrammar "D,\tRIGHT*+02"
    exact ⟨words, (hwords words).mpr rfl, (hok _).mp rfl⟩
  · obtain ⟨words, hwords, -, herror, -⟩ := hgrammar "down,spin*0,spin"
    exact ⟨words, (hwords words).mpr rfl, (herror _).mp rfl⟩
  · exact hjoined [⟨.down, 1⟩, ⟨.right, 2⟩] (by decide)
  · exact happend "D,\tRIGHT*+02" "top" [⟨.down, 1⟩, ⟨.right, 2⟩] [⟨.top, 1⟩] rfl rfl

end Script

end TreeCursor
