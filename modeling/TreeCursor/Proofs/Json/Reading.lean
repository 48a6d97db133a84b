import TreeCursor.Json.Parser
import TreeCursor.Proofs.Script.Reading

/-!
# Reading written JSON

A reader takes a written value off the front of a text and leaves the rest, which may be any text
that no number goes on into.  Strings, integers and containers are read so, blanks around them or
not.  A container is read if its items are, and it is malformed if one of them is, since all that
stands before that item is read.
-/

namespace TreeCursor.Json

/-! ## Blanks -/

theorem isSpace_iff {c : Char} : isSpace c ↔ c = ' ' ∨ c = '\n' ∨ c = '\t' ∨ c = '\r' := by
  simp [isSpace, or_assoc]

/-- There is nothing but blanks in the text. -/
def Blank (s : List Char) : Prop :=
  ∀ c ∈ s, isSpace c

theorem blank_nil : Blank [] :=
  List.forall_mem_nil _

theorem blank_singleton {c : Char} (hc : isSpace c) : Blank [c] :=
  List.forall_mem_singleton.mpr hc

theorem skipSpace_append {blanks : List Char} (hblanks : Blank blanks) (s : List Char) :
    skipSpace (blanks ++ s) = skipSpace s :=
  List.dropWhile_append_of_pos hblanks

theorem skipSpace_cons {c : Char} (hc : isSpace c = false) (s : List Char) :
    skipSpace (c :: s) = c :: s :=
  List.dropWhile_cons_of_neg (Bool.eq_false_iff.mp hc)

/-- After blanks the text begins with a character that closes no container. -/
def Opens (s : List Char) : Prop :=
  ∃ c rest, skipSpace s = c :: rest ∧ c ≠ ']' ∧ c ≠ '\x7d'

theorem opens_append_blank {blanks s : List Char} (hblanks : Blank blanks) (hopens : Opens s) :
    Opens (blanks ++ s) := by
  unfold Opens
  rwa [skipSpace_append hblanks]

theorem exists_skipSpace_append {s : List Char} (hopens : Opens s) (rest : List Char) :
    ∃ c rest', skipSpace (s ++ rest) = c :: rest' ∧ c ≠ ']' ∧ c ≠ '\x7d' := by
  obtain ⟨c, rest', hspace, hclose⟩ := hopens
  refine ⟨c, rest' ++ rest, ?_, hclose⟩
  unfold skipSpace at hspace ⊢
  rw [List.dropWhile_append, hspace]
  rfl

/-! ## Readers of written values -/

/-- No number goes on into the text. -/
def Ends (rest : List Char) : Prop :=
  ∀ c ∈ rest.head?, c.isDigit = false ∧ c ≠ '.' ∧ c ≠ 'e' ∧ c ≠ 'E'

theorem ends_nil : Ends [] := by
  intro c hc
  cases hc

theorem ends_cons {c : Char} (hc : c.isDigit = false ∧ c ≠ '.' ∧ c ≠ 'e' ∧ c ≠ 'E')
    (rest : List Char) : Ends (c :: rest) := by
  intro d hd
  cases hd
  exact hc

theorem ends_append_blank {blanks rest : List Char} (hblanks : Blank blanks) (hrest : Ends rest) :
    Ends (blanks ++ rest) := by
  cases blanks with
  | nil => exact hrest
  | cons c blanks =>
      apply ends_cons
      rcases isSpace_iff.mp (hblanks c List.mem_cons_self) with rfl | rfl | rfl | rfl <;> decide

/-- Neither blanks nor a character that closes a container go on with a number. -/
theorem ends_blank_cons {blanks : List Char} (hblanks : Blank blanks) {close : Char}
    (hclose : close = ']' ∨ close = '\x7d') (rest : List Char) :
    Ends (blanks ++ close :: rest) := by
  apply ends_append_blank hblanks
  apply ends_cons
  rcases hclose with rfl | rfl <;> decide

/-- The reader takes the text for the value if that is admitted, and finds it malformed if not,
whatever follows. -/
structure Reads {β : Type} (parser : Parser β) (text : List Char) (value : β) (admitted : Prop) :
    Prop where
  accepts : admitted → ∀ rest, Ends rest → parser (text ++ rest) = .ok (value, rest)
  refuses : ¬admitted → ∀ rest, Ends rest → parser (text ++ rest) = .error .malformed

section Readers

variable {β γ : Type} {parser parser' : Parser β} {text : List Char} {value : β}
variable {admitted admitted' : Prop}

/-- What is admitted in any case is read in any case. -/
theorem Reads.of_admitted (hadmitted : admitted)
    (haccepts : ∀ rest, Ends rest → parser (text ++ rest) = .ok (value, rest)) :
    Reads parser text value admitted :=
  ⟨fun _ => haccepts, fun hrefused => absurd hadmitted hrefused⟩

theorem Reads.congr (hreads : Reads parser text value admitted) (hiff : admitted ↔ admitted') :
    Reads parser text value admitted' := by
  rwa [← propext hiff]

/-- A reader that does with its text as another one does. -/
theorem Reads.of_eq {text' : List Char} (hreads : Reads parser' text value admitted)
    (heq : ∀ rest, parser (text' ++ rest) = parser' (text ++ rest)) :
    Reads parser text' value admitted := by
  constructor
  · intro hadmitted rest hrest
    rw [heq]
    exact hreads.accepts hadmitted rest hrest
  · intro hrefused rest hrest
    rw [heq]
    exact hreads.refuses hrefused rest hrest

theorem Reads.append (hreads : Reads parser' text value admitted) (start : List Char)
    (hstart : ∀ s, parser (start ++ s) = parser' s) :
    Reads parser (start ++ text) value admitted :=
  hreads.of_eq fun rest => by rw [List.append_assoc, hstart]

theorem Reads.map (hreads : Reads parser text value admitted) (f : β → γ) :
    Reads (fun s => (parser s).map fun (value, s) => (f value, s)) text (f value) admitted := by
  constructor
  · intro hadmitted rest hrest
    rw [hreads.accepts hadmitted rest hrest]
    rfl
  · intro hrefused rest hrest
    rw [hreads.refuses hrefused rest hrest]
    rfl

/-- A whole text may end in blanks. -/
theorem whole_of_reads [Decidable admitted] {parser : ℕ → Parser β} {s blanks : List Char}
    (hs : s = text ++ blanks) (hblanks : Blank blanks)
    (hreads : Reads (parser (s.length + 1)) text value admitted) :
    whole parser s = if admitted then .ok value else .error .malformed := by
  have hends : Ends blanks := List.append_nil blanks ▸ ends_append_blank hblanks ends_nil
  have hspace : skipSpace blanks = [] := List.append_nil blanks ▸ skipSpace_append hblanks []
  subst hs
  split
  · next hadmitted =>
      rw [whole, hreads.accepts hadmitted blanks hends]
      dsimp only
      rw [hspace]
  · next hrefused => rw [whole, hreads.refuses hrefused blanks hends]

end Readers

/-! ## Strings -/

theorem hexValue?_digitChar : ∀ digit < 16, Text.hexValue? digit.digitChar = some digit := by
  decide

theorem hex4_of_control :
    ∀ code < 0x20, hex4 code = ['0', '0', (code / 16).digitChar, (code % 16).digitChar] := by
  decide

theorem escapedUnits_control {c : Char} (hc : c.toNat < 0x20) (rest : List Char) :
    escapedUnits (hex4 c.toNat ++ rest) = .ok (c, rest) := by
  have hcode : codeUnit (hex4 c.toNat ++ rest) = .ok (c.toNat, rest) := by
    have hhigh := hexValue?_digitChar (c.toNat / 16) (by omega)
    have hlow := hexValue?_digitChar (c.toNat % 16) (by omega)
    have hzero : Text.hexValue? '0' = some 0 := by decide
    have hvalue : ((0 * 16 + 0) * 16 + c.toNat / 16) * 16 + c.toNat % 16 = c.toNat := by omega
    rw [hex4_of_control _ hc, codeUnit.eq_def]
    simp only [List.cons_append, List.nil_append, codeUnit?, hzero, hhigh, hlow, hvalue]
  have htrail : isTrailSurrogate c.toNat = false := by
    simp [isTrailSurrogate]
    omega
  have hlead : isLeadSurrogate c.toNat = false := by
    simp [isLeadSurrogate]
    omega
  rw [escapedUnits, hcode]
  simp [htrail, hlead]

/-- A character is read as it is written, in one step. -/
theorem unquote_quoteChar (c : Char) (bound : ℕ) (read rest : List Char) :
    unquote escaped (bound + 1) read (quoteChar c ++ rest) =
      unquote escaped bound (c :: read) rest := by
  unfold quoteChar
  split
  · next hc => rcases hc with rfl | rfl <;> rfl
  split
  · next hc => cases hc; rfl
  split
  · next hc => cases hc; rfl
  split
  · next hc => cases hc; rfl
  split
  · next hc => cases hc; rfl
  split
  · next hc => cases hc; rfl
  split
  · next hcontrol =>
      have hescaped : escaped ('u' :: (hex4 c.toNat ++ rest)) = .ok (c, rest) :=
        escapedUnits_control hcontrol rest
      rw [List.cons_append, List.cons_append, unquote, if_neg (by decide), if_pos rfl, hescaped]
  · next hquote _ _ _ _ _ hcontrol =>
      rw [not_or] at hquote
      rw [List.singleton_append, unquote, if_neg hquote.1, if_neg hquote.2, if_neg hcontrol]

theorem unquote_flatMap_quoteChar {text : List Char} {bound : ℕ} (hbound : text.length < bound)
    (read rest : List Char) :
    unquote escaped bound read (text.flatMap quoteChar ++ '"' :: rest) =
      .ok (String.ofList (read.reverse ++ text), rest) := by
  induction text generalizing bound read with
  | nil =>
      obtain ⟨bound, rfl⟩ := Nat.exists_eq_add_one_of_ne_zero (Nat.ne_of_gt hbound)
      rw [List.flatMap_nil, List.nil_append, unquote, if_pos rfl, List.append_nil]
  | cons c text ih =>
      rw [List.length_cons] at hbound
      obtain ⟨bound, rfl⟩ := Nat.exists_eq_add_one_of_ne_zero (Nat.ne_zero_of_lt hbound)
      rw [List.flatMap_cons, List.append_assoc, unquote_quoteChar, ih (by omega),
        List.reverse_cons, List.append_assoc, List.singleton_append]

theorem length_le_length_flatMap_quoteChar (text : List Char) :
    text.length ≤ (text.flatMap quoteChar).length := by
  induction text with
  | nil => exact le_rfl
  | cons c text ih =>
      have hpos : 0 < (quoteChar c).length := by
        unfold quoteChar
        split_ifs <;> exact Nat.zero_lt_succ _
      rw [List.flatMap_cons, List.length_append, List.length_cons]
      omega

/-- A string is read as it is written, after its first quote. -/
theorem unquote_of_quote {text : String} {bound : ℕ} (hbound : (quote text).length ≤ bound)
    (rest : List Char) :
    unquote escaped bound [] (text.toList.flatMap quoteChar ++ '"' :: rest) =
      .ok (text, rest) := by
  have hlength := length_le_length_flatMap_quoteChar text.toList
  rw [quote, List.length_cons, List.length_append] at hbound
  rw [unquote_flatMap_quoteChar (by omega), List.reverse_nil, List.nil_append, String.ofList_toList]

theorem opens_quote (text : String) : Opens (quote text) :=
  ⟨'"', _, rfl, by decide⟩

/-! ## Integers -/

section Integers

/-- A number may begin with the character. -/
def StartsNumber (c : Char) : Prop :=
  c = '-' ∨ c.isDigit

instance (c : Char) : Decidable (StartsNumber c) :=
  inferInstanceAs (Decidable (c = '-' ∨ c.isDigit))

theorem isSpace_of_startsNumber {c : Char} (hc : StartsNumber c) : isSpace c = false := by
  rw [← Bool.not_eq_true, isSpace_iff]
  rintro (rfl | rfl | rfl | rfl) <;> exact absurd hc (by decide)

theorem isDigit_of_mem_toDigits {n : ℕ} {c : Char} (hc : c ∈ Nat.toDigits 10 n) : c.isDigit :=
  Nat.isDigit_of_mem_toDigits (by decide) (by decide) hc

theorem exists_toString_eq_cons (value : ℤ) :
    ∃ c digits, (toString value).toList = c :: digits ∧ StartsNumber c := by
  rw [Int.toString_eq_repr, Int.repr_eq_if]
  split
  · rw [Nat.repr_eq_ofList_toDigits, String.toList_ofList]
    cases htext : Nat.toDigits 10 value.toNat with
    | nil => exact absurd htext Nat.toDigits_ne_nil
    | cons c digits =>
        exact ⟨c, digits, rfl, .inr (isDigit_of_mem_toDigits (htext ▸ List.mem_cons_self))⟩
  · rw [String.toList_append]
    exact ⟨'-', _, rfl, .inl rfl⟩

theorem opens_toString (value : ℤ) : Opens (toString value).toList := by
  obtain ⟨c, digits, htext, hc⟩ := exists_toString_eq_cons value
  refine ⟨c, digits, by rw [htext, skipSpace_cons (isSpace_of_startsNumber hc)], ?_, ?_⟩
  · rintro rfl
    exact absurd hc (by decide)
  · rintro rfl
    exact absurd hc (by decide)

variable {rest : List Char} (hrest : Ends rest)

theorem fillSignificand_map {digits : List Char} {value : ℕ}
    (hroom : Nat.ofDigitChars 10 digits value < 2 ^ 64) :
    Number.fillSignificand value (digits.map fun c => c.toNat - 48) =
      (Nat.ofDigitChars 10 digits value, []) := by
  induction digits generalizing value with
  | nil => rfl
  | cons c digits ih =>
      have hnumber : Nat.ofDigitChars 10 (c :: digits) value =
          Nat.ofDigitChars 10 digits (value * 10 + (c.toNat - 48)) := by
        rw [Nat.ofDigitChars_cons, Nat.mul_comm]
        rfl
      rw [hnumber] at hroom ⊢
      have hle := Text.le_ofDigitChars digits (value * 10 + (c.toNat - 48))
      rw [List.map_cons, Number.fillSignificand, if_pos (by omega), ih hroom]

/-- The digits of a number begin with a zero only if it is zero. -/
theorem head?_toDigits_ne_zero {n : ℕ} (hn : n ≠ 0) : (Nat.toDigits 10 n).head? ≠ some '0' := by
  induction n using Nat.strongRecOn with
  | _ n ih =>
      by_cases hless : n < 10
      · have hdigit : ∀ digit < 10, digit ≠ 0 → digit.digitChar ≠ '0' := by decide
        rw [Nat.toDigits_of_lt_base hless]
        exact fun hhead => hdigit n hless hn (Option.some.inj hhead)
      · have hquotient : n / 10 ≠ 0 := by omega
        rw [Nat.toDigits_of_base_le (by decide) (by omega), List.head?_append,
          Option.or_of_isSome]
        · exact ih (n / 10) (by omega) hquotient
        · rw [List.isSome_head?]
          exact Nat.toDigits_ne_nil

include hrest

theorem digits_toDigits (n : ℕ) :
    digits (Nat.toDigits 10 n ++ rest) =
      ((Nat.toDigits 10 n).map fun c => c.toNat - 48, rest) := by
  have hends : rest.takeWhile Char.isDigit = [] ∧ rest.dropWhile Char.isDigit = rest := by
    cases rest with
    | nil => exact ⟨rfl, rfl⟩
    | cons c rest =>
        have hc : ¬c.isDigit = true := Bool.eq_false_iff.mp (hrest c rfl).1
        exact ⟨List.takeWhile_cons_of_neg hc, List.dropWhile_cons_of_neg hc⟩
  have hdigits : ∀ c ∈ Nat.toDigits 10 n, c.isDigit := fun c hc => isDigit_of_mem_toDigits hc
  rw [digits, List.takeWhile_append_of_pos hdigits, List.dropWhile_append_of_pos hdigits,
    hends.1, hends.2, List.append_nil]

theorem wholePart_toDigits (n : ℕ) :
    wholePart (Nat.toDigits 10 n ++ rest) =
      .ok ((Nat.toDigits 10 n).map fun c => c.toNat - 48, rest) := by
  by_cases hn : n = 0
  · rw [hn]
    cases rest with
    | nil => rfl
    | cons c rest =>
        change (if c.isDigit then _ else _) = _
        rw [(hrest c rfl).1]
        rfl
  · have hdigits := digits_toDigits hrest n
    have hhead := head?_toDigits_ne_zero hn
    cases htext : Nat.toDigits 10 n with
    | nil => exact absurd htext Nat.toDigits_ne_nil
    | cons c tail =>
        rw [htext] at hdigits hhead
        have hzero : c ≠ '0' := fun hc => hhead (congrArg some hc)
        rw [List.cons_append] at hdigits ⊢
        unfold wholePart
        split
        · next heq => exact absurd (List.cons.inj heq).1 hzero
        · rw [hdigits]
          rfl

theorem fractionPart_of_ends : fractionPart rest = .ok (none, rest) := by
  unfold fractionPart
  split
  · exact absurd rfl (hrest '.' rfl).2.1
  · rfl

theorem powerPart_of_ends : powerPart rest = .ok (none, rest) := by
  unfold powerPart
  split
  · next c after => rw [if_neg (not_or.mpr (hrest c rfl).2.2)]
  · rfl

theorem literal_neg_toDigits (n : ℕ) :
    literal ('-' :: (Nat.toDigits 10 n ++ rest)) =
      .ok (⟨true, (Nat.toDigits 10 n).map fun c => c.toNat - 48, none, none⟩, rest) := by
  unfold literal
  simp only [wholePart_toDigits hrest, fractionPart_of_ends hrest, powerPart_of_ends hrest]

theorem literal_toDigits (n : ℕ) :
    literal (Nat.toDigits 10 n ++ rest) =
      .ok (⟨false, (Nat.toDigits 10 n).map fun c => c.toNat - 48, none, none⟩, rest) := by
  unfold literal
  split
  next negative unsigned hsigned =>
  split at hsigned
  · next after hminus =>
      -- a digit stands where the sign would be
      cases htext : Nat.toDigits 10 n with
      | nil => exact absurd htext Nat.toDigits_ne_nil
      | cons c tail =>
          have hdigit : c.isDigit := isDigit_of_mem_toDigits (htext ▸ List.mem_cons_self)
          rw [htext] at hminus
          rw [(List.cons.inj hminus).1] at hdigit
          exact absurd hdigit (by decide)
  · cases hsigned
    simp only [wholePart_toDigits hrest, fractionPart_of_ends hrest, powerPart_of_ends hrest]

/-- An integer is read as it is written. -/
theorem exists_literal_toString {value : ℤ} (hrange : -2 ^ 63 ≤ value ∧ value < 2 ^ 64) :
    ∃ written, literal ((toString value).toList ++ rest) = .ok (written, rest) ∧
      written.int? = some (.int value hrange) := by
  have hread {n : ℕ} (hn : n < 2 ^ 64) :
      Number.fillSignificand 0 ((Nat.toDigits 10 n).map fun c => c.toNat - 48) = (n, []) := by
    rw [fillSignificand_map (by rwa [Nat.ofDigitChars_ten_toDigits]), Nat.ofDigitChars_ten_toDigits]
  rw [Int.toString_eq_repr, Int.repr_eq_if]
  split
  · next hnonneg =>
      have hn : value.toNat < 2 ^ 64 := by omega
      rw [Nat.repr_eq_ofList_toDigits, String.toList_ofList]
      refine ⟨_, literal_toDigits hrest value.toNat, ?_⟩
      simp only [Number.Literal.int?, hread hn, dif_pos hn]
      simp [hnonneg]
  · next hneg =>
      have hn : (-value).toNat < 2 ^ 64 := by omega
      rw [Nat.repr_eq_ofList_toDigits, String.toList_append, String.toList_ofList,
        String.toList_ofList]
      refine ⟨_, literal_neg_toDigits hrest (-value).toNat, ?_⟩
      have hroom : 0 < (-value).toNat ∧ (-value).toNat ≤ 2 ^ 63 := by omega
      simp only [Number.Literal.int?, hread hn, dif_pos hroom]
      simp
      omega

end Integers

/-! ## Containers -/

theorem length_le_length_intercalate (parts : List (List Char)) :
    parts.length ≤ ([','].intercalate parts).length + 1 := by
  induction parts with
  | nil => exact Nat.zero_le _
  | cons part parts ih =>
      cases parts with
      | nil => exact Nat.succ_le_succ (Nat.zero_le _)
      | cons second parts =>
          rw [List.intercalate_cons_cons]
          simp only [List.length_append, List.length_cons, List.length_nil] at ih ⊢
          omega

theorem length_le_of_mem_parts {part : List Char} {parts : List (List Char)} (hpart : part ∈ parts) :
    part.length ≤ ([','].intercalate parts).length := by
  induction parts with
  | nil => cases hpart
  | cons first parts ih =>
      cases parts with
      | nil =>
          rw [List.mem_singleton.mp hpart, List.intercalate_singleton]
      | cons second parts =>
          rw [List.intercalate_cons_cons, List.length_append, List.length_append]
          cases hpart with
          | head => omega
          | tail _ hothers =>
              have hle := ih hothers
              omega

theorem exists_intercalate_cons (part : List Char) (parts : List (List Char)) :
    ∃ others, [','].intercalate (part :: parts) = part ++ others := by
  cases parts with
  | nil => exact ⟨[], by rw [List.intercalate_singleton, List.append_nil]⟩
  | cons second parts =>
      exact ⟨_, by rw [List.intercalate_cons_cons, List.append_assoc]⟩

section Containers

variable {β : Type} {item : Parser β} {close : Char}

section Steps

variable {bound : ℕ} {read : List β} {s : List Char}

theorem separated_of_error {e : ParseError} (hitem : item s = .error e) :
    separated close item (bound + 1) read s = .error e := by
  rw [separated, hitem]

theorem separated_of_comma {value : β} {rest : List Char}
    (hitem : item s = .ok (value, ',' :: rest)) :
    separated close item (bound + 1) read s =
      separated close item bound (value :: read) rest := by
  rw [separated, hitem]
  rfl

variable (hclose : close = ']' ∨ close = '\x7d')
include hclose

theorem separated_of_close {value : β} {tail rest : List Char} (htail : Blank tail)
    (hitem : item s = .ok (value, tail ++ close :: rest)) :
    separated close item (bound + 1) read s = .ok (read.reverse ++ [value], rest) := by
  have hspace : skipSpace (tail ++ close :: rest) = close :: rest := by
    rw [skipSpace_append htail, skipSpace_cons]
    rcases hclose with rfl | rfl <;> rfl
  have hcomma : close ≠ ',' := by
    rcases hclose with rfl | rfl <;> decide
  rw [separated, hitem]
  simp only [hspace, if_neg hcomma, if_true, List.reverse_cons]

end Steps

variable {text : β → List Char} {admits : β → Prop} {tail : List Char}
variable (hclose : close = ']' ∨ close = '\x7d')
include hclose

theorem contents_eq_separated {first : List Char} (hopens : Opens first) (bound : ℕ)
    (rest : List Char) :
    contents bound close item (first ++ rest) = separated close item bound [] (first ++ rest) := by
  obtain ⟨c, rest', hspace, hbracket, hbrace⟩ := exists_skipSpace_append hopens rest
  have hne : c ≠ close := by
    rcases hclose with rfl | rfl
    · exact hbracket
    · exact hbrace
  rw [contents, hspace]
  exact if_neg hne

variable (htail : Blank tail)
include htail

/-- Items with commas between them are read one after the other, up to the first that is not. -/
theorem reads_separated {first : β} {items : List β}
    (hitems : ∀ value ∈ first :: items, Reads item (text value) value (admits value)) {bound : ℕ}
    (hbound : items.length < bound) (read : List β) :
    Reads (separated close item bound read)
      ([','].intercalate ((first :: items).map text) ++ (tail ++ [close]))
      (read.reverse ++ first :: items) (∀ value ∈ first :: items, admits value) := by
  induction items generalizing first bound read with
  | nil =>
      obtain ⟨bound, rfl⟩ := Nat.exists_eq_add_one_of_ne_zero (Nat.ne_zero_of_lt hbound)
      have hfirst := hitems first List.mem_cons_self
      have hends (rest : List Char) : Ends (tail ++ close :: rest) :=
        ends_blank_cons htail hclose rest
      rw [List.map_singleton, List.intercalate_singleton]
      constructor
      · intro hadmits rest _
        rw [List.append_assoc, List.append_assoc, List.singleton_append]
        exact separated_of_close hclose htail
          (hfirst.accepts (hadmits first List.mem_cons_self) _ (hends rest))
      · intro hrefused rest _
        rw [List.append_assoc, List.append_assoc, List.singleton_append]
        rw [List.forall_mem_singleton] at hrefused
        exact separated_of_error (hfirst.refuses hrefused _ (hends rest))
  | cons second items ih =>
      obtain ⟨bound, rfl⟩ := Nat.exists_eq_add_one_of_ne_zero (Nat.ne_zero_of_lt hbound)
      obtain ⟨hfirst, hothers⟩ := List.forall_mem_cons.mp hitems
      have hrest := ih hothers (Nat.succ_lt_succ_iff.mp hbound) (first :: read)
      have hends (rest : List Char) : Ends (',' :: rest) := ends_cons (by decide) rest
      rw [List.reverse_cons, List.append_assoc, List.singleton_append] at hrest
      rw [List.map_cons, List.map_cons, List.intercalate_cons_cons]
      have hsplit (rest : List Char) :
          text first ++ [','] ++ [','].intercalate (text second :: items.map text) ++
              (tail ++ [close]) ++ rest =
            text first ++ ',' :: ([','].intercalate ((second :: items).map text) ++
              (tail ++ [close]) ++ rest) := by
        simp
      by_cases hadmits : admits first
      · refine (hrest.of_eq fun rest => ?_).congr
          (List.forall_mem_cons.trans (and_iff_right hadmits)).symm
        rw [hsplit, separated_of_comma (hfirst.accepts hadmits _ (hends _))]
      · -- what comes after an item that is refused is not read
        refine ⟨fun hall => absurd (hall first List.mem_cons_self) hadmits, fun _ rest _ => ?_⟩
        rw [hsplit]
        exact separated_of_error (hfirst.refuses hadmits _ (hends _))

/-- What a container holds is read if its items are. -/
theorem reads_contents {items : List β} {bound : ℕ}
    (hbound : ([','].intercalate (items.map text)).length < bound)
    (hopens : ∀ value ∈ items, Opens (text value))
    (hitems : ∀ value ∈ items, (text value).length < bound →
      Reads item (text value) value (admits value)) :
    Reads (contents bound close item) ([','].intercalate (items.map text) ++ (tail ++ [close]))
      items (∀ value ∈ items, admits value) := by
  have hlength : items.length ≤ bound := by
    have hparts := length_le_length_intercalate (items.map text)
    rw [List.length_map] at hparts
    omega
  have hreads (value : β) (hvalue : value ∈ items) :
      Reads item (text value) value (admits value) := by
    have hpart := length_le_of_mem_parts (List.mem_map_of_mem (f := text) hvalue)
    exact hitems value hvalue (by omega)
  cases items with
  | nil =>
      have hspace (rest : List Char) : skipSpace (tail ++ [close] ++ rest) = close :: rest := by
        rw [List.append_assoc, List.singleton_append, skipSpace_append htail, skipSpace_cons]
        rcases hclose with rfl | rfl <;> rfl
      rw [List.map_nil, List.intercalate_nil, List.nil_append]
      refine .of_admitted (List.forall_mem_nil admits) fun rest _ => ?_
      rw [contents, hspace]
      exact if_pos rfl
  | cons first items =>
      refine (reads_separated hclose htail hreads hlength []).of_eq fun rest => ?_
      obtain ⟨others, hfirst⟩ := exists_intercalate_cons (text first) (items.map text)
      rw [List.map_cons, hfirst, List.append_assoc, List.append_assoc]
      exact contents_eq_separated hclose (hopens first List.mem_cons_self) bound _

end Containers

end TreeCursor.Json
