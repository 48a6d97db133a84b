import TreeCursor.Command.Run
import TreeCursor.Proofs.Json.Lawful
import TreeCursor.Proofs.Json.Reading

/-!
# Reading printed documents

A document has many spellings, with blanks around the items and members of its containers; the
compact form and the pretty form are two of them.  A spelling is read as the document that it
spells, unless more arrays and objects stand in one another than the syntax allows.  Numbers are
integers here: a double is not always read as the one that was printed.
-/

namespace TreeCursor

namespace Json

/-! ## Nesting -/

mutual

/-- The most arrays and objects of the value that stand in one another. -/
def nesting : Json → ℕ
  | .null => 0
  | .bool _ => 0
  | .number _ => 0
  | .string _ => 0
  | .array items => itemsNesting items + 1
  | .object members => membersNesting members + 1

def itemsNesting : List Json → ℕ
  | [] => 0
  | item :: items => max item.nesting (itemsNesting items)

def membersNesting : List (String × Json) → ℕ
  | [] => 0
  | (_, value) :: members => max value.nesting (membersNesting members)

end

theorem itemsNesting_le {items : List Json} {bound : ℕ} :
    itemsNesting items ≤ bound ↔ ∀ item ∈ items, item.nesting ≤ bound := by
  induction items with
  | nil => simp [itemsNesting]
  | cons item items ih => rw [itemsNesting, max_le_iff, ih, List.forall_mem_cons]

theorem membersNesting_le {members : List (String × Json)} {bound : ℕ} :
    membersNesting members ≤ bound ↔ ∀ member ∈ members, member.2.nesting ≤ bound := by
  induction members with
  | nil => simp [membersNesting]
  | cons member members ih => rw [membersNesting, max_le_iff, ih, List.forall_mem_cons]

/-- Every number in the value is an integer. -/
inductive Integral : Json → Prop where
  | null : Integral .null
  | bool (value : Bool) : Integral (.bool value)
  | int (value : ℤ) (inRange : -2 ^ 63 ≤ value ∧ value < 2 ^ 64) :
      Integral (.number (.int value inRange))
  | string (value : String) : Integral (.string value)
  | array {items : List Json} (items_integral : ∀ item ∈ items, Integral item) :
      Integral (.array items)
  | object {members : List (String × Json)}
      (members_integral : ∀ member ∈ members, Integral member.2) : Integral (.object members)

end Json

namespace Document

open Json

/-- A document is a leaf, an array of documents or an object of documents. -/
theorem parts_induction {motive : Document → Prop} (null : motive .null)
    (bool : ∀ value, motive (.bool value)) (number : ∀ value, motive (.number value))
    (string : ∀ value, motive (.string value))
    (array : ∀ items, (∀ item ∈ items, motive item) → motive (.array items))
    (object : ∀ members : Members,
      (∀ entry ∈ members.entries, motive entry.2) → motive (.object members))
    (document : Document) : motive document := by
  rcases document with ⟨value, hvalue⟩
  induction hvalue with
  | null => exact null
  | bool value => exact bool value
  | number value => exact number value
  | string value => exact string value
  | array hitems ih =>
      have hbranch : isBranch ⟨_, .array hitems⟩ = true := rfl
      obtain ⟨items, hdocument⟩ | ⟨members, hdocument⟩ := exists_of_isBranch hbranch
      · rw [hdocument]
        refine array items fun item hitem => ih item.value ?_
        rw [Json.array.inj (congrArg Document.value hdocument)]
        exact List.mem_map_of_mem hitem
      · cases congrArg Document.value hdocument
  | object hnodup hmembers ih =>
      have hbranch : isBranch ⟨_, .object hnodup hmembers⟩ = true := rfl
      obtain ⟨items, hdocument⟩ | ⟨members, hdocument⟩ := exists_of_isBranch hbranch
      · cases congrArg Document.value hdocument
      · rw [hdocument]
        refine object members fun entry hentry => ih (entry.1, entry.2.value) ?_
        rw [Json.object.inj (congrArg Document.value hdocument)]
        exact List.mem_map_of_mem hentry

theorem nesting_array_le {items : List Document} {bound : ℕ} :
    (array items).value.nesting ≤ bound + 1 ↔ ∀ item ∈ items, item.value.nesting ≤ bound := by
  rw [array, nesting, Nat.succ_le_succ_iff, itemsNesting_le, List.forall_mem_map]

theorem nesting_object_le {members : Members} {bound : ℕ} :
    (object members).value.nesting ≤ bound + 1 ↔
      ∀ entry ∈ members.entries, entry.2.value.nesting ≤ bound := by
  rw [object, nesting, Nat.succ_le_succ_iff, membersNesting_le, List.forall_mem_map]

theorem integral_of_array {items : List Document} (hintegral : (array items).value.Integral) :
    ∀ item ∈ items, item.value.Integral := by
  cases hintegral with
  | array hitems => exact List.forall_mem_map.mp hitems

theorem integral_of_object {members : Members} (hintegral : (object members).value.Integral) :
    ∀ entry ∈ members.entries, entry.2.value.Integral := by
  cases hintegral with
  | object hmembers => exact fun entry hentry => hmembers _ (List.mem_map_of_mem hentry)

/-! ## Spellings -/

/-- A member as it is written, after the blanks that lead to it. -/
def memberText (lead : List Char) (text : Document → List Char) (entry : String × Document) :
    List Char :=
  lead ++ (quote entry.1 ++ ':' :: text entry.2)

/-- The text is a way to write the document, all of whose numbers are integers. -/
inductive Spells : Document → List Char → Prop where
  | null : Spells .null ['n', 'u', 'l', 'l']
  | bool (value : Bool) : Spells (.bool value) (boolText value)
  | int (value : ℤ) (inRange : -2 ^ 63 ≤ value ∧ value < 2 ^ 64) :
      Spells (.number (.int value inRange)) (toString value).toList
  | string (value : String) : Spells (.string value) (quote value)
  | array {items : List Document} {text : Document → List Char} {tail : List Char}
      (items_spelled : ∀ item ∈ items, Spells item (text item)) (tail_blank : Blank tail) :
      Spells (.array items) ('[' :: ([','].intercalate (items.map text) ++ (tail ++ [']'])))
  | object {members : Members} {text : Document → List Char} {lead tail : List Char}
      (members_spelled : ∀ entry ∈ members.entries, Spells entry.2 (text entry.2))
      (lead_blank : Blank lead) (tail_blank : Blank tail) :
      Spells (.object members)
        ('\x7b' :: ([','].intercalate (members.entries.map (memberText lead text)) ++
          (tail ++ ['\x7d'])))
  | blank {document : Document} {lead text : List Char} (spelled : Spells document text)
      (lead_blank : Blank lead) : Spells document (lead ++ text)

theorem opens_of_spells {document : Document} {text : List Char} (hspells : Spells document text) :
    Opens text := by
  induction hspells with
  | null => exact ⟨_, _, rfl, by decide⟩
  | bool value => cases value <;> exact ⟨_, _, rfl, by decide⟩
  | int value inRange => exact opens_toString value
  | string value => exact opens_quote value
  | array _ _ _ => exact ⟨_, _, rfl, by decide⟩
  | object _ _ _ _ => exact ⟨_, _, rfl, by decide⟩
  | blank _ lead_blank ih => exact opens_append_blank lead_blank ih

end Document

/-! ## Reading a spelling -/

namespace Members

theorem entries_foldl_insert {members : Members} {entries : List (String × Document)}
    (hnodup : ((members.entries ++ entries).map Prod.fst).Nodup) :
    (entries.foldl (fun members entry => members.insert entry.1 entry.2) members).entries =
      members.entries ++ entries := by
  induction entries generalizing members with
  | nil => rw [List.foldl_nil, List.append_nil]
  | cons entry entries ih =>
      have hkey : entry.1 ∉ members.entries.map Prod.fst := by
        rw [List.map_append, List.map_cons] at hnodup
        exact fun hmem => (List.nodup_append.mp hnodup).2.2 _ hmem _ List.mem_cons_self rfl
      have hinsert := entries_insert_of_notMem hkey entry.2
      rw [List.append_cons, ← hinsert] at hnodup
      rw [List.foldl_cons, ih hnodup, hinsert, ← List.append_cons]

/-- Members with different keys are what the list of them leaves. -/
theorem ofList_entries (members : Members) : ofList members.entries = members :=
  ext_entries (entries_foldl_insert members.nodup)

end Members

namespace Json

open Document

section Values

variable {bound nesting : ℕ}

theorem value_append_blank {blanks : List Char} (hblanks : Blank blanks) (s : List Char) :
    value .document bound nesting (blanks ++ s) = value .document bound nesting s := by
  rw [value.eq_def, value.eq_def, skipSpace_append hblanks]

theorem value_quote (s : List Char) :
    value .document bound nesting ('"' :: s) =
      (unquote escaped bound [] s).map fun (text, s) => (.string text, s) := by
  rw [value.eq_def]
  rfl

theorem value_number {c : Char} (hc : StartsNumber c) {s rest : List Char}
    {written : Number.Literal} {number : Number} (hliteral : literal (c :: s) = .ok (written, rest))
    (hnumber : written.int? = some number) :
    value .document bound nesting (c :: s) = .ok (.number number, rest) := by
  have hvalue : Reading.document.number written = some (.number number) := by
    rw [Reading.document]
    dsimp only
    rw [Number.Literal.value?, hnumber]
    rfl
  rw [value.eq_def, skipSpace_cons (isSpace_of_startsNumber hc)]
  dsimp only
  -- nothing else begins with such a character
  split
  all_goals first | exact absurd hc (by decide) | skip
  rw [if_pos (show c = '-' ∨ c.isDigit from hc), hliteral]
  dsimp only
  rw [hvalue]

theorem value_array_zero (s : List Char) :
    value .document bound 0 ('[' :: s) = .error .malformed := rfl

theorem value_array_succ (s : List Char) :
    value .document bound (nesting + 1) ('[' :: s) =
      (contents bound ']' (value .document bound nesting) s).map fun (items, s) =>
        (.array items, s) := rfl

theorem value_object_zero (s : List Char) :
    value .document bound 0 ('\x7b' :: s) = .error .malformed := rfl

theorem value_object_succ (s : List Char) :
    value .document bound (nesting + 1) ('\x7b' :: s) =
      (contents bound '\x7d' (member (unquote escaped bound []) (value .document bound nesting))
        s).map fun (entries, s) => (.object (.ofList entries), s) := rfl

/-- A member is read as its key and what its value is read as. -/
theorem reads_member {β : Type} {item : Parser β} {key : String} {text : List Char} {result : β}
    {admitted : Prop} (hkey : (quote key).length ≤ bound)
    (hitem : Reads item text result admitted) {lead : List Char} (hlead : Blank lead) :
    Reads (member (unquote escaped bound []) item) (lead ++ (quote key ++ ':' :: text))
      (key, result) admitted := by
  have hmember (s : List Char) :
      member (unquote escaped bound []) item (lead ++ (quote key ++ [':']) ++ s) =
        (item s).map fun read => ((key, read.1), read.2) := by
    have hquote : quote key ++ [':'] ++ s =
        '"' :: (key.toList.flatMap quoteChar ++ '"' :: ':' :: s) := by
      simp [quote]
    rw [member, List.append_assoc, skipSpace_append hlead, hquote, skipSpace_cons (by decide)]
    simp only [unquote_of_quote hkey]
    rfl
  have hsplit : lead ++ (quote key ++ ':' :: text) = lead ++ (quote key ++ [':']) ++ text := by
    simp
  rw [hsplit]
  exact (hitem.map fun value => (key, value)).append _ hmember

end Values

/-- The text is read as the document, if that does not nest too deeply. -/
def ReadsBack (bound : ℕ) (document : Document) (text : List Char) : Prop :=
  text.length ≤ bound →
    ∀ nesting, Reads (value .document bound nesting) text document
      (document.value.nesting ≤ nesting)

section Containers

variable {bound : ℕ} {text : Document → List Char} {tail : List Char} (htail : Blank tail)
include htail

theorem readsBack_array {items : List Document}
    (hspells : ∀ item ∈ items, Spells item (text item))
    (hitems : ∀ item ∈ items, ReadsBack bound item (text item)) :
    ReadsBack bound (.array items)
      ('[' :: ([','].intercalate (items.map text) ++ (tail ++ [']']))) := by
  intro hbound nesting
  rw [List.length_cons, List.length_append] at hbound
  cases nesting with
  | zero =>
      refine ⟨fun hadmitted => ?_, fun _ rest _ => value_array_zero _⟩
      exact absurd hadmitted (Nat.not_succ_le_zero _)
  | succ nesting =>
      have hopens (item : Document) (hitem : item ∈ items) : Opens (text item) :=
        opens_of_spells (hspells item hitem)
      have hread := reads_contents (.inl rfl) htail (by omega) hopens
        fun item hitem hlength => hitems item hitem hlength.le nesting
      exact ((hread.map Document.array).append ['['] value_array_succ).congr nesting_array_le.symm

theorem readsBack_object {members : Members} {lead : List Char} (hlead : Blank lead)
    (hmembers : ∀ entry ∈ members.entries, ReadsBack bound entry.2 (text entry.2)) :
    ReadsBack bound (.object members)
      ('\x7b' :: ([','].intercalate (members.entries.map (memberText lead text)) ++
        (tail ++ ['\x7d']))) := by
  intro hbound nesting
  rw [List.length_cons, List.length_append] at hbound
  cases nesting with
  | zero =>
      refine ⟨fun hadmitted => ?_, fun _ rest _ => value_object_zero _⟩
      exact absurd hadmitted (Nat.not_succ_le_zero _)
  | succ nesting =>
      have hopens (entry : String × Document) (_ : entry ∈ members.entries) :
          Opens (memberText lead text entry) :=
        opens_append_blank hlead ⟨'"', _, rfl, by decide⟩
      have hreads (entry : String × Document) (hentry : entry ∈ members.entries)
          (hlength : (memberText lead text entry).length < bound) :
          Reads (member (unquote escaped bound []) (value .document bound nesting))
            (memberText lead text entry) entry (entry.2.value.nesting ≤ nesting) := by
        rw [memberText, List.length_append, List.length_append, List.length_cons] at hlength
        exact reads_member (by omega) (hmembers entry hentry (by omega) nesting) hlead
      have hread := reads_contents (.inr rfl) htail (by omega) hopens hreads
      have hobject := (hread.map fun entries =>
        Document.object (Members.ofList entries)).append ['\x7b'] value_object_succ
      rw [Members.ofList_entries] at hobject
      exact hobject.congr nesting_object_le.symm

end Containers

/-- Every spelling of a document is read as the document, if that does not nest too deeply. -/
theorem readsBack_of_spells {document : Document} {text : List Char}
    (hspells : Spells document text) (bound : ℕ) : ReadsBack bound document text := by
  induction hspells with
  | null =>
      refine fun _ nesting => .of_admitted (Nat.zero_le nesting) fun rest _ => ?_
      rw [value.eq_def]
      rfl
  | bool truth =>
      refine fun _ nesting => .of_admitted (Nat.zero_le nesting) fun rest _ => ?_
      rw [value.eq_def]
      cases truth <;> rfl
  | int number inRange =>
      refine fun _ nesting => .of_admitted (Nat.zero_le nesting) fun rest hrest => ?_
      obtain ⟨c, digits, htext, hc⟩ := exists_toString_eq_cons number
      obtain ⟨written, hliteral, hnumber⟩ := exists_literal_toString hrest inRange
      rw [htext] at hliteral ⊢
      exact value_number hc hliteral hnumber
  | string text =>
      refine fun hbound nesting => .of_admitted (Nat.zero_le nesting) fun rest _ => ?_
      rw [quote, List.cons_append, List.append_assoc, List.singleton_append, value_quote,
        unquote_of_quote hbound]
      rfl
  | array items_spelled tail_blank ih => exact readsBack_array tail_blank items_spelled ih
  | object _ lead_blank tail_blank ih => exact readsBack_object tail_blank lead_blank ih
  | blank _ lead_blank ih =>
      intro hbound nesting
      rw [List.length_append] at hbound
      exact (ih (by omega) nesting).append _ (value_append_blank lead_blank)

/-! ## The printed forms -/

section Items

variable {β : Type} {write : List β → List Char} {part : β → List Char}

/-- Text written with commas between its parts. -/
theorem eq_intercalate (hnil : write [] = []) (hsingle : ∀ item, write [item] = part item)
    (hcons : ∀ item next items,
      write (item :: next :: items) = part item ++ ',' :: write (next :: items))
    (items : List β) : write items = [','].intercalate (items.map part) := by
  induction items with
  | nil => exact hnil
  | cons item items ih =>
      cases items with
      | nil => rw [hsingle, List.map_singleton, List.intercalate_singleton]
      | cons next items =>
          rw [hcons, List.map_cons, List.map_cons, List.intercalate_cons_cons, ← List.map_cons,
            ← ih, List.append_assoc, List.singleton_append]

end Items

theorem compactItems_eq (items : List Json) :
    compactItems items = [','].intercalate (items.map compact) :=
  eq_intercalate rfl (fun _ => rfl) (fun _ _ _ => rfl) items

theorem compactMembers_eq (members : List (String × Json)) :
    compactMembers members =
      [','].intercalate (members.map fun member => quote member.1 ++ ':' :: member.2.compact) :=
  eq_intercalate rfl (fun _ => rfl) (fun _ _ _ => by simp [compactMembers]) members

theorem prettyItems_eq (level : ℕ) (items : List Json) :
    prettyItems level items =
      [','].intercalate (items.map fun item => newLine level ++ item.pretty level) :=
  eq_intercalate rfl (fun _ => rfl) (fun _ _ _ => by simp [prettyItems]) items

theorem prettyMembers_eq (level : ℕ) (members : List (String × Json)) :
    prettyMembers level members =
      [','].intercalate (members.map fun member =>
        newLine level ++ (quote member.1 ++ ':' :: ' ' :: member.2.pretty level)) :=
  eq_intercalate rfl (fun _ => rfl) (fun _ _ _ => by simp [prettyMembers]) members

theorem blank_newLine (level : ℕ) : Blank (newLine level) := by
  rw [Blank, newLine, List.forall_mem_cons]
  refine ⟨by decide, fun c hc => ?_⟩
  rw [List.eq_of_mem_replicate hc]
  rfl

end Json

namespace Document

open Json

theorem compact_array (items : List Document) :
    (array items).value.compact =
      '[' :: ([','].intercalate (items.map fun item => item.value.compact) ++ [']']) := by
  rw [array, Json.compact, compactItems_eq, List.map_map]
  rfl

theorem compact_object (members : Members) :
    (object members).value.compact =
      '\x7b' :: ([','].intercalate
        (members.entries.map (memberText [] fun member => member.value.compact)) ++ ['\x7d']) := by
  rw [object, Json.compact, compactMembers_eq, List.map_map]
  rfl

/-- The last bracket of a pretty array stands on a line of its own, unless the array is empty. -/
theorem exists_pretty_array (level : ℕ) (items : List Document) :
    ∃ tail, Blank tail ∧
      (array items).value.pretty level =
        '[' :: ([','].intercalate
          (items.map fun item => newLine (level + 1) ++ item.value.pretty (level + 1)) ++
            (tail ++ [']'])) := by
  cases items with
  | nil => exact ⟨[], blank_nil, rfl⟩
  | cons item items =>
      have hitems := prettyItems_eq (level + 1) ((item :: items).map value)
      rw [List.map_map] at hitems
      refine ⟨newLine level, blank_newLine level, ?_⟩
      rw [← List.append_assoc]
      exact congrArg (fun text => '[' :: (text ++ newLine level ++ [']'])) hitems

theorem exists_pretty_object (level : ℕ) (members : Members) :
    ∃ tail, Blank tail ∧
      (object members).value.pretty level =
        '\x7b' :: ([','].intercalate
          (members.entries.map (memberText (newLine (level + 1)) fun member =>
            [' '] ++ member.value.pretty (level + 1))) ++ (tail ++ ['\x7d'])) := by
  rcases members with ⟨entries, hnodup⟩
  cases entries with
  | nil => exact ⟨[], blank_nil, rfl⟩
  | cons entry entries =>
      have hmembers := prettyMembers_eq (level + 1)
        ((entry :: entries).map fun entry => (entry.1, entry.2.value))
      rw [List.map_map] at hmembers
      refine ⟨newLine level, blank_newLine level, ?_⟩
      rw [← List.append_assoc]
      exact congrArg (fun text => '\x7b' :: (text ++ newLine level ++ ['\x7d'])) hmembers

theorem spells_compact {document : Document} (hintegral : document.value.Integral) :
    Spells document document.value.compact := by
  induction document using parts_induction with
  | null => exact .null
  | bool truth => exact .bool truth
  | number number =>
      cases hintegral
      exact .int _ _
  | string text => exact .string text
  | array items ih =>
      have hitems := integral_of_array hintegral
      rw [compact_array]
      exact .array (fun item hitem => ih item hitem (hitems item hitem)) blank_nil
  | object members ih =>
      have hmembers := integral_of_object hintegral
      rw [compact_object]
      exact .object (fun entry hentry => ih entry hentry (hmembers entry hentry)) blank_nil
        blank_nil

theorem spells_pretty {document : Document} (hintegral : document.value.Integral) (level : ℕ) :
    Spells document (document.value.pretty level) := by
  induction document using parts_induction generalizing level with
  | null => exact .null
  | bool truth => exact .bool truth
  | number number =>
      cases hintegral
      exact .int _ _
  | string text => exact .string text
  | array items ih =>
      have hitems := integral_of_array hintegral
      have hlead : Blank (newLine (level + 1)) := blank_newLine (level + 1)
      obtain ⟨tail, htail, hpretty⟩ := exists_pretty_array level items
      rw [hpretty]
      exact .array (fun item hitem => .blank (ih item hitem (hitems item hitem) (level + 1)) hlead)
        htail
  | object members ih =>
      have hmembers := integral_of_object hintegral
      have hlead : Blank (newLine (level + 1)) := blank_newLine (level + 1)
      have hgap : Blank [' '] := blank_singleton rfl
      obtain ⟨tail, htail, hpretty⟩ := exists_pretty_object level members
      rw [hpretty]
      refine .object (fun entry hentry => ?_) hlead htail
      exact .blank (ih entry hentry (hmembers entry hentry) (level + 1)) hgap

/-- Any spelling of a document, and blanks after it, is a text that holds the document. -/
theorem parse_of_spells {document : Document} {text blanks : List Char}
    (hspells : Spells document text) (hblanks : Blank blanks) :
    parse (String.ofList (text ++ blanks)) =
      if document.value.nesting ≤ maxNesting then .ok document else .error .malformed := by
  rw [parse, String.toList_ofList]
  apply whole_of_reads rfl hblanks
  apply readsBack_of_spells hspells
  rw [List.length_append]
  omega

end Document

namespace Command

open Json

/-- A document that is printed, in whatever form, is read back as it is, members in their order,
or is found to nest too deeply.  Both forms hold the same document. -/
theorem parse_print {document : Document} (hintegral : document.value.Integral) :
    (∀ settings, Document.parse (print settings document).output =
      if document.value.nesting ≤ maxNesting then .ok document else .error .malformed) ∧
    Document.parse document.pretty = Document.parse document.compact := by
  have hpretty : Document.Spells document (document.value.pretty 0) :=
    Document.spells_pretty hintegral 0
  have hcompact : Document.Spells document document.value.compact :=
    Document.spells_compact hintegral
  constructor
  · intro settings
    have hform : Document.Spells document
        (if settings.prettyJson then document.value.pretty 0 else document.value.compact) := by
      split
      · exact hpretty
      · exact hcompact
    have houtput : (print settings document).output =
        String.ofList ((if settings.prettyJson then document.value.pretty 0
          else document.value.compact) ++ ['\n']) := by
      rw [String.ofList_append, apply_ite String.ofList]
      rfl
    rw [houtput]
    exact Document.parse_of_spells hform (blank_singleton rfl)
  · have hparse := Document.parse_of_spells hpretty blank_nil
    rw [← Document.parse_of_spells hcompact blank_nil] at hparse
    rw [List.append_nil, List.append_nil] at hparse
    exact hparse

/-- Strings are escaped, integers are at their bounds, and containers are empty or nested, in one
document; another one is built deeper than it is read. -/
theorem parse_print_at_bounds :
    (∃ document : Document,
      document.value = .object
        [("\"\\\n\x01", .array [.object [], .array [], .number (.int (-2 ^ 63) (by decide))]),
          ("é", .object [("", .number (.int (2 ^ 64 - 1) (by decide)))])] ∧
      document.value.Integral ∧
      Document.parse (print { prettyJson := true } document).output = .ok document ∧
      Document.parse (print { prettyJson := false } document).output = .ok document) ∧
    ∃ document : Document, document.value.Integral ∧ document.value.nesting = 128 ∧
      ∀ settings, Document.parse (print settings document).output = .error .malformed := by
  constructor
  · let document : Document := .object ⟨[
      ("\"\\\n\x01", .array [.object .empty, .array [], .number (.int (-2 ^ 63) (by decide))]),
      ("é", .object ⟨[("", .number (.int (2 ^ 64 - 1) (by decide)))], by decide⟩)], by decide⟩
    have hintegral : document.value.Integral := by
      refine .object (List.forall_mem_cons.mpr ⟨.array ?_, List.forall_mem_singleton.mpr ?_⟩)
      · refine List.forall_mem_cons.mpr ⟨.object (List.forall_mem_nil _), ?_⟩
        refine List.forall_mem_cons.mpr ⟨.array (List.forall_mem_nil _), ?_⟩
        exact List.forall_mem_singleton.mpr (.int _ _)
      · exact .object (List.forall_mem_singleton.mpr (.int _ _))
    have hnesting : document.value.nesting ≤ maxNesting := by decide
    refine ⟨document, rfl, hintegral, ?_, ?_⟩
    · rw [(parse_print hintegral).1, if_pos hnesting]
    · rw [(parse_print hintegral).1, if_pos hnesting]
  · have hdeep (depth : ℕ) :
        ∃ document : Document, document.value.Integral ∧ document.value.nesting = depth := by
      induction depth with
      | zero => exact ⟨.null, .null, rfl⟩
      | succ depth ih =>
          obtain ⟨document, hintegral, hnesting⟩ := ih
          refine ⟨.array [document], .array (List.forall_mem_singleton.mpr hintegral), ?_⟩
          rw [← hnesting]
          exact congrArg Nat.succ (Nat.max_zero _)
    obtain ⟨document, hintegral, hnesting⟩ := hdeep 128
    refine ⟨document, hintegral, hnesting, fun settings => ?_⟩
    rw [(parse_print hintegral).1 settings, hnesting]
    rfl

end Command

end TreeCursor
