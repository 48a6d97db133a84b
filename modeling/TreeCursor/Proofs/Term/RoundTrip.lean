import TreeCursor.Proofs.Json.RoundTrip
import TreeCursor.Proofs.Term.Lawful
import TreeCursor.Term.Encoding

/-!
# Reading encoded terms

The text of a term is that of a JSON value, an object whose one key names the constructor.  Every
constructor reads back what it has written, with one, two or three arrays and objects around its
children.  A term is therefore read as it was written, unless its value nests more than the syntax
allows.
-/

namespace TreeCursor.Term

open Json

/-! ## The value of a term -/

theorem inRange_toInt (value : Int64) : -2 ^ 63 ≤ value.toInt ∧ value.toInt < 2 ^ 64 :=
  ⟨Int64.le_toInt value, (Int64.toInt_lt value).trans (by decide)⟩

mutual

/-- The JSON value of a term: an object with one member, whose key names the constructor. -/
def toJson : Term → Json
  | .call tag args =>
      .object [("call", .object [("tag", .string tag), ("args", .array (itemsJson args))])]
  | .pair left right => .object [("pair", .array [toJson left, toJson right])]
  | .block items => .object [("block", .array (itemsJson items))]
  | .list items => .object [("list", .array (itemsJson items))]
  | .atom name => .object [("atom", .string name)]
  | .int value => .object [("int", .number (.int value.toInt (inRange_toInt value)))]
  | .str value => .object [("str", .string value)]

def itemsJson : List Term → List Json
  | [] => []
  | item :: items => item.toJson :: itemsJson items

end

theorem itemsJson_eq_map (items : List Term) : itemsJson items = items.map toJson := by
  induction items with
  | nil => rfl
  | cons item items ih => rw [itemsJson, ih, List.map_cons]

theorem encodeItems_eq (items : List Term) :
    encodeItems items = [','].intercalate (items.map encode) :=
  eq_intercalate rfl (fun _ => rfl) (fun _ _ _ => rfl) items

theorem encodeItems_eq_compactItems {items : List Term}
    (hitems : ∀ item ∈ items, item.encode = item.toJson.compact) :
    encodeItems items = compactItems (itemsJson items) := by
  rw [encodeItems_eq, compactItems_eq, itemsJson_eq_map, List.map_map]
  exact congrArg [','].intercalate (List.map_congr_left hitems)

/-- The text of a term is the compact form of its value. -/
theorem encode_eq_compact (term : Term) : term.encode = term.toJson.compact := by
  induction term using Tree.children_induction with
  | hstep term ih =>
      cases term with
      | call tag args =>
          have hargs : encodeItems args = compactItems (itemsJson args) :=
            encodeItems_eq_compactItems ih
          simp [encode, toJson, compact, compactMembers, encodeKey, hargs]
      | pair left right =>
          have hleft : left.encode = left.toJson.compact := ih left List.mem_cons_self
          have hright : right.encode = right.toJson.compact :=
            ih right (List.mem_cons_of_mem _ List.mem_cons_self)
          simp [encode, toJson, compact, compactMembers, compactItems, encodeKey, hleft, hright]
      | block items =>
          have hitems : encodeItems items = compactItems (itemsJson items) :=
            encodeItems_eq_compactItems ih
          simp [encode, toJson, compact, compactMembers, encodeKey, hitems]
      | list items =>
          have hitems : encodeItems items = compactItems (itemsJson items) :=
            encodeItems_eq_compactItems ih
          simp [encode, toJson, compact, compactMembers, encodeKey, hitems]
      | atom name => simp [encode, toJson, compact, compactMembers, encodeKey]
      | int value => simp [encode, toJson, compact, compactMembers, encodeKey, Number.text]
      | str value => simp [encode, toJson, compact, compactMembers, encodeKey]

/-! ## Readers of the parts -/

section Parts

variable {bound : ℕ}

theorem mark_cons {c : Char} (hc : isSpace c = false) (rest : List Char) :
    mark c (c :: rest) = .ok rest := by
  rw [mark, skipSpace_cons hc]
  exact if_pos rfl

theorem quoted_quote {text : String} (hbound : (quote text).length ≤ bound) (rest : List Char) :
    quoted bound (quote text ++ rest) = .ok (text, rest) := by
  rw [quoted, quote, List.cons_append, List.append_assoc, List.singleton_append,
    mark_cons (by decide)]
  exact unquote_of_quote hbound rest

theorem key_encodeKey {name : String} (hbound : (encodeKey name).length ≤ bound + 1)
    (rest : List Char) : key bound (encodeKey name ++ rest) = .ok (name, rest) := by
  rw [encodeKey, List.length_append, List.length_singleton, Nat.add_le_add_iff_right] at hbound
  rw [key, encodeKey, List.append_assoc, quoted_quote hbound]
  dsimp only
  rw [List.singleton_append, mark_cons (by decide)]
  rfl

theorem reads_quoted {text : String} (hbound : (quote text).length ≤ bound) :
    Reads (quoted bound) (quote text) text True :=
  .of_admitted trivial fun rest _ => quoted_quote hbound rest

theorem reads_integer (value : Int64) :
    Reads integer (toString value.toInt).toList value True := by
  refine .of_admitted trivial fun rest hrest => ?_
  obtain ⟨c, digits, htext, hc⟩ := exists_toString_eq_cons value.toInt
  obtain ⟨written, hliteral, hnumber⟩ := exists_literal_toString hrest (inRange_toInt value)
  rw [htext, List.cons_append] at hliteral
  rw [integer, htext, List.cons_append, skipSpace_cons (isSpace_of_startsNumber hc), hliteral]
  dsimp only
  rw [hnumber]
  dsimp only
  rw [if_pos (Int64.toInt_lt value), Int64.ofInt_toInt]

/-- Terms in an array as they are written. -/
def encodeArray (items : List Term) : List Char :=
  '[' :: ([','].intercalate (items.map encode) ++ [']'])

/-- The text of the term is read as the term, if its value does not nest too deeply. -/
def ReadsBack (bound : ℕ) (t : Term) : Prop :=
  t.encode.length ≤ bound →
    ∀ nesting, Reads (term bound nesting) t.encode t (t.toJson.nesting ≤ nesting)

theorem opens_encode (t : Term) : Opens t.encode := by
  rw [encode_eq_compact]
  cases t <;> exact ⟨_, _, rfl, by decide⟩

theorem reads_items {terms : List Term} (hterms : ∀ t ∈ terms, ReadsBack bound t)
    (hbound : (encodeArray terms).length ≤ bound) (nesting : ℕ) :
    Reads (items bound nesting) (encodeArray terms) terms
      ((Json.array (itemsJson terms)).nesting ≤ nesting) := by
  rw [encodeArray, List.length_cons, List.length_append] at hbound
  cases nesting with
  | zero =>
      refine ⟨fun hadmitted => ?_, fun _ rest _ => rfl⟩
      exact absurd hadmitted (Nat.not_succ_le_zero _)
  | succ nesting =>
      have hread := reads_contents (.inl rfl) blank_nil (by omega) (fun t _ => opens_encode t)
        fun t ht hlength => hterms t ht hlength.le nesting
      have hsequence (s : List Char) :
          items bound (nesting + 1) (['['] ++ s) = contents bound ']' (term bound nesting) s := by
        rw [items, sequence, List.singleton_append, mark_cons (by decide)]
      refine (hread.append ['['] hsequence).congr ?_
      rw [Json.nesting, itemsJson_eq_map, Nat.succ_le_succ_iff, itemsNesting_le,
        List.forall_mem_map]

/-- An object with one member as it is written. -/
def encodeMember (name : String) (text : List Char) : List Char :=
  '\x7b' :: (encodeKey name ++ (text ++ ['\x7d']))

section Object

variable {args content : Parser (List Term)} {name : String}
variable (hname : (encodeKey name).length ≤ bound + 1)
include hname

theorem object_of_body_ok {t : Term} {s rest : List Char}
    (hbody : body bound content args name s = .ok (t, '\x7d' :: rest)) :
    object bound content args ('\x7b' :: (encodeKey name ++ s)) = .ok (t, rest) := by
  have hclose : mark '\x7d' ('\x7d' :: rest) = .ok rest := mark_cons (by decide) rest
  rw [object, mark_cons (by decide)]
  simp only [key_encodeKey hname, hbody, hclose, Except.map]

theorem object_of_body_error {e : ParseError} {s : List Char}
    (hbody : body bound content args name s = .error e) :
    object bound content args ('\x7b' :: (encodeKey name ++ s)) = .error e := by
  rw [object, mark_cons (by decide)]
  simp only [key_encodeKey hname, hbody]

theorem reads_object {text : List Char} {t : Term} {admitted : Prop}
    (hbody : Reads (body bound content args name) text t admitted) :
    Reads (object bound content args) (encodeMember name text) t admitted := by
  have hsplit (rest : List Char) :
      encodeMember name text ++ rest =
        '\x7b' :: (encodeKey name ++ (text ++ '\x7d' :: rest)) := by
    simp [encodeMember]
  have hends (rest : List Char) : Ends ('\x7d' :: rest) := ends_cons (by decide) rest
  constructor
  · intro hadmitted rest _
    rw [hsplit]
    exact object_of_body_ok hname (hbody.accepts hadmitted _ (hends rest))
  · intro hrefused rest _
    rw [hsplit]
    exact object_of_body_error hname (hbody.refuses hrefused _ (hends rest))

end Object

theorem term_succ (nesting : ℕ) :
    term bound (nesting + 1) = object bound (items bound nesting) (items bound (nesting - 1)) := by
  cases nesting with
  | zero =>
      rw [term]
      rfl
  | succ nesting =>
      rw [term]
      rfl

/-- A term is read back if what its one member holds is read. -/
theorem readsBack_of_body {t : Term} {name : String} {text : List Char} {value : Json}
    (hencode : t.encode = encodeMember name text) (hvalue : t.toJson = .object [(name, value)])
    (hbody : text.length ≤ bound → ∀ nesting,
      Reads (body bound (items bound nesting) (items bound (nesting - 1)) name) text t
        (value.nesting ≤ nesting)) :
    ReadsBack bound t := by
  intro hbound nesting
  have hnesting : t.toJson.nesting = value.nesting + 1 := by
    rw [hvalue, Json.nesting, membersNesting, membersNesting, Nat.max_zero]
  rw [hencode] at hbound ⊢
  rw [encodeMember, List.length_cons, List.length_append, List.length_append] at hbound
  rw [hnesting]
  cases nesting with
  | zero =>
      refine ⟨fun hadmitted => ?_, fun _ rest _ => rfl⟩
      exact absurd hadmitted (Nat.not_succ_le_zero _)
  | succ nesting =>
      rw [term_succ, Nat.succ_le_succ_iff]
      exact reads_object (by omega) (hbody (by omega) nesting)

end Parts

/-! ## The constructors -/

section Constructors

variable {bound : ℕ}

theorem readsBack_atom (name : String) : ReadsBack bound (.atom name) := by
  have hencode : encode (.atom name) = encodeMember "atom" (quote name) := by
    simp [encode, encodeMember]
  refine readsBack_of_body hencode rfl fun hbound nesting => ?_
  exact ((reads_quoted hbound).map Term.atom).congr (by simp [Json.nesting])

theorem readsBack_str (value : String) : ReadsBack bound (.str value) := by
  have hencode : encode (.str value) = encodeMember "str" (quote value) := by
    simp [encode, encodeMember]
  refine readsBack_of_body hencode rfl fun hbound nesting => ?_
  exact ((reads_quoted hbound).map Term.str).congr (by simp [Json.nesting])

theorem readsBack_int (value : Int64) : ReadsBack bound (.int value) := by
  have hencode : encode (.int value) = encodeMember "int" (toString value.toInt).toList := by
    simp [encode, encodeMember]
  refine readsBack_of_body hencode rfl fun hbound nesting => ?_
  exact ((reads_integer value).map Term.int).congr (by simp [Json.nesting])

theorem readsBack_block {terms : List Term} (hterms : ∀ t ∈ terms, ReadsBack bound t) :
    ReadsBack bound (.block terms) := by
  have hencode : encode (.block terms) = encodeMember "block" (encodeArray terms) := by
    simp [encode, encodeMember, encodeArray, encodeItems_eq]
  refine readsBack_of_body hencode rfl fun hbound nesting => ?_
  exact (reads_items hterms hbound nesting).map Term.block

theorem readsBack_list {terms : List Term} (hterms : ∀ t ∈ terms, ReadsBack bound t) :
    ReadsBack bound (.list terms) := by
  have hencode : encode (.list terms) = encodeMember "list" (encodeArray terms) := by
    simp [encode, encodeMember, encodeArray, encodeItems_eq]
  refine readsBack_of_body hencode rfl fun hbound nesting => ?_
  exact (reads_items hterms hbound nesting).map Term.list

theorem readsBack_pair {left right : Term} (hleft : ReadsBack bound left)
    (hright : ReadsBack bound right) : ReadsBack bound (.pair left right) := by
  have hencode : encode (.pair left right) = encodeMember "pair" (encodeArray [left, right]) := by
    simp [encode, encodeMember, encodeArray]
  refine readsBack_of_body hencode rfl fun hbound nesting => ?_
  have hread := reads_items (by simp [hleft, hright]) hbound nesting
  constructor
  · intro hadmitted rest hrest
    simp only [body, hread.accepts hadmitted rest hrest]
  · intro hrefused rest hrest
    simp only [body, hread.refuses hrefused rest hrest]

end Constructors

/-! ## Calls -/

section Calls

variable {bound : ℕ}

/-- A member of a call as it is written. -/
def Field.encode : Field → List Char
  | .tag name => encodeKey "tag" ++ quote name
  | .args terms => encodeKey "args" ++ encodeArray terms
  | .other => []

/-- The arrays and objects of a member of a call that stand in one another. -/
def Field.nesting : Field → ℕ
  | .tag _ => 0
  | .args terms => (Json.array (itemsJson terms)).nesting
  | .other => 0

theorem reads_tag (args : Parser (List Term)) {tag : String}
    (hbound : (Field.tag tag).encode.length ≤ bound) :
    Reads (field bound args) (Field.tag tag).encode (.tag tag) True := by
  rw [Field.encode, List.length_append] at hbound
  have htag : (quote tag).length ≤ bound := by omega
  refine ((reads_quoted htag).map Field.tag).append (encodeKey "tag") fun s => ?_
  rw [field, key_encodeKey (by omega)]
  rfl

theorem reads_args {terms : List Term} (hterms : ∀ t ∈ terms, ReadsBack bound t)
    (hbound : (Field.args terms).encode.length ≤ bound) (nesting : ℕ) :
    Reads (field bound (items bound nesting)) (Field.args terms).encode (.args terms)
      ((Field.args terms).nesting ≤ nesting) := by
  rw [Field.encode, List.length_append] at hbound
  have hitems := reads_items hterms (by omega) nesting
  refine (hitems.map Field.args).append (encodeKey "args") fun s => ?_
  rw [field, key_encodeKey (by omega)]
  rfl

/-- The members of a call as they are written. -/
def encodeFields (tag : String) (args : List Term) : List Char :=
  '\x7b' :: ([','].intercalate ([.tag tag, .args args].map Field.encode) ++ ['\x7d'])

theorem reads_callBody {tag : String} {terms : List Term} (hterms : ∀ t ∈ terms, ReadsBack bound t)
    (hbound : (encodeFields tag terms).length ≤ bound) (nesting : ℕ) :
    Reads (callBody bound (items bound nesting)) (encodeFields tag terms) (.call tag terms)
      ((Json.array (itemsJson terms)).nesting ≤ nesting) := by
  have hopens (member : Field) (hmember : member ∈ [Field.tag tag, .args terms]) :
      Opens member.encode := by
    rcases List.mem_pair.mp hmember with rfl | rfl <;> exact ⟨'"', _, rfl, by decide⟩
  have hreads (member : Field) (hmember : member ∈ [Field.tag tag, .args terms])
      (hlength : member.encode.length < bound) :
      Reads (field bound (items bound nesting)) member.encode member
        (member.nesting ≤ nesting) := by
    rcases List.mem_pair.mp hmember with rfl | rfl
    · exact (reads_tag _ hlength.le).congr (iff_of_true trivial (Nat.zero_le nesting))
    · exact reads_args hterms hlength.le nesting
  rw [encodeFields, List.length_cons, List.length_append] at hbound
  have hread := reads_contents (.inr rfl) blank_nil (by omega) hopens hreads
  have hadmits : (∀ member ∈ [Field.tag tag, .args terms], member.nesting ≤ nesting) ↔
      (Json.array (itemsJson terms)).nesting ≤ nesting := by
    simp [Field.nesting]
  rw [hadmits, List.nil_append] at hread
  constructor
  · intro hadmitted rest hrest
    rw [encodeFields, List.cons_append, callBody, skipSpace_cons (by decide)]
    simp only [hread.accepts hadmitted rest hrest]
    rfl
  · intro hrefused rest hrest
    rw [encodeFields, List.cons_append, callBody, skipSpace_cons (by decide)]
    simp only [hread.refuses hrefused rest hrest]

theorem readsBack_call (tag : String) {terms : List Term}
    (hterms : ∀ t ∈ terms, ReadsBack bound t) : ReadsBack bound (.call tag terms) := by
  have hencode : encode (.call tag terms) = encodeMember "call" (encodeFields tag terms) := by
    simp [encode, encodeMember, encodeArray, encodeItems_eq, encodeFields, Field.encode]
  refine readsBack_of_body hencode rfl fun hbound nesting => ?_
  refine (reads_callBody hterms hbound (nesting - 1)).congr ?_
  -- the object of tag and arguments takes a level, and without one there is none for the array
  simp only [Json.nesting, membersNesting]
  omega

end Calls

/-- Every term is read back. -/
theorem readsBack (bound : ℕ) (t : Term) : ReadsBack bound t := by
  induction t using Tree.children_induction with
  | hstep t ih =>
      cases t with
      | call tag args => exact readsBack_call tag ih
      | pair left right =>
          exact readsBack_pair (ih left List.mem_cons_self)
            (ih right (List.mem_cons_of_mem _ List.mem_cons_self))
      | block items => exact readsBack_block ih
      | list items => exact readsBack_list ih
      | atom name => exact readsBack_atom name
      | int value => exact readsBack_int value
      | str value => exact readsBack_str value

/-- A term is written as the compact form of its value, and is read back as it is from that text,
or is found to nest too deeply. -/
theorem parse_encode (t : Term) :
    t.encode = t.toJson.compact ∧
      parse (String.ofList t.encode) =
        if t.toJson.nesting ≤ maxNesting then .ok t else .error .malformed := by
  refine ⟨encode_eq_compact t, ?_⟩
  rw [parse, String.toList_ofList]
  apply whole_of_reads (List.append_nil t.encode).symm blank_nil
  exact readsBack _ t (Nat.le_succ _) maxNesting

end TreeCursor.Term
