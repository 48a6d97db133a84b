import Mathlib.Data.String.Basic
import TreeCursor.Json.Parser
import TreeCursor.Proofs.Json.Lawful
import TreeCursor.Proofs.Tree.Route

/-!
# The extent of a document

No document has more nodes than its text has characters.  Every value takes up a character of its
own, and a member of an object the two quotes and the colon beside its value, though a repeated key
leaves it without nodes.  So the places of a document that is read have child indices in 64 bits, as
the bytes of a text have.
-/

namespace TreeCursor

namespace Json

/-- What is read takes up at least as many characters as its size says. -/
def Fits {β : Type} (size : β → ℕ) (parser : Parser β) : Prop :=
  ∀ s value rest, parser s = .ok (value, rest) → size value + rest.length ≤ s.length

/-- Whatever is read takes up at least so many characters. -/
def Takes {β : Type} (count : ℕ) (parser : Parser β) : Prop :=
  ∀ s value rest, parser s = .ok (value, rest) → count + rest.length ≤ s.length

theorem length_skipSpace_le (s : List Char) : (skipSpace s).length ≤ s.length :=
  (List.dropWhile_suffix isSpace).length_le

theorem length_of_skipSpace {s rest : List Char} {c : Char} (hspace : skipSpace s = c :: rest) :
    rest.length + 1 ≤ s.length := by
  have hlength := length_skipSpace_le s
  rwa [hspace, List.length_cons] at hlength

theorem length_le_of_word {expected s rest : List Char} (hword : word expected s = .ok rest) :
    rest.length ≤ s.length := by
  fun_induction word expected s with
  | case1 s =>
      cases hword
      exact le_rfl
  | case2 => cases hword
  | case3 c word' s ih => exact (ih hword).trans (Nat.le_succ _)
  | case4 => cases hword

/-! ## Strings -/

theorem takes_codeUnit : Takes 4 codeUnit := by
  intro s unit rest h
  unfold codeUnit at h
  split at h
  · split at h
    · cases h
      simp only [List.length_cons]
      omega
    · cases h
  · cases h

theorem takes_escapedUnits : Takes 4 escapedUnits := by
  intro s c rest h
  unfold escapedUnits at h
  split at h
  · cases h
  · next unit after hunit =>
      have hafter := takes_codeUnit _ _ _ hunit
      split at h
      · cases h
      · split at h
        · split at h
          · cases h
          · cases h
          · next trailing =>
              split at h
              · cases h
              · next trail after' htrail =>
                  have hafter' := takes_codeUnit _ _ _ htrail
                  simp only [List.length_cons] at hafter
                  split at h
                  · obtain ⟨-, rfl⟩ := Prod.mk.inj (Except.ok.inj h)
                    omega
                  · cases h
          · cases h
        · cases h
          exact hafter

theorem takes_escaped : Takes 1 escaped := by
  intro s c rest h
  unfold escaped at h
  split at h
  · cases h
  · next after =>
      have hafter := takes_escapedUnits _ _ _ h
      rw [List.length_cons]
      omega
  · next first after hfirst =>
      have hrest : rest = after := by
        split at h <;> cases h <;> rfl
      rw [hrest, List.length_cons, Nat.add_comm]

/-- A string takes up its last quote. -/
theorem takes_unquote (bound : ℕ) (read : List Char) : Takes 1 (unquote escaped bound read) := by
  intro s text rest h
  fun_induction unquote escaped bound read s with
  | case1 => cases h
  | case2 => cases h
  | case3 bound read after =>
      cases h
      rw [List.length_cons, Nat.add_comm]
  | case4 => cases h
  | case5 bound read after c after' hescape hquote ih =>
      have hafter := takes_escaped _ _ _ hescape
      have htext := ih h
      rw [List.length_cons]
      omega
  | case6 => cases h
  | case7 bound read c after hquote hslash hcontrol ih =>
      have htext := ih h
      rw [List.length_cons]
      omega

/-! ## Numbers -/

theorem length_le_of_digits {s rest : List Char} {values : List ℕ}
    (hdigits : digits s = (values, rest)) : rest.length ≤ s.length := by
  obtain ⟨-, rfl⟩ := Prod.mk.inj hdigits
  exact (List.dropWhile_suffix Char.isDigit).length_le

/-- Where there are digits, they are taken up. -/
theorem length_lt_of_digits {s rest : List Char} {values : List ℕ}
    (hdigits : digits s = (values, rest)) (hne : values ≠ []) : rest.length < s.length := by
  obtain ⟨rfl, rfl⟩ := Prod.mk.inj hdigits
  have hsplit := congrArg List.length (@List.takeWhile_append_dropWhile _ Char.isDigit s)
  have htaken : 0 < (s.takeWhile Char.isDigit).length := by
    rw [List.length_pos_iff]
    rintro hnil
    exact hne (by rw [hnil, List.map_nil])
  rw [List.length_append] at hsplit
  omega

theorem takes_wholePart : Takes 1 wholePart := by
  intro s whole rest h
  unfold wholePart at h
  split at h
  · next after =>
      have hrest : rest = after := by
        split at h
        · split at h
          · cases h
          · cases h
            rfl
        · cases h
          rfl
      rw [hrest, List.length_cons, Nat.add_comm]
  · split at h
    · cases h
    · next whole' after hne hdigits =>
        cases h
        have hafter := length_lt_of_digits hdigits hne
        omega

theorem takes_fractionPart : Takes 0 fractionPart := by
  intro s fraction rest h
  unfold fractionPart at h
  split at h
  · next after =>
      split at h
      · cases h
      · next values after' hne hdigits =>
          cases h
          have hafter := length_le_of_digits hdigits
          rw [List.length_cons]
          omega
  · cases h
    exact (Nat.zero_add _).le

theorem takes_powerPart : Takes 0 powerPart := by
  intro s power rest h
  unfold powerPart at h
  split at h
  · next c after =>
      split at h
      · split at h
        next negative unsigned hsigned =>
        have hlength : unsigned.length ≤ after.length := by
          split at hsigned <;> cases hsigned <;> simp
        split at h
        · cases h
        · next values after' hne hdigits =>
            obtain ⟨-, rfl⟩ := Prod.mk.inj (Except.ok.inj h)
            have hafter := length_le_of_digits hdigits
            rw [List.length_cons]
            omega
      · cases h
        exact (Nat.zero_add _).le
  · cases h
    exact le_rfl

/-- A number has a digit at least. -/
theorem takes_literal : Takes 1 literal := by
  intro s written rest h
  unfold literal at h
  split at h
  next negative unsigned hsigned =>
  have hlength : unsigned.length ≤ s.length := by
    split at hsigned <;> cases hsigned <;> simp
  split at h
  · cases h
  · next whole afterWhole hwhole =>
      split at h
      · cases h
      · next fraction afterFraction hfraction =>
          split at h
          · cases h
          · next power afterPower hpower =>
              obtain ⟨-, rfl⟩ := Prod.mk.inj (Except.ok.inj h)
              have hwhole' := takes_wholePart _ _ _ hwhole
              have hfraction' := takes_fractionPart _ _ _ hfraction
              have hpower' := takes_powerPart _ _ _ hpower
              omega

/-! ## Containers -/

section Items

variable {β : Type} {size : β → ℕ} {item : Parser β} (hitem : Fits size item)
include hitem

/-- What is read comes last one first, and the closing bracket is taken up as well. -/
theorem length_of_separated {close : Char} {bound : ℕ} {read items : List β} {s rest : List Char}
    (h : separated close item bound read s = .ok (items, rest)) :
    (items.map size).sum + 1 + rest.length ≤ (read.map size).sum + s.length := by
  fun_induction separated close item bound read s with
  | case1 => cases h
  | case2 => cases h
  | case3 => cases h
  | case4 bound read s value s' hvalue after hspace ih =>
      have hread := hitem _ _ _ hvalue
      have hafter := length_of_skipSpace hspace
      have hitems := ih h
      rw [List.map_cons, List.sum_cons] at hitems
      omega
  | case5 bound read s value s' hvalue after hspace hcomma =>
      have hread := hitem _ _ _ hvalue
      have hafter := length_of_skipSpace hspace
      cases h
      rw [List.map_reverse, List.sum_reverse, List.map_cons, List.sum_cons]
      omega
  | case6 => cases h

theorem fits_contents (bound : ℕ) (close : Char) :
    Fits (fun items => (items.map size).sum + 1) (contents bound close item) := by
  intro s items rest h
  unfold contents at h
  split at h
  · cases h
  · next c after hspace =>
      split at h
      · cases h
        have hafter := length_of_skipSpace hspace
        simp only [List.map_nil, List.sum_nil]
        omega
      · exact (length_of_separated hitem h).trans (Nat.zero_add _).le

end Items

/-- A member takes up two quotes and a colon beside its value. -/
theorem fits_member {κ β : Type} {key : Parser κ} {item : Parser β} {size : β → ℕ}
    (hkey : Takes 1 key) (hitem : Fits size item) :
    Fits (fun entry => 2 + size entry.2) (member key item) := by
  intro s entry rest h
  unfold member at h
  split at h
  · next afterQuote hquote =>
      have hname := length_of_skipSpace hquote
      split at h
      · cases h
      · next name afterKey hread =>
          have hcolon := hkey _ _ _ hread
          split at h
          · next afterColon hspace =>
              have hvalue := length_of_skipSpace hspace
              cases hresult : item afterColon with
              | error e =>
                  rw [hresult] at h
                  cases h
              | ok result =>
                  rw [hresult] at h
                  cases h
                  have hrest := hitem _ _ _ hresult
                  dsimp only
                  omega
          · cases h
  · cases h

/-! ## Documents -/

/-- The number of nodes of members, their keys and themselves included. -/
def entriesCount (entries : List (String × Document)) : ℕ :=
  (entries.map fun entry => 2 + Tree.nodeCount entry.2).sum

theorem entriesCount_cons (entry : String × Document) (entries : List (String × Document)) :
    entriesCount (entry :: entries) = 2 + Tree.nodeCount entry.2 + entriesCount entries :=
  List.sum_cons

/-- No more than one member gives way to another one. -/
theorem entriesCount_replace_le {entries : List (String × Document)}
    (hnodup : (entries.map Prod.fst).Nodup) (key : String) (value : Document) :
    entriesCount (entries.map fun entry => if entry.1 = key then (key, value) else entry) ≤
      entriesCount entries + (2 + Tree.nodeCount value) := by
  induction entries with
  | nil => exact Nat.zero_le _
  | cons entry entries ih =>
      obtain ⟨hhead, htail⟩ := List.nodup_cons.mp hnodup
      rw [List.map_cons, entriesCount_cons, entriesCount_cons]
      by_cases hkey : entry.1 = key
      · have hothers : (entries.map fun other => if other.1 = key then (key, value) else other) =
            entries := by
          refine (List.map_congr_left fun other hother => if_neg ?_).trans (List.map_id _)
          rintro rfl
          exact hhead (hkey ▸ List.mem_map_of_mem hother)
        rw [hothers, if_pos hkey]
        dsimp only
        omega
      · have hothers := ih htail
        rw [if_neg hkey]
        omega

theorem entriesCount_insert_le (members : Members) (key : String) (value : Document) :
    entriesCount (members.insert key value).entries ≤
      entriesCount members.entries + (2 + Tree.nodeCount value) := by
  unfold Members.insert
  split
  · exact entriesCount_replace_le members.nodup key value
  · simp [entriesCount]

theorem entriesCount_ofList_le (entries : List (String × Document)) :
    entriesCount (Members.ofList entries).entries ≤ entriesCount entries := by
  have hfold (members : Members) :
      entriesCount (entries.foldl (fun members entry => members.insert entry.1 entry.2)
        members).entries ≤ entriesCount members.entries + entriesCount entries := by
    induction entries generalizing members with
    | nil => exact le_rfl
    | cons entry entries ih =>
        have hinsert := entriesCount_insert_le members entry.1 entry.2
        have hrest := ih (members.insert entry.1 entry.2)
        rw [List.foldl_cons, entriesCount_cons]
        omega
  exact (hfold .empty).trans (Nat.zero_add _).le

theorem nodeCount_array (items : List Document) :
    Tree.nodeCount (Document.array items) = 1 + (items.map Tree.nodeCount).sum := by
  rw [Tree.nodeCount_eq, Document.tree_children, Document.children_array]

theorem nodeCount_object (members : Members) :
    Tree.nodeCount (Document.object members) = 1 + entriesCount members.entries := by
  rw [Tree.nodeCount_eq, Document.tree_children, Document.children_object, List.map_map]
  congr 3
  funext entry
  exact Document.nodeCount_entry entry.1 entry.2

theorem exists_of_map_eq_ok {β γ : Type} {result : Except ParseError β} {f : β → γ} {value : γ}
    (h : result.map f = .ok value) : ∃ before, result = .ok before ∧ f before = value := by
  cases result with
  | error e => cases h
  | ok before => exact ⟨before, rfl, Except.ok.inj h⟩

/-- A value has room for its nodes if those that it contains have. -/
theorem fits_value_of_below {bound nesting : ℕ}
    (hbelow : ∀ below, nesting = below + 1 → Fits Tree.nodeCount (value .document bound below)) :
    Fits Tree.nodeCount (value .document bound nesting) := by
  intro s document rest h
  unfold value at h
  split at h
  · cases h
  · next c after hspace =>
      have hafter := length_of_skipSpace hspace
      have hword {expected : List Char} {result : Document}
          (h : ((word expected after).map fun s => (result, s)) = .ok (document, rest))
          (hresult : Tree.nodeCount result = 1) :
          Tree.nodeCount document + rest.length ≤ s.length := by
        obtain ⟨rest', hread, hdocument⟩ := exists_of_map_eq_ok h
        cases hdocument
        have hrest := length_le_of_word hread
        omega
      split at h
      · exact hword h rfl
      · exact hword h rfl
      · exact hword h rfl
      · obtain ⟨⟨text, rest'⟩, htext, hdocument⟩ := exists_of_map_eq_ok h
        cases hdocument
        have hrest := takes_unquote bound [] _ _ _ htext
        change 1 + _ ≤ _
        omega
      · split at h
        · cases h
        · next below =>
            obtain ⟨⟨items, rest'⟩, hitems, hdocument⟩ := exists_of_map_eq_ok h
            cases hdocument
            have hrest := fits_contents (hbelow below rfl) bound ']' _ _ _ hitems
            change Tree.nodeCount (Document.array items) + _ ≤ _
            rw [nodeCount_array]
            dsimp only at hrest
            omega
      · split at h
        · cases h
        · next below =>
            obtain ⟨⟨entries, rest'⟩, hentries, hdocument⟩ := exists_of_map_eq_ok h
            cases hdocument
            have hmember := fits_member (takes_unquote bound []) (hbelow below rfl)
            have hrest := fits_contents hmember bound '\x7d' _ _ _ hentries
            have hmembers := entriesCount_ofList_le entries
            change Tree.nodeCount (Document.object (.ofList entries)) + _ ≤ _
            rw [nodeCount_object]
            unfold entriesCount at hmembers ⊢
            dsimp only at hrest
            omega
      · split at h
        · split at h
          · cases h
          · next written rest' hliteral =>
              split at h
              · cases h
              · next result hnumber =>
                  obtain ⟨number, -, rfl⟩ := Option.map_eq_some_iff.mp hnumber
                  cases h
                  have hrest := takes_literal _ _ _ hliteral
                  rw [List.length_cons] at hrest
                  change 1 + _ ≤ _
                  omega
        · cases h

theorem fits_value (bound nesting : ℕ) : Fits Tree.nodeCount (value .document bound nesting) := by
  induction nesting with
  | zero => exact fits_value_of_below fun below hbelow => by cases hbelow
  | succ nesting ih =>
      refine fits_value_of_below fun below hbelow => ?_
      cases hbelow
      exact ih

end Json

namespace Document

theorem nodeCount_le_of_parse {text : String} {document : Document}
    (hparse : parse text = .ok document) : Tree.nodeCount document ≤ text.toList.length := by
  unfold parse Json.whole at hparse
  split at hparse
  · cases hparse
  · next value rest hread =>
      split at hparse
      · cases hparse
        have hfits := Json.fits_value _ _ _ _ _ hread
        omega
      · cases hparse

/-- A character takes up a byte at least. -/
theorem length_le_utf8Len (text : List Char) : text.length ≤ String.utf8Len text := by
  induction text with
  | nil => exact le_rfl
  | cons c text ih =>
      have hpos := c.utf8Size_pos
      rw [List.length_cons, String.utf8Len_cons]
      omega

/-- What is read from bytes is what is read from the text that they encode. -/
theorem read_eq_ok_iff {bytes : ByteArray} {document : Document} :
    read bytes = .ok document ↔
      ∃ text : String, text.toUTF8 = bytes ∧ parse text = .ok document := by
  unfold read String.fromUTF8?
  constructor
  · intro hread
    split at hread
    · cases hread
    · next text htext =>
        split at htext
        · next hvalid =>
            cases htext
            refine ⟨String.fromUTF8 bytes hvalid, rfl, ?_⟩
            cases hresult : parse (String.fromUTF8 bytes hvalid) with
            | error e =>
                rw [hresult] at hread
                cases hread
            | ok document' =>
                rw [hresult] at hread
                cases hread
                rfl
        · cases htext
  · rintro ⟨text, rfl, hparse⟩
    rw [String.toUTF8_eq_toByteArray, dif_pos text.isValidUTF8]
    change (parse text).mapError ReadError.parse = .ok document
    rw [hparse]
    rfl

theorem nodeCount_le_of_read {bytes : ByteArray} {document : Document}
    (hread : read bytes = .ok document) : Tree.nodeCount document ≤ bytes.size := by
  obtain ⟨text, rfl, hparse⟩ := read_eq_ok_iff.mp hread
  calc
    Tree.nodeCount document ≤ text.toList.length := nodeCount_le_of_parse hparse
    _ ≤ String.utf8Len text.toList := length_le_utf8Len _
    _ = text.toUTF8.size := String.utf8Len_toList text

end Document

/-! ## Places -/

namespace Tree

variable {α : Type*} [Tree α]

theorem length_le_forestCount (nodes : List α) : nodes.length ≤ forestCount nodes := by
  induction nodes with
  | nil => exact le_rfl
  | cons node nodes ih =>
      have hpos := nodeCount_pos node
      rw [List.length_cons, forestCount_cons]
      omega

/-- The child indices on the way to a place are less than the number of nodes. -/
theorem index_lt_of_nodeAt {tree node : α} {route : List ℕ}
    (hplace : nodeAt tree route = some node) : ∀ index ∈ route, index < nodeCount tree := by
  induction route generalizing tree with
  | nil => exact List.forall_mem_nil _
  | cons first route ih =>
      rw [nodeAt_cons] at hplace
      obtain ⟨child, hchild, hbelow⟩ := Option.bind_eq_some_iff.mp hplace
      obtain ⟨hfirst, rfl⟩ := List.getElem?_eq_some_iff.mp hchild
      refine List.forall_mem_cons.mpr ⟨?_, fun index hindex => ?_⟩
      · have hlength := length_le_forestCount (children tree)
        have hcount := forestCount_children_lt tree
        omega
      · have hless := ih hbelow index hindex
        exact hless.trans (nodeCount_lt_of_mem_children (List.getElem_mem hfirst))

end Tree

end TreeCursor
