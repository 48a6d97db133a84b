import TreeCursor.Json.Document
import TreeCursor.Proofs.Tree.Lawful

/-!
# The laws of documents

Every document is an array of its items, an object of its members, or a leaf.  Seen like this it
obeys the laws of a tree type: nodes are the members of an object exactly when they are their
entries in order, so that no member is lost and none moves.
-/

namespace TreeCursor

namespace Members

theorem ext_entries {members others : Members} (hentries : members.entries = others.entries) :
    members = others := by
  cases members
  cases others
  cases hentries
  rfl

theorem entries_insert_of_notMem {members : Members} {key : String}
    (hkey : key ∉ members.entries.map Prod.fst) (value : Document) :
    (members.insert key value).entries = members.entries ++ [(key, value)] := by
  rw [insert, dif_neg hkey]

end Members

namespace Document

@[simp]
theorem tree_isBranch (document : Document) : Tree.isBranch document = document.isBranch := rfl

@[simp]
theorem tree_children (document : Document) : Tree.children document = document.children := rfl

@[simp]
theorem tree_rebuild (document : Document) (children : List Document) :
    Tree.rebuild document children = document.rebuild children := rfl

theorem ext_value {left right : Document} (hvalue : left.value = right.value) : left = right := by
  cases left
  cases right
  cases hvalue
  rfl

@[simp]
theorem isBranch_array (items : List Document) : (array items).isBranch = true := rfl

@[simp]
theorem isBranch_object (members : Members) : (object members).isBranch = true := rfl

@[simp]
theorem rebuild_array (items children : List Document) :
    (array items).rebuild children = array children := rfl

theorem rebuild_object (members : Members) (children : List Document) :
    (object members).rebuild children =
      match asMembers? children with
      | some others => object others
      | none => array children := rfl

theorem rebuild_leaf {document : Document} (hleaf : document.isBranch = false)
    (children : List Document) : document.rebuild children = array (document :: children) := by
  rcases document with ⟨value, hvalue⟩
  cases value with
  | array items => cases hleaf
  | object members => cases hleaf
  | _ => rfl

@[simp]
theorem children_array (items : List Document) : (array items).children = items := by
  apply List.ext_getElem
  · simp [array, children]
  · intro index hindex _
    simp [array, children]

@[simp]
theorem children_object (members : Members) :
    (object members).children = members.entries.map fun (key, value) => entry key value := by
  apply List.ext_getElem
  · simp [object, children, memberDocuments]
  · intro index hindex _
    simp [object, children, memberDocuments]

theorem children_leaf {document : Document} (hleaf : document.isBranch = false) :
    document.children = [] := by
  rcases document with ⟨value, hvalue⟩
  cases value with
  | array items => cases hleaf
  | object members => cases hleaf
  | _ => rfl

theorem map_fst_memberDocuments (members : List (String × Json))
    (hmembers : ∀ member ∈ members, member.2.WellFormed) :
    (memberDocuments members hmembers).map Prod.fst = members.map Prod.fst := by
  rw [memberDocuments, List.map_map]
  exact List.attach_map_val (f := Prod.fst)

theorem map_value_memberDocuments (members : List (String × Json))
    (hmembers : ∀ member ∈ members, member.2.WellFormed) :
    ((memberDocuments members hmembers).map fun (key, document) => (key, document.value)) =
      members := by
  rw [memberDocuments, List.map_map]
  exact List.attach_map_subtype_val members

/-- Taken apart, a branch is an array or an object. -/
theorem exists_of_isBranch {document : Document} (hbranch : document.isBranch = true) :
    (∃ items, document = array items) ∨ ∃ members, document = object members := by
  rcases document with ⟨value, hvalue⟩
  cases value with
  | array items =>
      refine Or.inl ⟨children ⟨.array items, hvalue⟩, ext_value ?_⟩
      simp [children, array, List.map_map, Function.comp_def]
  | object members =>
      cases hvalue with
      | object hnodup hmembers =>
          have hkeys : ((memberDocuments members hmembers).map Prod.fst).Nodup := by
            rw [map_fst_memberDocuments]
            exact hnodup
          refine Or.inr ⟨⟨memberDocuments members hmembers, hkeys⟩, ext_value ?_⟩
          exact congrArg Json.object (map_value_memberDocuments members hmembers).symm
  | _ => cases hbranch

/-! ## Entries -/

@[simp]
theorem asEntry?_entry (key : String) (value : Document) :
    asEntry? (entry key value) = some (key, value) := rfl

theorem eq_entry_of_asEntry? {document : Document} {member : String × Document}
    (hentry : document.asEntry? = some member) : document = entry member.1 member.2 := by
  unfold asEntry? at hentry
  split at hentry
  · cases hentry
    rfl
  · cases hentry

theorem map_entry_inj {entries others : List (String × Document)} :
    (entries.map fun (key, value) => entry key value) =
        (others.map fun (key, value) => entry key value) ↔ entries = others :=
  List.map_inj_right fun member other heq =>
    Option.some.inj (congrArg asEntry? heq : some member = some other)

/-- Entries with new keys are added in their order. -/
theorem addEntries?_entries {members all : Members} {added : List (String × Document)}
    (hall : all.entries = members.entries ++ added) :
    addEntries? members (added.map fun (key, value) => entry key value) = some all := by
  induction added generalizing members with
  | nil =>
      rw [List.append_nil] at hall
      rw [List.map_nil, addEntries?, Members.ext_entries hall]
  | cons member added ih =>
      obtain ⟨key, value⟩ := member
      have hkey : key ∉ members.entries.map Prod.fst := by
        have hnodup := all.nodup
        rw [hall, List.map_append, List.map_cons] at hnodup
        exact fun hmem => (List.nodup_append.mp hnodup).2.2 _ hmem _ List.mem_cons_self rfl
      rw [List.map_cons, addEntries?, asEntry?_entry]
      dsimp only
      rw [if_neg hkey]
      apply ih
      rw [Members.entries_insert_of_notMem hkey, List.append_assoc, hall]
      rfl

theorem exists_entries_of_addEntries? {members all : Members} {children : List Document}
    (hadded : addEntries? members children = some all) :
    ∃ added, children = (added.map fun (key, value) => entry key value) ∧
      all.entries = members.entries ++ added := by
  induction children generalizing members with
  | nil =>
      cases hadded
      exact ⟨[], rfl, (List.append_nil _).symm⟩
  | cons child children ih =>
      rw [addEntries?] at hadded
      cases hentry : child.asEntry? with
      | none =>
          rw [hentry] at hadded
          cases hadded
      | some member =>
          obtain ⟨key, value⟩ := member
          rw [hentry] at hadded
          dsimp only at hadded
          split at hadded
          · cases hadded
          · next hkey =>
              obtain ⟨added, rfl, hall⟩ := ih hadded
              refine ⟨(key, value) :: added, ?_, ?_⟩
              · rw [List.map_cons, eq_entry_of_asEntry? hentry]
              · rw [hall, Members.entries_insert_of_notMem hkey, List.append_assoc]
                rfl

/-- Nodes are read as the members whose entries they are, in their order. -/
theorem asMembers?_eq_some_iff {children : List Document} {members : Members} :
    asMembers? children = some members ↔
      children = members.entries.map fun (key, value) => entry key value := by
  constructor
  · intro hmembers
    obtain ⟨added, rfl, hall⟩ := exists_entries_of_addEntries? hmembers
    rw [hall]
    rfl
  · rintro rfl
    exact addEntries?_entries (List.nil_append _).symm

theorem asMembers?_entries (members : Members) :
    asMembers? (members.entries.map fun (key, value) => entry key value) = some members :=
  asMembers?_eq_some_iff.mpr rfl

theorem rebuild_object_entries (members others : Members) :
    (object members).rebuild (others.entries.map fun (key, value) => entry key value) =
      object others := by
  rw [rebuild_object, asMembers?_entries]

theorem rebuild_object_of_asMembers?_eq_none (members : Members) {children : List Document}
    (hchildren : asMembers? children = none) :
    (object members).rebuild children = array children := by
  rw [rebuild_object, hchildren]

/-! ## The laws -/

theorem isBranch_rebuild (document : Document) (children : List Document) :
    (document.rebuild children).isBranch = true := by
  cases hbranch : document.isBranch with
  | false => rw [rebuild_leaf hbranch, isBranch_array]
  | true =>
      obtain ⟨items, rfl⟩ | ⟨members, rfl⟩ := exists_of_isBranch hbranch
      · rw [rebuild_array, isBranch_array]
      · cases hchildren : asMembers? children with
        | none => rw [rebuild_object_of_asMembers?_eq_none members hchildren, isBranch_array]
        | some others =>
            rw [asMembers?_eq_some_iff.mp hchildren, rebuild_object_entries, isBranch_object]

theorem children_rebuild {document : Document} (hbranch : document.isBranch = true)
    (children : List Document) : (document.rebuild children).children = children := by
  obtain ⟨items, rfl⟩ | ⟨members, rfl⟩ := exists_of_isBranch hbranch
  · rw [rebuild_array, children_array]
  · cases hchildren : asMembers? children with
    | none => rw [rebuild_object_of_asMembers?_eq_none members hchildren, children_array]
    | some others =>
        rw [asMembers?_eq_some_iff.mp hchildren, rebuild_object_entries, children_object]

/-- The last members of an object are the members of an object. -/
theorem exists_members_of_suffix {members : Members} {rest : List Document}
    (hsuffix : rest <:+ (object members).children) :
    ∃ others, rest = (object others).children := by
  rw [children_object] at hsuffix
  obtain ⟨entries, hentries, rfl⟩ := List.suffix_map_iff.mp hsuffix
  have hnodup : (entries.map Prod.fst).Nodup :=
    members.nodup.sublist (hentries.map Prod.fst).sublist
  exact ⟨⟨entries, hnodup⟩, (children_object ⟨entries, hnodup⟩).symm⟩

theorem rebuild_rebuild_object (members others : Members) (children : List Document) :
    ((object members).rebuild (object others).children).rebuild children =
      (object members).rebuild children := by
  rw [children_object, rebuild_object_entries]
  rfl

instance : LawfulTree Document where
  isBranch_rebuild := isBranch_rebuild
  children_rebuild hbranch := children_rebuild hbranch
  children_rebuild_leaf hleaf children := by
    rw [tree_rebuild, rebuild_leaf hleaf, tree_children, children_array]
  children_leaf hleaf := children_leaf hleaf
  rebuild_children {document} hbranch := by
    obtain ⟨items, rfl⟩ | ⟨members, rfl⟩ := exists_of_isBranch hbranch
    · rw [tree_children, tree_rebuild, rebuild_array, children_array]
    · rw [tree_children, tree_rebuild, children_object, rebuild_object_entries]
  rebuild_rebuild_suffix {document} hbranch rest children hsuffix _ := by
    obtain ⟨items, rfl⟩ | ⟨members, rfl⟩ := exists_of_isBranch hbranch
    · rfl
    · obtain ⟨others, rfl⟩ := exists_members_of_suffix hsuffix
      exact rebuild_rebuild_object members others children

end Document

end TreeCursor

/-! ## Objects as arrays of their entries -/

namespace TreeCursor.Json

mutual

/-- The value with every object in it read as the array of its entries. -/
def plain : Json → Json
  | .null => .null
  | .bool value => .bool value
  | .number value => .number value
  | .string value => .string value
  | .array items => .array (plainItems items)
  | .object members => .array (plainMembers members)

def plainItems : List Json → List Json
  | [] => []
  | item :: items => item.plain :: plainItems items

def plainMembers : List (String × Json) → List Json
  | [] => []
  | (key, value) :: members => .array [.string key, value.plain] :: plainMembers members

end

theorem plainItems_eq_map (items : List Json) : plainItems items = items.map plain := by
  induction items with
  | nil => rfl
  | cons item items ih => rw [plainItems, ih, List.map_cons]

theorem plainMembers_eq_map (members : List (String × Json)) :
    plainMembers members =
      members.map fun member => .array [.string member.1, member.2.plain] := by
  induction members with
  | nil => rfl
  | cons member members ih => rw [plainMembers, ih, List.map_cons]

mutual

theorem wellFormed_plain : (value : Json) → value.plain.WellFormed
  | .null => .null
  | .bool value => .bool value
  | .number value => .number value
  | .string value => .string value
  | .array items => by
      rw [plain]
      exact .array (wellFormed_plainItems items)
  | .object members => by
      rw [plain]
      exact .array (wellFormed_plainMembers members)

theorem wellFormed_plainItems : (items : List Json) → ∀ item ∈ plainItems items, item.WellFormed
  | [] => by simp [plainItems]
  | item :: items => by
      rw [plainItems]
      exact List.forall_mem_cons.mpr ⟨wellFormed_plain item, wellFormed_plainItems items⟩

theorem wellFormed_plainMembers : (members : List (String × Json)) →
    ∀ item ∈ plainMembers members, item.WellFormed
  | [] => by simp [plainMembers]
  | (key, value) :: members => by
      rw [plainMembers]
      refine List.forall_mem_cons.mpr ⟨.array ?_, wellFormed_plainMembers members⟩
      refine List.forall_mem_cons.mpr ⟨.string key, ?_⟩
      exact List.forall_mem_singleton.mpr (wellFormed_plain value)

end

end TreeCursor.Json

namespace TreeCursor.Document

/-- The document with every object in it read as the array of its entries. -/
def plain (document : Document) : Document :=
  ⟨document.value.plain, document.value.wellFormed_plain⟩

theorem plain_array (items : List Document) : (array items).plain = array (items.map plain) := by
  apply ext_value
  simp [plain, array, Json.plain, Json.plainItems_eq_map, List.map_map, Function.comp_def]

theorem plain_object (members : Members) :
    (object members).plain = array ((object members).children.map plain) := by
  apply ext_value
  rw [children_object]
  simp [plain, object, array, entry, string, Json.plain, Json.plainMembers_eq_map,
    Json.plainItems, List.map_map, Function.comp_def]

/-- Whether or not an object becomes an array, it is read as one. -/
theorem plain_rebuild_object (members : Members) (children : List Document) :
    ((object members).rebuild children).plain = array (children.map plain) := by
  cases hchildren : asMembers? children with
  | none => rw [rebuild_object_of_asMembers?_eq_none members hchildren, plain_array]
  | some others =>
      rw [asMembers?_eq_some_iff.mp hchildren, rebuild_object_entries, plain_object,
        children_object]

instance : PlainTree Document where
  plain := plain
  plain_rebuild {document} hbranch children := by
    obtain ⟨items, rfl⟩ | ⟨members, rfl⟩ := exists_of_isBranch hbranch
    · rw [tree_rebuild, rebuild_array, plain_array, plain_array]
      rfl
    · rw [tree_rebuild, plain_rebuild_object, plain_object]
      rfl
  rebuild_rebuild_plain {document} hbranch before children := by
    obtain ⟨items, rfl⟩ | ⟨members, rfl⟩ := exists_of_isBranch hbranch
    · rw [plain_array]
      rfl
    · rw [plain_object]
      rfl

end TreeCursor.Document
