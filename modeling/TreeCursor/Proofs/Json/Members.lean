import Mathlib.Data.List.InsertIdx
import Mathlib.Data.List.Perm.Basic
import TreeCursor.Proofs.Script.Routes
import TreeCursor.Proofs.Tree.Shape
import TreeCursor.Proofs.Zipper.Editing

/-!
# Objects as ordered maps

Below an object its members stand as arrays of their keys and values.  Editing these at the cursor
edits the object as a map that keeps the order of its members.  Where the new key of a member is no
string, or is the key of another member, the object becomes the array of its entries.  This array
stands where the object stood: all objects above it still have their members in their order.
-/

namespace TreeCursor

open TreeCursor.Tree

namespace Json

/-- The value with another one at the end of a route.  Below an object a route goes on from a member
to its second child, the value. -/
def put : Json → List ℕ → Json → Json
  | _, [], new => new
  | .array items, index :: route, new => .array (items.modify index fun item => item.put route new)
  | .object members, index :: 1 :: route, new =>
      .object (members.modify index fun (key, value) => (key, value.put route new))
  | value, _, _ => value
termination_by structural _ route _ => route

/-- The members of an object as they stand below it. -/
def entries (members : List (String × Json)) : List Json :=
  members.map fun (key, value) => .array [.string key, value]

/-- The object of these members, or the array of them if two have the same key. -/
def ofMembers (members : List (String × Json)) : Json :=
  if (members.map Prod.fst).Nodup then .object members else .array (entries members)

end Json

/-- The members as values without their proofs. -/
def Members.values (members : Members) : List (String × Json) :=
  members.entries.map fun (key, document) => (key, document.value)

theorem Members.nodup_values (members : Members) : (members.values.map Prod.fst).Nodup := by
  rw [values, List.map_map]
  exact members.nodup

theorem Members.getElem?_values {members : Members} {index : ℕ} {key : String} {value : Document}
    (hmember : members.entries[index]? = some (key, value)) :
    members.values[index]? = some (key, value.value) := by
  rw [values, List.getElem?_map, hmember]
  rfl

/-! ## Changes of an ordered map -/

theorem modify_eq_set_of_getElem? {α : Type*} {items : List α} {index : ℕ} {item : α}
    (hitem : items[index]? = some item) (change : α → α) :
    items.modify index change = items.set index (change item) := by
  rw [List.modify_eq_set_getElem?, hitem]
  rfl

section OrderedMap

variable {β : Type*} {members : List (String × β)} {index : ℕ} (name : String) (other : β)

theorem map_fst_set_of_getElem? {key : String} {value : β}
    (hmember : members[index]? = some (key, value)) :
    (members.set index (key, other)).map Prod.fst = members.map Prod.fst := by
  have hkey : (members.map Prod.fst)[index]? = some key := by
    rw [List.getElem?_map, hmember]
    rfl
  calc
    (members.set index (key, other)).map Prod.fst = (members.map Prod.fst).set index key :=
      List.map_set
    _ = (members.map Prod.fst).modify index id := (modify_eq_set_of_getElem? hkey id).symm
    _ = members.map Prod.fst := List.modify_id index _

theorem nodup_map_fst_eraseIdx (hnodup : (members.map Prod.fst).Nodup) :
    ((members.eraseIdx index).map Prod.fst).Nodup :=
  hnodup.sublist ((List.eraseIdx_sublist members index).map Prod.fst)

/-- A member renamed keeps keys apart if no other member has the new key. -/
theorem nodup_map_fst_set_iff (hnodup : (members.map Prod.fst).Nodup)
    (hindex : index < members.length) :
    ((members.set index (name, other)).map Prod.fst).Nodup ↔
      name ∉ (members.eraseIdx index).map Prod.fst := by
  have hperm : ((members.set index (name, other)).map Prod.fst).Perm
      (name :: (members.eraseIdx index).map Prod.fst) :=
    (List.set_perm_cons_eraseIdx hindex (name, other)).map Prod.fst
  rw [hperm.nodup_iff, List.nodup_cons]
  exact and_iff_left (nodup_map_fst_eraseIdx hnodup)

/-- A new member keeps keys apart if no member has its key. -/
theorem nodup_map_fst_insertIdx_iff (hnodup : (members.map Prod.fst).Nodup)
    (hindex : index ≤ members.length) :
    ((members.insertIdx index (name, other)).map Prod.fst).Nodup ↔
      name ∉ members.map Prod.fst := by
  have hperm : ((members.insertIdx index (name, other)).map Prod.fst).Perm
      (name :: members.map Prod.fst) :=
    (List.perm_insertIdx (name, other) members hindex).map Prod.fst
  rw [hperm.nodup_iff, List.nodup_cons]
  exact and_iff_left hnodup

end OrderedMap

namespace Json

theorem ofMembers_of_nodup {members : List (String × Json)}
    (hnodup : (members.map Prod.fst).Nodup) : ofMembers members = .object members :=
  if_pos hnodup

variable {members : List (String × Json)} {index : ℕ} (name : String) (other : Json)

theorem ofMembers_set (hnodup : (members.map Prod.fst).Nodup) (hindex : index < members.length) :
    ofMembers (members.set index (name, other)) =
      if name ∈ (members.eraseIdx index).map Prod.fst then
        .array (entries (members.set index (name, other)))
      else .object (members.set index (name, other)) := by
  rw [ofMembers, if_congr (nodup_map_fst_set_iff name other hnodup hindex) rfl rfl, ite_not]

theorem ofMembers_insertIdx (hnodup : (members.map Prod.fst).Nodup)
    (hindex : index ≤ members.length) :
    ofMembers (members.insertIdx index (name, other)) =
      if name ∈ members.map Prod.fst then
        .array (entries (members.insertIdx index (name, other)))
      else .object (members.insertIdx index (name, other)) := by
  rw [ofMembers, if_congr (nodup_map_fst_insertIdx_iff name other hnodup hindex) rfl rfl,
    ite_not]

theorem put_array {items : List Json} {item : Json} (hitem : items[index]? = some item)
    (route : List ℕ) (new : Json) :
    (array items).put (index :: route) new = .array (items.set index (item.put route new)) := by
  rw [put, modify_eq_set_of_getElem? hitem]

theorem put_object {key : String} {value : Json} (hmember : members[index]? = some (key, value))
    (route : List ℕ) (new : Json) :
    (object members).put (index :: 1 :: route) new =
      .object (members.set index (key, value.put route new)) := by
  rw [put, modify_eq_set_of_getElem? hmember]

end Json

/-! ## Objects over changed entries -/

namespace Document

variable {members : Members} {index : ℕ} {key : String} {value : Document}

theorem exists_object_of_value {document : Document} {values : List (String × Json)}
    (hvalue : document.value = .object values) :
    ∃ members : Members, document = object members ∧ members.values = values := by
  have hbranch : document.isBranch = true := by rw [isBranch, hvalue]
  obtain ⟨items, rfl⟩ | ⟨members, rfl⟩ := exists_of_isBranch hbranch
  · cases hvalue
  · exact ⟨members, rfl, Json.object.inj hvalue⟩

theorem value_array_entries (members : List (String × Document)) :
    (array (members.map fun (key, value) => entry key value)).value =
      .array (Json.entries (members.map fun (key, value) => (key, value.value))) := by
  have hitems : (members.map fun (key, value) => entry key value).map value =
      Json.entries (members.map fun (key, value) => (key, value.value)) := by
    rw [Json.entries, List.map_map, List.map_map]
    rfl
  exact congrArg Json.array hitems

/-- Over entries an object has these as its members if their keys are different. -/
theorem value_rebuild_object (members : Members) (others : List (String × Document)) :
    ((object members).rebuild (others.map fun (key, value) => entry key value)).value =
      .ofMembers (others.map fun (key, value) => (key, value.value)) := by
  have hkeys : (others.map fun (key, value) => (key, value.value)).map Prod.fst =
      others.map Prod.fst := by
    rw [List.map_map]
    rfl
  rw [Json.ofMembers, hkeys]
  by_cases hnodup : (others.map Prod.fst).Nodup
  · rw [if_pos hnodup, rebuild_object_entries members ⟨others, hnodup⟩]
    rfl
  · have hnone := asMembers?_entries_eq_none_iff.mpr hnodup
    rw [if_neg hnodup, rebuild_object_of_asMembers?_eq_none members hnone, value_array_entries]

theorem value_editChildren_object (change : List Document → List Document)
    {others : List (String × Document)}
    (hchange : change (object members).children =
      others.map fun (key, value) => entry key value) :
    (editChildren change (object members)).value =
      .ofMembers (others.map fun (key, value) => (key, value.value)) := by
  rw [editChildren, tree_children, tree_rebuild, hchange, value_rebuild_object]

theorem value_erase_member (index : ℕ) :
    (editChildren (·.eraseIdx index) (object members)).value =
      .object (members.values.eraseIdx index) := by
  have hchange : (object members).children.eraseIdx index =
      (members.entries.eraseIdx index).map fun (key, value) => entry key value := by
    rw [children_object, List.eraseIdx_map]
  rw [value_editChildren_object _ hchange, ← List.eraseIdx_map]
  exact Json.ofMembers_of_nodup (nodup_map_fst_eraseIdx members.nodup_values)

theorem value_insert_member (index : ℕ) (name : String) (node : Document) :
    (editChildren (·.insertIdx index (entry name node)) (object members)).value =
      .ofMembers (members.values.insertIdx index (name, node.value)) := by
  have hchange : (object members).children.insertIdx index (entry name node) =
      (members.entries.insertIdx index (name, node)).map fun (key, value) => entry key value := by
    rw [children_object, List.map_insertIdx]
  rw [value_editChildren_object (·.insertIdx index (entry name node)) hchange,
    List.map_insertIdx]
  rfl

theorem editAt_object_cons (edit : Document → Document) (route : List ℕ)
    (hmember : members.entries[index]? = some (key, value)) :
    editAt edit (index :: route) (object members) =
      editChildren (·.set index (editAt edit route (entry key value))) (object members) := by
  have hchild : (object members).children[index]? = some (entry key value) := by
    rw [children_object]
    exact getElem?_entries_eq_some_iff.mpr hmember
  rw [editAt, editChildren, tree_children, modify_eq_set_of_getElem? hchild]

/-- An edit below a member that leaves an entry sets the member. -/
theorem value_editAt_object_cons {edit : Document → Document} {route : List ℕ} {name : String}
    {node : Document} (hmember : members.entries[index]? = some (key, value))
    (hedit : editAt edit route (entry key value) = entry name node) :
    (editAt edit (index :: route) (object members)).value =
      .ofMembers (members.values.set index (name, node.value)) := by
  have hchange : (object members).children.set index (entry name node) =
      (members.entries.set index (name, node)).map fun (key, value) => entry key value := by
    rw [children_object, List.map_set]
  rw [editAt_object_cons edit route hmember, hedit, value_editChildren_object _ hchange,
    List.map_set]
  rfl

theorem editAt_entry_key (node : Document) :
    editAt (fun _ => node) [0] (entry key value) = array [node, value] := by
  rw [editAt, tree_children, tree_rebuild, entry, children_array, rebuild_array]
  rfl

theorem editAt_entry_value (edit : Document → Document) (route : List ℕ) :
    editAt edit (1 :: route) (entry key value) = entry key (editAt edit route value) := by
  rw [editAt, tree_children, tree_rebuild, entry, children_array, rebuild_array]
  rfl

/-- An edit below the value of a member leaves the members in their order. -/
theorem value_editAt_member (edit : Document → Document) (route : List ℕ)
    (hmember : members.entries[index]? = some (key, value)) :
    (editAt edit (index :: 1 :: route) (object members)).value =
      .object (members.values.set index (key, (editAt edit route value).value)) := by
  rw [value_editAt_object_cons hmember (editAt_entry_value edit route)]
  apply Json.ofMembers_of_nodup
  rw [map_fst_set_of_getElem? _ (Members.getElem?_values hmember)]
  exact members.nodup_values

/-- An edit that leaves no string for the key of a member leaves no object. -/
theorem value_editAt_key_of_not_string (hmember : members.entries[index]? = some (key, value))
    {node : Document} (hnode : ∀ name, node ≠ string name) :
    (editAt (fun _ => node) [index, 0] (object members)).value =
      .array ((Json.entries members.values).set index (.array [node.value, value.value])) := by
  have hindex : index < (object members).children.length := by
    rw [children_object, List.length_map]
    exact (List.getElem?_eq_some_iff.mp hmember).1
  have hother : ∀ name other, array [node, value] ≠ array [string name, other] := by
    intro name other heq
    have hchildren := congrArg children heq
    rw [children_array, children_array] at hchildren
    exact hnode name (List.cons.inj hchildren).1
  have hnone : asMembers? ((object members).children.set index (array [node, value])) = none :=
    asMembers?_eq_none_iff.mpr (Or.inl ⟨_, List.mem_set hindex _, hother⟩)
  have hvalues : (object members).children.map Document.value = Json.entries members.values := by
    rw [children_object]
    exact Json.array.inj (value_array_entries members.entries)
  rw [editAt_object_cons _ _ hmember, editAt_entry_key, editChildren, tree_children, tree_rebuild,
    rebuild_object_of_asMembers?_eq_none members hnone, ← hvalues]
  exact congrArg Json.array List.map_set

/-! ## Edits on the way to the root -/

theorem value_editAt_item {items : List Document} {child : Document}
    (hchild : items[index]? = some child) (edit : Document → Document) (route : List ℕ) :
    (editAt edit (index :: route) (array items)).value =
      .array ((items.map Document.value).set index (editAt edit route child).value) := by
  rw [editAt, tree_children, tree_rebuild, rebuild_array, children_array,
    modify_eq_set_of_getElem? hchild]
  exact congrArg Json.array List.map_set

/-- An object below an entry is its value or stands below it. -/
theorem exists_of_nodeAt_entry {route : List ℕ}
    (hplace : nodeAt (entry key value) route = some (object members)) :
    ∃ below, route = 1 :: below ∧ nodeAt value below = some (object members) := by
  cases route with
  | nil => cases congrArg (Option.map Document.value) hplace
  | cons child below =>
      rw [nodeAt_cons, tree_children, entry, children_array] at hplace
      rcases child with _ | _ | child
      · cases below with
        | nil => cases congrArg (Option.map Document.value) hplace
        | cons index below => cases hplace
      · exact ⟨below, rfl, hplace⟩
      · cases hplace

/-- An edit of an object puts what becomes of it in its place.  No node above it takes a new
shape, and no member moves. -/
theorem value_editAt (edit : Document → Document) (route : List ℕ) (document : Document)
    (hplace : nodeAt document route = some (object members)) :
    (editAt edit route document).value =
      document.value.put route (edit (object members)).value := by
  match route with
  | [] =>
      cases hplace
      rw [Json.put]
      rfl
  | index :: route =>
      obtain ⟨child, hchild, hbelow⟩ := Option.bind_eq_some_iff.mp hplace
      have hbranch : Tree.isBranch document = true :=
        isBranch_of_children_ne_nil (List.ne_nil_of_mem (List.mem_of_getElem? hchild))
      obtain ⟨items, rfl⟩ | ⟨others, rfl⟩ := exists_of_isBranch hbranch
      · rw [tree_children, children_array] at hchild
        rw [value_editAt_item hchild, value_editAt edit route child hbelow]
        have hitem : (items.map Document.value)[index]? = some child.value := by
          rw [List.getElem?_map, hchild]
          rfl
        exact (Json.put_array hitem route _).symm
      · rw [tree_children, children_object, List.getElem?_map] at hchild
        obtain ⟨⟨key, value⟩, hmember, rfl⟩ := Option.map_eq_some_iff.mp hchild
        obtain ⟨below, rfl, hvalue⟩ := exists_of_nodeAt_entry hbelow
        -- The way through a member takes two indices, so that the length of the route decreases.
        rw [value_editAt_member edit below hmember, value_editAt edit below value hvalue]
        exact (Json.put_object (Members.getElem?_values hmember) below _).symm
termination_by route.length

end Document

/-! ## Edits at the cursor -/

namespace Zipper

open TreeCursor.Document

section Edits

variable {document : Document} {route : List ℕ} {members : Members} {index : ℕ}
variable {z : Zipper Document}
variable (hplace : nodeAt document route = some (object members)) (hwalked : Walked document z)
include hplace hwalked

omit hwalked in
/-- Moves lead to a member and to its key and its value. -/
theorem exists_walked_member {key : String} {value : Document}
    (hmember : members.entries[index]? = some (key, value)) {below : List ℕ}
    (hbelow : below ∈ [[index], [index, 0], [index, 1]]) :
    ∃ w, Walked document w ∧ w.route = route ++ below := by
  have hchild : (Tree.children (object members))[index]? = some (entry key value) := by
    rw [tree_children, children_object]
    exact getElem?_entries_eq_some_iff.mpr hmember
  have hnode : ∀ rest node, nodeAt (entry key value) rest = some node →
      nodeAt document (route ++ index :: rest) = some node := by
    intro rest node hrest
    rw [nodeAt_append, hplace, Option.bind_some, nodeAt_cons, hchild, Option.bind_some, hrest]
  simp only [List.mem_cons, List.not_mem_nil, or_false] at hbelow
  obtain rfl | rfl | rfl := hbelow
  · exact Script.exists_walked (hnode [] (entry key value) rfl)
  · exact Script.exists_walked (hnode [0] (string key) rfl)
  · exact Script.exists_walked (hnode [1] value rfl)

/-- An edit that has a meaning for an object is put in the object's place. -/
theorem exists_put_of_reference {edit : Edit Document} {change : Document → Document}
    {place : List ℕ}
    (hreference : edit.reference document z.route = some (editAt change route document, place)) :
    ∃ w, edit.apply z = .ok w ∧
      w.root.value = document.value.put route (change (object members)).value := by
  obtain ⟨w, happly, hroot⟩ := exists_of_reference hwalked hreference
  refine ⟨w, happly, ?_⟩
  rw [hroot, value_editAt change route document hplace]

theorem value_root_replace {below : List ℕ} (hroute : z.route = route ++ below)
    (node : Document) :
    (z.replace node).root.value =
      document.value.put route (editAt (fun _ => node) below (object members)).value := by
  have hreference : (Edit.replace node).reference document z.route =
      some (editAt (editAt (fun _ => node) below) route document, route ++ below) := by
    rw [Edit.reference, hroute, editAt_append]
  obtain ⟨w, happly, hvalue⟩ := exists_put_of_reference hplace hwalked hreference
  cases happly
  exact hvalue

theorem exists_remove_member (hroute : z.route = route ++ [index]) :
    ∃ w, z.remove = .ok w ∧
      w.root.value = document.value.put route (.object (members.values.eraseIdx index)) := by
  have hreference := reference_remove document route index
  rw [← hroute] at hreference
  rw [← value_erase_member]
  exact exists_put_of_reference hplace hwalked hreference

theorem exists_insertLeft_member (hroute : z.route = route ++ [index]) (name : String)
    (node : Document) :
    ∃ w, z.insertLeft (entry name node) = .ok w ∧
      w.root.value = document.value.put route
        (.ofMembers (members.values.insertIdx index (name, node.value))) := by
  have hreference := reference_insertLeft document (entry name node) route index
  rw [← hroute] at hreference
  rw [← value_insert_member]
  exact exists_put_of_reference hplace hwalked hreference

theorem exists_insertRight_member (hroute : z.route = route ++ [index]) (name : String)
    (node : Document) :
    ∃ w, z.insertRight (entry name node) = .ok w ∧
      w.root.value = document.value.put route
        (.ofMembers (members.values.insertIdx (index + 1) (name, node.value))) := by
  have hreference := reference_insertRight document (entry name node) route index
  rw [← hroute] at hreference
  rw [← value_insert_member]
  exact exists_put_of_reference hplace hwalked hreference

end Edits

/-- From the root of a document moves lead to each member of each object in it, to its key and to
its value.  A new value takes its place under the same key.  A new key renames the member where it
stands, but one that is no string or that another member has makes of the object the array of its
entries.  A removal takes out the member alone.  An entry with a new key comes in as a member
directly before or after, and one with a key that is there makes of the object the array of all
entries.  The rest of the document stays as it is: the objects above keep their members in order. -/
theorem edits_members_in_order {document : Document} {route : List ℕ}
    {members : List (String × Json)} {index : ℕ} {key : String} {value : Json}
    (hobject : (nodeAt document route).map Document.value = some (.object members))
    (hmember : members[index]? = some (key, value)) :
    (∀ below ∈ [[index], [index, 0], [index, 1]],
      ∃ z, Walked document z ∧ z.route = route ++ below) ∧
    (∀ z, Walked document z → z.route = route ++ [index, 1] → ∀ node,
      (z.replace node).root.value =
        document.value.put route (.object (members.set index (key, node.value)))) ∧
    (∀ z, Walked document z → z.route = route ++ [index, 0] →
      (∀ name, (z.replace (.string name)).root.value = document.value.put route
        (if name ∈ (members.eraseIdx index).map Prod.fst then
          .array (Json.entries (members.set index (name, value)))
        else .object (members.set index (name, value)))) ∧
      ∀ node, (∀ name, node ≠ .string name) →
        (z.replace node).root.value = document.value.put route
          (.array ((Json.entries members).set index (.array [node.value, value])))) ∧
    (∀ z, Walked document z → z.route = route ++ [index] →
      ∃ w, z.remove = .ok w ∧
        w.root.value = document.value.put route (.object (members.eraseIdx index))) ∧
    (∀ z, Walked document z → z.route = route ++ [index] → ∀ name node,
      (∃ w, z.insertLeft (.entry name node) = .ok w ∧
        w.root.value = document.value.put route
          (if name ∈ members.map Prod.fst then
            .array (Json.entries (members.insertIdx index (name, node.value)))
          else .object (members.insertIdx index (name, node.value)))) ∧
      ∃ w, z.insertRight (.entry name node) = .ok w ∧
        w.root.value = document.value.put route
          (if name ∈ members.map Prod.fst then
            .array (Json.entries (members.insertIdx (index + 1) (name, node.value)))
          else .object (members.insertIdx (index + 1) (name, node.value)))) := by
  obtain ⟨place, hplace, hvalue⟩ := Option.map_eq_some_iff.mp hobject
  obtain ⟨ordered, rfl, rfl⟩ := exists_object_of_value hvalue
  obtain ⟨⟨key, value⟩, hentry, heq⟩ :=
    Option.map_eq_some_iff.mp (List.getElem?_map ▸ hmember)
  cases heq
  have hindex : index < ordered.values.length := (List.getElem?_eq_some_iff.mp hmember).1
  have hnodup := ordered.nodup_values
  refine ⟨fun below hbelow => exists_walked_member hplace hentry hbelow, ?_, ?_, ?_, ?_⟩
  · intro z hwalked hroute node
    rw [value_root_replace hplace hwalked hroute, value_editAt_member _ [] hentry]
    rfl
  · intro z hwalked hroute
    constructor
    · intro name
      rw [value_root_replace hplace hwalked hroute,
        value_editAt_object_cons hentry (editAt_entry_key (.string name)),
        Json.ofMembers_set name value.value hnodup hindex]
    · intro node hnode
      rw [value_root_replace hplace hwalked hroute, value_editAt_key_of_not_string hentry hnode]
  · intro z hwalked hroute
    exact exists_remove_member hplace hwalked hroute
  · intro z hwalked hroute name node
    rw [← Json.ofMembers_insertIdx name node.value hnodup hindex.le,
      ← Json.ofMembers_insertIdx name node.value hnodup hindex]
    exact ⟨exists_insertLeft_member hplace hwalked hroute name node,
      exists_insertRight_member hplace hwalked hroute name node⟩

/-- The second member of an object in an array, which is itself the value of a member, gets a new
value, a new key, the key of the other member and a key that is no string; then it is removed, and a
member with a new key and one with a key that is there come in beside it. -/
theorem edits_members_of_nested_object :
    ∃ document : Document,
      document.value =
        .object [("x", .array [.object [("a", .null), ("b", .bool true)]]), ("y", .null)] ∧
      (nodeAt document [0, 1, 0]).map Document.value =
        some (.object [("a", .null), ("b", .bool true)]) ∧
      (∃ z, Walked document z ∧ z.route = [0, 1, 0, 1, 1] ∧
        (z.replace (.bool false)).root.value =
          .object [("x", .array [.object [("a", .null), ("b", .bool false)]]), ("y", .null)]) ∧
      (∃ z, Walked document z ∧ z.route = [0, 1, 0, 1, 0] ∧
        (z.replace (.string "c")).root.value =
          .object [("x", .array [.object [("a", .null), ("c", .bool true)]]), ("y", .null)] ∧
        (z.replace (.string "a")).root.value =
          .object [("x", .array [.array [.array [.string "a", .null],
            .array [.string "a", .bool true]]]), ("y", .null)] ∧
        (z.replace .null).root.value =
          .object [("x", .array [.array [.array [.string "a", .null],
            .array [.null, .bool true]]]), ("y", .null)]) ∧
      (∃ z w, Walked document z ∧ z.route = [0, 1, 0, 1] ∧ z.remove = .ok w ∧
        w.root.value = .object [("x", .array [.object [("a", .null)]]), ("y", .null)]) ∧
      ∃ z w w', Walked document z ∧ z.route = [0, 1, 0, 1] ∧
        z.insertLeft (.entry "c" .null) = .ok w ∧
        w.root.value = .object [("x", .array [.object [("a", .null), ("c", .null),
          ("b", .bool true)]]), ("y", .null)] ∧
        z.insertRight (.entry "a" .null) = .ok w' ∧
        w'.root.value = .object [("x", .array [.array [.array [.string "a", .null],
          .array [.string "b", .bool true], .array [.string "a", .null]]]), ("y", .null)] := by
  obtain ⟨document, hvalue, hobject⟩ : ∃ document : Document,
      document.value =
        .object [("x", .array [.object [("a", .null), ("b", .bool true)]]), ("y", .null)] ∧
      (nodeAt document [0, 1, 0]).map Document.value =
        some (.object [("a", .null), ("b", .bool true)]) :=
    ⟨.object ⟨[("x", .array [.object ⟨[("a", .null), ("b", .bool true)], by decide⟩]),
      ("y", .null)], by decide⟩, rfl, rfl⟩
  have hmember : [("a", Json.null), ("b", Json.bool true)][1]? = some ("b", Json.bool true) := rfl
  obtain ⟨hwalked, hset, hkey, hremove, hinsert⟩ := edits_members_in_order hobject hmember
  rw [hvalue] at hset hkey hremove hinsert
  obtain ⟨atValue, hatValue, hrouteValue⟩ := hwalked [1, 1] (by decide)
  obtain ⟨atKey, hatKey, hrouteKey⟩ := hwalked [1, 0] (by decide)
  obtain ⟨atMember, hatMember, hrouteMember⟩ := hwalked [1] (by decide)
  obtain ⟨hname, hother⟩ := hkey atKey hatKey hrouteKey
  obtain ⟨w, hw, hwroot⟩ := hremove atMember hatMember hrouteMember
  obtain ⟨⟨left, hleft, hleftroot⟩, -⟩ := hinsert atMember hatMember hrouteMember "c" .null
  obtain ⟨-, right, hright, hrightroot⟩ := hinsert atMember hatMember hrouteMember "a" .null
  refine ⟨document, hvalue, hobject, ⟨atValue, hatValue, hrouteValue, ?_⟩,
    ⟨atKey, hatKey, hrouteKey, ?_, ?_, ?_⟩, ⟨atMember, w, hatMember, hrouteMember, hw, hwroot⟩,
    atMember, left, right, hatMember, hrouteMember, hleft, hleftroot, hright, hrightroot⟩
  · exact hset atValue hatValue hrouteValue (.bool false)
  · exact hname "c"
  · exact hname "a"
  · apply hother
    intro name heq
    cases congrArg Document.value heq

end Zipper

end TreeCursor
