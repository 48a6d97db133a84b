import TreeCursor.Json.Basic
import TreeCursor.Tree

/-!
# JSON documents as trees

A document is a JSON value in which no object repeats a key.  As a tree its branches are the
arrays and the objects; the children of an object are its members, each as an array of the key and
the value.  Rebuilt over children that are no such entries, or that repeat a key, an object becomes
an array.
-/

namespace TreeCursor

/-- A JSON value in which no object repeats a key. -/
structure Document where
  value : Json
  wellFormed : value.WellFormed

/-- The members of an object, in order and with different keys. -/
structure Members where
  entries : List (String × Document)
  nodup : (entries.map Prod.fst).Nodup

namespace Members

def empty : Members := ⟨[], List.nodup_nil⟩

theorem map_fst_replace (entries : List (String × Document)) (key : String) (value : Document) :
    (entries.map fun entry => if entry.1 = key then (key, value) else entry).map Prod.fst =
      entries.map Prod.fst := by
  rw [List.map_map]
  apply List.map_congr_left
  intro entry _
  by_cases h : entry.1 = key <;> simp [h]

/-- The members with a value set: in its place when the key is there, and else at the end. -/
def insert (members : Members) (key : String) (value : Document) : Members :=
  if h : key ∈ members.entries.map Prod.fst then
    ⟨members.entries.map fun entry => if entry.1 = key then (key, value) else entry,
      by rw [map_fst_replace]; exact members.nodup⟩
  else
    ⟨members.entries ++ [(key, value)], by
      rw [List.map_append, List.nodup_append]
      refine ⟨members.nodup, by simp, ?_⟩
      intro k hk k' hk' heq
      simp only [List.map_cons, List.map_nil, List.mem_singleton] at hk'
      subst hk' heq
      exact h hk⟩

/-- The members that a list of entries leaves, where a later value replaces an earlier one. -/
def ofList (entries : List (String × Document)) : Members :=
  entries.foldl (fun members entry => members.insert entry.1 entry.2) empty

end Members

namespace Document

instance : BEq Document where
  beq a b := a.value == b.value

def null : Document := ⟨.null, .null⟩

def bool (value : Bool) : Document := ⟨.bool value, .bool value⟩

def number (value : Number) : Document := ⟨.number value, .number value⟩

def string (value : String) : Document := ⟨.string value, .string value⟩

def array (items : List Document) : Document where
  value := .array (items.map value)
  wellFormed := .array fun item h => by
    obtain ⟨document, _, rfl⟩ := List.mem_map.1 h
    exact document.wellFormed

def object (members : Members) : Document where
  value := .object (members.entries.map fun (key, document) => (key, document.value))
  wellFormed := by
    refine .object ?_ fun member h => ?_
    · rw [List.map_map]
      exact members.nodup
    · obtain ⟨⟨key, document⟩, _, rfl⟩ := List.mem_map.1 h
      exact document.wellFormed

/-- A member as a node of its own. -/
def entry (key : String) (value : Document) : Document :=
  array [string key, value]

/-- The member that a node stands for, if it is an array of a string and one value more. -/
def asEntry? : Document → Option (String × Document)
  | ⟨.array [.string key, value], h⟩ =>
      some (key, ⟨value, by
        cases h with
        | array h => exact h value (by simp)⟩)
  | _ => none

/-- The members with those that nodes stand for after them, unless a node is no entry or brings a
key that is there already. -/
def addEntries? (members : Members) : List Document → Option Members
  | [] => some members
  | child :: children =>
      match child.asEntry? with
      | none => none
      | some (key, value) =>
          if key ∈ members.entries.map Prod.fst then none
          else addEntries? (members.insert key value) children

/-- The members that nodes stand for, if all are entries and no key comes twice. -/
def asMembers? (children : List Document) : Option Members :=
  addEntries? .empty children

def isBranch (document : Document) : Bool :=
  match document.value with
  | .array _ => true
  | .object _ => true
  | _ => false

/-- The members of an object value, each with its proof. -/
def memberDocuments (members : List (String × Json))
    (h : ∀ member ∈ members, member.2.WellFormed) : List (String × Document) :=
  members.attach.map fun ⟨member, hm⟩ => (member.1, ⟨member.2, h member hm⟩)

def children : Document → List Document
  | ⟨.array items, h⟩ =>
      items.attach.map fun ⟨item, hi⟩ =>
        ⟨item, by
          cases h with
          | array h => exact h item hi⟩
  | ⟨.object members, h⟩ =>
      (memberDocuments members (by
        cases h with
        | object _ h => exact h)).map fun (key, value) => entry key value
  | _ => []

/-- A node in the shape of the document over new children; a leaf becomes their elder sibling in
an array. -/
def rebuild (document : Document) (children : List Document) : Document :=
  match document.value with
  | .object _ =>
      match asMembers? children with
      | some members => object members
      | none => array children
  | .array _ => array children
  | _ => array (document :: children)

theorem itemsCount_eq (items : List Json) :
    Json.itemsCount items = (items.map Json.nodeCount).sum := by
  induction items with
  | nil => rfl
  | cons item items ih => simp [Json.itemsCount, ih]

theorem membersCount_eq (members : List (String × Json)) :
    Json.membersCount members = (members.map fun member => 2 + member.2.nodeCount).sum := by
  induction members with
  | nil => rfl
  | cons member members ih => simp [Json.membersCount, ih]

theorem nodeCount_entry (key : String) (value : Document) :
    (entry key value).value.nodeCount = 2 + value.value.nodeCount := by
  simp [entry, array, string, Json.nodeCount, Json.itemsCount]
  omega

theorem nodeCount_value_eq (document : Document) :
    document.value.nodeCount =
      1 + (document.children.map fun child => child.value.nodeCount).sum := by
  rcases document with ⟨value, h⟩
  cases value with
  | array items =>
      simp only [Json.nodeCount, itemsCount_eq, children, List.map_map]
      congr 2
      conv => lhs; rw [← List.attach_map_subtype_val items]
      rw [List.map_map]
      rfl
  | object members =>
      simp only [Json.nodeCount, membersCount_eq, children, memberDocuments, List.map_map]
      congr 2
      conv => lhs; rw [← List.attach_map_subtype_val members]
      rw [List.map_map]
      apply List.map_congr_left
      intro member _
      simp [nodeCount_entry]
  | _ => simp [Json.nodeCount, children]

instance : Tree Document where
  isBranch := isBranch
  children := children
  rebuild := rebuild
  nodeCount document := document.value.nodeCount
  nodeCount_eq := nodeCount_value_eq

end Document

end TreeCursor
