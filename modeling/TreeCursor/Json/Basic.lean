import TreeCursor.Json.Number

/-!
# JSON values

JSON values with the members of an object in their order.  Equality does not look at that order;
it is the equality of documents, in which no object repeats a key.
-/

namespace TreeCursor

inductive Json where
  | null
  | bool (value : Bool)
  | number (value : Number)
  | string (value : String)
  | array (items : List Json)
  | object (members : List (String × Json))

namespace Json

/-- No object in the value repeats a key. -/
inductive WellFormed : Json → Prop where
  | null : WellFormed .null
  | bool (value : Bool) : WellFormed (.bool value)
  | number (value : Number) : WellFormed (.number value)
  | string (value : String) : WellFormed (.string value)
  | array {items : List Json} (items_wellFormed : ∀ item ∈ items, WellFormed item) :
      WellFormed (.array items)
  | object {members : List (String × Json)} (nodup : (members.map Prod.fst).Nodup)
      (members_wellFormed : ∀ member ∈ members, WellFormed member.2) :
      WellFormed (.object members)

mutual

/-- The number of nodes of a value as a tree, where each member of an object is an array of its
key and its value. -/
def nodeCount : Json → Nat
  | .null => 1
  | .bool _ => 1
  | .number _ => 1
  | .string _ => 1
  | .array items => 1 + itemsCount items
  | .object members => 1 + membersCount members

def itemsCount : List Json → Nat
  | [] => 0
  | item :: items => item.nodeCount + itemsCount items

def membersCount : List (String × Json) → Nat
  | [] => 0
  | (_, value) :: members => 2 + value.nodeCount + membersCount members

end

mutual

/-- Equality up to the order of members. -/
def equal : Json → Json → Bool
  | .null, .null => true
  | .bool a, .bool b => a == b
  | .number a, .number b => a == b
  | .string a, .string b => a == b
  | .array items, .array others => equalItems items others
  | .object members, .object others =>
      members.length == others.length && equalMembers members others
  | _, _ => false

def equalItems : List Json → List Json → Bool
  | [], [] => true
  | item :: items, other :: others => equal item other && equalItems items others
  | _, _ => false

/-- Whether the others have every member, in whatever place. -/
def equalMembers : List (String × Json) → List (String × Json) → Bool
  | [], _ => true
  | (key, value) :: members, others =>
      (match others.lookup key with
        | none => false
        | some other => equal value other) && equalMembers members others

end

instance : BEq Json where
  beq := equal

end Json

end TreeCursor
