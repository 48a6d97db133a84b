/-!
# TOML values

The values of a TOML document, and the tables that its lines build.  While a document is read, a
table remembers how it came about, for a table may be opened only once: a header may open a table
that was only implied by longer headers, and dotted keys may go on with a table that dotted keys
began.
-/

namespace TreeCursor

/-- A value as far as settings can tell: of numbers with a fraction and of dates only their kind
is known. -/
inductive Toml where
  | string (value : String)
  | integer (value : Int)
  | float
  | boolean (value : Bool)
  | date
  | array (items : List Toml)
  | table (entries : List (String × Toml))

namespace Toml

/-- How a table came about. -/
inductive Origin where
  /-- By a header or braces of its own. -/
  | opened
  /-- On the way to a table in a longer header. -/
  | implied
  /-- On the way to a value with a dotted key. -/
  | dotted
  deriving DecidableEq, Repr

/-- What a key stands for while a document is read. -/
inductive Node where
  | value (value : Toml)
  | table (origin : Origin) (entries : List (String × Node))
  /-- An array of tables, the last one first. -/
  | tables (items : List (List (String × Node)))

/-- A table while a document is read. -/
structure Table where
  origin : Origin
  entries : List (String × Node)

namespace Table

def empty : Table := ⟨.opened, []⟩

def get? (table : Table) (key : String) : Option Node :=
  table.entries.lookup key

/-- The table with a key set, at its place or else at the end. -/
def set (table : Table) (key : String) (node : Node) : Table :=
  if (table.get? key).isSome then
    { table with
      entries := table.entries.map fun entry => if entry.1 = key then (key, node) else entry }
  else
    { table with entries := table.entries ++ [(key, node)] }

def erase (table : Table) (key : String) : Table :=
  { table with entries := table.entries.filter fun entry => entry.1 ≠ key }

/-- A change of the table at a path, with a result; the tables on the path are made where there
are none.  The path of a header may go through any table and through the last table of an array;
a dotted key stays within tables that have no header. -/
def change? {β : Type} (origin : Origin) (f : Table → Option (Table × β)) :
    List String → Table → Option (Table × β)
  | [], here => f here
  | key :: path, here =>
      match here.get? key with
      | none =>
          (change? origin f path ⟨origin, []⟩).map fun (inner, result) =>
            (here.set key (.table inner.origin inner.entries), result)
      | some (.value _) => none
      | some (.tables []) => none
      | some (.tables (last :: others)) =>
          (change? origin f path ⟨.opened, last⟩).map fun (inner, result) =>
            (here.set key (.tables (inner.entries :: others)), result)
      | some (.table innerOrigin entries) =>
          if origin = .dotted ∧ innerOrigin = .opened then
            none
          else
            (change? origin f path ⟨innerOrigin, entries⟩).map fun (inner, result) =>
              (here.set key (.table inner.origin inner.entries), result)

/-- The table with a new value under a dotted key. -/
def insert? (table : Table) (path : List String) (key : String) (value : Toml) : Option Table :=
  (table.change? .dotted (fun inner =>
    if (inner.origin == .dotted) == path.isEmpty then none
    else if (inner.get? key).isSome then none
    else some (inner.set key (.value value), ())) path).map Prod.fst

end Table

mutual

/-- The value that a node has become. -/
def Node.finish : Node → Toml
  | .value value => value
  | .table _ entries => .table (finishEntries entries)
  | .tables items => .array (finishTables items).reverse

def finishEntries : List (String × Node) → List (String × Toml)
  | [] => []
  | (key, node) :: entries => (key, node.finish) :: finishEntries entries

def finishTables : List (List (String × Node)) → List Toml
  | [] => []
  | entries :: items => .table (finishEntries entries) :: finishTables items

end

/-- The table of a list of values under dotted keys. -/
def ofPairs? (pairs : List (List String × String × Toml)) : Option Toml :=
  let whole : Option Table :=
    pairs.foldlM (fun whole (path, key, value) => whole.insert? path key value) .empty
  whole.map fun whole => .table (finishEntries whole.entries)

end Toml

end TreeCursor
