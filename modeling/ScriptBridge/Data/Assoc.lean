/-!
# Tables in order of insertion

A table is a list of pairs with unique keys. `Assoc.set` keeps the place of a key that is there
already; lookups are `List.lookup`.
-/

namespace ScriptBridge.Assoc

variable {α : Type}

/-- Sets the value of a key; a new key goes to the end. -/
def set (key : String) (value : α) : List (String × α) → List (String × α)
  | [] => [(key, value)]
  | (k, v) :: rest => if k = key then (k, value) :: rest else (k, v) :: set key value rest

/-- A table from pairs, of which a later one wins. -/
def ofPairs (pairs : List (String × α)) : List (String × α) :=
  pairs.foldl (fun table (k, v) => set k v table) []

/-- The keys, in order. -/
def keys (table : List (String × α)) : List String :=
  table.map Prod.fst

end ScriptBridge.Assoc
