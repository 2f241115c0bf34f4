/-!
Ordered tables: lists of entries in which a key is looked up by its first entry. Setting a key
that is present keeps its place, and a new key goes to the end.
-/

namespace SchemaPress

/-- An ordered table from texts to values. -/
abbrev Table (β : Type) := List (String × β)

namespace Table

variable {β γ : Type}

/-- The value of a key. -/
def get? : Table β → String → Option β
  | [], _ => none
  | (other, value) :: rest, key => if other = key then some value else get? rest key

/-- The keys in order. -/
def keys (table : Table β) : List String :=
  table.map Prod.fst

/-- The values in order. -/
def values (table : Table β) : List β :=
  table.map Prod.snd

/-- Whether a key is present. -/
def has (table : Table β) (key : String) : Bool :=
  (table.get? key).isSome

/-- The table with a key set to a value. -/
def insert (key : String) (value : β) : Table β → Table β
  | [] => [(key, value)]
  | (other, old) :: rest =>
    if other = key then (key, value) :: rest else (other, old) :: insert key value rest

/-- The table with the entries of another set one after the other. -/
def update (table other : Table β) : Table β :=
  other.foldl (fun result entry => insert entry.1 entry.2 result) table

/-- The table that a list of entries sets up, a later entry of a key replacing the earlier. -/
def ofEntries (entries : List (String × β)) : Table β :=
  update [] entries

/-- The table with a function applied to its values. -/
def mapValues (f : β → γ) (table : Table β) : Table γ :=
  table.map fun entry => (entry.1, f entry.2)

end Table

end SchemaPress
