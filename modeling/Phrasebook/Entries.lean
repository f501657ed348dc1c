/-!
# Entries

Named entries in the order of their first insertion.  Inserting a name that is already there
replaces its value in place, so that the names stay distinct.
-/

namespace Phrasebook

/-- Values under names, in order. -/
abbrev Entries (α : Type) :=
  List (String × α)

namespace Entries

variable {α : Type}

/-- Replaces the value of a name in place, or appends the name with its value. -/
def insert (name : String) (value : α) : Entries α → Entries α
  | [] => [(name, value)]
  | (n, v) :: rest => if n = name then (n, value) :: rest else (n, v) :: insert name value rest

/-- The value under a name. -/
def get? (name : String) : Entries α → Option α
  | [] => none
  | (n, v) :: rest => if n = name then some v else get? name rest

/-- The entries after inserting all of a list, one by one. -/
def insertAll (entries : Entries α) (list : List (String × α)) : Entries α :=
  list.foldl (fun found entry => found.insert entry.1 entry.2) entries

/-- The entries of a list: each name once, at its first place and with its last value. -/
def ofList (list : List (String × α)) : Entries α :=
  insertAll [] list

/-- The names in order. -/
def names (entries : Entries α) : List String :=
  entries.map Prod.fst

end Entries

end Phrasebook
