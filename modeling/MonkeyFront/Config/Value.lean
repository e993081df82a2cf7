namespace MonkeyFront.Config

/-- The path of keys that leads from a document to a value. -/
abbrev KeyPath := List String

/-- A configuration value. The entries of a table stand in the order in which they were written,
each key once. -/
inductive Value where
  | text (content : String)
  | truth (value : Bool)
  | number (written : String)
  | moment (written : String)
  | list (items : List Value)
  | table (entries : List (String × Value))

abbrev Table := List (String × Value)

namespace Value

def table? : Value → Option Table
  | table entries => some entries
  | _ => none

def text? : Value → Option String
  | text content => some content
  | _ => none

def truth? : Value → Option Bool
  | truth value => some value
  | _ => none

def isCompound : Value → Bool
  | list _ => true
  | table _ => true
  | _ => false

end Value

namespace Table

def get? (t : Table) (key : String) : Option Value := t.lookup key

def has (t : Table) (key : String) : Bool := (t.get? key).isSome

def add (t : Table) (key : String) (value : Value) : Table := t ++ [(key, value)]

/-- The table with another value of a key that it has. -/
def set (t : Table) (key : String) (value : Value) : Table :=
  t.map fun (k, v) => (k, if k = key then value else v)

/-- Changes the table at the end of a path by `change`, and makes the tables on the way that do not
exist. Where `throughLists` is set, a list on the way stands for its last item. There is no result
if something else than a table lies on the path, or if `change` has none. -/
def changeAt (throughLists : Bool) (change : Table → Option Table) : KeyPath → Table → Option Table
  | [], t => change t
  | key :: path, t =>
    match t.get? key with
    | none => do return t.add key (.table (← changeAt throughLists change path []))
    | some (.table entries) => do
      return t.set key (.table (← changeAt throughLists change path entries))
    | some (.list items) =>
      match throughLists, items.getLast? with
      | true, some (.table entries) => do
        let entries ← changeAt throughLists change path entries
        return t.set key (.list (items.dropLast ++ [.table entries]))
      | _, _ => none
    | some _ => none

end Table

end MonkeyFront.Config
