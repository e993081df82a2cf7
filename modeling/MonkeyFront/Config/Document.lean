import MonkeyFront.Config.Reading

/-!
# Configuration documents

A document is a sequence of lines, each with an entry, the head of a table, the head of an item of a
list of tables, or nothing, and each perhaps with a comment.
-/

namespace MonkeyFront.Config

/-- A document in progress: its entries, the path of the table that the last head named, the
tables that may not be declared any more, those that may not once the next head is read, and the
lists and tables that were written as a whole. -/
structure Draft where
  entries : Table
  head : KeyPath
  declared : List KeyPath
  pending : List KeyPath
  closed : List KeyPath

namespace Draft

/-- The document in progress that has nothing in it. -/
def empty : Draft := ⟨[], [], [], [], []⟩

def isDeclared (d : Draft) (path : KeyPath) : Bool := d.declared.contains path

/-- A path into a list or table that was written as a whole, or the path of one. -/
def isClosed (d : Draft) (path : KeyPath) : Bool := isWithin d.closed path

/-- The document behind the beginning of a head: the tables made by dotted keys are declared. -/
def settle (d : Draft) : Draft := { d with declared := d.pending ++ d.declared, pending := [] }

def openTable (d : Draft) (path : KeyPath) : Except FaultCause Draft :=
  if d.isDeclared path || d.isClosed path then throw (.declaredTwice path)
  else
    match Table.changeAt true some path d.entries with
    | none => throw .overwritten
    | some entries =>
      return { d with entries := entries, head := path, declared := path :: d.declared }

/-- The table with one more item in the list of tables of a key, which is made if need be. -/
def addItem (key : String) (t : Table) : Option Table :=
  match t.get? key with
  | none => some (t.add key (.list [.table []]))
  | some (.list items) => some (t.set key (.list (items ++ [.table []])))
  | some _ => none

/-- The document after the head of an item of a list of tables. Everything below this path may be
declared anew in the item. -/
def openItem (d : Draft) (path : KeyPath) : Except FaultCause Draft :=
  if d.isClosed path then throw (.immutable path)
  else
    match Table.changeAt true (addItem (path.getLastD "")) path.dropLast d.entries with
    | none => throw .overwritten
    | some entries =>
      return { d with
        entries := entries
        head := path
        declared := path :: d.declared.filter (!path.isPrefixOf ·)
        closed := d.closed.filter (!path.isPrefixOf ·) }

/-- The proper prefixes of a path that are not empty, shortest first, behind the head. -/
def wayTo (d : Draft) (path : KeyPath) : List KeyPath :=
  (List.range (path.length - 1)).map fun i => d.head ++ path.take (i + 1)

/-- The document after an entry of the table that the last head named. -/
def addEntry (d : Draft) (path : KeyPath) (value : Value) : Except FaultCause Draft :=
  let key := path.getLastD ""
  let parent := d.head ++ path.dropLast
  let put (t : Table) : Option Table := if t.has key then none else some (t.add key value)
  match (d.wayTo path).find? d.isDeclared with
  | some table => throw (.redefined table)
  | none =>
    if d.isClosed parent then throw (.immutable parent)
    else
      match Table.changeAt true put parent d.entries with
      | none => throw .overwritten
      | some entries =>
        return { d with
          entries := entries
          pending := d.wayTo path ++ d.pending
          closed := if value.isCompound then (d.head ++ path) :: d.closed else d.closed }

end Draft

/-- Goes on with a document, or ends reading with a fault at the cursor. -/
def orFail (result : Except FaultCause Draft) : Reading Draft :=
  match result with
  | .ok d => pure d
  | .error cause => failWith cause

/-- Reads the statement of a line, if there is one. -/
def documentStatement (d : Draft) : Reading Draft := do
  match ← ahead with
  | '[' :: '[' :: _ => do
    skip 2
    skipChars isSpacing
    let path ← keyPath
    let d ← orFail (d.settle.openItem path)
    match ← ahead with
    | ']' :: ']' :: _ => do
      skip 2
      return d
    | _ => failWith .listHeadOpen
  | '[' :: _ => do
    skip 1
    skipChars isSpacing
    let path ← keyPath
    let d ← orFail (d.settle.openTable path)
    match ← ahead with
    | ']' :: _ => do
      skip 1
      return d
    | _ => failWith .tableHeadOpen
  | c :: _ =>
    if isBareKeyChar c || c = '"' || c = '\'' then do
      let (path, item) ← keyAndValue anyValue
      orFail (d.addEntry path item)
    else if c = '#' || c = '\n' then return d
    else failWith .noStatement
  | [] => return d

/-- Reads the lines of a document, at most `n` of them. -/
def documentLines : Nat → Draft → Reading Table
  | 0, d => return d.entries
  | n + 1, d => do
    skipChars isSpacing
    let d ← documentStatement d
    skipChars isSpacing
    skipComment
    match ← ahead with
    | [] => return d.entries
    | '\n' :: _ => do
      skip 1
      documentLines n d
    | _ => failWith .noLineEnd

/-- The text with a line feed in the place of a carriage return and a line feed. -/
def joinLineEnds : List Char → List Char
  | '\r' :: '\n' :: rest => '\n' :: joinLineEnds rest
  | c :: rest => c :: joinLineEnds rest
  | [] => []

def readDocument (text : String) : Except Fault Table := do
  let characters := joinLineEnds text.toList
  (documentLines (characters.length + 1) .empty).run' ⟨characters, .origin⟩

end MonkeyFront.Config
