import MonkeyFront.Text.Pieces

namespace MonkeyFront

/-- A path: its root, empty for a path that begins where the program runs, and its names. -/
structure Path where
  root : String
  names : List String
  deriving DecidableEq, Repr

namespace Path

def up : String := ".."

/-- The size in bytes of the longest name that can lead to something. -/
def nameLimit : Nat := 255

/-- The size in bytes of the longest path that can lead to something. -/
def sizeLimit : Nat := 4095

/-- The root that a text begins with: a double one is kept, any other number is one. -/
def rootOf (text : List Char) : String :=
  match (text.takeWhile (· == '/')).length with
  | 0 => ""
  | 2 => "//"
  | _ => "/"

def ofText (text : String) : Path :=
  ⟨rootOf text.toList,
    ((pieces '/' text.toList).filter fun piece => piece != [] && piece != ['.']).map
      String.ofList⟩

def text (p : Path) : String :=
  match p.root ++ "/".intercalate p.names with
  | "" => "."
  | text => text

def parent (p : Path) : Path := { p with names := p.names.dropLast }

def child (p : Path) (name : String) : Path := { p with names := p.names ++ [name] }

end Path

end MonkeyFront
