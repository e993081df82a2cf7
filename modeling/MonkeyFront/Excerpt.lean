import MonkeyFront.Position
import MonkeyFront.Text.Lines

namespace MonkeyFront

/-- The file name that is shown where none is given. -/
def defaultFileName : String := "input.monkey"

/-- As many copies of `c` as the integer `n` says, none if it is negative. -/
def repeated (n : Int) (c : Char) : String := String.ofList (List.replicate n.toNat c)

/-- The source line that is shown for a line number. -/
def shownLine (source : String) (line : Int) : String :=
  String.ofList (displayLine source.toList line)

/-- A message, the place it is about, the source line of this place, and how many carets stand under
the line. -/
structure Excerpt where
  message : String
  file : String
  line : Int
  column : Int
  text : String
  carets : Int
  deriving DecidableEq, Repr

/-- Why a row of blanks or carets cannot be written: its width is no machine integer, or such a row
does not fit into memory. -/
inductive WidthFault where
  | unrepresentable
  | tooWide
  deriving DecidableEq, Repr

/-- The width of the widest row that fits into memory. -/
def widthLimit : Int := 0x1000000000

/-- The highest machine integer; the lowest is one below its negative. -/
def machineLimit : Int := 0x7FFFFFFFFFFFFFFF

/-- What is wrong with a width; one that is not positive is the width of an empty row. -/
def widthFault? (width : Int) : Option WidthFault :=
  if width < -machineLimit - 1 || machineLimit < width then some .unrepresentable
  else if widthLimit < width then some .tooWide
  else none

/-- The number of carets from a column to the end of a line, at least one. -/
def caretsToEnd (text : String) (column : Int) : Int := max 1 (text.length - column + 1)

namespace Excerpt

/-- The excerpt for everything from a position to the end of its line. -/
def ofPosition (message file source : String) (p : Position) : Excerpt :=
  let text := shownLine source p.line
  ⟨message, file, p.line, p.column, text, caretsToEnd text p.column⟩

/-- The excerpt for a stretch of the source: carets stand under the stretch, or to the end of the
line where it goes on to another one. -/
def ofSpan (message file source : String) (span : Span) : Excerpt :=
  let start := span.start
  let text := shownLine source start.line
  let carets :=
    if span.stop.line = start.line then max 1 (span.stop.column - start.column)
    else caretsToEnd text start.column
  ⟨message, file, start.line, start.column, text, carets⟩

/-- What is wrong with the first row that cannot be written: the blanks before the carets, then the
carets. -/
def fault? (e : Excerpt) : Option WidthFault :=
  (widthFault? (e.column - 1)).or (widthFault? e.carets)

def render (e : Excerpt) : String :=
  let number := toString e.line
  let margin := repeated (number.length + 1) ' '
  "error: " ++ e.message ++ "\n" ++
    margin ++ "--> " ++ e.file ++ ":" ++ number ++ ":" ++ toString e.column ++ "\n" ++
    margin ++ "|\n" ++
    number ++ " | " ++ e.text ++ "\n" ++
    margin ++ "| " ++ repeated (e.column - 1) ' ' ++ repeated e.carets '^'

end Excerpt

/-- A message about everything from a position to the end of its line. -/
def excerptFrom (message file source : String) (p : Position) : String :=
  (Excerpt.ofPosition message file source p).render

/-- A message about a stretch of the source. Without a stretch only the file is named. -/
def excerptOf (message file source : String) : Option Span → String
  | none => "error: " ++ message ++ "\n  --> " ++ file
  | some span => (Excerpt.ofSpan message file source span).render

end MonkeyFront
