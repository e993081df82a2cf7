/-!
# Lines of text

Three notions of a line. A displayed line ends at any line boundary of Unicode; a line of a file
ends at a line feed, a carriage return, or the two together, and is read with a line feed in their
place; a line that is typed ends at a line feed only.
-/

namespace MonkeyFront

def isLineBoundary (c : Char) : Bool :=
  c.toNat ∈ [0x0A, 0x0B, 0x0C, 0x0D, 0x1C, 0x1D, 0x1E, 0x85, 0x2028, 0x2029]

/-- The displayed lines of a text, boundaries included; `started` is the current line so far,
reversed. A carriage return and the line feed after it are one boundary. -/
def displayLinesFrom (started : List Char) : List Char → List (List Char)
  | [] => if started.isEmpty then [] else [started.reverse]
  | '\r' :: '\n' :: rest => ('\n' :: '\r' :: started).reverse :: displayLinesFrom [] rest
  | c :: rest =>
    if isLineBoundary c then (c :: started).reverse :: displayLinesFrom [] rest
    else displayLinesFrom (c :: started) rest

/-- The displayed lines of a text, boundaries included. -/
def displayLines (text : List Char) : List (List Char) := displayLinesFrom [] text

/-- The text without the characters `c` at its end. -/
def dropTrailing (c : Char) (text : List Char) : List Char :=
  (text.reverse.dropWhile (· == c)).reverse

/-- The displayed line with a number, counted from one, without line feeds and then carriage
returns at its end; empty where the text has no such line. -/
def displayLine (text : List Char) (number : Int) : List Char :=
  if number < 1 then []
  else dropTrailing '\r' (dropTrailing '\n' ((displayLines text).getD (number - 1).toNat []))

/-- The text of a file: a carriage return, alone or with a line feed after it, is a line feed. -/
def withLineFeeds : List Char → List Char
  | [] => []
  | '\r' :: '\n' :: rest => '\n' :: withLineFeeds rest
  | c :: rest => (if c = '\r' then '\n' else c) :: withLineFeeds rest

/-- The typed lines of a text, line feeds included; `started` is the current line so far,
reversed. -/
def typedLinesFrom (started : List Char) : List Char → List (List Char)
  | [] => if started.isEmpty then [] else [started.reverse]
  | c :: rest =>
    if c = '\n' then (c :: started).reverse :: typedLinesFrom [] rest
    else typedLinesFrom (c :: started) rest

/-- The typed lines of a text: each ends with its line feed, the last one perhaps without. -/
def typedLines (text : List Char) : List (List Char) := typedLinesFrom [] text

end MonkeyFront
