import MonkeyFront.Config.Value
import MonkeyFront.Position
import MonkeyFront.Text.Digit
import MonkeyFront.Text.Quoted

namespace MonkeyFront.Config

inductive FaultCause where
  | noStatement
  | noLineEnd
  | noKey
  | noEquals
  | noValue
  | invalidMoment
  | tableHeadOpen
  | listHeadOpen
  | listOpen
  | inlineTableOpen
  | textOpen
  | literalOpen (mark : String)
  | illegalCharacter (c : Char)
  | invalidCharacter (c : Char)
  | strayBackslash
  | noHexadecimal
  | noScalar
  | declaredTwice (path : KeyPath)
  | redefined (path : KeyPath)
  | immutable (path : KeyPath)
  | overwritten
  | duplicateKey (key : String)
  deriving DecidableEq, Repr

/-- A path as a fault shows it: its keys quoted, in parentheses. -/
def shownPath (path : KeyPath) : String :=
  "(" ++ ", ".intercalate (path.map quoted) ++ (if path.length = 1 then ",)" else ")")

def FaultCause.message : FaultCause → String
  | noStatement => "Invalid statement"
  | noLineEnd => "Expected newline or end of document after a statement"
  | noKey => "Invalid initial character for a key part"
  | noEquals => "Expected '=' after a key in a key/value pair"
  | noValue => "Invalid value"
  | invalidMoment => "Invalid date or datetime"
  | tableHeadOpen => "Expected ']' at the end of a table declaration"
  | listHeadOpen => "Expected ']]' at the end of an array declaration"
  | listOpen => "Unclosed array"
  | inlineTableOpen => "Unclosed inline table"
  | textOpen => "Unterminated string"
  | literalOpen mark => "Expected " ++ quoted mark
  | illegalCharacter c => "Illegal character " ++ quoted (String.singleton c)
  | invalidCharacter c => "Found invalid character " ++ quoted (String.singleton c)
  | strayBackslash => "Unescaped '\\' in a string"
  | noHexadecimal => "Invalid hex value"
  | noScalar => "Escaped character is not a Unicode scalar value"
  | declaredTwice path => "Cannot declare " ++ shownPath path ++ " twice"
  | redefined path => "Cannot redefine namespace " ++ shownPath path
  | immutable path => "Cannot mutate immutable namespace " ++ shownPath path
  | overwritten => "Cannot overwrite a value"
  | duplicateKey key => "Duplicate inline table key " ++ quoted key

/-- What of a document goes beyond what is read: a whole number with more decimal digits than
`numberLimit`, or values that are nested too deeply. -/
inductive Excess where
  | longNumber (digits : Nat)
  | deepNesting
  deriving DecidableEq, Repr

def Excess.message : Excess → String
  | longNumber digits =>
    "Exceeds the limit (" ++ toString numberLimit ++ " digits) for integer string conversion: " ++
      "value has " ++ toString digits ++ " digits; use sys.set_int_max_str_digits() to increase " ++
      "the limit"
  | deepNesting => "values nested too deeply"

/-- Why a document cannot be read: it is at fault at a place, or at its end, or it goes beyond what
is read. -/
inductive Fault where
  | malformed (cause : FaultCause) (place : Option Position)
  | excessive (excess : Excess)
  deriving DecidableEq, Repr

def Fault.message : Fault → String
  | malformed cause (some p) =>
    cause.message ++ " (at line " ++ toString p.line ++ ", column " ++ toString p.column ++ ")"
  | malformed cause none => cause.message ++ " (at end of document)"
  | excessive excess => excess.message

end MonkeyFront.Config
