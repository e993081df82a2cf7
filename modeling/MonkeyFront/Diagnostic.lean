import MonkeyFront.Excerpt
import MonkeyFront.Lexeme
import MonkeyFront.Text.Quoted

namespace MonkeyFront

inductive Complaint where
  | illegalCharacter (literal : String)
  | unexpectedToken (wanted found : Kind)
  | noExpression (found : Kind)
  | nestedTooDeeply
  deriving DecidableEq, Repr

namespace Complaint

def message : Complaint → String
  | illegalCharacter literal => "illegal character " ++ quoted literal
  | unexpectedToken wanted found =>
    "expected next token to be " ++ wanted.shown ++ ", got " ++ found.shown ++ " instead"
  | noExpression found => "no prefix parse function for " ++ found.shown ++ " found"
  | nestedTooDeeply => "expression nested too deeply"

/-- A complaint for which a statement is given up. -/
def isStructural : Complaint → Bool
  | illegalCharacter _ => false
  | _ => true

end Complaint

structure Diagnostic where
  complaint : Complaint
  span : Span
  deriving DecidableEq, Repr

namespace Diagnostic

def message (d : Diagnostic) : String := d.complaint.message

/-- The diagnostic with the source line that it is about. -/
def report (d : Diagnostic) (file source : String) : String :=
  excerptOf d.message file source (some d.span)

def ofIllegal (t : Token) : Diagnostic := ⟨.illegalCharacter t.literal, t.span⟩

end Diagnostic

end MonkeyFront
