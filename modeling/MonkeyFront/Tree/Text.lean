import MonkeyFront.Tree

namespace MonkeyFront

/-- The texts with a comma and a space between them. -/
def commaSeparated (texts : List String) : String := ", ".intercalate texts

mutual

def Expr.text : Expr Lexeme → String
  | .name t => t.literal
  | .integer t => t.literal
  | .boolean t => t.literal
  | .unary t right => "(" ++ t.literal ++ right.text ++ ")"
  | .binary t left right => "(" ++ left.text ++ " " ++ t.literal ++ " " ++ right.text ++ ")"
  | .conditional _ condition consequence none => "if" ++ condition.text ++ " " ++ consequence.text
  | .conditional _ condition consequence (some alternative) =>
    "if" ++ condition.text ++ " " ++ consequence.text ++ "else " ++ alternative.text
  | .function t parameters body =>
    t.literal ++ "(" ++ commaSeparated (parameters.map (·.literal)) ++ ") " ++ body.text
  | .call _ callee arguments =>
    callee.text ++ "(" ++ commaSeparated (Expr.texts arguments) ++ ")"
termination_by structural e => e

def Expr.texts : List (Expr Lexeme) → List String
  | [] => []
  | e :: es => e.text :: Expr.texts es
termination_by structural es => es

def Stmt.text : Stmt Lexeme → String
  | .binding name value => "let " ++ name.literal ++ " = " ++ value.text ++ ";"
  | .result value => "return " ++ value.text ++ ";"
  | .expression _ value => value.text
  | .block body => body.text
termination_by structural s => s

/-- The texts of statements, one behind the other. -/
def Stmt.textAll : List (Stmt Lexeme) → String
  | [] => ""
  | s :: ss => s.text ++ Stmt.textAll ss
termination_by structural ss => ss

def Block.text : Block Lexeme → String
  | .mk _ statements => Stmt.textAll statements
termination_by structural b => b

end

def Program.text (p : Program Lexeme) : String := Stmt.textAll p

end MonkeyFront
