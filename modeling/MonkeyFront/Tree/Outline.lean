import MonkeyFront.Tree.Text

namespace MonkeyFront

def Lexeme.value (x : Lexeme) : Nat := (number? x.literal.toList).getD 0

/-- A line of an outline: the depth of a node, and what is said about it. -/
structure OutlineLine where
  depth : Nat
  label : String
  deriving DecidableEq, Repr

mutual

def Expr.outline (depth : Nat) : Expr Lexeme → List OutlineLine
  | .name t => [⟨depth, "Identifier " ++ t.literal⟩]
  | .integer t => [⟨depth, "IntegerLiteral " ++ toString t.value⟩]
  | .boolean t => [⟨depth, "BooleanLiteral " ++ t.literal⟩]
  | .unary t right => ⟨depth, "PrefixExpression " ++ t.literal⟩ :: right.outline (depth + 1)
  | .binary t left right =>
    ⟨depth, "InfixExpression " ++ t.literal⟩ ::
      (left.outline (depth + 1) ++ right.outline (depth + 1))
  | .conditional _ condition consequence none =>
    ⟨depth, "IfExpression"⟩ ::
      (condition.outline (depth + 1) ++ consequence.outline "Then" (depth + 1))
  | .conditional _ condition consequence (some alternative) =>
    ⟨depth, "IfExpression"⟩ ::
      (condition.outline (depth + 1) ++ consequence.outline "Then" (depth + 1) ++
        alternative.outline "Else" (depth + 1))
  | .function _ parameters body =>
    ⟨depth, "FunctionLiteral (" ++ commaSeparated (parameters.map (·.literal)) ++ ")"⟩ ::
      body.outline "Body" (depth + 1)
  | .call _ callee arguments =>
    ⟨depth, "CallExpression"⟩ ::
      (callee.outline (depth + 1) ++ Expr.outlineAll (depth + 1) arguments)
termination_by structural e => e

def Expr.outlineAll (depth : Nat) : List (Expr Lexeme) → List OutlineLine
  | [] => []
  | e :: es => e.outline depth ++ Expr.outlineAll depth es
termination_by structural es => es

def Stmt.outline (depth : Nat) : Stmt Lexeme → List OutlineLine
  | .binding name value =>
    ⟨depth, "LetStatement " ++ name.literal⟩ :: value.outline (depth + 1)
  | .result value => ⟨depth, "ReturnStatement"⟩ :: value.outline (depth + 1)
  | .expression _ value => ⟨depth, "ExpressionStatement"⟩ :: value.outline (depth + 1)
  | .block body => body.outline "Block" depth
termination_by structural s => s

def Stmt.outlineAll (depth : Nat) : List (Stmt Lexeme) → List OutlineLine
  | [] => []
  | s :: ss => s.outline depth ++ Stmt.outlineAll depth ss
termination_by structural ss => ss

/-- The outline of a block at a depth, under the name of its part. -/
def Block.outline (part : String) (depth : Nat) : Block Lexeme → List OutlineLine
  | .mk _ statements => ⟨depth, part⟩ :: Stmt.outlineAll (depth + 1) statements
termination_by structural b => b

end

/-- The text of a line of an outline: two spaces for each level of depth. -/
def OutlineLine.text (line : OutlineLine) : String :=
  String.ofList (List.replicate (2 * line.depth) ' ') ++ line.label ++ "\n"

def Program.outline (p : Program Lexeme) : String :=
  "Program\n" ++ String.join ((Stmt.outlineAll 1 p).map OutlineLine.text)

/-- What is written of the outline of a program when nodes can be written down to a depth: all of
it, or the lines before the first one for a node that stands deeper. -/
def Program.writtenOutline (depth : Nat) (p : Program Lexeme) : String :=
  "Program\n" ++
    String.join (((Stmt.outlineAll 1 p).takeWhile (·.depth ≤ depth)).map OutlineLine.text)

/-- The numbered lines of a listing, from a number on. -/
def listingFrom (number : Nat) : Program Lexeme → List String
  | [] => []
  | s :: ss => ("--- " ++ toString number ++ ": " ++ s.text ++ "\n") :: listingFrom (number + 1) ss

/-- The listing of a program: a heading and one numbered line per statement. -/
def Program.listing (p : Program Lexeme) : String :=
  "PROGRAM:\n" ++ String.join (listingFrom 0 p)

end MonkeyFront
