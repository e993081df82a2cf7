import MonkeyFront.Parsing.State

namespace MonkeyFront

inductive Site where
  | operand | argument | body
  deriving DecidableEq, Repr

/-- The frames of the functions that are called between a layer of a parser and the one at a
site. -/
def Site.frames : Site → Nat
  | .operand => 1
  | .argument => 2
  | .body => 4

/-- What reads the expressions in a form: `nextToken` moves on to an expression, and `expression`
reads the one at the current token up to the first operator that does not bind more tightly than the
precedence. Both have the same frames of the stack. -/
structure Engine where
  nextToken : Parse Unit
  expression : Precedence → Parse (Expr Token)

namespace Engine

variable (engine : Engine)

def bindingStatement : Parse (Stmt Token) := do
  let name ← expect .ident
  let _ ← expect .assign
  engine.nextToken
  let value ← engine.expression .lowest
  skipSemicolon
  return .binding name value

def resultStatement : Parse (Stmt Token) := do
  engine.nextToken
  let value ← engine.expression .lowest
  skipSemicolon
  return .result value

def expressionStatement : Parse (Stmt Token) := do
  let token := (← get).current
  let value ← engine.expression .lowest
  skipSemicolon
  return .expression token value

def statement : Parse (Stmt Token) := do
  match (← get).current.kind with
  | .kwLet => engine.bindingStatement
  | .kwReturn => engine.resultStatement
  | _ => engine.expressionStatement

/-- Reads a block, from its opening brace to its closing one. The number of open blocks stays
raised if a statement fails. -/
def block : Parse (Block Token) := do
  let token := (← get).current
  addDepth 1
  advance
  let statements ← collectWhile
    (fun s => s.current.kind != .rbrace && s.current.kind != .eof)
    (do
      let s ← engine.statement
      advance
      return s)
    (← get).tokensLeft
  let s ← get
  if s.current.kind = .eof then reject (.unexpectedToken .rbrace .eof) s.current
  else
    addDepth (-1)
    return .mk token statements

/-- Reads an operand behind an operator that stands before it. -/
def unaryExpression : Parse (Expr Token) := do
  let token := (← get).current
  engine.nextToken
  return .unary token (← engine.expression .unary)

/-- Reads an expression in parentheses, which leave no trace. -/
def groupedExpression : Parse (Expr Token) := do
  engine.nextToken
  let value ← engine.expression .lowest
  let _ ← expect .rparen
  return value

/-- Reads a conditional expression, its condition and its blocks by different engines. -/
def conditionalExpression (inBody : Engine) : Parse (Expr Token) := do
  let token := (← get).current
  let _ ← expect .lparen
  engine.nextToken
  let condition ← engine.expression .lowest
  let _ ← expect .rparen
  let _ ← expect .lbrace
  let consequence ← inBody.block
  if (← get).peek.kind = .kwElse then
    advance
    let _ ← expect .lbrace
    return .conditional token condition consequence (some (← inBody.block))
  else return .conditional token condition consequence none

/-- Reads parameters, from the opening parenthesis to the closing one. -/
def parameters : Parse (List Token) := do
  if (← get).peek.kind = .rparen then
    advance
    return []
  else
    let first ← expect .ident
    let others ← collectWhile
      (fun s => s.peek.kind = .comma)
      (do
        advance
        expect .ident)
      (← get).tokensLeft
    let _ ← expect .rparen
    return first :: others

def functionExpression : Parse (Expr Token) := do
  let token := (← get).current
  let _ ← expect .lparen
  let names ← parameters
  let _ ← expect .lbrace
  return .function token names (← engine.block)

/-- Reads arguments, from the opening parenthesis to the closing one. -/
def arguments : Parse (List (Expr Token)) := do
  if (← get).peek.kind = .rparen then
    advance
    return []
  else
    engine.nextToken
    let first ← engine.expression .lowest
    let others ← collectWhile
      (fun s => s.peek.kind = .comma)
      (do
        engine.nextToken
        engine.nextToken
        engine.expression .lowest)
      (← get).tokensLeft
    let _ ← expect .rparen
    return first :: others

/-- Reads the right operand of the current operator, which binds its operands as tightly as it is
bound itself, so that operators of one precedence group to the left. -/
def binaryExpression (left : Expr Token) : Parse (Expr Token) := do
  let s ← get
  engine.nextToken
  return .binary s.current left (← engine.expression (s.rules.precedence s.current.kind))

def callExpression (callee : Expr Token) : Parse (Expr Token) := do
  let token := (← get).current
  return .call token callee (← engine.arguments)

end Engine

end MonkeyFront
