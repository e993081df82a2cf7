import MonkeyFront.Tree

/-!
# Parsing rules

Expressions are read by rules that hang on the kinds of tokens: a prefix function reads the
expression that begins at a token, an infix function goes on from a finished expression at the token
behind it, and a precedence says how tightly such a token binds.
-/

namespace MonkeyFront

inductive Precedence where
  | lowest | equals | lessGreater | sum | product | unary | call
  deriving DecidableEq, Repr

namespace Precedence

def rank : Precedence → Nat
  | lowest => 1
  | equals => 2
  | lessGreater => 3
  | sum => 4
  | product => 5
  | unary => 6
  | call => 7

instance : LT Precedence := ⟨fun p q => p.rank < q.rank⟩

instance (p q : Precedence) : Decidable (p < q) := inferInstanceAs (Decidable (p.rank < q.rank))

end Precedence

/-- A program over the public operations of the parser that ends with an expression. Each operation
hands what it yields to the rest of the script. -/
inductive Script where
  | done (value : Expr Token)
  | current (rest : Token → Script)
  | peek (rest : Token → Script)
  | advance (rest : Script)
  | expect (kind : Kind) (rest : Token → Script)
  | statement (rest : Stmt Token → Script)
  | expression (precedence : Precedence) (rest : Expr Token → Script)
  | program (rest : Program Token → Script)
  | setPrefixFn (kind : Kind) (rule : Script) (rest : Script)
  | setInfixFn (kind : Kind) (precedence : Precedence) (rule : Expr Token → Script) (rest : Script)

/-- How an expression is read that begins at a token. -/
inductive PrefixFn where
  | name
  | integer
  | boolean
  | unary
  | grouped
  | conditional
  | function
  | script (commands : Script)

/-- How an expression goes on at a token, from what has been read before it. -/
inductive InfixFn where
  | binary
  | call
  | script (commands : Expr Token → Script)

/-- The rules in force. A kind without an infix function may still have a precedence. -/
structure Rules where
  prefixFn : Kind → Option PrefixFn
  infixFn : Kind → Option InfixFn
  precedence : Kind → Precedence

namespace Rules

def standard : Rules where
  prefixFn
    | .ident => some .name
    | .int => some .integer
    | .kwTrue | .kwFalse => some .boolean
    | .bang | .minus => some .unary
    | .lparen => some .grouped
    | .kwIf => some .conditional
    | .kwFunction => some .function
    | _ => none
  infixFn
    | .eq | .notEq | .lt | .gt | .plus | .minus | .slash | .asterisk => some .binary
    | .lparen => some .call
    | _ => none
  precedence
    | .eq | .notEq => .equals
    | .lt | .gt => .lessGreater
    | .plus | .minus => .sum
    | .slash | .asterisk => .product
    | .lparen => .call
    | _ => .lowest

/-- The rules with another prefix function for a kind, or with none. -/
def setPrefixFn (rules : Rules) (kind : Kind) (rule : Option PrefixFn) : Rules :=
  { rules with prefixFn := fun k => if k = kind then rule else rules.prefixFn k }

/-- The rules with another precedence and infix function for a kind, or with no infix function. -/
def setInfixFn (rules : Rules) (kind : Kind) (precedence : Precedence) (rule : Option InfixFn) :
    Rules :=
  { rules with
    infixFn := fun k => if k = kind then rule else rules.infixFn k
    precedence := fun k => if k = kind then precedence else rules.precedence k }

end Rules

end MonkeyFront
