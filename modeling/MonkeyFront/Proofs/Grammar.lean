import Mathlib.Tactic.Common
import MonkeyFront.Lexeme

/-!
# The grammar

The grammar of the language over the kinds of tokens. A chain of operators is flat, for the grammar
knows no precedence, and the semicolon behind a statement may be left out, so that statements
without it can be told apart in more than one way.
-/

namespace MonkeyFront

def Kind.isBinary : Kind → Bool
  | .eq | .notEq | .lt | .gt | .plus | .minus | .asterisk | .slash => true
  | _ => false

def Kind.isUnary : Kind → Bool
  | .bang | .minus => true
  | _ => false

inductive Symbol where
  | program | statement | block
  | expression | unary | applied | primary
  | arguments | moreArguments | parameters | moreParameters
  deriving DecidableEq, Repr

/-- The sequences of kinds that are derived from a symbol. -/
inductive Derives : Symbol → List Kind → Prop
  | programNil : Derives .program []
  | programCons {xs ys} : Derives .statement xs → Derives .program ys → Derives .program (xs ++ ys)
  | binding {xs close} : Derives .expression xs → close = [] ∨ close = [.semicolon] →
      Derives .statement (.kwLet :: .ident :: .assign :: xs ++ close)
  | result {xs close} : Derives .expression xs → close = [] ∨ close = [.semicolon] →
      Derives .statement (.kwReturn :: xs ++ close)
  | value {xs close} : Derives .expression xs → close = [] ∨ close = [.semicolon] →
      Derives .statement (xs ++ close)
  | block {xs} : Derives .program xs → Derives .block (.lbrace :: xs ++ [.rbrace])
  | operand {xs} : Derives .unary xs → Derives .expression xs
  | operator {xs op ys} : Derives .expression xs → op.isBinary = true → Derives .unary ys →
      Derives .expression (xs ++ op :: ys)
  | unary {op xs} : op.isUnary = true → Derives .unary xs → Derives .unary (op :: xs)
  | unaryApplied {xs} : Derives .applied xs → Derives .unary xs
  | appliedPrimary {xs} : Derives .primary xs → Derives .applied xs
  | call {xs ys} : Derives .applied xs → Derives .arguments ys →
      Derives .applied (xs ++ .lparen :: ys ++ [.rparen])
  | ident : Derives .primary [.ident]
  | int : Derives .primary [.int]
  | kwTrue : Derives .primary [.kwTrue]
  | kwFalse : Derives .primary [.kwFalse]
  | grouped {xs} : Derives .expression xs → Derives .primary (.lparen :: xs ++ [.rparen])
  | conditional {xs ys} : Derives .expression xs → Derives .block ys →
      Derives .primary (.kwIf :: .lparen :: xs ++ .rparen :: ys)
  | alternative {xs ys zs} : Derives .expression xs → Derives .block ys → Derives .block zs →
      Derives .primary (.kwIf :: .lparen :: xs ++ .rparen :: ys ++ .kwElse :: zs)
  | function {xs ys} : Derives .parameters xs → Derives .block ys →
      Derives .primary (.kwFunction :: .lparen :: xs ++ .rparen :: ys)
  | argumentsNil : Derives .arguments []
  | argumentsCons {xs ys} : Derives .expression xs → Derives .moreArguments ys →
      Derives .arguments (xs ++ ys)
  | moreArgumentsNil : Derives .moreArguments []
  | moreArgumentsCons {xs ys} : Derives .expression xs → Derives .moreArguments ys →
      Derives .moreArguments (.comma :: xs ++ ys)
  | parametersNil : Derives .parameters []
  | parametersCons {xs} : Derives .moreParameters xs → Derives .parameters (.ident :: xs)
  | moreParametersNil : Derives .moreParameters []
  | moreParametersCons {xs} : Derives .moreParameters xs →
      Derives .moreParameters (.comma :: .ident :: xs)

end MonkeyFront
