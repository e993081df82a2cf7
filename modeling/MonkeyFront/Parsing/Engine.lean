import MonkeyFront.Parsing.Recovery

/-!
# Engines

One layer of an engine applies the prefix function of the current token and then infix functions as
long as the next token binds more tightly than the precedence; the expressions inside are read by
other engines, one for each site.
-/

namespace MonkeyFront

namespace Engine

section Layer

variable (engines : Site → Engine)

def runScript : Script → Parse (Expr Token)
  | .done value => pure value
  | .current rest => do runScript (rest (← get).current)
  | .peek rest => do runScript (rest (← get).peek)
  | .advance rest => do
    (engines .operand).nextToken
    runScript rest
  | .expect kind rest => do runScript (rest (← expect kind))
  | .statement rest => do runScript (rest (← (engines .body).statement))
  | .expression precedence rest => do
    runScript (rest (← (engines .operand).expression precedence))
  | .program rest => do runScript (rest (← (engines .body).program))
  | .setPrefixFn kind rule rest => do
    modify fun s => { s with rules := s.rules.setPrefixFn kind (some (.script rule)) }
    runScript rest
  | .setInfixFn kind precedence rule rest => do
    modify fun s => { s with rules := s.rules.setInfixFn kind precedence (some (.script rule)) }
    runScript rest

/-- Applies a prefix function at the current token. -/
def applyPrefixFn : PrefixFn → Parse (Expr Token)
  | .name => return .name (← get).current
  | .integer => return .integer (← get).current
  | .boolean => return .boolean (← get).current
  | .unary => (engines .operand).unaryExpression
  | .grouped => (engines .operand).groupedExpression
  | .conditional => (engines .operand).conditionalExpression (engines .body)
  | .function => (engines .body).functionExpression
  | .script commands => runScript engines commands

/-- Applies an infix function at the current token to what has been read before it. -/
def applyInfixFn (left : Expr Token) : InfixFn → Parse (Expr Token)
  | .binary => (engines .operand).binaryExpression left
  | .call => (engines .argument).callExpression left
  | .script commands => runScript engines (commands left)

/-- Extends an expression by the operator behind it, if that one has an infix function. -/
def extend (left : Expr Token) : Parse (Expr Token) := do
  let s ← get
  match s.rules.infixFn s.peek.kind with
  | none => return left
  | some rule => do
    advance
    applyInfixFn engines left rule

/-- One layer of an engine: a prefix function, then infix functions as long as the next token binds
more tightly than the precedence. -/
def layer (precedence : Precedence) : Parse (Expr Token) := do
  let s ← get
  match s.rules.prefixFn s.current.kind with
  | none => reject (.noExpression s.current.kind) s.current
  | some rule => do
    let left ← applyPrefixFn engines rule
    repeatWhile
      (fun s _ => precedence < s.peekPrecedence && (s.rules.infixFn s.peek.kind).isSome)
      (extend engines)
      (← get).tokensLeft left

end Layer

/-- The engine with so many frames left, the first `due` of which are taken before its next
layer. -/
def within (extra : Site → Nat) : Nat → Nat → Engine
  | 0, due => {
    nextToken := advanceWithin (if due = 0 then .read else .entered)
    expression := fun _ => throw .tooDeep }
  | frames + 1, 0 => {
    nextToken := advanceWithin (if frames = 0 then .storedUnlessNumber else .stored)
    expression := layer fun site => within extra frames (extra site) }
  | frames + 1, due + 1 => within extra frames due

end Engine

/-- What limits how deeply expressions nest: the frames of the stack that are there for them, and
how many of these are taken on the way to an expression at each site. -/
structure Bound where
  frames : Nat
  extra : Site → Nat

namespace Bound

instance (n : Nat) : OfNat Bound n := ⟨⟨n, fun _ => 0⟩⟩

/-- A larger bound has more frames, and takes as many of them. -/
instance : LE Bound :=
  ⟨fun bound bound' => bound.frames ≤ bound'.frames ∧ bound.extra = bound'.extra⟩

end Bound

def Engine.ofBound (bound : Bound) : Engine := .within bound.extra bound.frames 0

end MonkeyFront
