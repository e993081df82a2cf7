import MonkeyFront.Parsing.Program

namespace MonkeyFront

inductive Command where
  | advance
  | expect (kind : Kind)
  | statement
  | expression (precedence : Precedence)
  | program
  | setPrefixFn (kind : Kind) (rule : Option PrefixFn)
  | setInfixFn (kind : Kind) (precedence : Precedence) (rule : Option InfixFn)

inductive Answer where
  | nothing
  | token (token : Token)
  | statement (statement : Stmt Token)
  | expression (expression : Expr Token)
  | program (program : Program Token)

/-- Whether what an operation yields can be shown. -/
def Answer.isShowable [Limits] : Answer → Bool
  | .statement s => s.isShowable
  | .expression e => e.isShowable
  | .program p => p.isShowable
  | _ => true

/-- Carries out a public operation with a bound on the nesting of expressions. -/
def Command.runWithin (bound : Bound) : Command → Parse Answer
  | .advance => do
    MonkeyFront.advance
    return .nothing
  | .expect kind => return .token (← MonkeyFront.expect kind)
  | .statement => return .statement (← (Engine.ofBound bound).statement)
  | .expression precedence => return .expression (← (Engine.ofBound bound).expression precedence)
  | .program => return .program (← (Engine.ofBound bound).program)
  | .setPrefixFn kind rule => do
    modify fun s => { s with rules := s.rules.setPrefixFn kind rule }
    return .nothing
  | .setInfixFn kind precedence rule => do
    modify fun s => { s with rules := s.rules.setInfixFn kind precedence rule }
    return .nothing

def Command.run [limits : Limits] (command : Command) : Parse Answer :=
  command.runWithin limits.nesting

/-! The names by which drivers register parse functions. -/

abbrev LeadRule := PrefixFn

abbrev TrailRule := InfixFn

abbrev Command.setLead := Command.setPrefixFn

abbrev Command.setTrail := Command.setInfixFn

end MonkeyFront
