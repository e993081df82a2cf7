import MonkeyFront.Diagnostic
import MonkeyFront.Parsing.Rules
import MonkeyFront.Scan

/-!
# The state of a parse

A parser looks at two tokens, the current one and the one behind it. Illegal characters are dropped
when they are scanned and reported when the parser moves past them, so that diagnostics stay in the
order of the source. A failure ends the operation in which it arises and keeps the state that was
reached.
-/

namespace MonkeyFront

/-- What is left of a scan behind the next token that is no illegal character. -/
structure Pulled where
  illegal : List Token
  token : Scanned
  rest : List Scanned

/-- Takes the next outcome that is no illegal character; `last` follows the outcomes for ever. -/
def pull (last : Token) : List Scanned → Pulled
  | [] => ⟨[], .ok last, []⟩
  | .error e :: rest => ⟨[], .error e, rest⟩
  | .ok token :: rest =>
    if token.kind = .illegal then
      let pulled := pull last rest
      { pulled with illegal := token :: pulled.illegal }
    else ⟨[], .ok token, rest⟩

/-- The state of a parser: the outcomes still to come and the token that ends them, the two tokens
that it looks at, the illegal characters between these two, the number of open blocks, what has been
reported, whether a statement that fails is skipped, and the rules in force. -/
structure State where
  upcoming : List Scanned
  last : Token
  current : Token
  peek : Token
  skipped : List Token
  depth : Int
  diagnostics : List Diagnostic
  recover : Bool
  rules : Rules

namespace State

/-- The state before the first token of a scan; illegal characters before it are reported. -/
def start (rules : Rules) (recover : Bool) (scan : Scan) : Except ScanError State := do
  let first := pull scan.last scan.items
  let current ← first.token
  let second := pull scan.last first.rest
  let peek ← second.token
  return {
    upcoming := second.rest
    last := scan.last
    current := current
    peek := peek
    skipped := second.illegal
    depth := 0
    diagnostics := first.illegal.map .ofIllegal
    recover := recover
    rules := rules }

/-- A bound on the steps that a parser can take before the end of input is its current token. -/
def tokensLeft (s : State) : Nat := s.upcoming.length + 2

/-- The precedence with which the token behind the current one binds. -/
def peekPrecedence (s : State) : Precedence := s.rules.precedence s.peek.kind

/-- The state with a diagnostic at a token, behind those for the illegal characters before it. -/
def report (s : State) (complaint : Complaint) (token : Token) : State :=
  let due (t : Token) : Bool := t.span.start.offset < token.span.start.offset
  { s with
    skipped := s.skipped.filter fun t => !due t
    diagnostics :=
      s.diagnostics ++ (s.skipped.filter due).map .ofIllegal ++ [⟨complaint, token.span⟩] }

end State

/-- Why an operation of a parser ends early: the scan failed, a statement was rejected, or
expressions are nested more deeply than the bound allows. -/
inductive Failure where
  | scan (error : ScanError)
  | rejected (diagnostic : Diagnostic)
  | tooDeep
  deriving DecidableEq, Repr

abbrev Parse := EStateM Failure State

/-- Moves on by one token and reports the illegal characters that are passed. -/
def advance : Parse Unit := fun s =>
  let pulled := pull s.last s.upcoming
  let passed := { s with
    upcoming := pulled.rest
    current := s.peek
    skipped := pulled.illegal
    diagnostics := s.diagnostics ++ s.skipped.map .ofIllegal }
  match pulled.token with
  | .ok token => .ok () { passed with peek := token }
  | .error e => .error (.scan e) passed

/-- How far the frames of the stack suffice for scanning the next token: to its end, to its end
unless it is a number, which takes one frame more, until it has been read but not yet stored, or
not even until it is read. -/
inductive Reach where
  | stored | storedUnlessNumber | read | entered
  deriving DecidableEq, Repr

/-- The state that is left where the stack runs out while a token is scanned: the current token has
been passed, but no new one stands behind the one that is current now. -/
def State.overrun (s : State) (skipped : List Token) (upcoming : List Scanned) : State :=
  { s with
    upcoming := upcoming
    current := s.peek
    skipped := skipped
    diagnostics := s.diagnostics ++ s.skipped.map .ofIllegal }

/-- The state that is left where the frames run out, if they do. A token that has been read by then
is lost. -/
def State.overrun? (s : State) : Reach → Option State
  | .stored => none
  | .storedUnlessNumber =>
    let pulled := pull s.last s.upcoming
    match pulled.token with
    | .ok token => if token.kind = .int then some (s.overrun pulled.illegal pulled.rest) else none
    | .error _ => none
  | .read =>
    match s.upcoming with
    | .error _ :: _ => none
    | items => some (s.overrun [] items.tail)
  | .entered => some (s.overrun [] s.upcoming)

/-- Moves on by one token as far as the frames of the stack suffice. -/
def advanceWithin (reach : Reach) : Parse Unit := fun s =>
  match s.overrun? reach with
  | none => advance s
  | some left => .error .tooDeep left

def reject {α : Type} (complaint : Complaint) (token : Token) : Parse α := fun s =>
  .error (.rejected ⟨complaint, token.span⟩) (s.report complaint token)

/-- Moves on to a token of the given kind, or rejects the token that stands there instead. -/
def expect (kind : Kind) : Parse Token := do
  let s ← get
  if s.peek.kind = kind then
    advance
    return (← get).current
  else reject (.unexpectedToken kind s.peek.kind) s.peek

def skipSemicolon : Parse Unit := do
  if (← get).peek.kind = .semicolon then advance

def addDepth (n : Int) : Parse Unit := modify fun s => { s with depth := s.depth + n }

section Loops

variable {α : Type}

/-- Repeats `step` while `test` holds, at most `n` times, from a value and the state. -/
def repeatWhile (test : State → α → Bool) (step : α → Parse α) : Nat → α → Parse α
  | 0, a => pure a
  | n + 1, a => do
    if test (← get) a then repeatWhile test step n (← step a) else pure a

/-- Collects what `step` yields while `test` holds, at most `n` times. -/
def collectWhile (test : State → Bool) (step : Parse α) : Nat → Parse (List α)
  | 0 => pure []
  | n + 1 => do
    if test (← get) then
      let a ← step
      return a :: (← collectWhile test step n)
    else pure []

end Loops

end MonkeyFront
