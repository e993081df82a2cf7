import MonkeyFront.Lexeme

/-!
# Trees

The trees of Monkey programs, over the type `τ` of the tokens at their nodes. A tree over tokens
knows where it stands in a source text; the same tree over lexemes does not, and two programs are
the same when their trees over lexemes are.
-/

namespace MonkeyFront

mutual

/-- Expressions. A unary or binary expression carries the token of its operator, a call that of its
opening parenthesis, every other expression its first token. -/
inductive Expr (τ : Type) where
  | name (token : τ)
  | integer (token : τ)
  | boolean (token : τ)
  | unary (token : τ) (right : Expr τ)
  | binary (token : τ) (left right : Expr τ)
  | conditional (token : τ) (condition : Expr τ) (consequence : Block τ)
      (alternative : Option (Block τ))
  | function (token : τ) (parameters : List τ) (body : Block τ)
  | call (token : τ) (callee : Expr τ) (arguments : List (Expr τ))

/-- Statements. An expression as a statement carries its first token. -/
inductive Stmt (τ : Type) where
  | binding (name : τ) (value : Expr τ)
  | result (value : Expr τ)
  | expression (token : τ) (value : Expr τ)
  | block (body : Block τ)

/-- Statements between braces, with the token of the opening brace. -/
inductive Block (τ : Type) where
  | mk (token : τ) (statements : List (Stmt τ))

end

abbrev Program (τ : Type) := List (Stmt τ)

variable {σ τ : Type}

mutual

/-- The expression with `f` applied to each token. -/
def Expr.map (f : σ → τ) : Expr σ → Expr τ
  | .name t => .name (f t)
  | .integer t => .integer (f t)
  | .boolean t => .boolean (f t)
  | .unary t right => .unary (f t) (right.map f)
  | .binary t left right => .binary (f t) (left.map f) (right.map f)
  | .conditional t condition consequence none =>
    .conditional (f t) (condition.map f) (consequence.map f) none
  | .conditional t condition consequence (some alternative) =>
    .conditional (f t) (condition.map f) (consequence.map f) (some (alternative.map f))
  | .function t parameters body => .function (f t) (parameters.map f) (body.map f)
  | .call t callee arguments => .call (f t) (callee.map f) (Expr.mapAll f arguments)
termination_by structural e => e

/-- The expressions with `f` applied to each token. -/
def Expr.mapAll (f : σ → τ) : List (Expr σ) → List (Expr τ)
  | [] => []
  | e :: es => e.map f :: Expr.mapAll f es
termination_by structural e => e

def Stmt.map (f : σ → τ) : Stmt σ → Stmt τ
  | .binding name value => .binding (f name) (value.map f)
  | .result value => .result (value.map f)
  | .expression t value => .expression (f t) (value.map f)
  | .block body => .block (body.map f)
termination_by structural e => e

/-- The statements with `f` applied to each token. -/
def Stmt.mapAll (f : σ → τ) : List (Stmt σ) → List (Stmt τ)
  | [] => []
  | s :: ss => s.map f :: Stmt.mapAll f ss
termination_by structural e => e

def Block.map (f : σ → τ) : Block σ → Block τ
  | .mk t statements => .mk (f t) (Stmt.mapAll f statements)
termination_by structural e => e

end

section Equality

variable [DecidableEq τ]

mutual

/-- Equality of expressions, decided token by token. -/
def Expr.same : Expr τ → Expr τ → Bool
  | .name s, .name t => s = t
  | .integer s, .integer t => s = t
  | .boolean s, .boolean t => s = t
  | .unary s a, .unary t b => s = t && a.same b
  | .binary s a b, .binary t c d => s = t && a.same c && b.same d
  | .conditional s a b none, .conditional t c d none => s = t && a.same c && b.same d
  | .conditional s a b (some x), .conditional t c d (some y) =>
    s = t && a.same c && b.same d && x.same y
  | .function s xs b, .function t ys d => s = t && xs = ys && b.same d
  | .call s a xs, .call t b ys => s = t && a.same b && Expr.sameAll xs ys
  | _, _ => false
termination_by structural e => e

/-- Equality of lists of expressions, decided token by token. -/
def Expr.sameAll : List (Expr τ) → List (Expr τ) → Bool
  | [], [] => true
  | a :: as, b :: bs => a.same b && Expr.sameAll as bs
  | _, _ => false
termination_by structural e => e

/-- Equality of statements, decided token by token. -/
def Stmt.same : Stmt τ → Stmt τ → Bool
  | .binding s a, .binding t b => s = t && a.same b
  | .result a, .result b => a.same b
  | .expression s a, .expression t b => s = t && a.same b
  | .block a, .block b => a.same b
  | _, _ => false
termination_by structural e => e

/-- Equality of lists of statements, decided token by token. -/
def Stmt.sameAll : List (Stmt τ) → List (Stmt τ) → Bool
  | [], [] => true
  | a :: as, b :: bs => a.same b && Stmt.sameAll as bs
  | _, _ => false
termination_by structural e => e

def Block.same : Block τ → Block τ → Bool
  | .mk s as, .mk t bs => s = t && Stmt.sameAll as bs
termination_by structural e => e

end

end Equality

/-- The statement over lexemes, which stands nowhere. -/
def Stmt.erase (s : Stmt Token) : Stmt Lexeme := s.map Token.toLexeme

/-- The expression over lexemes, which stands nowhere. -/
def Expr.erase (e : Expr Token) : Expr Lexeme := e.map Token.toLexeme

/-- The program over lexemes, which stands nowhere. -/
def Program.erase (p : Program Token) : Program Lexeme := Stmt.mapAll Token.toLexeme p

end MonkeyFront
