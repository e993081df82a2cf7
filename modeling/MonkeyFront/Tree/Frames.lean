import MonkeyFront.Tree

/-!
# How many frames trees take

Trees are shown, written as an outline and compared by functions that call themselves on the parts
of a tree. The frames that these take on the stack add up along a path from the root, with a cost
for each step that depends on where the path goes on.
-/

namespace MonkeyFront

variable {τ : Type}

/-- How many frames it takes to go through a tree: through a leaf, and on the way from an
expression, a statement or a block to its parts. -/
structure FrameCosts where
  name : Nat
  integer : Nat
  boolean : Nat
  operand : Nat
  condition : Nat
  callee : Nat
  argument : Nat
  body : Nat
  value : Nat
  expression : Nat
  statement : Nat

def FrameCosts.perNode : FrameCosts := ⟨1, 1, 1, 1, 1, 1, 1, 1, 1, 1, 1⟩

section Costs

variable (costs : FrameCosts)

mutual

def Expr.frames : Expr τ → Nat
  | .name _ => costs.name
  | .integer _ => costs.integer
  | .boolean _ => costs.boolean
  | .unary _ right => costs.operand + right.frames
  | .binary _ left right => costs.operand + max left.frames right.frames
  | .conditional _ condition consequence none =>
    max (costs.condition + condition.frames) (costs.body + consequence.frames)
  | .conditional _ condition consequence (some alternative) =>
    max (costs.condition + condition.frames)
      (costs.body + max consequence.frames alternative.frames)
  | .function _ _ body => costs.body + body.frames
  | .call _ callee arguments =>
    max (costs.callee + callee.frames) (costs.argument + Expr.framesAll arguments)
termination_by structural e => e

/-- The frames that the expression takes that takes the most. -/
def Expr.framesAll : List (Expr τ) → Nat
  | [] => 0
  | e :: es => max e.frames (Expr.framesAll es)
termination_by structural es => es

def Stmt.frames : Stmt τ → Nat
  | .binding _ value => costs.value + value.frames
  | .result value => costs.value + value.frames
  | .expression _ value => costs.expression + value.frames
  | .block body => body.frames
termination_by structural s => s

/-- The frames that the statement takes that takes the most. -/
def Stmt.framesAll : List (Stmt τ) → Nat
  | [] => 0
  | s :: ss => max s.frames (Stmt.framesAll ss)
termination_by structural ss => ss

def Block.frames : Block τ → Nat
  | .mk _ statements => costs.statement + Stmt.framesAll statements
termination_by structural b => b

end

end Costs

section Meeting

variable [DecidableEq τ]

mutual

/-- How far down two expressions are compared, token first and then part by part. -/
def Expr.meet : Expr τ → Expr τ → Nat
  | .unary s a, .unary t b => 1 + if s = t then a.meet b else 0
  | .binary s a b, .binary t c d =>
    1 + if s = t then max (a.meet c) (if a.same c then b.meet d else 0) else 0
  | .conditional s a b none, .conditional t c d none =>
    1 + if s = t then max (a.meet c) (if a.same c then b.meet d else 0) else 0
  | .conditional s a b none, .conditional t c d (some _) =>
    1 + if s = t then max (a.meet c) (if a.same c then b.meet d else 0) else 0
  | .conditional s a b (some _), .conditional t c d none =>
    1 + if s = t then max (a.meet c) (if a.same c then b.meet d else 0) else 0
  | .conditional s a b (some x), .conditional t c d (some y) =>
    1 + if s = t then
        max (a.meet c)
          (if a.same c then max (b.meet d) (if b.same d then x.meet y else 0) else 0)
      else 0
  | .function s xs b, .function t ys d => 1 + if s = t ∧ xs = ys then b.meet d else 0
  | .call s a xs, .call t b ys =>
    1 + if s = t then max (a.meet b) (if a.same b then Expr.meetAll xs ys else 0) else 0
  | _, _ => 1
termination_by structural e => e

/-- How far down expressions are compared in pairs, up to the first pair that differs. -/
def Expr.meetAll : List (Expr τ) → List (Expr τ) → Nat
  | a :: as, b :: bs => max (a.meet b) (if a.same b then Expr.meetAll as bs else 0)
  | _, _ => 0
termination_by structural es => es

def Stmt.meet : Stmt τ → Stmt τ → Nat
  | .binding s a, .binding t b => 1 + if s = t then a.meet b else 0
  | .result a, .result b => 1 + a.meet b
  | .expression s a, .expression t b => 1 + if s = t then a.meet b else 0
  | .block a, .block b => a.meet b
  | _, _ => 1
termination_by structural s => s

/-- How far down statements are compared in pairs, up to the first pair that differs. -/
def Stmt.meetAll : List (Stmt τ) → List (Stmt τ) → Nat
  | a :: as, b :: bs => max (a.meet b) (if a.same b then Stmt.meetAll as bs else 0)
  | _, _ => 0
termination_by structural ss => ss

def Block.meet : Block τ → Block τ → Nat
  | .mk s as, .mk t bs => 1 + if s = t then Stmt.meetAll as bs else 0
termination_by structural b => b

end

end Meeting

end MonkeyFront
