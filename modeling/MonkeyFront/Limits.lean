import MonkeyFront.Parsing.Engine
import MonkeyFront.Tree.Frames

/-!
# What the stack allows

The stack of the interpreter limits how deeply expressions nest that are parsed, and how high the
trees are that are shown, compared and written as outlines. How many frames are left for each of
these depends on where the program is called from, so that all of them are parameters.
-/

namespace MonkeyFront

class Limits where
  /-- What limits the nesting of expressions that are parsed. -/
  nesting : Bound
  /-- What it takes to show a tree. -/
  showing : FrameCosts
  /-- The frames for showing a tree. -/
  showingFrames : Nat
  /-- How far down trees are compared. -/
  comparedDepth : Nat
  /-- How far down nodes are written in an outline. -/
  outlinedDepth : Nat
  /-- What can be shown can be written as an outline. -/
  outlined_of_shown : ∀ p : Program Lexeme, Stmt.framesAll showing p ≤ showingFrames →
    Stmt.framesAll .perNode p ≤ outlinedDepth

/-- What it takes to show a tree by functions that format the texts of its parts, and join those of
arguments and of statements. -/
def FrameCosts.formatting : FrameCosts where
  name := 2
  integer := 1
  boolean := 1
  operand := 3
  condition := 3
  callee := 3
  argument := 4
  body := 3
  value := 4
  expression := 3
  statement := 3

namespace FrameCosts

variable {τ : Type}

mutual

theorem two_mul_perNode_le_expr : ∀ e : Expr τ, 2 * e.frames perNode ≤ e.frames formatting + 1
  | .name _ | .integer _ | .boolean _ => by
    simp only [Expr.frames, perNode, formatting]
    omega
  | .unary _ right => by
    have := two_mul_perNode_le_expr right
    simp only [Expr.frames, perNode, formatting] at this ⊢
    omega
  | .binary _ left right => by
    have := two_mul_perNode_le_expr left
    have := two_mul_perNode_le_expr right
    simp only [Expr.frames, perNode, formatting] at *
    omega
  | .conditional _ condition consequence none => by
    have := two_mul_perNode_le_expr condition
    have := two_mul_perNode_le_block consequence
    simp only [Expr.frames, perNode, formatting] at *
    omega
  | .conditional _ condition consequence (some alternative) => by
    have := two_mul_perNode_le_expr condition
    have := two_mul_perNode_le_block consequence
    have := two_mul_perNode_le_block alternative
    simp only [Expr.frames, perNode, formatting] at *
    omega
  | .function _ _ body => by
    have := two_mul_perNode_le_block body
    simp only [Expr.frames, perNode, formatting] at *
    omega
  | .call _ callee arguments => by
    have := two_mul_perNode_le_expr callee
    have := two_mul_perNode_le_exprs arguments
    simp only [Expr.frames, perNode, formatting] at *
    omega

theorem two_mul_perNode_le_exprs : ∀ es : List (Expr τ),
    2 * Expr.framesAll perNode es ≤ Expr.framesAll formatting es + 1
  | [] => Nat.zero_le _
  | e :: es => by
    have := two_mul_perNode_le_expr e
    have := two_mul_perNode_le_exprs es
    simp only [Expr.framesAll]
    omega

theorem two_mul_perNode_le_stmt : ∀ s : Stmt τ, 2 * s.frames perNode ≤ s.frames formatting + 1
  | .binding _ value | .result value | .expression _ value => by
    have := two_mul_perNode_le_expr value
    simp only [Stmt.frames, perNode, formatting] at *
    omega
  | .block body => two_mul_perNode_le_block body

theorem two_mul_perNode_le_stmts : ∀ ss : List (Stmt τ),
    2 * Stmt.framesAll perNode ss ≤ Stmt.framesAll formatting ss + 1
  | [] => Nat.zero_le _
  | s :: ss => by
    have := two_mul_perNode_le_stmt s
    have := two_mul_perNode_le_stmts ss
    simp only [Stmt.framesAll]
    omega

theorem two_mul_perNode_le_block : ∀ b : Block τ, 2 * b.frames perNode ≤ b.frames formatting + 1
  | .mk _ statements => by
    have := two_mul_perNode_le_stmts statements
    simp only [Block.frames, perNode, formatting] at *
    omega

end

end FrameCosts

instance Limits.standard : Limits where
  nesting := ⟨984, Site.frames⟩
  showing := .formatting
  showingFrames := 990
  comparedDepth := 330
  outlinedDepth := 984
  outlined_of_shown p h := by
    have := FrameCosts.two_mul_perNode_le_stmts p
    omega

section Trees

variable {τ : Type} [limits : Limits]

def Stmt.isShowable (s : Stmt τ) : Bool := s.frames limits.showing ≤ limits.showingFrames

def Expr.isShowable (e : Expr τ) : Bool := e.frames limits.showing ≤ limits.showingFrames

/-- A program all of whose statements can be shown. -/
def Program.isShowable (p : Program τ) : Bool :=
  Stmt.framesAll limits.showing p ≤ limits.showingFrames

def Program.isOutlinable (p : Program τ) : Bool :=
  Stmt.framesAll .perNode p ≤ limits.outlinedDepth

/-- Two programs whose statements can be compared in pairs. -/
def Program.areComparable [DecidableEq τ] (p q : Program τ) : Bool :=
  (p.zip q).all fun (s, t) => s.meet t ≤ limits.comparedDepth

end Trees

end MonkeyFront
