import MonkeyFront.Proofs.Spelling

/-!
# Printed programs

Which trees over lexemes a program can be, and how they are printed: with braces around blocks, with
a semicolon behind every statement, and with parentheses where an operand would fall apart. Further
parentheses may be added around any expression.
-/

namespace MonkeyFront

/-! ### Well-formed trees -/

namespace Lexeme

def IsName (x : Lexeme) : Prop :=
  x.kind = .ident ∧ x.literal.toList ≠ [] ∧ (∀ c ∈ x.literal.toList, isLetter c = true) ∧
    Kind.keyword? x.literal.toList = none

def IsNumber (x : Lexeme) : Prop :=
  x.kind = .int ∧ (∀ c ∈ x.literal.toList, isDigit c = true) ∧
    (number? x.literal.toList).isSome = true

def IsTruth (x : Lexeme) : Prop := x = .ofText "true" ∨ x = .ofText "false"

def IsUnary (x : Lexeme) : Prop := x = .ofText "!" ∨ x = .ofText "-"

def IsBinary (x : Lexeme) : Prop :=
  ∃ text ∈ ["==", "!=", "<", ">", "+", "-", "*", "/"], x = .ofText text

end Lexeme

mutual

/-- An expression with the tokens that a parser stores. -/
def Expr.WellFormed : Expr Lexeme → Prop
  | .name x => x.IsName
  | .integer x => x.IsNumber
  | .boolean x => x.IsTruth
  | .unary x e => x.IsUnary ∧ e.WellFormed
  | .binary x e d => x.IsBinary ∧ e.WellFormed ∧ d.WellFormed
  | .conditional x c b none => x = .ofText "if" ∧ c.WellFormed ∧ b.WellFormed
  | .conditional x c b (some d) =>
    x = .ofText "if" ∧ c.WellFormed ∧ b.WellFormed ∧ d.WellFormed
  | .function x names b => x = .ofText "fn" ∧ (∀ name ∈ names, name.IsName) ∧ b.WellFormed
  | .call x e es => x = .ofText "(" ∧ e.WellFormed ∧ Expr.AllWellFormed es
termination_by structural e => e

/-- Expressions with the tokens that a parser stores. -/
def Expr.AllWellFormed : List (Expr Lexeme) → Prop
  | [] => True
  | e :: es => e.WellFormed ∧ Expr.AllWellFormed es
termination_by structural e => e

/-- A statement other than a block, with the tokens that a parser stores. -/
def Stmt.WellFormed : Stmt Lexeme → Prop
  | .binding name e => name.IsName ∧ e.WellFormed
  | .result e => e.WellFormed
  | .expression _ e => e.WellFormed
  | .block _ => False
termination_by structural e => e

/-- Statements other than blocks, with the tokens that a parser stores. -/
def Stmt.AllWellFormed : List (Stmt Lexeme) → Prop
  | [] => True
  | s :: ss => s.WellFormed ∧ Stmt.AllWellFormed ss
termination_by structural e => e

def Block.WellFormed : Block Lexeme → Prop
  | .mk x ss => x = .ofText "\x7b" ∧ Stmt.AllWellFormed ss
termination_by structural e => e

end

/-! ### Prints -/

/-- The expression is a binary one, with an operator of one of the kinds. -/
def Expr.hasOperator (p : Kind → Bool) : Expr Lexeme → Bool
  | .binary x _ _ => p x.kind
  | _ => false

def Expr.isUnary : Expr Lexeme → Bool
  | .unary _ _ => true
  | _ => false

/-- The parts of a tree that are printed; of an expression it is said whether parentheses enclose
it. -/
inductive Part where
  | expr (enclosed : Bool) (e : Expr Lexeme)
  | arguments (es : List (Expr Lexeme))
  | moreArguments (es : List (Expr Lexeme))
  | stmt (s : Stmt Lexeme)
  | stmts (ss : List (Stmt Lexeme))
  | block (b : Block Lexeme)

/-- The lexemes print the part of a tree. If `led` says so, each expression that is a statement
carries the first lexeme of its print. -/
inductive Prints (led : Bool) : Part → List Lexeme → Prop
  | name {x} : Prints led (.expr false (.name x)) [x]
  | integer {x} : Prints led (.expr false (.integer x)) [x]
  | boolean {x} : Prints led (.expr false (.boolean x)) [x]
  | unary {x a e xs} : Prints led (.expr a e) xs →
      a = true ∨ e.hasOperator (fun _ => true) = false →
      Prints led (.expr false (.unary x e)) (x :: xs)
  | binary {x a e xs b d ys} : Prints led (.expr a e) xs →
      a = true ∨ e.hasOperator (·.level < x.kind.level) = false → Prints led (.expr b d) ys →
      b = true ∨ d.hasOperator (·.level ≤ x.kind.level) = false →
      Prints led (.expr false (.binary x e d)) (xs ++ x :: ys)
  | conditional {x a c xs b ys} : Prints led (.expr a c) xs → Prints led (.block b) ys →
      Prints led (.expr false (.conditional x c b none))
        (x :: .ofText "(" :: xs ++ .ofText ")" :: ys)
  | alternative {x a c xs b ys d zs} : Prints led (.expr a c) xs → Prints led (.block b) ys →
      Prints led (.block d) zs →
      Prints led (.expr false (.conditional x c b (some d)))
        (x :: .ofText "(" :: xs ++ .ofText ")" :: ys ++ .ofText "else" :: zs)
  | function {x names b ys} : Prints led (.block b) ys →
      Prints led (.expr false (.function x names b))
        (x :: .ofText "(" :: names.intersperse (.ofText ",") ++ .ofText ")" :: ys)
  | call {x a e xs es ys} : Prints led (.expr a e) xs →
      a = true ∨ e.hasOperator (fun _ => true) = false ∧ e.isUnary = false →
      Prints led (.arguments es) ys →
      Prints led (.expr false (.call x e es)) (xs ++ x :: ys ++ [.ofText ")"])
  | enclosed {a e xs} : Prints led (.expr a e) xs →
      Prints led (.expr true e) (.ofText "(" :: xs ++ [.ofText ")"])
  | noArguments : Prints led (.arguments []) []
  | arguments {a e xs es ys} : Prints led (.expr a e) xs → Prints led (.moreArguments es) ys →
      Prints led (.arguments (e :: es)) (xs ++ ys)
  | noMoreArguments : Prints led (.moreArguments []) []
  | moreArguments {a e xs es ys} : Prints led (.expr a e) xs → Prints led (.moreArguments es) ys →
      Prints led (.moreArguments (e :: es)) (.ofText "," :: xs ++ ys)
  | binding {name a e xs} : Prints led (.expr a e) xs →
      Prints led (.stmt (.binding name e))
        (.ofText "let" :: name :: .ofText "=" :: xs ++ [.ofText ";"])
  | result {a e xs} : Prints led (.expr a e) xs →
      Prints led (.stmt (.result e)) (.ofText "return" :: xs ++ [.ofText ";"])
  | expression {x a e y xs} : Prints led (.expr a e) (y :: xs) → (led = true → x = y) →
      Prints led (.stmt (.expression x e)) (y :: xs ++ [.ofText ";"])
  | noStmts : Prints led (.stmts []) []
  | stmts {s xs ss ys} : Prints led (.stmt s) xs → Prints led (.stmts ss) ys →
      Prints led (.stmts (s :: ss)) (xs ++ ys)
  | block {x ss xs} : Prints led (.stmts ss) xs →
      Prints led (.block (.mk x ss)) (x :: xs ++ [.ofText "\x7d"])

/-! ### Every well-formed tree has a print -/

mutual

theorem Expr.exists_print : ∀ e : Expr Lexeme, e.WellFormed → ∃ xs, Prints false (.expr false e) xs
  | .name _, _ => ⟨_, .name⟩
  | .integer _, _ => ⟨_, .integer⟩
  | .boolean _, _ => ⟨_, .boolean⟩
  | .unary _ e, h => by
    obtain ⟨xs, hxs⟩ := Expr.exists_print e h.2
    exact ⟨_, .unary (.enclosed hxs) (.inl rfl)⟩
  | .binary _ e d, h => by
    obtain ⟨xs, hxs⟩ := Expr.exists_print e h.2.1
    obtain ⟨ys, hys⟩ := Expr.exists_print d h.2.2
    exact ⟨_, .binary (.enclosed hxs) (.inl rfl) (.enclosed hys) (.inl rfl)⟩
  | .conditional _ c b none, h => by
    obtain ⟨xs, hxs⟩ := Expr.exists_print c h.2.1
    obtain ⟨ys, hys⟩ := Block.exists_print b h.2.2
    exact ⟨_, .conditional hxs hys⟩
  | .conditional _ c b (some d), h => by
    obtain ⟨xs, hxs⟩ := Expr.exists_print c h.2.1
    obtain ⟨ys, hys⟩ := Block.exists_print b h.2.2.1
    obtain ⟨zs, hzs⟩ := Block.exists_print d h.2.2.2
    exact ⟨_, .alternative hxs hys hzs⟩
  | .function _ _ b, h => by
    obtain ⟨ys, hys⟩ := Block.exists_print b h.2.2
    exact ⟨_, .function hys⟩
  | .call _ e es, h => by
    obtain ⟨xs, hxs⟩ := Expr.exists_print e h.2.1
    cases es with
    | nil => exact ⟨_, .call (.enclosed hxs) (.inl rfl) .noArguments⟩
    | cons d es =>
      obtain ⟨ys, hys⟩ := Expr.exists_print d h.2.2.1
      obtain ⟨zs, hzs⟩ := Expr.exists_printAll es h.2.2.2
      exact ⟨_, .call (.enclosed hxs) (.inl rfl) (.arguments hys hzs)⟩

theorem Expr.exists_printAll : ∀ es : List (Expr Lexeme), Expr.AllWellFormed es →
    ∃ xs, Prints false (.moreArguments es) xs
  | [], _ => ⟨_, .noMoreArguments⟩
  | e :: es, h => by
    obtain ⟨xs, hxs⟩ := Expr.exists_print e h.1
    obtain ⟨ys, hys⟩ := Expr.exists_printAll es h.2
    exact ⟨_, .moreArguments hxs hys⟩

theorem Stmt.exists_print : ∀ s : Stmt Lexeme, s.WellFormed → ∃ xs, Prints false (.stmt s) xs
  | .binding _ e, h => by
    obtain ⟨xs, hxs⟩ := Expr.exists_print e h.2
    exact ⟨_, .binding hxs⟩
  | .result e, h => by
    obtain ⟨xs, hxs⟩ := Expr.exists_print e h
    exact ⟨_, .result hxs⟩
  | .expression _ e, h => by
    obtain ⟨xs, hxs⟩ := Expr.exists_print e h
    exact ⟨_, .expression (.enclosed hxs) (fun hl => by cases hl)⟩
  | .block _, h => h.elim

theorem Stmt.exists_printAll : ∀ ss : List (Stmt Lexeme), Stmt.AllWellFormed ss →
    ∃ xs, Prints false (.stmts ss) xs
  | [], _ => ⟨_, .noStmts⟩
  | s :: ss, h => by
    obtain ⟨xs, hxs⟩ := Stmt.exists_print s h.1
    obtain ⟨ys, hys⟩ := Stmt.exists_printAll ss h.2
    exact ⟨_, .stmts hxs hys⟩

theorem Block.exists_print : ∀ b : Block Lexeme, b.WellFormed → ∃ xs, Prints false (.block b) xs
  | .mk _ ss, h => by
    obtain ⟨xs, hxs⟩ := Stmt.exists_printAll ss h.2
    exact ⟨_, .block hxs⟩

end

/-! ### Trees without the tokens of expressions that are statements -/

section DropLeading

variable {τ : Type}

mutual

/-- The expression without the tokens that its statements carry if they are expressions. -/
def Expr.dropLeading : Expr τ → Expr (Option τ)
  | .name t => .name (some t)
  | .integer t => .integer (some t)
  | .boolean t => .boolean (some t)
  | .unary t e => .unary (some t) e.dropLeading
  | .binary t e d => .binary (some t) e.dropLeading d.dropLeading
  | .conditional t c b none => .conditional (some t) c.dropLeading b.dropLeading none
  | .conditional t c b (some d) => .conditional (some t) c.dropLeading b.dropLeading
    (some d.dropLeading)
  | .function t names b => .function (some t) (names.map some) b.dropLeading
  | .call t e es => .call (some t) e.dropLeading (Expr.dropLeadingAll es)
termination_by structural e => e

/-- The expressions without the tokens that their statements carry if they are expressions. -/
def Expr.dropLeadingAll : List (Expr τ) → List (Expr (Option τ))
  | [] => []
  | e :: es => e.dropLeading :: Expr.dropLeadingAll es
termination_by structural e => e

/-- The statement without the token that it carries if it is an expression. -/
def Stmt.dropLeading : Stmt τ → Stmt (Option τ)
  | .binding name e => .binding (some name) e.dropLeading
  | .result e => .result e.dropLeading
  | .expression _ e => .expression none e.dropLeading
  | .block b => .block b.dropLeading
termination_by structural e => e

/-- The statements without the tokens that they carry if they are expressions. -/
def Stmt.dropLeadingAll : List (Stmt τ) → List (Stmt (Option τ))
  | [] => []
  | s :: ss => s.dropLeading :: Stmt.dropLeadingAll ss
termination_by structural e => e

/-- The block without the tokens that its statements carry if they are expressions. -/
def Block.dropLeading : Block τ → Block (Option τ)
  | .mk t ss => .mk (some t) (Stmt.dropLeadingAll ss)
termination_by structural e => e

end

end DropLeading

end MonkeyFront
