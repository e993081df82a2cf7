import Mathlib.Data.Nat.Digits.Defs
import MonkeyFront.Proofs.Renderings
import MonkeyFront.Proofs.Wording
import MonkeyFront.Tree.Outline

/-!
# Outlines tell trees apart

The outline of a program has one line for each node, two blanks deeper than the line of the node
above it. Such lines determine the nodes: what stands below a node are the lines behind its own that
are deeper, and the word that a line begins with says which kind of node it is for.
-/

namespace MonkeyFront

/-! ### What outlines tell -/

/-- An integer in the decimal digits of its value, any other lexeme as it is. -/
def Lexeme.inDecimal (x : Lexeme) : Lexeme := if x.kind = .int then .ofInt x.value else x

/-- The expression with its integers in decimal digits, without the tokens that its statements carry
if they are expressions. -/
def Expr.outlined (e : Expr Lexeme) : Expr (Option Lexeme) := (e.map Lexeme.inDecimal).dropLeading

/-- The expressions with their integers in decimal digits, without the tokens that their statements
carry if they are expressions. -/
def Expr.outlinedAll (es : List (Expr Lexeme)) : List (Expr (Option Lexeme)) :=
  Expr.dropLeadingAll (Expr.mapAll Lexeme.inDecimal es)

/-- The statement with its integers in decimal digits, without the tokens that it and its statements
carry if they are expressions. -/
def Stmt.outlined (s : Stmt Lexeme) : Stmt (Option Lexeme) := (s.map Lexeme.inDecimal).dropLeading

/-- The program with its integers in decimal digits, without the tokens that its statements carry if
they are expressions. -/
def Program.outlined (p : Program Lexeme) : Program (Option Lexeme) :=
  Stmt.dropLeadingAll (Stmt.mapAll Lexeme.inDecimal p)

/-- The block with its integers in decimal digits, without the tokens that its statements carry if
they are expressions. -/
def Block.outlined (b : Block Lexeme) : Block (Option Lexeme) :=
  (b.map Lexeme.inDecimal).dropLeading

section Outlined

variable (x : Lexeme) (e d : Expr Lexeme) (es : List (Expr Lexeme)) (s : Stmt Lexeme)
  (ss : List (Stmt Lexeme)) (b c : Block Lexeme)

@[simp] lemma Expr.outlined_name : (Expr.name x).outlined = .name (some x.inDecimal) := rfl

@[simp] lemma Expr.outlined_integer : (Expr.integer x).outlined = .integer (some x.inDecimal) := rfl

@[simp] lemma Expr.outlined_boolean : (Expr.boolean x).outlined = .boolean (some x.inDecimal) := rfl

@[simp] lemma Expr.outlined_unary :
    (Expr.unary x e).outlined = .unary (some x.inDecimal) e.outlined := rfl

@[simp] lemma Expr.outlined_binary :
    (Expr.binary x e d).outlined = .binary (some x.inDecimal) e.outlined d.outlined := rfl

@[simp] lemma Expr.outlined_conditional_none :
    (Expr.conditional x e b none).outlined =
      .conditional (some x.inDecimal) e.outlined b.outlined none := rfl

@[simp] lemma Expr.outlined_conditional_some :
    (Expr.conditional x e b (some c)).outlined =
      .conditional (some x.inDecimal) e.outlined b.outlined (some c.outlined) := rfl

@[simp] lemma Expr.outlined_function (names : List Lexeme) :
    (Expr.function x names b).outlined =
      .function (some x.inDecimal) ((names.map Lexeme.inDecimal).map some) b.outlined := rfl

@[simp] lemma Expr.outlined_call :
    (Expr.call x e es).outlined = .call (some x.inDecimal) e.outlined (Expr.outlinedAll es) := rfl

@[simp] lemma Expr.outlinedAll_nil : Expr.outlinedAll [] = [] := rfl

@[simp] lemma Expr.outlinedAll_cons :
    Expr.outlinedAll (e :: es) = e.outlined :: Expr.outlinedAll es := rfl

@[simp] lemma Stmt.outlined_binding :
    (Stmt.binding x e).outlined = .binding (some x.inDecimal) e.outlined := rfl

@[simp] lemma Stmt.outlined_result : (Stmt.result e).outlined = .result e.outlined := rfl

@[simp] lemma Stmt.outlined_expression :
    (Stmt.expression x e).outlined = .expression none e.outlined := rfl

@[simp] lemma Program.outlined_nil : Program.outlined [] = [] := rfl

@[simp] lemma Program.outlined_cons :
    Program.outlined (s :: ss) = s.outlined :: Program.outlined ss := rfl

@[simp] lemma Block.outlined_mk :
    (Block.mk x ss).outlined = .mk (some x.inDecimal) (Program.outlined ss) := rfl

end Outlined

/-- The literal of an integer is read as a number, and this number is written in digits. -/
def Lexeme.Converts (x : Lexeme) : Prop :=
  ∃ n, number? x.literal.toList = some n ∧ (toString n).length ≤ numberLimit

/-- The outline of a program can be written to its end, and it is the text. -/
structure Program.HasOutline [limits : Limits] (p : Program Lexeme) (text : String) : Prop where
  converts : ∀ x, Occurs (.integer x) (.stmts p) → x.Converts
  depth_le : ∀ line ∈ Stmt.outlineAll 1 p, line.depth ≤ limits.outlinedDepth
  text_eq : p.outline = text

/-! ### Nodes -/

/-- The words that the lines of an outline begin with. -/
inductive Word where
  | identifier | integerLiteral | booleanLiteral | prefixExpression | infixExpression
  | ifExpression | functionLiteral | callExpression | letStatement | returnStatement
  | expressionStatement | block | consequence | alternative | body
  deriving DecidableEq

namespace Word

def text : Word → String
  | identifier => "Identifier"
  | integerLiteral => "IntegerLiteral"
  | booleanLiteral => "BooleanLiteral"
  | prefixExpression => "PrefixExpression"
  | infixExpression => "InfixExpression"
  | ifExpression => "IfExpression"
  | functionLiteral => "FunctionLiteral"
  | callExpression => "CallExpression"
  | letStatement => "LetStatement"
  | returnStatement => "ReturnStatement"
  | expressionStatement => "ExpressionStatement"
  | block => "Block"
  | consequence => "Then"
  | alternative => "Else"
  | body => "Body"

lemma text_injective {w w' : Word} (h : w.text = w'.text) : w = w' := by
  revert h
  cases w <;> cases w' <;> decide

lemma isLetter_text (w : Word) : ∀ c ∈ w.text.toList, isLetter c = true := by
  cases w <;> exact List.all_eq_true.1 rfl

end Word

/-- What the line of a node says: a word, and after a blank what else there is to say. -/
def labelOf (word : Word) : Option String → String
  | none => word.text
  | some detail => word.text ++ " " ++ detail

lemma labelOf_injective {w w' : Word} {a b : Option String} (h : labelOf w a = labelOf w' b) :
    w = w' ∧ a = b := by
  have hword (w : Word) (a : Option String) :
      (labelOf w a).toList.takeWhile isLetter = w.text.toList := by
    cases a with
    | none => exact List.takeWhile_eq_self_iff.2 w.isLetter_text
    | some detail => simp [labelOf, List.takeWhile_append_of_pos w.isLetter_text,
        show isLetter ' ' = false by decide]
  have hwords : w = w' := Word.text_injective (String.toList_injective (by
    rw [← hword w a, ← hword w' b, h]))
  subst hwords
  refine ⟨rfl, ?_⟩
  cases a with
  | none =>
    cases b with
    | none => rfl
    | some b => simpa [labelOf] using congrArg String.toList h
  | some a =>
    cases b with
    | none => simpa [labelOf] using congrArg String.toList h
    | some b => simpa [labelOf] using h

/-- A node of an outline, with what its line says and the nodes below it. -/
inductive Node where
  | mk (word : Word) (detail : Option String) (children : List Node)

namespace Node

mutual

def lines (depth : Nat) : Node → List OutlineLine
  | .mk word detail children =>
    ⟨depth, labelOf word detail⟩ :: linesAll (depth + 1) children
termination_by structural n => n

def linesAll (depth : Nat) : List Node → List OutlineLine
  | [] => []
  | n :: ns => n.lines depth ++ linesAll depth ns
termination_by structural ns => ns

end

mutual

lemma le_depth_lines (depth : Nat) : ∀ n : Node, ∀ line ∈ n.lines depth, depth ≤ line.depth
  | .mk _ _ children => by
    rw [lines, List.forall_mem_cons]
    exact ⟨le_refl _, fun line hline =>
      (Nat.le_succ depth).trans (le_depth_linesAll (depth + 1) children line hline)⟩

lemma le_depth_linesAll (depth : Nat) :
    ∀ ns : List Node, ∀ line ∈ linesAll depth ns, depth ≤ line.depth
  | [] => List.forall_mem_nil _
  | n :: ns => by
    rw [linesAll, List.forall_mem_append]
    exact ⟨le_depth_lines depth n, le_depth_linesAll depth ns⟩

end

/-- Of the lines behind that of a node, the deeper ones up to the first that is not are the lines of
the nodes below it. -/
lemma takeWhile_linesAll (depth : Nat) (children ns : List Node) :
    (linesAll (depth + 1) children ++ linesAll depth ns).takeWhile (depth < ·.depth) =
      linesAll (depth + 1) children := by
  have hdeep : ∀ line ∈ linesAll (depth + 1) children, decide (depth < line.depth) = true :=
    fun line hline => decide_eq_true (le_depth_linesAll _ _ line hline)
  have hnext : (linesAll depth ns).takeWhile (depth < ·.depth) = [] := by
    cases ns with
    | nil => rfl
    | cons n ns =>
      obtain ⟨word, detail, below⟩ := n
      simp [linesAll, lines]
  rw [List.takeWhile_append_of_pos hdeep, hnext, List.append_nil]

theorem linesAll_injective : ∀ {ns ms : List Node} {depth : Nat},
    linesAll depth ns = linesAll depth ms → ns = ms
  | [], [], _, _ => rfl
  | [], .mk .. :: _, _, h => by simp [linesAll, lines] at h
  | .mk .. :: _, [], _, h => by simp [linesAll, lines] at h
  | .mk word detail children :: ns, .mk word' detail' children' :: ms, depth, h => by
    simp only [linesAll, lines, List.cons_append, List.cons.injEq, OutlineLine.mk.injEq,
      true_and] at h
    obtain ⟨hlabel, hrest⟩ := h
    obtain ⟨rfl, rfl⟩ := labelOf_injective hlabel
    have hbelow : linesAll (depth + 1) children = linesAll (depth + 1) children' := by
      rw [← takeWhile_linesAll depth children ns, hrest, takeWhile_linesAll]
    have hbehind : linesAll depth ns = linesAll depth ms :=
      List.append_cancel_left (hbelow ▸ hrest)
    rw [linesAll_injective hbelow, linesAll_injective hbehind]

end Node

/-! ### Nodes of trees -/

mutual

def Expr.node : Expr Lexeme → Node
  | .name t => .mk .identifier t.literal []
  | .integer t => .mk .integerLiteral (toString t.value) []
  | .boolean t => .mk .booleanLiteral t.literal []
  | .unary t right => .mk .prefixExpression t.literal [right.node]
  | .binary t left right => .mk .infixExpression t.literal [left.node, right.node]
  | .conditional _ condition consequence none =>
    .mk .ifExpression none [condition.node, consequence.node .consequence]
  | .conditional _ condition consequence (some alternative) =>
    .mk .ifExpression none
      [condition.node, consequence.node .consequence, alternative.node .alternative]
  | .function _ parameters body =>
    .mk .functionLiteral ("(" ++ commaSeparated (parameters.map (·.literal)) ++ ")")
      [body.node .body]
  | .call _ callee arguments => .mk .callExpression none (callee.node :: Expr.nodes arguments)
termination_by structural e => e

def Expr.nodes : List (Expr Lexeme) → List Node
  | [] => []
  | e :: es => e.node :: Expr.nodes es
termination_by structural es => es

def Stmt.node : Stmt Lexeme → Node
  | .binding name value => .mk .letStatement name.literal [value.node]
  | .result value => .mk .returnStatement none [value.node]
  | .expression _ value => .mk .expressionStatement none [value.node]
  | .block body => body.node .block
termination_by structural s => s

def Stmt.nodes : List (Stmt Lexeme) → List Node
  | [] => []
  | s :: ss => s.node :: Stmt.nodes ss
termination_by structural ss => ss

/-- The node for a block, under the word for its part. -/
def Block.node (part : Word) : Block Lexeme → Node
  | .mk _ statements => .mk part none (Stmt.nodes statements)
termination_by structural b => b

end

mutual

lemma Expr.outline_eq (depth : Nat) : ∀ e : Expr Lexeme, e.outline depth = e.node.lines depth
  | .name _ | .integer _ | .boolean _ => rfl
  | .unary _ right => by
    rw [Expr.outline, Expr.outline_eq (depth + 1) right]
    simp [Expr.node, Node.lines, Node.linesAll, labelOf, Word.text]
  | .binary _ left right => by
    rw [Expr.outline, Expr.outline_eq (depth + 1) left, Expr.outline_eq (depth + 1) right]
    simp [Expr.node, Node.lines, Node.linesAll, labelOf, Word.text]
  | .conditional _ condition consequence none => by
    have hblock : consequence.outline "Then" (depth + 1) = _ :=
      Block.outline_eq .consequence (depth + 1) consequence
    rw [Expr.outline, Expr.outline_eq (depth + 1) condition, hblock]
    simp [Expr.node, Node.lines, Node.linesAll, labelOf, Word.text]
  | .conditional _ condition consequence (some alternative) => by
    have hblock : consequence.outline "Then" (depth + 1) = _ :=
      Block.outline_eq .consequence (depth + 1) consequence
    have hother : alternative.outline "Else" (depth + 1) = _ :=
      Block.outline_eq .alternative (depth + 1) alternative
    rw [Expr.outline, Expr.outline_eq (depth + 1) condition, hblock, hother]
    simp [Expr.node, Node.lines, Node.linesAll, labelOf, Word.text]
  | .function _ _ body => by
    have hblock : body.outline "Body" (depth + 1) = _ := Block.outline_eq .body (depth + 1) body
    rw [Expr.outline, hblock]
    simp [Expr.node, Node.lines, Node.linesAll, labelOf, Word.text]
    rfl
  | .call _ callee arguments => by
    rw [Expr.outline, Expr.outline_eq (depth + 1) callee, Expr.outlineAll_eq (depth + 1) arguments]
    simp [Expr.node, Node.lines, Node.linesAll, labelOf, Word.text]

lemma Expr.outlineAll_eq (depth : Nat) : ∀ es : List (Expr Lexeme),
    Expr.outlineAll depth es = Node.linesAll depth (Expr.nodes es)
  | [] => rfl
  | e :: es => by
    rw [Expr.outlineAll, Expr.outline_eq depth e, Expr.outlineAll_eq depth es, Expr.nodes,
      Node.linesAll]

lemma Stmt.outline_eq (depth : Nat) : ∀ s : Stmt Lexeme, s.outline depth = s.node.lines depth
  | .binding _ value => by
    rw [Stmt.outline, Expr.outline_eq (depth + 1) value]
    simp [Stmt.node, Node.lines, Node.linesAll, labelOf, Word.text]
  | .result value => by
    rw [Stmt.outline, Expr.outline_eq (depth + 1) value]
    simp [Stmt.node, Node.lines, Node.linesAll, labelOf, Word.text]
  | .expression _ value => by
    rw [Stmt.outline, Expr.outline_eq (depth + 1) value]
    simp [Stmt.node, Node.lines, Node.linesAll, labelOf, Word.text]
  | .block body => Block.outline_eq .block depth body

lemma Stmt.outlineAll_eq (depth : Nat) : ∀ ss : List (Stmt Lexeme),
    Stmt.outlineAll depth ss = Node.linesAll depth (Stmt.nodes ss)
  | [] => rfl
  | s :: ss => by
    rw [Stmt.outlineAll, Stmt.outline_eq depth s, Stmt.outlineAll_eq depth ss, Stmt.nodes,
      Node.linesAll]

lemma Block.outline_eq (part : Word) (depth : Nat) : ∀ b : Block Lexeme,
    b.outline part.text depth = (b.node part).lines depth
  | .mk _ statements => by
    rw [Block.outline, Stmt.outlineAll_eq (depth + 1) statements, Block.node, Node.lines, labelOf]

end

/-! ### Nodes determine trees -/

namespace Lexeme

variable {x y : Lexeme}

/-- A lexeme that is no integer, and of which the literal says everything. -/
structure IsSpelled (x : Lexeme) : Prop where
  eq_ofText : x = .ofText x.literal
  ne_int : x.kind ≠ .int

lemma IsName.isSpelled (h : x.IsName) : x.IsSpelled := by
  obtain ⟨hk, hne, hletters, hkeyword⟩ := h
  have hkind : Kind.ofText x.literal.toList = .ident := ofText_word hne hletters hkeyword
  exact ⟨by rw [ofText, hkind, ← hk], by rw [hk]; decide⟩

lemma IsTruth.isSpelled (h : x.IsTruth) : x.IsSpelled := by
  rcases h with rfl | rfl <;> exact ⟨rfl, by decide⟩

lemma IsUnary.isSpelled (h : x.IsUnary) : x.IsSpelled := by
  rcases h with rfl | rfl <;> exact ⟨rfl, by decide⟩

lemma IsBinary.isSpelled (h : x.IsBinary) : x.IsSpelled := by
  obtain ⟨text, htext, rfl⟩ := h
  simp only [List.mem_cons, List.not_mem_nil, or_false] at htext
  rcases htext with rfl | rfl | rfl | rfl | rfl | rfl | rfl | rfl <;> exact ⟨rfl, by decide⟩

lemma IsSpelled.inDecimal (h : x.IsSpelled) : x.inDecimal = x := if_neg h.ne_int

lemma IsSpelled.literal_inj (hx : x.IsSpelled) (hy : y.IsSpelled) :
    x.literal = y.literal ↔ x.inDecimal = y.inDecimal := by
  rw [hx.inDecimal, hy.inDecimal]
  refine ⟨fun h => ?_, congrArg literal⟩
  rw [hx.eq_ofText, hy.eq_ofText, h]

/-- Of integers, the decimal digits of the value tell everything but the spelling. -/
lemma IsNumber.toString_inj (hx : x.IsNumber) (hy : y.IsNumber) :
    toString x.value = toString y.value ↔ x.inDecimal = y.inDecimal := by
  rw [inDecimal, if_pos hx.1, inDecimal, if_pos hy.1]
  exact ⟨congrArg (Lexeme.mk .int), congrArg literal⟩

end Lexeme

lemma eq_of_map_eq {α β : Type} {f : α → β} {xs ys : List α}
    (hf : ∀ x ∈ xs, ∀ y ∈ ys, f x = f y → x = y) (h : xs.map f = ys.map f) : xs = ys := by
  induction xs generalizing ys with
  | nil => exact (List.map_eq_nil_iff.1 h.symm).symm
  | cons x xs ih =>
    cases ys with
    | nil => cases h
    | cons y ys =>
      rw [List.map_cons, List.map_cons, List.cons.injEq] at h
      have hhead : x = y := hf x List.mem_cons_self y List.mem_cons_self h.1
      have htail : xs = ys := ih (fun a ha b hb =>
        hf a (List.mem_cons_of_mem _ ha) b (List.mem_cons_of_mem _ hb)) h.2
      rw [hhead, htail]

lemma append_commaLed_inj {text text' : String} {texts texts' : List String}
    (h : ∀ c ∈ text.toList, isLetter c = true) (h' : ∀ c ∈ text'.toList, isLetter c = true) :
    text ++ commaLed texts = text' ++ commaLed texts' ↔
      text = text' ∧ commaLed texts = commaLed texts' := by
  refine ⟨fun he => ?_, fun ⟨ht, hts⟩ => by rw [ht, hts]⟩
  have hword {text : String} (h : ∀ c ∈ text.toList, isLetter c = true) (texts : List String) :
      (text ++ commaLed texts).toList.takeWhile isLetter = text.toList := by
    have hbehind : (commaLed texts).toList.takeWhile isLetter = [] := by
      cases texts with
      | nil => rfl
      | cons next texts => simp [commaLed_cons, show isLetter ',' = false by decide]
    rw [String.toList_append, List.takeWhile_append_of_pos h, hbehind, List.append_nil]
  obtain rfl : text = text' := String.toList_injective (by rw [← hword h, he, hword h'])
  exact ⟨rfl, by simpa using he⟩

lemma commaLed_injective {texts texts' : List String}
    (h : ∀ text ∈ texts, ∀ c ∈ text.toList, isLetter c = true)
    (h' : ∀ text ∈ texts', ∀ c ∈ text.toList, isLetter c = true)
    (he : commaLed texts = commaLed texts') : texts = texts' := by
  induction texts generalizing texts' with
  | nil =>
    cases texts' with
    | nil => rfl
    | cons text' texts' => simpa [commaLed, commaLed_cons] using congrArg String.toList he
  | cons text texts ih =>
    cases texts' with
    | nil => simpa [commaLed, commaLed_cons] using congrArg String.toList he
    | cons text' texts' =>
      rw [List.forall_mem_cons] at h h'
      rw [commaLed_cons, commaLed_cons, String.append_assoc, String.append_assoc,
        String.append_right_inj, append_commaLed_inj h.1 h'.1] at he
      rw [he.1, ih h.2 h'.2 he.2]

lemma commaSeparated_names_inj {names names' : List Lexeme} (h : ∀ name ∈ names, name.IsName)
    (h' : ∀ name ∈ names', name.IsName) :
    commaSeparated (names.map (·.literal)) = commaSeparated (names'.map (·.literal)) ↔
      names = names' := by
  refine ⟨fun he => ?_, fun he => by rw [he]⟩
  have hne {name : Lexeme} {names : List Lexeme} (h : ∀ x ∈ name :: names, x.IsName) :
      commaSeparated ((name :: names).map (·.literal)) ≠ "" := by
    rw [List.map_cons, commaSeparated_cons, Ne, String.append_eq_empty_iff,
      ← String.toList_eq_nil_iff]
    exact fun hnil => (h name List.mem_cons_self).2.1 hnil.1
  cases names with
  | nil =>
    cases names' with
    | nil => rfl
    | cons name' names' => exact absurd he.symm (hne h')
  | cons name names =>
    cases names' with
    | nil => exact absurd he (hne h)
    | cons name' names' =>
      have hletters {names : List Lexeme} (h : ∀ name ∈ names, name.IsName) :
          ∀ text ∈ names.map (·.literal), ∀ c ∈ text.toList, isLetter c = true :=
        List.forall_mem_map.2 fun name hname => (h name hname).2.2.1
      have hliterals : (name :: names).map (·.literal) = (name' :: names').map (·.literal) := by
        rw [List.map_cons, List.map_cons] at he ⊢
        rw [List.forall_mem_cons] at h h'
        rw [commaSeparated_cons, commaSeparated_cons,
          append_commaLed_inj h.1.2.2.1 h'.1.2.2.1] at he
        rw [he.1, commaLed_injective (hletters h.2) (hletters h'.2) he.2]
      refine eq_of_map_eq (fun x hx y hy hxy => ?_) hliterals
      rw [(h x hx).isSpelled.eq_ofText, (h' y hy).isSpelled.eq_ofText, hxy]

lemma map_inDecimal_names {names : List Lexeme} (h : ∀ name ∈ names, name.IsName) :
    names.map Lexeme.inDecimal = names :=
  (List.map_congr_left fun name hname => (h name hname).isSpelled.inDecimal).trans
    (List.map_id' names)

variable {τ : Type}

def Expr.word : Expr τ → Word
  | .name _ => .identifier
  | .integer _ => .integerLiteral
  | .boolean _ => .booleanLiteral
  | .unary _ _ => .prefixExpression
  | .binary _ _ _ => .infixExpression
  | .conditional _ _ _ _ => .ifExpression
  | .function _ _ _ => .functionLiteral
  | .call _ _ _ => .callExpression

/-- Expressions of different kinds have different nodes and tell something different. -/
lemma Expr.node_iff_of_word_ne {e e' : Expr Lexeme} (h : e.word ≠ e'.word) :
    e.node = e'.node ↔ e.outlined = e'.outlined := by
  have hnode (e : Expr Lexeme) : ∃ detail children, e.node = .mk e.word detail children := by
    cases e with
    | conditional _ _ _ alternative => cases alternative <;> exact ⟨_, _, rfl⟩
    | _ => exact ⟨_, _, rfl⟩
  have houtlined (e : Expr Lexeme) : e.outlined.word = e.word := by
    cases e with
    | conditional _ _ _ alternative => cases alternative <;> rfl
    | _ => rfl
  obtain ⟨detail, children, hn⟩ := hnode e
  obtain ⟨detail', children', hn'⟩ := hnode e'
  refine ⟨fun he => absurd ?_ h, fun he => absurd ?_ h⟩
  · rw [hn, hn', Node.mk.injEq] at he
    exact he.1
  · rw [← houtlined e, ← houtlined e', he]

mutual

theorem Expr.node_eq_iff : ∀ {e e' : Expr Lexeme}, e.WellFormed → e'.WellFormed →
    (e.node = e'.node ↔ e.outlined = e'.outlined)
  | .name _, e', h, h' => by
    cases e' with
    | name _ => simp [Expr.node, h.isSpelled.literal_inj h'.isSpelled]
    | _ => exact Expr.node_iff_of_word_ne nofun
  | .integer _, e', h, h' => by
    cases e' with
    | integer _ => simpa [Expr.node] using h.toString_inj h'
    | _ => exact Expr.node_iff_of_word_ne nofun
  | .boolean _, e', h, h' => by
    cases e' with
    | boolean _ => simp [Expr.node, h.isSpelled.literal_inj h'.isSpelled]
    | _ => exact Expr.node_iff_of_word_ne nofun
  | .unary _ e, e', h, h' => by
    cases e' with
    | unary _ d =>
      simp [Expr.node, h.1.isSpelled.literal_inj h'.1.isSpelled, Expr.node_eq_iff h.2 h'.2]
    | _ => exact Expr.node_iff_of_word_ne nofun
  | .binary _ e d, e', h, h' => by
    cases e' with
    | binary _ e' d' =>
      simp [Expr.node, h.1.isSpelled.literal_inj h'.1.isSpelled, Expr.node_eq_iff h.2.1 h'.2.1,
        Expr.node_eq_iff h.2.2 h'.2.2]
    | _ => exact Expr.node_iff_of_word_ne nofun
  | .conditional _ c b none, e', h, h' => by
    cases e' with
    | conditional _ c' b' alternative =>
      cases alternative with
      | none =>
        simp [Expr.node, h.1, h'.1, Expr.node_eq_iff h.2.1 h'.2.1, Block.node_eq_iff h.2.2 h'.2.2]
      | some d' => simp [Expr.node]
    | _ => exact Expr.node_iff_of_word_ne nofun
  | .conditional _ c b (some d), e', h, h' => by
    cases e' with
    | conditional _ c' b' alternative =>
      cases alternative with
      | none => simp [Expr.node]
      | some d' =>
        simp [Expr.node, h.1, h'.1, Expr.node_eq_iff h.2.1 h'.2.1,
          Block.node_eq_iff h.2.2.1 h'.2.2.1, Block.node_eq_iff h.2.2.2 h'.2.2.2]
    | _ => exact Expr.node_iff_of_word_ne nofun
  | .function _ names b, e', h, h' => by
    cases e' with
    | function _ names' b' =>
      have hsome := (List.map_injective_iff.2 (Option.some_injective Lexeme)).eq_iff (a := names)
        (b := names')
      simp only [Expr.node, Expr.outlined_function, h.1, h'.1, map_inDecimal_names h.2.1,
        map_inDecimal_names h'.2.1, Expr.function.injEq, hsome, Node.mk.injEq]
      simp [commaSeparated_names_inj h.2.1 h'.2.1, Block.node_eq_iff h.2.2 h'.2.2]
    | _ => exact Expr.node_iff_of_word_ne nofun
  | .call _ e es, e', h, h' => by
    cases e' with
    | call _ e' es' =>
      simp [Expr.node, h.1, h'.1, Expr.node_eq_iff h.2.1 h'.2.1, Expr.nodes_eq_iff h.2.2 h'.2.2]
    | _ => exact Expr.node_iff_of_word_ne nofun

theorem Expr.nodes_eq_iff : ∀ {es es' : List (Expr Lexeme)}, Expr.AllWellFormed es →
    Expr.AllWellFormed es' →
      (Expr.nodes es = Expr.nodes es' ↔ Expr.outlinedAll es = Expr.outlinedAll es')
  | [], es', _, _ => by cases es' <;> simp [Expr.nodes]
  | e :: es, es', h, h' => by
    cases es' with
    | nil => simp [Expr.nodes]
    | cons e' es' => simp [Expr.nodes, Expr.node_eq_iff h.1 h'.1, Expr.nodes_eq_iff h.2 h'.2]

theorem Stmt.node_eq_iff : ∀ {s s' : Stmt Lexeme}, s.WellFormed → s'.WellFormed →
    (s.node = s'.node ↔ s.outlined = s'.outlined)
  | .binding _ e, s', h, h' => by
    cases s' with
    | binding _ e' =>
      simp [Stmt.node, h.1.isSpelled.literal_inj h'.1.isSpelled, Expr.node_eq_iff h.2 h'.2]
    | block _ => exact h'.elim
    | _ => simp [Stmt.node]
  | .result e, s', h, h' => by
    cases s' with
    | result e' => simp [Stmt.node, Expr.node_eq_iff h h']
    | block _ => exact h'.elim
    | _ => simp [Stmt.node]
  | .expression _ e, s', h, h' => by
    cases s' with
    | expression _ e' => simp [Stmt.node, Expr.node_eq_iff h h']
    | block _ => exact h'.elim
    | _ => simp [Stmt.node]
  | .block _, _, h, _ => h.elim

theorem Stmt.nodes_eq_iff : ∀ {ss ss' : List (Stmt Lexeme)}, Stmt.AllWellFormed ss →
    Stmt.AllWellFormed ss' →
    (Stmt.nodes ss = Stmt.nodes ss' ↔ Program.outlined ss = Program.outlined ss')
  | [], ss', _, _ => by cases ss' <;> simp [Stmt.nodes]
  | s :: ss, ss', h, h' => by
    cases ss' with
    | nil => simp [Stmt.nodes]
    | cons s' ss' => simp [Stmt.nodes, Stmt.node_eq_iff h.1 h'.1, Stmt.nodes_eq_iff h.2 h'.2]

theorem Block.node_eq_iff : ∀ {b b' : Block Lexeme} {part : Word}, b.WellFormed → b'.WellFormed →
    (b.node part = b'.node part ↔ b.outlined = b'.outlined)
  | .mk _ ss, .mk _ ss', _, h, h' => by
    simp [Block.node, h.1, h'.1, Stmt.nodes_eq_iff h.2 h'.2]

end

/-! ### Lines of text -/

/-- What a line of an outline says is a word and, after a blank, some text on the same line. -/
def OutlineLine.IsPlain (line : OutlineLine) : Prop :=
  ∃ word detail, line.label = labelOf word detail ∧ ∀ text ∈ detail, '\n' ∉ text.toList

namespace OutlineLine

variable {line line' : OutlineLine}

def unended (line : OutlineLine) : String :=
  String.ofList (List.replicate (2 * line.depth) ' ') ++ line.label

lemma IsPlain.not_mem_unended (h : line.IsPlain) : '\n' ∉ line.unended.toList := by
  obtain ⟨word, detail, hlabel, hdetail⟩ := h
  have hword : '\n' ∉ word.text.toList := fun hc => absurd (word.isLetter_text _ hc) (by decide)
  have hblanks : '\n' ∉ List.replicate (2 * line.depth) ' ' := fun hc =>
    absurd (List.eq_of_mem_replicate hc) (by decide)
  rw [unended, hlabel]
  cases detail with
  | none => simpa [labelOf, hblanks] using hword
  | some text => simpa [labelOf, hblanks, hword] using hdetail text rfl

/-- A line of text tells the depth and the label: the label begins behind the blanks. -/
lemma IsPlain.eq_of_unended (h : line.IsPlain) (h' : line'.IsPlain)
    (he : line.unended = line'.unended) : line = line' := by
  have hblanks {line : OutlineLine} (h : line.IsPlain) :
      line.unended.toList.takeWhile (· = ' ') = List.replicate (2 * line.depth) ' ' := by
    obtain ⟨word, detail, hlabel, -⟩ := h
    have hlabelled : line.label.toList.takeWhile (· = ' ') = [] := by
      rw [hlabel]
      cases detail <;> cases word <;> simp [labelOf, Word.text]
    have hall : ∀ c ∈ List.replicate (2 * line.depth) ' ', decide (c = ' ') = true := fun c hc =>
      decide_eq_true (List.eq_of_mem_replicate hc)
    rw [unended, String.toList_append, String.toList_ofList, List.takeWhile_append_of_pos hall,
      hlabelled, List.append_nil]
  have hdepth : line.depth = line'.depth := by
    have hlengths := congrArg List.length ((hblanks h).symm.trans (he ▸ hblanks h'))
    simp only [List.length_replicate] at hlengths
    omega
  have hlabel : line.label = line'.label := by
    rw [unended, unended, hdepth] at he
    exact (String.append_right_inj _).1 he
  cases line
  cases line'
  cases hdepth
  cases hlabel
  rfl

lemma eq_of_join_text {lines lines' : List OutlineLine} (h : ∀ line ∈ lines, line.IsPlain)
    (h' : ∀ line ∈ lines', line.IsPlain)
    (he : String.join (lines.map text) = String.join (lines'.map text)) : lines = lines' := by
  have hlines {lines : List OutlineLine} (h : ∀ line ∈ lines, line.IsPlain) :
      linesOf (String.join (lines.map text)) = (lines.map unended).map (· ++ "\n") := by
    rw [← linesOf_join (List.forall_mem_map.2 fun line hline => (h line hline).not_mem_unended),
      List.map_map]
    rfl
  have hunended : lines.map unended = lines'.map unended := by
    have hfeeds := (hlines h).symm.trans (he ▸ hlines h')
    exact List.map_injective_iff.2 (fun a b hab => (String.append_left_inj _).1 hab) hfeeds
  exact eq_of_map_eq (fun a ha b hb => (h a ha).eq_of_unended (h' b hb)) hunended

end OutlineLine

/-! ### Outlines of well-formed trees -/

lemma lt_of_decimalValue? {c : Char} {n : Nat} (h : decimalValue? c = some n) : n < 10 := by
  unfold decimalValue? at h
  obtain ⟨first, hfirst, rfl⟩ := Option.map_eq_some_iff.1 h
  have hrange := List.find?_some hfirst
  simp only [Bool.and_eq_true, decide_eq_true_eq] at hrange
  omega

/-- Decimal digits behind a number below a power of ten make a number below a higher one. -/
lemma foldlM_decimal_lt {run : List Char} {start n k : Nat} (hstart : start < 10 ^ k)
    (h : run.foldlM (fun value c => (decimalValue? c).map (value * 10 + ·)) start = some n) :
    n < 10 ^ (k + run.length) := by
  induction run generalizing start k with
  | nil =>
    obtain rfl : start = n := Option.some.inj h
    exact hstart
  | cons c run ih =>
    rw [List.foldlM_cons] at h
    cases hc : decimalValue? c with
    | none => simp [hc] at h
    | some m =>
      have hm := lt_of_decimalValue? hc
      have hnext : start * 10 + m < 10 ^ (k + 1) := by
        rw [Nat.pow_succ]
        omega
      simp only [hc, Option.map_some] at h
      rw [List.length_cons, Nat.add_comm run.length, ← Nat.add_assoc]
      exact ih hnext h

/-- The number that is read from some digits has no more digits than these. -/
lemma Lexeme.IsNumber.converts {x : Lexeme} (h : x.IsNumber) : x.Converts := by
  obtain ⟨n, hn⟩ := Option.isSome_iff_exists.1 h.2.2
  refine ⟨n, hn, ?_⟩
  unfold number? at hn
  split_ifs at hn with hrun
  simp only [Bool.or_eq_true, List.isEmpty_iff, decide_eq_true_eq, not_or, not_lt] at hrun
  have hlt : n < 10 ^ x.literal.toList.length := by
    simpa using foldlM_decimal_lt (k := 0) (by decide) hn
  rw [Nat.toString_eq_repr]
  exact (Nat.repr_length n _ (List.length_pos_iff.2 hrun.1) hlt).trans hrun.2

lemma isPlain_word (depth : Nat) (word : Word) :
    OutlineLine.IsPlain ⟨depth, labelOf word none⟩ := ⟨word, none, rfl, nofun⟩

lemma isPlain_detail {depth : Nat} {word : Word} {text : String} (h : '\n' ∉ text.toList) :
    OutlineLine.IsPlain ⟨depth, labelOf word text⟩ :=
  ⟨word, text, rfl, fun _ htext => Option.some.inj htext ▸ h⟩

lemma Lexeme.IsName.not_mem {x : Lexeme} (h : x.IsName) : '\n' ∉ x.literal.toList :=
  fun hc => absurd (h.2.2.1 _ hc) (by decide)

lemma Lexeme.IsTruth.not_mem {x : Lexeme} (h : x.IsTruth) : '\n' ∉ x.literal.toList := by
  rcases h with rfl | rfl <;> decide

lemma Lexeme.IsUnary.not_mem {x : Lexeme} (h : x.IsUnary) : '\n' ∉ x.literal.toList := by
  rcases h with rfl | rfl <;> decide

lemma Lexeme.IsBinary.not_mem {x : Lexeme} (h : x.IsBinary) : '\n' ∉ x.literal.toList := by
  obtain ⟨text, htext, rfl⟩ := h
  revert text
  decide

lemma not_mem_commaSeparated {texts : List String} (h : ∀ text ∈ texts, '\n' ∉ text.toList) :
    '\n' ∉ (commaSeparated texts).toList := by
  have hled {texts : List String} (h : ∀ text ∈ texts, '\n' ∉ text.toList) :
      '\n' ∉ (commaLed texts).toList := by
    induction texts with
    | nil => exact List.not_mem_nil
    | cons text texts ih =>
      rw [List.forall_mem_cons] at h
      simpa [commaLed_cons, h.1] using ih h.2
  cases texts with
  | nil => exact List.not_mem_nil
  | cons text texts =>
    rw [List.forall_mem_cons] at h
    simpa [commaSeparated_cons, h.1] using hled h.2

lemma not_mem_toString (n : Nat) : '\n' ∉ (toString n).toList := by
  intro hc
  rw [Nat.toString_eq_repr, Nat.repr_eq_ofList_toDigits, String.toList_ofList] at hc
  exact absurd (Nat.isDigit_of_mem_toDigits (by decide) (by decide) hc) (by decide)

namespace Node

variable {p : OutlineLine → Prop} {depth : Nat}

lemma forall_mem_linesAll {ns : List Node} :
    (∀ line ∈ linesAll depth ns, p line) ↔ ∀ n ∈ ns, ∀ line ∈ n.lines depth, p line := by
  induction ns with
  | nil => simp [linesAll]
  | cons n ns ih => rw [linesAll, List.forall_mem_append, List.forall_mem_cons, ih]

lemma forall_mem_lines {word : Word} {detail : Option String} {children : List Node} :
    (∀ line ∈ (Node.mk word detail children).lines depth, p line) ↔
      p ⟨depth, labelOf word detail⟩ ∧
        ∀ n ∈ children, ∀ line ∈ n.lines (depth + 1), p line := by
  rw [lines, List.forall_mem_cons, forall_mem_linesAll]

end Node

mutual

lemma Expr.isPlain_lines {depth : Nat} : ∀ {e : Expr Lexeme}, e.WellFormed →
    ∀ line ∈ e.node.lines depth, line.IsPlain
  | .name _, h => by
    rw [Expr.node, Node.forall_mem_lines]
    exact ⟨isPlain_detail h.not_mem, List.forall_mem_nil _⟩
  | .integer _, _ => by
    rw [Expr.node, Node.forall_mem_lines]
    exact ⟨isPlain_detail (not_mem_toString _), List.forall_mem_nil _⟩
  | .boolean _, h => by
    rw [Expr.node, Node.forall_mem_lines]
    exact ⟨isPlain_detail h.not_mem, List.forall_mem_nil _⟩
  | .unary _ _, h => by
    rw [Expr.node, Node.forall_mem_lines, List.forall_mem_singleton]
    exact ⟨isPlain_detail h.1.not_mem, Expr.isPlain_lines h.2⟩
  | .binary _ _ _, h => by
    rw [Expr.node, Node.forall_mem_lines, List.forall_mem_cons,
      List.forall_mem_singleton]
    exact ⟨isPlain_detail h.1.not_mem, Expr.isPlain_lines h.2.1, Expr.isPlain_lines h.2.2⟩
  | .conditional _ _ _ none, h => by
    rw [Expr.node, Node.forall_mem_lines, List.forall_mem_cons,
      List.forall_mem_singleton]
    exact ⟨isPlain_word _ _, Expr.isPlain_lines h.2.1, Block.isPlain_lines h.2.2⟩
  | .conditional _ _ _ (some _), h => by
    rw [Expr.node, Node.forall_mem_lines, List.forall_mem_cons, List.forall_mem_cons,
      List.forall_mem_singleton]
    exact ⟨isPlain_word _ _, Expr.isPlain_lines h.2.1, Block.isPlain_lines h.2.2.1,
      Block.isPlain_lines h.2.2.2⟩
  | .function _ parameters _, h => by
    have hnames : '\n' ∉ (commaSeparated (parameters.map (·.literal))).toList :=
      not_mem_commaSeparated (List.forall_mem_map.2 fun name hname => (h.2.1 name hname).not_mem)
    rw [Expr.node, Node.forall_mem_lines, List.forall_mem_singleton]
    exact ⟨isPlain_detail (by simpa using hnames), Block.isPlain_lines h.2.2⟩
  | .call _ _ _, h => by
    rw [Expr.node, Node.forall_mem_lines, List.forall_mem_cons,
      ← Node.forall_mem_linesAll]
    exact ⟨isPlain_word _ _, Expr.isPlain_lines h.2.1, Expr.isPlain_linesAll h.2.2⟩

lemma Expr.isPlain_linesAll {depth : Nat} : ∀ {es : List (Expr Lexeme)}, Expr.AllWellFormed es →
    ∀ line ∈ Node.linesAll depth (Expr.nodes es), line.IsPlain
  | [], _ => List.forall_mem_nil _
  | e :: es, h => by
    rw [Expr.nodes, Node.linesAll, List.forall_mem_append]
    exact ⟨Expr.isPlain_lines h.1, Expr.isPlain_linesAll h.2⟩

lemma Stmt.isPlain_lines {depth : Nat} : ∀ {s : Stmt Lexeme}, s.WellFormed →
    ∀ line ∈ s.node.lines depth, line.IsPlain
  | .binding _ _, h => by
    rw [Stmt.node, Node.forall_mem_lines, List.forall_mem_singleton]
    exact ⟨isPlain_detail h.1.not_mem, Expr.isPlain_lines h.2⟩
  | .result _, h | .expression _ _, h => by
    rw [Stmt.node, Node.forall_mem_lines, List.forall_mem_singleton]
    exact ⟨isPlain_word _ _, Expr.isPlain_lines h⟩
  | .block _, h => h.elim

/-- In the outline of a well-formed program, what a line says stays on the line. -/
lemma Stmt.isPlain_linesAll {depth : Nat} : ∀ {ss : List (Stmt Lexeme)}, Stmt.AllWellFormed ss →
    ∀ line ∈ Node.linesAll depth (Stmt.nodes ss), line.IsPlain
  | [], _ => List.forall_mem_nil _
  | s :: ss, h => by
    rw [Stmt.nodes, Node.linesAll, List.forall_mem_append]
    exact ⟨Stmt.isPlain_lines h.1, Stmt.isPlain_linesAll h.2⟩

lemma Block.isPlain_lines {depth : Nat} {part : Word} : ∀ {b : Block Lexeme}, b.WellFormed →
    ∀ line ∈ (b.node part).lines depth, line.IsPlain
  | .mk _ _, h => by
    rw [Block.node, Node.forall_mem_lines, ← Node.forall_mem_linesAll]
    exact ⟨isPlain_word _ _, Stmt.isPlain_linesAll h.2⟩

end

/-! ### How deep outlines are -/

mutual

lemma Expr.depth_lines_le_iff (depth bound : Nat) : ∀ e : Expr Lexeme,
    (∀ line ∈ e.node.lines depth, line.depth ≤ bound) ↔ e.frames .perNode ≤ bound + 1 - depth
  | .name _ | .integer _ | .boolean _ => by
    rw [Expr.node, Node.forall_mem_lines, and_iff_left (List.forall_mem_nil _), Expr.frames]
    dsimp only [FrameCosts.perNode]
    omega
  | .unary _ right => by
    rw [Expr.node, Node.forall_mem_lines, List.forall_mem_singleton,
      Expr.depth_lines_le_iff (depth + 1) bound right, Expr.frames]
    dsimp only [FrameCosts.perNode]
    omega
  | .binary _ left right => by
    rw [Expr.node, Node.forall_mem_lines, List.forall_mem_cons,
      List.forall_mem_singleton,
      Expr.depth_lines_le_iff (depth + 1) bound left,
      Expr.depth_lines_le_iff (depth + 1) bound right, Expr.frames]
    dsimp only [FrameCosts.perNode]
    omega
  | .conditional _ condition consequence none => by
    rw [Expr.node, Node.forall_mem_lines, List.forall_mem_cons,
      List.forall_mem_singleton,
      Expr.depth_lines_le_iff (depth + 1) bound condition,
      Block.depth_lines_le_iff (depth + 1) bound consequence, Expr.frames]
    dsimp only [FrameCosts.perNode]
    omega
  | .conditional _ condition consequence (some alternative) => by
    rw [Expr.node, Node.forall_mem_lines, List.forall_mem_cons, List.forall_mem_cons,
      List.forall_mem_singleton, Expr.depth_lines_le_iff (depth + 1) bound condition,
      Block.depth_lines_le_iff (depth + 1) bound consequence,
      Block.depth_lines_le_iff (depth + 1) bound alternative, Expr.frames]
    dsimp only [FrameCosts.perNode]
    omega
  | .function _ _ body => by
    rw [Expr.node, Node.forall_mem_lines, List.forall_mem_singleton,
      Block.depth_lines_le_iff (depth + 1) bound body, Expr.frames]
    dsimp only [FrameCosts.perNode]
    omega
  | .call _ callee arguments => by
    rw [Expr.node, Node.forall_mem_lines, List.forall_mem_cons, ← Node.forall_mem_linesAll,
      Expr.depth_lines_le_iff (depth + 1) bound callee,
      Expr.depth_linesAll_le_iff (depth + 1) bound arguments, Expr.frames]
    dsimp only [FrameCosts.perNode]
    omega

lemma Expr.depth_linesAll_le_iff (depth bound : Nat) : ∀ es : List (Expr Lexeme),
    (∀ line ∈ Node.linesAll depth (Expr.nodes es), line.depth ≤ bound) ↔
      Expr.framesAll .perNode es ≤ bound + 1 - depth
  | [] => by simp [Expr.nodes, Node.linesAll, Expr.framesAll]
  | e :: es => by
    rw [Expr.nodes, Node.linesAll, List.forall_mem_append, Expr.depth_lines_le_iff depth bound e,
      Expr.depth_linesAll_le_iff depth bound es, Expr.framesAll, Nat.max_le]

lemma Stmt.depth_lines_le_iff (depth bound : Nat) : ∀ s : Stmt Lexeme,
    (∀ line ∈ s.node.lines depth, line.depth ≤ bound) ↔ s.frames .perNode ≤ bound + 1 - depth
  | .binding _ value | .result value | .expression _ value => by
    rw [Stmt.node, Node.forall_mem_lines, List.forall_mem_singleton,
      Expr.depth_lines_le_iff (depth + 1) bound value, Stmt.frames]
    dsimp only [FrameCosts.perNode]
    omega
  | .block body => Block.depth_lines_le_iff depth bound body

lemma Stmt.depth_linesAll_le_iff (depth bound : Nat) : ∀ ss : List (Stmt Lexeme),
    (∀ line ∈ Node.linesAll depth (Stmt.nodes ss), line.depth ≤ bound) ↔
      Stmt.framesAll .perNode ss ≤ bound + 1 - depth
  | [] => by simp [Stmt.nodes, Node.linesAll, Stmt.framesAll]
  | s :: ss => by
    rw [Stmt.nodes, Node.linesAll, List.forall_mem_append, Stmt.depth_lines_le_iff depth bound s,
      Stmt.depth_linesAll_le_iff depth bound ss, Stmt.framesAll, Nat.max_le]

lemma Block.depth_lines_le_iff {part : Word} (depth bound : Nat) : ∀ b : Block Lexeme,
    (∀ line ∈ (b.node part).lines depth, line.depth ≤ bound) ↔ b.frames .perNode ≤ bound + 1 - depth
  | .mk _ statements => by
    rw [Block.node, Node.forall_mem_lines, ← Node.forall_mem_linesAll,
      Stmt.depth_linesAll_le_iff (depth + 1) bound statements, Block.frames]
    dsimp only [FrameCosts.perNode]
    omega

end

/-! ### Outlines of parsed programs -/

namespace Program

variable {p q : Program Lexeme}

lemma outline_eq (p : Program Lexeme) : p.outline =
    "Program\n" ++ String.join ((Node.linesAll 1 (Stmt.nodes p)).map OutlineLine.text) := by
  rw [outline, Stmt.outlineAll_eq]

theorem outline_eq_iff (hp : Stmt.AllWellFormed p) (hq : Stmt.AllWellFormed q) :
    p.outline = q.outline ↔ p.outlined = q.outlined := by
  rw [← Stmt.nodes_eq_iff hp hq, outline_eq, outline_eq, String.append_right_inj]
  refine ⟨fun h => ?_, fun h => by rw [h]⟩
  exact Node.linesAll_injective (OutlineLine.eq_of_join_text (Stmt.isPlain_linesAll hp)
    (Stmt.isPlain_linesAll hq) h)

/-- The outline of a well-formed program can be written unless the program is too high. -/
theorem exists_hasOutline_iff [limits : Limits] (hp : Stmt.AllWellFormed p) :
    (∃ text, p.HasOutline text) ↔ Stmt.framesAll .perNode p ≤ limits.outlinedDepth := by
  have hdepth : (∀ line ∈ Stmt.outlineAll 1 p, line.depth ≤ limits.outlinedDepth) ↔
      Stmt.framesAll .perNode p ≤ limits.outlinedDepth := by
    rw [Stmt.outlineAll_eq, Stmt.depth_linesAll_le_iff, Nat.add_sub_cancel]
  constructor
  · rintro ⟨text, h⟩
    exact hdepth.1 h.depth_le
  · intro h
    exact ⟨_, fun x hx => (Occurs.wellFormed hx hp).converts, hdepth.2 h, rfl⟩

end Program

/-- The outlines of parsed programs are equal exactly if the programs differ in nothing but the
spelling of their integers and the first tokens of their expression statements. The integers of
parsed programs can be written, so that only the height of a program keeps its outline from being
written. -/
theorem outline_determines [limits : Limits] :
    (∀ {bound bound' : Bound} {p q : Program Token} {s t : String}, IsAnswer bound (.program p) →
      IsAnswer bound' (.program q) → (Program.erase p).HasOutline s →
      (Program.erase q).HasOutline t →
      (s = t ↔ (Program.erase p).outlined = (Program.erase q).outlined)) ∧
    ∀ {bound : Bound} {p : Program Token}, IsAnswer bound (.program p) →
      (∀ x, Occurs (.integer x) (.stmts (Program.erase p)) → x.Converts) ∧
      ((∃ text, (Program.erase p).HasOutline text) ↔
        Stmt.framesAll .perNode (Program.erase p) ≤ limits.outlinedDepth) := by
  constructor
  · intro bound bound' p q s t hp hq hs ht
    rw [← hs.text_eq, ← ht.text_eq]
    exact Program.outline_eq_iff hp.wellFormed hq.wellFormed
  · intro bound p hp
    exact ⟨fun x hx => (Occurs.wellFormed hx hp.wellFormed).converts,
      Program.exists_hasOutline_iff hp.wellFormed⟩

/-- A number, and the same number in parentheses and with a zero in front. -/
theorem outline_determines_enclosed : ∃ p q : Program Token,
    parseWithin 20 true "3" = .ok ⟨.ok p, []⟩ ∧ parseWithin 20 true "(03)" = .ok ⟨.ok q, []⟩ ∧
      (Program.erase p).HasOutline
        "Program\n  ExpressionStatement\n    IntegerLiteral 3\n" ∧
      (Program.erase q).HasOutline
        "Program\n  ExpressionStatement\n    IntegerLiteral 3\n" ∧
      (Program.erase p).outlined = (Program.erase q).outlined := by
  have parsed (source : String) {tokens : List Token} {p : Program Token}
      (htokens : tokenize source = .ok tokens) (hlegal : ∀ t ∈ tokens, t.kind ≠ .illegal)
      (hp : Spells (.stmts p) tokens.dropLast)
      (hclean : (parseWithin 20 true source).map (·.diagnostics) = .ok []) :
      parseWithin 20 true source = .ok ⟨.ok p, []⟩ := by
    obtain ⟨outcome, hparse, hout⟩ := parse_spelled 20 htokens hlegal hp
    rw [hparse] at hclean
    have hnil : outcome.diagnostics = [] := Except.ok.inj hclean
    rw [hparse, hout (by simp [hnil])]
  have hplain := parsed "3" rfl (by decide)
    (.unended (.expression (.chain (.operand (.applied (.integer rfl))))) (by decide) (by decide)
      .noStmts) (by decide +kernel)
  have henclosed := parsed "(03)" rfl (by decide)
    (.unended (.expression (.chain (.operand (.applied
      (.grouped rfl (.chain (.operand (.applied (.integer rfl)))) rfl))))) (by decide) (by decide)
      .noStmts) (by decide +kernel)
  have hanswer := isAnswer_of_parseWithin hplain rfl
  have hanswer' := isAnswer_of_parseWithin henclosed rfl
  obtain ⟨s, hs⟩ := (outline_determines.2 hanswer).2.2 (by decide)
  obtain ⟨t, ht⟩ := (outline_determines.2 hanswer').2.2 (by decide)
  have hsame : s = t := by
    rw [← hs.text_eq, ← ht.text_eq]
    rfl
  have houtlined := (outline_determines.1 hanswer hanswer' hs ht).1 hsame
  exact ⟨_, _, hplain, henclosed, ⟨hs.converts, hs.depth_le, rfl⟩, ⟨ht.converts, ht.depth_le, rfl⟩,
    houtlined⟩

/-! ### Outlines that are not written -/

/-- Twelve hundred calls are parsed without diagnostics, but they take more frames than there are
for their outline. -/
theorem calledName_notOutlined : ∃ p : Program Token,
    parse true (calledName 1200).text = .ok ⟨.ok p, []⟩ ∧
      IsAnswer Limits.standard.nesting (.program p) ∧
      ¬∃ text, (Program.erase p).HasOutline text := by
  obtain ⟨t, e, hparse, he⟩ := exists_parse_calledName (by decide) 1200
  have hanswer := isAnswer_of_parseWithin hparse rfl
  refine ⟨_, hparse, hanswer, fun h => ?_⟩
  have hframes : 1 + e.erase.frames .perNode ≤ 984 :=
    (Nat.le_max_left _ _).trans ((Program.exists_hasOutline_iff hanswer.wellFormed).1 h)
  have hcalls := le_frames_calledName .perNode 1200
  simp only [FrameCosts.perNode, Nat.mul_one] at hcalls hframes
  rw [he] at hframes
  omega

end MonkeyFront
