import MonkeyFront.Proofs.Ahead
import MonkeyFront.Proofs.Braces
import MonkeyFront.Proofs.Grammar

/-!
# Spellings of trees

`Spells x ts` says that the tokens `ts`, in this order, are the tree `x` written out, with grouping
parentheses added anywhere and a semicolon behind a statement or not.
-/

namespace MonkeyFront

/-- How tightly a token of a kind binds what stands before it. -/
def Kind.level (kind : Kind) : Nat := (Rules.standard.precedence kind).rank

def Kind.hasPrefixFn (kind : Kind) : Bool := (Rules.standard.prefixFn kind).isSome

def Kind.begins (kind : Kind) : Bool := kind.hasPrefixFn || kind = .kwLet || kind = .kwReturn

namespace Kind

lemma level_isBinary {k : Kind} (h : k.isBinary = true) : 1 < k.level ∧ k.level < 6 := by
  revert h
  cases k <;> decide

lemma isBrace_isBinary {k : Kind} (h : k.isBinary = true) : k.isBrace = false := by
  revert h
  cases k <;> decide

lemma isBrace_isUnary {k : Kind} (h : k.isUnary = true) : k.isBrace = false := by
  revert h
  cases k <;> decide

lemma prefixFn_isUnary {k : Kind} (h : k.isUnary = true) :
    Rules.standard.prefixFn k = some .unary := by
  cases k <;> first | rfl | cases h

lemma infixFn_isBinary {k : Kind} (h : k.isBinary = true) :
    Rules.standard.infixFn k = some .binary := by
  cases k <;> first | rfl | cases h

lemma hasPrefixFn_isUnary {k : Kind} (h : k.isUnary = true) : k.hasPrefixFn = true := by
  rw [hasPrefixFn, prefixFn_isUnary h, Option.isSome_some]

lemma ne_eof_of_prefixFns {k : Kind} (h : k.hasPrefixFn = true) : k ≠ .eof := by
  rintro rfl
  cases h

lemma ne_eof_of_begins {k : Kind} (h : k.begins = true) : k ≠ .eof := by
  rintro rfl
  cases h

/-- An operator that begins a statement could also go on with the statement before. -/
lemma begins_of_level {k : Kind} (h : k.begins = true) (hl : 1 < k.level) :
    k = .minus ∨ k = .lparen := by
  revert h hl
  cases k <;> decide

end Kind

/-- The kinds of the tokens at which an expression is begun by a rule. -/
def PrefixFn.Fits : PrefixFn → Kind → Prop
  | .name, k => k = .ident
  | .integer, k => k = .int
  | .boolean, k => k = .kwTrue ∨ k = .kwFalse
  | .unary, k => k.isUnary = true
  | .grouped, k => k = .lparen
  | .conditional, k => k = .kwIf
  | .function, k => k = .kwFunction
  | .script _, _ => False

/-- The kinds of the tokens at which an expression is gone on with by a rule. -/
def InfixFn.Fits : InfixFn → Kind → Prop
  | .binary, k => k.isBinary = true
  | .call, k => k = .lparen
  | .script _, _ => False

lemma Rules.fits_prefixFn {k : Kind} {rule : PrefixFn} (h : Rules.standard.prefixFn k = some rule) :
    rule.Fits k := by
  cases k <;> simp only [Rules.standard, Option.some.injEq, reduceCtorEq] at h <;> subst h <;>
    simp [PrefixFn.Fits, Kind.isUnary]

lemma Rules.fits_infixFn {k : Kind} {rule : InfixFn} (h : Rules.standard.infixFn k = some rule) :
    rule.Fits k := by
  cases k <;> simp only [Rules.standard, Option.some.injEq, reduceCtorEq] at h <;> subst h <;>
    simp [InfixFn.Fits, Kind.isBinary]

lemma Rules.level_of_infixFn_none {k : Kind} (h : Rules.standard.infixFn k = none) :
    k.level = 1 := by
  cases k <;> first | rfl | cases h

inductive Form where
  | primary | applied | operand | chain (level : Nat)

inductive Phrase where
  | expr (form : Form) (e : Expr Token)
  | arguments (es : List (Expr Token))
  | moreArguments (es : List (Expr Token))
  | stmt (s : Stmt Token)
  | stmts (ss : List (Stmt Token))
  | block (b : Block Token)

inductive SpellsMoreNames : List Token → List Token → Prop
  | nil : SpellsMoreNames [] []
  | cons {comma name names ts} : comma.kind = .comma → name.kind = .ident →
      SpellsMoreNames names ts → SpellsMoreNames (name :: names) (comma :: name :: ts)

lemma SpellsMoreNames.append_singleton {names ts : List Token} {comma name : Token}
    (h : SpellsMoreNames names ts) (hc : comma.kind = .comma) (hn : name.kind = .ident) :
    SpellsMoreNames (names ++ [name]) (ts ++ [comma, name]) := by
  induction h with
  | nil => exact .cons hc hn .nil
  | cons hc' hn' _ ih => exact .cons hc' hn' ih

inductive SpellsNames : List Token → List Token → Prop
  | nil : SpellsNames [] []
  | cons {name names ts} : name.kind = .ident → SpellsMoreNames names ts →
      SpellsNames (name :: names) (name :: ts)

inductive Spells : Phrase → List Token → Prop
  | name {t} : t.kind = .ident → Spells (.expr .primary (.name t)) [t]
  | integer {t} : t.kind = .int → Spells (.expr .primary (.integer t)) [t]
  | boolean {t} : t.kind = .kwTrue ∨ t.kind = .kwFalse →
      Spells (.expr .primary (.boolean t)) [t]
  | grouped {e l xs r} : l.kind = .lparen → Spells (.expr (.chain 1) e) xs → r.kind = .rparen →
      Spells (.expr .primary e) (l :: xs ++ [r])
  | conditional {t l c xs r b ys} : t.kind = .kwIf → l.kind = .lparen →
      Spells (.expr (.chain 1) c) xs → r.kind = .rparen → Spells (.block b) ys →
      Spells (.expr .primary (.conditional t c b none)) (t :: l :: xs ++ r :: ys)
  | alternative {t l c xs r b ys o d zs} : t.kind = .kwIf → l.kind = .lparen →
      Spells (.expr (.chain 1) c) xs → r.kind = .rparen → Spells (.block b) ys →
      o.kind = .kwElse → Spells (.block d) zs →
      Spells (.expr .primary (.conditional t c b (some d))) (t :: l :: xs ++ r :: ys ++ o :: zs)
  | function {t l names xs r b ys} : t.kind = .kwFunction → l.kind = .lparen →
      SpellsNames names xs → r.kind = .rparen → Spells (.block b) ys →
      Spells (.expr .primary (.function t names b)) (t :: l :: xs ++ r :: ys)
  | applied {e xs} : Spells (.expr .primary e) xs → Spells (.expr .applied e) xs
  | call {t e xs es ys r} : Spells (.expr .applied e) xs → t.kind = .lparen →
      Spells (.arguments es) ys → r.kind = .rparen →
      Spells (.expr .applied (.call t e es)) (xs ++ t :: ys ++ [r])
  | operand {e xs} : Spells (.expr .applied e) xs → Spells (.expr .operand e) xs
  | unary {t e xs} : t.kind.isUnary = true → Spells (.expr .operand e) xs →
      Spells (.expr .operand (.unary t e)) (t :: xs)
  | chain {n e xs} : Spells (.expr .operand e) xs → Spells (.expr (.chain n) e) xs
  | binary {n t e xs d ys} : t.kind.isBinary = true → n < t.kind.level →
      Spells (.expr (.chain (t.kind.level - 1)) e) xs →
      Spells (.expr (.chain t.kind.level) d) ys →
      Spells (.expr (.chain n) (.binary t e d)) (xs ++ t :: ys)
  | noArguments : Spells (.arguments []) []
  | arguments {e xs es ys} : Spells (.expr (.chain 1) e) xs → Spells (.moreArguments es) ys →
      Spells (.arguments (e :: es)) (xs ++ ys)
  | noMoreArguments : Spells (.moreArguments []) []
  | moreArguments {comma e xs es ys} : comma.kind = .comma → Spells (.expr (.chain 1) e) xs →
      Spells (.moreArguments es) ys →
      Spells (.moreArguments (e :: es)) (comma :: xs ++ ys)
  | binding {t name a e xs} : t.kind = .kwLet → name.kind = .ident → a.kind = .assign →
      Spells (.expr (.chain 1) e) xs → Spells (.stmt (.binding name e)) (t :: name :: a :: xs)
  | result {t e xs} : t.kind = .kwReturn → Spells (.expr (.chain 1) e) xs →
      Spells (.stmt (.result e)) (t :: xs)
  | expression {t e xs} : Spells (.expr (.chain 1) e) (t :: xs) →
      Spells (.stmt (.expression t e)) (t :: xs)
  | noStmts : Spells (.stmts []) []
  | ended {s xs t ss ys} : Spells (.stmt s) xs → t.kind = .semicolon → Spells (.stmts ss) ys →
      Spells (.stmts (s :: ss)) (xs ++ t :: ys)
  | unended {s xs ss ys} : Spells (.stmt s) xs → (headKind ys).level ≤ 1 →
      headKind ys ≠ .semicolon → Spells (.stmts ss) ys → Spells (.stmts (s :: ss)) (xs ++ ys)
  | block {l ss xs r} : l.kind = .lbrace → Spells (.stmts ss) xs → r.kind = .rbrace →
      Spells (.block (.mk l ss)) (l :: xs ++ [r])

namespace Spells

lemma chain_mono {n m : Nat} {e : Expr Token} {ts : List Token}
    (h : Spells (.expr (.chain m) e) ts) (hn : n ≤ m) : Spells (.expr (.chain n) e) ts := by
  cases h with
  | chain h => exact .chain h
  | binary ht hm hx hy => exact .binary ht (Nat.lt_of_le_of_lt hn hm) hx hy

lemma operand_of_chain {e : Expr Token} {ts : List Token} (h : Spells (.expr (.chain 6) e) ts) :
    Spells (.expr .operand e) ts := by
  cases h with
  | chain h => exact h
  | binary ht hl => exact absurd hl (Nat.lt_asymm (Kind.level_isBinary ht).2)

end Spells

/-- The tokens spell what a prefix function reads: an expression that is complete, or an operator
and its operand. -/
inductive SpellsFirst : Form → Expr Token → List Token → Prop
  | primary {e ts} : Spells (.expr .primary e) ts → SpellsFirst .primary e ts
  | unary {t e ts} : t.kind.isUnary = true → Spells (.expr .operand e) ts →
      SpellsFirst .operand (.unary t e) (t :: ts)

lemma headKind_append {xs : List Token} (h : headKind xs ≠ .eof) (ys : List Token) :
    headKind (xs ++ ys) = headKind xs := by
  cases xs with
  | nil => exact absurd rfl h
  | cons t xs => rfl

/-- The kinds of the tokens with which a part of a tree may begin. -/
def Phrase.MayBegin : Phrase → Kind → Prop
  | .expr _ _, k => k.hasPrefixFn = true
  | .stmt _, k => k.begins = true
  | .stmts [], k => k = .eof
  | .stmts (_ :: _), k => k.begins = true
  | _, _ => True

namespace Spells

lemma mayBegin {x : Phrase} {ts : List Token} (h : Spells x ts) : x.MayBegin (headKind ts) := by
  induction h with
  | name h | integer h => simp only [Phrase.MayBegin, headKind_cons, h]; rfl
  | boolean h => rcases h with h | h <;> simp only [Phrase.MayBegin, headKind_cons, h] <;> rfl
  | grouped h | conditional h | alternative h | function h =>
    simp only [Phrase.MayBegin, List.cons_append, headKind_cons, h]
    rfl
  | applied _ ih | operand _ ih | chain _ ih => exact ih
  | call _ _ _ _ ih _ =>
    rw [List.append_assoc, headKind_append (Kind.ne_eof_of_prefixFns ih)]
    exact ih
  | unary h => exact Kind.hasPrefixFn_isUnary h
  | binary _ _ _ _ ih _ =>
    rw [headKind_append (Kind.ne_eof_of_prefixFns ih)]
    exact ih
  | noArguments | arguments | noMoreArguments | moreArguments => trivial
  | binding h | result h => simp only [Phrase.MayBegin, headKind_cons, h]; rfl
  | expression _ ih =>
    simp only [Phrase.MayBegin, Kind.begins] at ih ⊢
    simp only [ih, Bool.true_or]
  | noStmts => rfl
  | ended _ _ _ ih _ =>
    rw [headKind_append (Kind.ne_eof_of_begins ih)]
    exact ih
  | unended _ _ _ _ ih _ =>
    rw [headKind_append (Kind.ne_eof_of_begins ih)]
    exact ih
  | block => trivial

lemma ne_nil_of_stmt {a : Stmt Token} {ts : List Token} (h : Spells (.stmt a) ts) : ts ≠ [] := by
  rintro rfl
  cases h.mayBegin

lemma ne_nil_of_expr {form : Form} {e : Expr Token} {ts : List Token}
    (h : Spells (.expr form e) ts) : ts ≠ [] := by
  rintro rfl
  cases h.mayBegin

lemma append_argument {es : List (Expr Token)} {e : Expr Token} {comma : Token}
    {xs ys : List Token} (h : Spells (.moreArguments es) xs) (hc : comma.kind = .comma)
    (he : Spells (.expr (.chain 1) e) ys) :
    Spells (.moreArguments (es ++ [e])) (xs ++ comma :: ys) := by
  generalize hx : Phrase.moreArguments es = x at h
  induction h generalizing es with
  | noMoreArguments =>
    cases hx
    simpa using Spells.moreArguments hc he .noMoreArguments
  | moreArguments hc' hd _ _ ih =>
    cases hx
    simpa using Spells.moreArguments hc' hd (ih rfl)
  | _ => cases hx

/-- A statement, with its semicolon or where it may do without, stands before other statements. -/
lemma stmts_cons {s : Stmt Token} {ss : List (Stmt Token)} {xs close ys : List Token}
    (h : Spells (.stmt s) xs) (hs : Spells (.stmts ss) ys)
    (hclose : close = [] ∧ (ys = [] ∨ (headKind ys).level ≤ 1 ∧ headKind ys ≠ .semicolon) ∨
      ∃ t : Token, close = [t] ∧ t.kind = .semicolon) :
    Spells (.stmts (s :: ss)) (xs ++ close ++ ys) := by
  rcases hclose with ⟨rfl, rfl | ⟨hl, hk⟩⟩ | ⟨t, rfl, ht⟩
  · simpa using Spells.unended h (by decide) (by simp) hs
  · simpa using Spells.unended h hl hk hs
  · simpa using Spells.ended h ht hs

end Spells

lemma SpellsMoreNames.balanced {names ts : List Token} (h : SpellsMoreNames names ts) :
    Balanced ts := by
  induction h with
  | nil => exact Opens.nil
  | cons hc hn _ ih => exact .cons (by rw [hc]; rfl) (.cons (by rw [hn]; rfl) ih)

lemma SpellsNames.balanced {names ts : List Token} (h : SpellsNames names ts) : Balanced ts := by
  cases h with
  | nil => exact Opens.nil
  | cons hn h => exact .cons (by rw [hn]; rfl) h.balanced

/-- The tokens of a part of a tree close the blocks that they open and no others. -/
theorem Spells.balanced {x : Phrase} {ts : List Token} (h : Spells x ts) : Balanced ts := by
  induction h with
  | name h | integer h => exact .singleton (by rw [h]; rfl)
  | boolean h => exact .singleton (by rcases h with h | h <;> rw [h] <;> rfl)
  | grouped hl _ hr ih => exact .cons (by rw [hl]; rfl) (ih.between (by rw [hr]; rfl) .nil)
  | conditional ht hl _ hr _ ihc ihb =>
    exact .cons (by rw [ht]; rfl) (.cons (by rw [hl]; rfl) (ihc.between (by rw [hr]; rfl) ihb))
  | alternative ht hl _ hr _ ho _ ihc ihb ihd =>
    refine .cons (by rw [ht]; rfl) (.cons (by rw [hl]; rfl) ?_)
    exact (ihc.between (by rw [hr]; rfl) ihb).between (by rw [ho]; rfl) ihd
  | function ht hl hn hr _ ih =>
    refine .cons (by rw [ht]; rfl) (.cons (by rw [hl]; rfl) ?_)
    exact hn.balanced.between (by rw [hr]; rfl) ih
  | applied _ ih | operand _ ih | chain _ ih | expression _ ih => exact ih
  | call _ hl _ hr ih ihs => exact (ih.between (by rw [hl]; rfl) ihs).between (by rw [hr]; rfl) .nil
  | unary ht _ ih => exact .cons (Kind.isBrace_isUnary ht) ih
  | binary ht _ _ _ ihx ihy => exact ihx.between (Kind.isBrace_isBinary ht) ihy
  | noArguments | noMoreArguments | noStmts => exact Opens.nil
  | arguments _ _ ihx ihy | unended _ _ _ _ ihx ihy => exact ihx.append ihy
  | moreArguments hc _ _ ihx ihy => exact .cons (by rw [hc]; rfl) (ihx.append ihy)
  | binding ht hn ha _ ih =>
    exact .cons (by rw [ht]; rfl) (.cons (by rw [hn]; rfl) (.cons (by rw [ha]; rfl) ih))
  | result ht _ ih => exact .cons (by rw [ht]; rfl) ih
  | ended _ ht _ ihx ihy => exact ihx.between (by rw [ht]; rfl) ihy
  | block hl _ hr ih => exact .braces hl ih hr

end MonkeyFront
