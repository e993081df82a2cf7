import MonkeyFront.Proofs.Acceptance
import MonkeyFront.Proofs.Printing
import MonkeyFront.Proofs.Spacing

namespace MonkeyFront

/-- The trees are the same, but for the tokens of expressions that are statements where `led` does
not demand these. -/
def Agrees {α β : Type} (led : Bool) (dropLeading : α → β) (x y : α) : Prop :=
  dropLeading x = dropLeading y ∧ (led = true → x = y)

def Expr.form (enclosed : Bool) (e : Expr Lexeme) : Form :=
  if enclosed then .primary
  else match e with
    | .unary _ _ => .operand
    | .binary x _ _ => .chain (x.kind.level - 1)
    | .call _ _ _ => .applied
    | _ => .primary

namespace Part

/-- A part of a tree with the tokens that a parser stores. -/
def WellFormed : Part → Prop
  | .expr _ e => e.WellFormed
  | .arguments es | .moreArguments es => Expr.AllWellFormed es
  | .stmt s => s.WellFormed
  | .stmts ss => Stmt.AllWellFormed ss
  | .block b => b.WellFormed

def IsSpelled (led : Bool) : Part → List Token → Prop
  | .expr a e, ts => ∃ e' : Expr Token, Spells (.expr (e.form a) e') ts ∧
      Agrees led Expr.dropLeading e'.erase e
  | .arguments es, ts => ∃ es', Spells (.arguments es') ts ∧
      Agrees led Expr.dropLeadingAll (Expr.mapAll Token.toLexeme es') es
  | .moreArguments es, ts => ∃ es', Spells (.moreArguments es') ts ∧
      Agrees led Expr.dropLeadingAll (Expr.mapAll Token.toLexeme es') es
  | .stmt s, ts => ∃ (s' : Stmt Token) (us : List Token) (t : Token), ts = us ++ [t] ∧
      t.kind = .semicolon ∧ Spells (.stmt s') us ∧ Agrees led Stmt.dropLeading s'.erase s
  | .stmts ss, ts => ∃ ss' : Program Token, Spells (.stmts ss') ts ∧
      Agrees led Stmt.dropLeadingAll ss'.erase ss
  | .block b, ts => ∃ b', Spells (.block b') ts ∧
      Agrees led Block.dropLeading (b'.map Token.toLexeme) b

end Part

/-! ### Operands -/

namespace Spells

variable {a : Bool} {e : Expr Lexeme} {e' : Expr Token} {ts : List Token}

/-- A print whose operator binds more tightly, if it is not enclosed, is a chain of the level. -/
lemma chain_of_form (h : Spells (.expr (e.form a) e') ts) {n : Nat}
    (hn : a = true ∨ e.hasOperator (·.level ≤ n) = false) : Spells (.expr (.chain n) e') ts := by
  cases a with
  | true => exact .chain (.operand (.applied h))
  | false =>
    cases e with
    | binary x e d =>
      have hlevel : ¬x.kind.level ≤ n := by simpa [Expr.hasOperator] using hn
      exact h.chain_mono (by omega)
    | unary x e => exact .chain h
    | call x e es => exact .chain (.operand h)
    | name | integer | boolean | conditional | function => exact .chain (.operand (.applied h))

lemma operand_of_form (h : Spells (.expr (e.form a) e') ts)
    (hn : a = true ∨ e.hasOperator (fun _ => true) = false) : Spells (.expr .operand e') ts := by
  cases a with
  | true => exact .operand (.applied h)
  | false =>
    cases e with
    | binary x e d => simp [Expr.hasOperator] at hn
    | unary x e => exact h
    | call x e es => exact .operand h
    | name | integer | boolean | conditional | function => exact .operand (.applied h)

lemma applied_of_form (h : Spells (.expr (e.form a) e') ts)
    (hn : a = true ∨ e.hasOperator (fun _ => true) = false ∧ e.isUnary = false) :
    Spells (.expr .applied e') ts := by
  cases a with
  | true => exact .applied h
  | false =>
    cases e with
    | binary x e d => simp [Expr.hasOperator] at hn
    | unary x e => simp [Expr.isUnary] at hn
    | call x e es => exact h
    | name | integer | boolean | conditional | function => exact .applied h

end Spells

lemma Lexeme.IsBinary.kind {x : Lexeme} (h : x.IsBinary) : x.kind.isBinary = true := by
  obtain ⟨text, htext, rfl⟩ := h
  simp only [List.mem_cons, List.not_mem_nil, or_false] at htext
  rcases htext with rfl | rfl | rfl | rfl | rfl | rfl | rfl | rfl <;> rfl

lemma Lexeme.IsUnary.kind {x : Lexeme} (h : x.IsUnary) : x.kind.isUnary = true := by
  rcases h with rfl | rfl <;> rfl

lemma Spells.lowest_of_form {a : Bool} {e : Expr Lexeme} {e' : Expr Token} {ts : List Token}
    (h : Spells (.expr (e.form a) e') ts) (he : e.WellFormed) :
    Spells (.expr (.chain 1) e') ts := by
  refine h.chain_of_form ?_
  cases e with
  | binary x e d =>
    have := Kind.level_isBinary he.1.kind
    exact .inr (by simp only [Expr.hasOperator, decide_eq_false_iff_not]; omega)
  | _ => exact .inr rfl

/-! ### Spellings of prints -/

lemma Token.kind_eq {t : Token} {text : String} (h : t.toLexeme = .ofText text) {kind : Kind}
    (hk : Kind.ofText text.toList = kind) : t.kind = kind := by
  rw [h]
  exact hk

lemma exists_names {names : List Lexeme} (hnames : ∀ name ∈ names, name.IsName) {ts : List Token}
    (hts : ts.map Token.toLexeme = names.intersperse (.ofText ",")) :
    ∃ names' : List Token, SpellsNames names' ts ∧ names'.map Token.toLexeme = names := by
  have more (name : Lexeme) (names : List Lexeme) (hnames : ∀ n ∈ name :: names, n.IsName)
      (ts : List Token) (hts : ts.map Token.toLexeme = (name :: names).intersperse (.ofText ",")) :
      ∃ (name' : Token) (names' us : List Token), ts = name' :: us ∧ name'.toLexeme = name ∧
        SpellsMoreNames names' us ∧ names'.map Token.toLexeme = names := by
    induction names generalizing name ts with
    | nil =>
      obtain ⟨name', us, rfl, hname, hus⟩ := List.map_eq_cons_iff.1 hts
      obtain rfl := List.map_eq_nil_iff.1 hus
      exact ⟨name', [], [], rfl, hname, .nil, rfl⟩
    | cons next names ih =>
      rw [List.intersperse_cons_cons] at hts
      obtain ⟨name', us, rfl, hname, hus⟩ := List.map_eq_cons_iff.1 hts
      obtain ⟨comma, vs, rfl, hcomma, hvs⟩ := List.map_eq_cons_iff.1 hus
      have hnext : ∀ n ∈ next :: names, n.IsName := fun n hn => hnames n (List.mem_cons_of_mem _ hn)
      obtain ⟨next', names', ws, rfl, rfl, hws, rfl⟩ := ih next hnext vs hvs
      refine ⟨name', next' :: names', _, rfl, hname, .cons ?_ ?_ hws, rfl⟩
      · exact Token.kind_eq hcomma rfl
      · exact (hnext _ List.mem_cons_self).1
  cases names with
  | nil =>
    obtain rfl := List.map_eq_nil_iff.1 hts
    exact ⟨[], .nil, rfl⟩
  | cons name names =>
    obtain ⟨name', names', us, rfl, rfl, hus, rfl⟩ := more name names hnames ts hts
    exact ⟨name' :: names', .cons (hnames _ List.mem_cons_self).1 hus, rfl⟩

section Cases

variable {led : Bool} {e d : Expr Lexeme} {es : List (Expr Lexeme)} {b : Block Lexeme}

namespace Part.IsSpelled

lemma token (e' : Token → Expr Token) {x : Lexeme} {e : Expr Lexeme} {ts : List Token}
    (hts : ts.map Token.toLexeme = [x]) (hform : e.form false = .primary)
    (h : ∀ t : Token, t.toLexeme = x → Spells (.expr .primary (e' t)) [t] ∧ (e' t).erase = e) :
    (Part.expr false e).IsSpelled led ts := by
  obtain ⟨t, us, rfl, ht, hus⟩ := List.map_eq_cons_iff.1 hts
  obtain rfl := List.map_eq_nil_iff.1 hus
  obtain ⟨hspells, rfl⟩ := h t ht
  exact ⟨e' t, by rwa [hform], rfl, fun _ => rfl⟩

lemma unary {x : Lexeme} {a : Bool} {t : Token} {us : List Token} (ht : t.toLexeme = x)
    (hx : x.IsUnary) (h : (Part.expr a e).IsSpelled led us)
    (ha : a = true ∨ e.hasOperator (fun _ => true) = false) :
    (Part.expr false (.unary x e)).IsSpelled led (t :: us) := by
  subst ht
  obtain ⟨e', hspells, hdrop, hled⟩ := h
  refine ⟨.unary t e', .unary hx.kind (hspells.operand_of_form ha), ?_, fun hl => ?_⟩
  · exact congrArg (Expr.unary (some t.toLexeme)) hdrop
  · exact congrArg (Expr.unary t.toLexeme) (hled hl)

lemma binary {x : Lexeme} {a a' : Bool} {t : Token} {us vs : List Token} (ht : t.toLexeme = x)
    (hx : x.IsBinary) (he : (Part.expr a e).IsSpelled led us)
    (ha : a = true ∨ e.hasOperator (·.level < x.kind.level) = false)
    (hd : (Part.expr a' d).IsSpelled led vs)
    (ha' : a' = true ∨ d.hasOperator (·.level ≤ x.kind.level) = false) :
    (Part.expr false (.binary x e d)).IsSpelled led (us ++ t :: vs) := by
  subst ht
  obtain ⟨e', hspells, hdrop, hled⟩ := he
  obtain ⟨d', hspells', hdrop', hled'⟩ := hd
  have hlevel := Kind.level_isBinary hx.kind
  have hleft : a = true ∨ e.hasOperator (·.level ≤ t.kind.level - 1) = false := by
    refine ha.imp_right fun h => ?_
    rw [← h]
    congr 1
    funext k
    exact decide_eq_decide.2 (by omega)
  refine ⟨.binary t e' d', .binary hx.kind ?_ (hspells.chain_of_form hleft)
    (hspells'.chain_of_form ha'), ?_, fun hl => ?_⟩
  · omega
  · exact congrArg₂ (Expr.binary (some t.toLexeme)) hdrop hdrop'
  · exact congrArg₂ (Expr.binary t.toLexeme) (hled hl) (hled' hl)

lemma conditional {x : Lexeme} {a : Bool} {t l r : Token} {us vs : List Token}
    (ht : t.toLexeme = x) (hx : x = .ofText "if") (hl : l.toLexeme = .ofText "(")
    (hc : (Part.expr a e).IsSpelled led us) (he : e.WellFormed) (hr : r.toLexeme = .ofText ")")
    (hb : (Part.block b).IsSpelled led vs) :
    (Part.expr false (.conditional x e b none)).IsSpelled led (t :: l :: us ++ r :: vs) := by
  subst ht
  obtain ⟨e', hspells, hdrop, hled⟩ := hc
  obtain ⟨b', hspells', hdrop', hled'⟩ := hb
  refine ⟨.conditional t e' b' none, .conditional (Token.kind_eq hx rfl)
    (Token.kind_eq hl rfl) (hspells.lowest_of_form he)
    (Token.kind_eq hr rfl) hspells', ?_, fun h => ?_⟩
  · exact congrArg₂ (Expr.conditional (some t.toLexeme) · · none) hdrop hdrop'
  · exact congrArg₂ (Expr.conditional t.toLexeme · · none) (hled h) (hled' h)

lemma alternative {x : Lexeme} {a : Bool} {d : Block Lexeme} {t l r o : Token}
    {us vs ws : List Token} (ht : t.toLexeme = x) (hx : x = .ofText "if")
    (hl : l.toLexeme = .ofText "(") (hc : (Part.expr a e).IsSpelled led us) (he : e.WellFormed)
    (hr : r.toLexeme = .ofText ")") (hb : (Part.block b).IsSpelled led vs)
    (ho : o.toLexeme = .ofText "else") (hd : (Part.block d).IsSpelled led ws) :
    (Part.expr false (.conditional x e b (some d))).IsSpelled led
      (t :: l :: us ++ r :: vs ++ o :: ws) := by
  subst ht
  obtain ⟨e', hspells, hdrop, hled⟩ := hc
  obtain ⟨b', hspells', hdrop', hled'⟩ := hb
  obtain ⟨d', hspells'', hdrop'', hled''⟩ := hd
  refine ⟨.conditional t e' b' (some d'), .alternative (Token.kind_eq hx rfl)
    (Token.kind_eq hl rfl) (hspells.lowest_of_form he)
    (Token.kind_eq hr rfl) hspells' (Token.kind_eq ho rfl)
    hspells'', ?_, fun h => ?_⟩
  · change Expr.conditional (some t.toLexeme) e'.erase.dropLeading
      (b'.map Token.toLexeme).dropLeading
      (some (d'.map Token.toLexeme).dropLeading) = _
    rw [hdrop, hdrop', hdrop'']
    rfl
  · change Expr.conditional t.toLexeme e'.erase (b'.map Token.toLexeme)
      (some (d'.map Token.toLexeme)) = _
    rw [hled h, hled' h, hled'' h]

lemma function {x : Lexeme} {names : List Lexeme} {t l r : Token} {us vs : List Token}
    (ht : t.toLexeme = x) (hx : x = .ofText "fn") (hl : l.toLexeme = .ofText "(")
    (hus : us.map Token.toLexeme = names.intersperse (.ofText ","))
    (hnames : ∀ name ∈ names, name.IsName) (hr : r.toLexeme = .ofText ")")
    (hb : (Part.block b).IsSpelled led vs) :
    (Part.expr false (.function x names b)).IsSpelled led (t :: l :: us ++ r :: vs) := by
  subst ht
  obtain ⟨names', hspells, rfl⟩ := exists_names hnames hus
  obtain ⟨b', hspells', hdrop, hled⟩ := hb
  refine ⟨.function t names' b', .function (Token.kind_eq hx rfl)
    (Token.kind_eq hl rfl) hspells (Token.kind_eq hr rfl) hspells',
    ?_, fun h => ?_⟩
  · exact congrArg (Expr.function (some t.toLexeme) _) hdrop
  · exact congrArg (Expr.function t.toLexeme _) (hled h)

lemma call {x : Lexeme} {a : Bool} {t r : Token} {us vs : List Token} (ht : t.toLexeme = x)
    (hx : x = .ofText "(") (he : (Part.expr a e).IsSpelled led us)
    (ha : a = true ∨ e.hasOperator (fun _ => true) = false ∧ e.isUnary = false)
    (hes : (Part.arguments es).IsSpelled led vs) (hr : r.toLexeme = .ofText ")") :
    (Part.expr false (.call x e es)).IsSpelled led (us ++ t :: vs ++ [r]) := by
  subst ht
  obtain ⟨e', hspells, hdrop, hled⟩ := he
  obtain ⟨es', hspells', hdrop', hled'⟩ := hes
  refine ⟨.call t e' es', .call (hspells.applied_of_form ha) (Token.kind_eq hx rfl)
    hspells' (Token.kind_eq hr rfl), ?_, fun h => ?_⟩
  · exact congrArg₂ (Expr.call (some t.toLexeme)) hdrop hdrop'
  · exact congrArg₂ (Expr.call t.toLexeme) (hled h) (hled' h)

lemma enclosed {a : Bool} {l r : Token} {us : List Token} (hl : l.toLexeme = .ofText "(")
    (he : (Part.expr a e).IsSpelled led us) (hwf : e.WellFormed) (hr : r.toLexeme = .ofText ")") :
    (Part.expr true e).IsSpelled led (l :: us ++ [r]) := by
  obtain ⟨e', hspells, hagrees⟩ := he
  exact ⟨e', .grouped (Token.kind_eq hl rfl) (hspells.lowest_of_form hwf)
    (Token.kind_eq hr rfl), hagrees⟩

lemma arguments {a : Bool} {us vs : List Token} (he : (Part.expr a e).IsSpelled led us)
    (hwf : e.WellFormed) (hes : (Part.moreArguments es).IsSpelled led vs) :
    (Part.arguments (e :: es)).IsSpelled led (us ++ vs) := by
  obtain ⟨e', hspells, hdrop, hled⟩ := he
  obtain ⟨es', hspells', hdrop', hled'⟩ := hes
  refine ⟨e' :: es', .arguments (hspells.lowest_of_form hwf) hspells', ?_, fun h => ?_⟩
  · exact congrArg₂ List.cons hdrop hdrop'
  · exact congrArg₂ List.cons (hled h) (hled' h)

lemma moreArguments {a : Bool} {c : Token} {us vs : List Token} (hc : c.toLexeme = .ofText ",")
    (he : (Part.expr a e).IsSpelled led us) (hwf : e.WellFormed)
    (hes : (Part.moreArguments es).IsSpelled led vs) :
    (Part.moreArguments (e :: es)).IsSpelled led (c :: us ++ vs) := by
  obtain ⟨e', hspells, hdrop, hled⟩ := he
  obtain ⟨es', hspells', hdrop', hled'⟩ := hes
  refine ⟨e' :: es', .moreArguments (Token.kind_eq hc rfl)
    (hspells.lowest_of_form hwf) hspells', ?_, fun h => ?_⟩
  · exact congrArg₂ List.cons hdrop hdrop'
  · exact congrArg₂ List.cons (hled h) (hled' h)

lemma binding {a : Bool} {t name q r : Token} {us : List Token} (ht : t.toLexeme = .ofText "let")
    (hname : name.toLexeme.IsName) (hq : q.toLexeme = .ofText "=")
    (he : (Part.expr a e).IsSpelled led us) (hwf : e.WellFormed) (hr : r.toLexeme = .ofText ";") :
    (Part.stmt (.binding name.toLexeme e)).IsSpelled led (t :: name :: q :: us ++ [r]) := by
  obtain ⟨e', hspells, hdrop, hled⟩ := he
  refine ⟨.binding name e', t :: name :: q :: us, r, rfl, Token.kind_eq hr rfl,
    .binding (Token.kind_eq ht rfl) hname.1 (Token.kind_eq hq rfl)
      (hspells.lowest_of_form hwf), ?_, fun h => ?_⟩
  · exact congrArg (Stmt.binding (some name.toLexeme)) hdrop
  · exact congrArg (Stmt.binding name.toLexeme) (hled h)

lemma result {a : Bool} {t r : Token} {us : List Token} (ht : t.toLexeme = .ofText "return")
    (he : (Part.expr a e).IsSpelled led us) (hwf : e.WellFormed) (hr : r.toLexeme = .ofText ";") :
    (Part.stmt (.result e)).IsSpelled led (t :: us ++ [r]) := by
  obtain ⟨e', hspells, hdrop, hled⟩ := he
  refine ⟨.result e', t :: us, r, rfl, Token.kind_eq hr rfl,
    .result (Token.kind_eq ht rfl) (hspells.lowest_of_form hwf), ?_, fun h => ?_⟩
  · exact congrArg Stmt.result hdrop
  · exact congrArg Stmt.result (hled h)

lemma expression {x : Lexeme} {a : Bool} {t r : Token} {us : List Token}
    (he : (Part.expr a e).IsSpelled led (t :: us)) (hwf : e.WellFormed)
    (hx : led = true → x = t.toLexeme) (hr : r.toLexeme = .ofText ";") :
    (Part.stmt (.expression x e)).IsSpelled led (t :: us ++ [r]) := by
  obtain ⟨e', hspells, hdrop, hled⟩ := he
  refine ⟨.expression t e', t :: us, r, rfl, Token.kind_eq hr rfl,
    .expression (hspells.lowest_of_form hwf), ?_, fun h => ?_⟩
  · exact congrArg (Stmt.expression none) hdrop
  · rw [hx h]
    exact congrArg (Stmt.expression t.toLexeme) (hled h)

lemma stmts {s : Stmt Lexeme} {ss : List (Stmt Lexeme)} {us vs : List Token}
    (hs : (Part.stmt s).IsSpelled led us) (hss : (Part.stmts ss).IsSpelled led vs) :
    (Part.stmts (s :: ss)).IsSpelled led (us ++ vs) := by
  obtain ⟨s', ws, t, rfl, ht, hspells, hdrop, hled⟩ := hs
  obtain ⟨ss', hspells', hdrop', hled'⟩ := hss
  refine ⟨s' :: ss', by simpa using Spells.ended hspells ht hspells', ?_, fun h => ?_⟩
  · exact congrArg₂ List.cons hdrop hdrop'
  · exact congrArg₂ List.cons (hled h) (hled' h)

lemma block {x : Lexeme} {ss : List (Stmt Lexeme)} {l r : Token} {us : List Token}
    (hl : l.toLexeme = x) (hx : x = .ofText "\x7b") (hss : (Part.stmts ss).IsSpelled led us)
    (hr : r.toLexeme = .ofText "\x7d") :
    (Part.block (.mk x ss)).IsSpelled led (l :: us ++ [r]) := by
  subst hl
  obtain ⟨ss', hspells, hdrop, hled⟩ := hss
  refine ⟨.mk l ss', .block (Token.kind_eq hx rfl) hspells
    (Token.kind_eq hr rfl), ?_, fun h => ?_⟩
  · exact congrArg (Block.mk (some l.toLexeme)) hdrop
  · exact congrArg (Block.mk l.toLexeme) (hled h)

end Part.IsSpelled

end Cases

lemma exists_between {ts : List Token} {xs ys : List Lexeme} {x : Lexeme}
    (h : ts.map Token.toLexeme = xs ++ x :: ys) : ∃ us t vs, ts = us ++ t :: vs ∧
      us.map Token.toLexeme = xs ∧ t.toLexeme = x ∧ vs.map Token.toLexeme = ys := by
  obtain ⟨us, ws, rfl, hus, hws⟩ := List.map_eq_append_iff.1 h
  obtain ⟨t, vs, rfl, ht, hvs⟩ := List.map_eq_cons_iff.1 hws
  exact ⟨us, t, vs, rfl, hus, ht, hvs⟩

lemma exists_last {ts : List Token} {xs : List Lexeme} {x : Lexeme}
    (h : ts.map Token.toLexeme = xs ++ [x]) : ∃ us t, ts = us ++ [t] ∧
      us.map Token.toLexeme = xs ∧ t.toLexeme = x := by
  obtain ⟨us, t, vs, rfl, hus, ht, hvs⟩ := exists_between h
  obtain rfl := List.map_eq_nil_iff.1 hvs
  exact ⟨us, t, rfl, hus, ht⟩

/-- A print of a part with the tokens that a parser stores is a spelling of it. -/
theorem Prints.isSpelled {led : Bool} {x : Part} {xs : List Lexeme} (h : Prints led x xs)
    (hwf : x.WellFormed) {ts : List Token} (hts : ts.map Token.toLexeme = xs) :
    x.IsSpelled led ts := by
  induction h generalizing ts with
  | name =>
    refine .token .name hts rfl fun t ht => ⟨.name ?_, congrArg _ ht⟩
    subst ht
    exact hwf.1
  | integer =>
    refine .token .integer hts rfl fun t ht => ⟨.integer ?_, congrArg _ ht⟩
    subst ht
    exact hwf.1
  | boolean =>
    refine .token .boolean hts rfl fun t ht => ⟨.boolean ?_, congrArg _ ht⟩
    subst ht
    exact hwf.imp (Token.kind_eq · rfl) (Token.kind_eq · rfl)
  | unary _ ha ih =>
    obtain ⟨t, us, rfl, ht, hus⟩ := List.map_eq_cons_iff.1 hts
    exact .unary ht hwf.1 (ih hwf.2 hus) ha
  | binary _ ha _ ha' ih ih' =>
    obtain ⟨us, t, vs, rfl, hus, ht, hvs⟩ := exists_between hts
    exact .binary ht hwf.1 (ih hwf.2.1 hus) ha (ih' hwf.2.2 hvs) ha'
  | conditional _ _ ihc ihb =>
    obtain ⟨us, r, vs, rfl, hus, hr, hvs⟩ := exists_between hts
    obtain ⟨t, us, rfl, ht, hus⟩ := List.map_eq_cons_iff.1 hus
    obtain ⟨l, us, rfl, hl, hus⟩ := List.map_eq_cons_iff.1 hus
    exact .conditional ht hwf.1 hl (ihc hwf.2.1 hus) hwf.2.1 hr (ihb hwf.2.2 hvs)
  | alternative _ _ _ ihc ihb ihd =>
    obtain ⟨us, o, ws, rfl, hus, ho, hws⟩ := exists_between hts
    obtain ⟨us, r, vs, rfl, hus, hr, hvs⟩ := exists_between hus
    obtain ⟨t, us, rfl, ht, hus⟩ := List.map_eq_cons_iff.1 hus
    obtain ⟨l, us, rfl, hl, hus⟩ := List.map_eq_cons_iff.1 hus
    exact .alternative ht hwf.1 hl (ihc hwf.2.1 hus) hwf.2.1 hr (ihb hwf.2.2.1 hvs) ho
      (ihd hwf.2.2.2 hws)
  | function _ ih =>
    obtain ⟨us, r, vs, rfl, hus, hr, hvs⟩ := exists_between hts
    obtain ⟨t, us, rfl, ht, hus⟩ := List.map_eq_cons_iff.1 hus
    obtain ⟨l, us, rfl, hl, hus⟩ := List.map_eq_cons_iff.1 hus
    exact .function ht hwf.1 hl hus hwf.2.1 hr (ih hwf.2.2 hvs)
  | call _ ha _ ih ihs =>
    obtain ⟨us, r, rfl, hus, hr⟩ := exists_last hts
    obtain ⟨us, t, vs, rfl, hus, ht, hvs⟩ := exists_between hus
    exact .call ht hwf.1 (ih hwf.2.1 hus) ha (ihs hwf.2.2 hvs) hr
  | enclosed _ ih =>
    obtain ⟨us, r, rfl, hus, hr⟩ := exists_last hts
    obtain ⟨l, us, rfl, hl, hus⟩ := List.map_eq_cons_iff.1 hus
    exact .enclosed hl (ih hwf hus) hwf hr
  | noArguments =>
    obtain rfl := List.map_eq_nil_iff.1 hts
    exact ⟨[], .noArguments, rfl, fun _ => rfl⟩
  | arguments _ _ ih ihs =>
    obtain ⟨us, vs, rfl, hus, hvs⟩ := List.map_eq_append_iff.1 hts
    exact .arguments (ih hwf.1 hus) hwf.1 (ihs hwf.2 hvs)
  | noMoreArguments =>
    obtain rfl := List.map_eq_nil_iff.1 hts
    exact ⟨[], .noMoreArguments, rfl, fun _ => rfl⟩
  | moreArguments _ _ ih ihs =>
    obtain ⟨us, vs, rfl, hus, hvs⟩ := List.map_eq_append_iff.1 hts
    obtain ⟨c, us, rfl, hc, hus⟩ := List.map_eq_cons_iff.1 hus
    exact .moreArguments hc (ih hwf.1 hus) hwf.1 (ihs hwf.2 hvs)
  | binding _ ih =>
    obtain ⟨us, r, rfl, hus, hr⟩ := exists_last hts
    obtain ⟨t, us, rfl, ht, hus⟩ := List.map_eq_cons_iff.1 hus
    obtain ⟨name, us, rfl, rfl, hus'⟩ := List.map_eq_cons_iff.1 hus
    obtain ⟨q, us, rfl, hq, hus⟩ := List.map_eq_cons_iff.1 hus'
    exact .binding ht hwf.1 hq (ih hwf.2 hus) hwf.2 hr
  | result _ ih =>
    obtain ⟨us, r, rfl, hus, hr⟩ := exists_last hts
    obtain ⟨t, us, rfl, ht, hus⟩ := List.map_eq_cons_iff.1 hus
    exact .result ht (ih hwf hus) hwf hr
  | expression _ hx ih =>
    obtain ⟨us, r, rfl, hus, hr⟩ := exists_last hts
    obtain ⟨t, vs, rfl, rfl, -⟩ := List.map_eq_cons_iff.1 hus
    exact .expression (ih hwf hus) hwf hx hr
  | noStmts =>
    obtain rfl := List.map_eq_nil_iff.1 hts
    exact ⟨[], .noStmts, rfl, fun _ => rfl⟩
  | stmts _ _ ih ihs =>
    obtain ⟨us, vs, rfl, hus, hvs⟩ := List.map_eq_append_iff.1 hts
    exact .stmts (ih hwf.1 hus) (ihs hwf.2 hvs)
  | block _ ih =>
    obtain ⟨us, r, rfl, hus, hr⟩ := exists_last hts
    obtain ⟨l, us, rfl, hl, hus⟩ := List.map_eq_cons_iff.1 hus
    exact .block hl hwf.1 (ih hwf.2 hus) hr

/-! ### Texts of prints -/

namespace Lexeme

variable {x : Lexeme}

lemma IsName.scans (h : x.IsName) : x.Scans := by
  obtain ⟨hk, hne, hletters, hkeyword⟩ := h
  refine scans_word hne hletters ?_ (by rw [hk]; decide) (by rw [hk]; decide)
  rw [hk, ofText_word hne hletters hkeyword]

lemma IsNumber.scans (h : x.IsNumber) : x.Scans := scans_number h.2.1 h.2.2 h.1

lemma IsTruth.scans (h : x.IsTruth) : x.Scans := by
  rcases h with rfl | rfl
  · exact scans_keyword (by decide)
  · exact scans_keyword (by decide)

lemma IsUnary.scans (h : x.IsUnary) : x.Scans := by
  rcases h with rfl | rfl
  · exact scans_operator (by decide)
  · exact scans_operator (by decide)

lemma IsBinary.scans (h : x.IsBinary) : x.Scans := by
  obtain ⟨text, htext, rfl⟩ := h
  simp only [List.mem_cons, List.not_mem_nil, or_false] at htext
  rcases htext with rfl | rfl | rfl | rfl | rfl | rfl | rfl | rfl <;>
    exact scans_operator (by decide)

end Lexeme

lemma scans_names {names : List Lexeme} (h : ∀ name ∈ names, name.Scans) :
    ∀ y ∈ names.intersperse (.ofText ","), y.Scans := by
  cases names with
  | nil => exact List.forall_mem_nil _
  | cons name names =>
    induction names generalizing name with
    | nil => exact h
    | cons next names ih =>
      obtain ⟨hname, hnames⟩ := List.forall_mem_cons.1 h
      rw [List.intersperse_cons_cons]
      exact List.forall_mem_cons.2 ⟨hname,
        List.forall_mem_cons.2 ⟨Lexeme.scans_operator (by decide), ih next hnames⟩⟩

theorem Prints.scans {led : Bool} {x : Part} {xs : List Lexeme} (h : Prints led x xs)
    (hwf : x.WellFormed) : ∀ y ∈ xs, y.Scans := by
  have lparen : (Lexeme.ofText "(").Scans := Lexeme.scans_operator (by decide)
  have rparen : (Lexeme.ofText ")").Scans := Lexeme.scans_operator (by decide)
  have comma : (Lexeme.ofText ",").Scans := Lexeme.scans_operator (by decide)
  have semicolon : (Lexeme.ofText ";").Scans := Lexeme.scans_operator (by decide)
  have nil : ∀ y ∈ ([] : List Lexeme), y.Scans := List.forall_mem_nil _
  induction h with
  | name => exact List.forall_mem_singleton.2 (Lexeme.IsName.scans hwf)
  | integer => exact List.forall_mem_singleton.2 (Lexeme.IsNumber.scans hwf)
  | boolean => exact List.forall_mem_singleton.2 (Lexeme.IsTruth.scans hwf)
  | unary _ _ ih => exact List.forall_mem_cons.2 ⟨hwf.1.scans, ih hwf.2⟩
  | binary _ _ _ _ ih ih' =>
    exact List.forall_mem_append.2
      ⟨ih hwf.2.1, List.forall_mem_cons.2 ⟨hwf.1.scans, ih' hwf.2.2⟩⟩
  | conditional _ _ ihc ihb =>
    simp only [List.cons_append, List.forall_mem_cons, List.forall_mem_append]
    exact ⟨hwf.1 ▸ Lexeme.scans_keyword (by decide), lparen, ihc hwf.2.1, rparen, ihb hwf.2.2⟩
  | alternative _ _ _ ihc ihb ihd =>
    simp only [List.cons_append, List.forall_mem_cons, List.forall_mem_append]
    exact ⟨hwf.1 ▸ Lexeme.scans_keyword (by decide), lparen, ⟨ihc hwf.2.1, rparen,
      ihb hwf.2.2.1⟩, Lexeme.scans_keyword (by decide), ihd hwf.2.2.2⟩
  | @function x names b ys _ ih =>
    have hnames : ∀ y ∈ names.intersperse (.ofText ","), y.Scans :=
      scans_names fun name hname => (hwf.2.1 name hname).scans
    simp only [List.cons_append, List.forall_mem_cons, List.forall_mem_append]
    exact ⟨hwf.1 ▸ Lexeme.scans_keyword (by decide), lparen, hnames, rparen, ih hwf.2.2⟩
  | call _ _ _ ih ihs =>
    simp only [List.append_assoc, List.cons_append, List.forall_mem_append, List.forall_mem_cons]
    exact ⟨ih hwf.2.1, hwf.1 ▸ lparen, ihs hwf.2.2, rparen, nil⟩
  | enclosed _ ih =>
    simp only [List.cons_append, List.forall_mem_cons, List.forall_mem_append]
    exact ⟨lparen, ih hwf, rparen, nil⟩
  | noArguments | noMoreArguments | noStmts => exact nil
  | arguments _ _ ih ihs | stmts _ _ ih ihs =>
    exact List.forall_mem_append.2 ⟨ih hwf.1, ihs hwf.2⟩
  | moreArguments _ _ ih ihs =>
    simp only [List.cons_append, List.forall_mem_cons, List.forall_mem_append]
    exact ⟨comma, ih hwf.1, ihs hwf.2⟩
  | binding _ ih =>
    simp only [List.cons_append, List.forall_mem_cons, List.forall_mem_append]
    exact ⟨Lexeme.scans_keyword (by decide), hwf.1.scans, Lexeme.scans_operator (by decide),
      ih hwf.2, semicolon, nil⟩
  | result _ ih =>
    simp only [List.cons_append, List.forall_mem_cons, List.forall_mem_append]
    exact ⟨Lexeme.scans_keyword (by decide), ih hwf, semicolon, nil⟩
  | expression _ _ ih =>
    exact List.forall_mem_append.2 ⟨ih hwf, List.forall_mem_singleton.2 semicolon⟩
  | block _ ih =>
    simp only [List.cons_append, List.forall_mem_cons, List.forall_mem_append]
    exact ⟨hwf.1 ▸ Lexeme.scans_operator (by decide), ih hwf.2,
      Lexeme.scans_operator (by decide), nil⟩

/-- The text of a print of a well-formed program parses to the program without diagnostics, unless
expressions nest too deeply. Where the program does not carry the first lexemes of the expressions
that are statements, the result differs from it in these. -/
theorem parse_printed (bound : Bound) {led : Bool} {p : Program Lexeme} {xs : List Lexeme}
    (hp : Stmt.AllWellFormed p) (hxs : Prints led (.stmts p) xs) :
    ∃ outcome, parseWithin bound true (joined xs) = .ok outcome ∧
      ((∀ d ∈ outcome.diagnostics, d.complaint ≠ .nestedTooDeeply) →
        outcome.diagnostics = [] ∧ ∃ q : Program Token, outcome.program = .ok q ∧
          Stmt.dropLeadingAll q.erase = Stmt.dropLeadingAll p ∧ (led = true → q.erase = p)) := by
  have hscans := hxs.scans hp
  obtain ⟨ts, hitems, hts⟩ := items_joined hscans
  have htokens := tokenize_eq_ok.2 ⟨ts, hitems, rfl⟩
  have hlegal : ∀ t ∈ ts ++ [(Scan.ofText (joined xs)).last], t.kind ≠ .illegal := by
    refine List.forall_mem_append.2 ⟨fun t ht => ?_, List.forall_mem_singleton.2 ?_⟩
    · obtain ⟨_, _, _, _, _, _, _, hi, _⟩ := hscans t.toLexeme (hts ▸ List.mem_map_of_mem ht)
      exact hi
    · rw [Scan.kind_last]
      decide
  obtain ⟨q, hq, hdrop, hled⟩ := hxs.isSpelled hp hts
  obtain ⟨outcome, hparse, h⟩ := parse_spelled bound htokens hlegal
    (by rwa [List.dropLast_concat])
  refine ⟨outcome, hparse, fun hshallow => ?_⟩
  rw [h hshallow]
  exact ⟨rfl, q, rfl, hdrop, hled⟩

/-- A statement in parentheses that its operators do not need. -/
theorem parse_printed_enclosed : ∃ outcome, ∃ q : Program Token,
    parseWithin 10 true "( ( a + b ) * f ( 1 ) ) ;" = .ok outcome ∧ outcome.diagnostics = [] ∧
      outcome.program = .ok q ∧
      q.erase = [.expression (.ofText "(") (.binary (.ofText "*")
        (.binary (.ofText "+") (.name (.ofText "a")) (.name (.ofText "b")))
        (.call (.ofText "(") (.name (.ofText "f")) [.integer (.ofText "1")]))] := by
  have name {text : String} (h : text ∈ ["a", "b", "f"]) : (Lexeme.ofText text).IsName := by
    simp only [List.mem_cons, List.not_mem_nil, or_false] at h
    rcases h with rfl | rfl | rfl <;>
      exact ⟨rfl, List.cons_ne_nil _ _, List.all_eq_true.1 rfl, rfl⟩
  have number : (Lexeme.ofText "1").IsNumber :=
    ⟨rfl, List.all_eq_true.1 rfl, rfl⟩
  have hclean : (parseWithin 10 true "( ( a + b ) * f ( 1 ) ) ;").map (·.diagnostics) = .ok [] := by
    decide +kernel
  have sum : Prints true (.expr true (.binary (.ofText "+") (.name (.ofText "a"))
      (.name (.ofText "b")))) _ :=
    .enclosed (.binary .name (.inr rfl) .name (.inr rfl))
  have call : Prints true (.expr false (.call (.ofText "(") (.name (.ofText "f"))
      [.integer (.ofText "1")])) _ :=
    .call .name (.inr ⟨rfl, rfl⟩) (.arguments .integer .noMoreArguments)
  have product := Prints.binary (x := .ofText "*") sum (.inl rfl) call (.inr rfl)
  have hxs := Prints.stmts (.expression (.enclosed product) fun _ => rfl) .noStmts
  have parsed := fun hp => parse_printed 10 hp hxs
  obtain ⟨outcome, hparse, h⟩ := parsed ⟨⟨⟨"*", by decide, rfl⟩,
    ⟨⟨"+", by decide, rfl⟩, name (by decide), name (by decide)⟩,
    rfl, name (by decide), number, trivial⟩, trivial⟩
  have htext : parseWithin 10 true "( ( a + b ) * f ( 1 ) ) ;" = .ok outcome := hparse
  rw [htext] at hclean
  have hnil : outcome.diagnostics = [] := Except.ok.inj hclean
  obtain ⟨-, q, hq, -, herase⟩ := h (by simp [hnil])
  exact ⟨outcome, q, htext, hnil, hq, herase rfl⟩

end MonkeyFront
