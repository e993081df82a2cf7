import MonkeyFront.Proofs.Iterations

/-!
# Spellings are read

A parser that stands before a spelling of a tree reads the tree, whatever follows that does not go
on with it, unless nesting goes beyond the bound or the scan fails: it rejects nothing
(`Spells.isRead`). What is said of an expression leaves open where its reading ends.
-/

namespace MonkeyFront

def Failure.IsOther : Failure → Prop
  | .rejected _ => False
  | _ => True

namespace State

/-- The parser stands before the tokens `ts`, up to the end of input. -/
structure IsAt (s : State) (ts : List Token) : Prop where
  steady : s.Steady
  ahead : s.ahead = ts

/-- The parser stands on a token in front of the tokens `ts`, up to the end of input. -/
structure IsBefore (s : State) (ts : List Token) : Prop where
  steady : s.Steady
  behind : s.behind = ts

variable {s : State} {t : Token} {ts : List Token}

lemma IsAt.withDepth (h : s.IsAt ts) (n : Int) : IsAt { s with depth := n } ts :=
  ⟨(h.steady.withDepth n).steady, h.ahead⟩

lemma IsAt.kind (h : s.IsAt ts) : s.current.kind = headKind ts := by
  rw [← h.ahead, headKind_ahead]

lemma IsAt.current (h : s.IsAt (t :: ts)) : s.current = t := by
  rw [h.steady.current_eq, h.ahead, List.headD_cons]

lemma IsAt.pass (h : s.IsAt (t :: ts)) : s.IsBefore ts :=
  ⟨h.steady, by rw [State.behind, h.ahead, List.tail_cons]⟩

lemma IsBefore.withDepth (h : s.IsBefore ts) (n : Int) : IsBefore { s with depth := n } ts :=
  ⟨(h.steady.withDepth n).steady, h.behind⟩

lemma IsBefore.kind (h : s.IsBefore ts) : s.peek.kind = headKind ts := by
  rw [← h.behind, h.steady.headKind_behind]

lemma IsBefore.tokensLeft (h : s.IsBefore ts) : ts.length ≤ s.tokensLeft := by
  rw [← h.behind]
  exact s.length_behind_le

lemma IsAt.tokensLeft (h : s.IsAt ts) : ts.length ≤ s.tokensLeft := by
  rw [← h.ahead]
  exact s.length_ahead_le

end State

variable {α β : Type} {s : State} {t : Token} {rest : List Token}

/-- The operation yields `a` and passes the tokens in front of `rest`, or it fails otherwise than by
a rejection. -/
def Yields (p : Parse α) (s : State) (a : α) (rest : List Token) : Prop :=
  Ends p s (fun a' s' => a' = a ∧ s'.IsBefore rest) (fun f _ => f.IsOther)

lemma Yields.and_then {p : Parse α} {a : α} {post : α → State → Prop} (h : Yields p s a rest)
    (hpost : ∀ s', s'.IsBefore rest → post a s') : Ends p s post (fun f _ => f.IsOther) := by
  refine Ends.imp (p := p) h ?_
  rintro _ s' ⟨rfl, h'⟩
  exact hpost s' h'

namespace State.IsBefore

lemma advance (h : s.IsBefore rest) :
    Ends advance s (fun _ s' => s'.IsAt rest) (fun f _ => f.IsOther) := by
  refine (ends_advance h.steady).mono ?_ ?_
  · rintro _ s' ⟨hs, ha, -⟩
    exact ⟨hs.steady, ha.trans h.behind⟩
  · rintro f - ⟨e, rfl, -⟩
    trivial

lemma expect {kind : Kind} (h : s.IsBefore (t :: rest)) (hk : t.kind = kind) :
    Ends (expect kind) s (fun t' s' => t' = t ∧ s'.IsAt (t :: rest)) (fun f _ => f.IsOther) := by
  simp only [MonkeyFront.expect, ends_bind, ends_get]
  rw [if_pos (h.kind.trans hk)]
  simp only [ends_bind, ends_get, ends_pure]
  exact h.advance.imp fun _ s' h' => ⟨h'.current, h'⟩

lemma skipSemicolon (h : s.IsBefore rest) :
    Ends skipSemicolon s (fun _ s' => s'.IsBefore (dropSemicolon rest)) (fun f _ => f.IsOther) := by
  refine (State.ends_skipSemicolon h.steady).mono ?_ ?_
  · rintro _ s' ⟨hs, -, hb⟩
    exact ⟨hs.steady, by rw [hb, h.behind]⟩
  · rintro f - ⟨e, rfl, -⟩
    trivial

end State.IsBefore

/-! ### Parameters -/

lemma SpellsMoreNames.isRead {names ts : List Token} (h : SpellsMoreNames names ts)
    (hrest : headKind rest ≠ .comma) (n : Nat) (hs : s.IsBefore (ts ++ rest))
    (hn : (ts ++ rest).length ≤ n) :
    Yields (collectWhile (fun s => s.peek.kind = .comma)
      (do
        advance
        expect .ident) n) s names rest := by
  induction h generalizing s n with
  | nil =>
    cases n with
    | zero => exact ⟨rfl, hs⟩
    | succ n =>
      unfold Yields
      simp only [collectWhile, ends_bind, ends_get]
      rw [if_neg (by simpa [hs.kind] using hrest)]
      exact ⟨rfl, hs⟩
  | @cons comma name names ts hc hname _ ih =>
    cases n with
    | zero => simp at hn
    | succ n =>
      unfold Yields
      simp only [collectWhile, ends_bind, ends_get]
      rw [if_pos (by simpa [hs.kind] using hc)]
      simp only [ends_bind, ends_pure]
      refine hs.advance.imp fun _ s₁ h₁ => ?_
      refine (h₁.pass.expect hname).imp ?_
      rintro _ s₂ ⟨rfl, h₂⟩
      refine (ih n h₂.pass ?_).and_then fun s₃ h₃ => ⟨rfl, h₃⟩
      simp only [List.cons_append, List.length_cons] at hn
      omega

lemma SpellsNames.isRead {names ts : List Token} {r : Token} (h : SpellsNames names ts)
    (hr : r.kind = .rparen) (hs : s.IsBefore (ts ++ r :: rest)) :
    Yields Engine.parameters s names rest := by
  unfold Yields Engine.parameters
  rw [ends_bind, ends_get]
  cases h with
  | nil =>
    rw [if_pos (hs.kind.trans hr)]
    simp only [ends_bind, ends_pure]
    exact hs.advance.imp fun _ s₁ h₁ => ⟨trivial, h₁.pass⟩
  | @cons name names ts hname h =>
    rw [if_neg (by rw [hs.kind, List.cons_append, headKind_cons, hname]; decide)]
    simp only [ends_bind, ends_get, ends_pure]
    refine (hs.expect hname).imp ?_
    rintro _ s₁ ⟨rfl, h₁⟩
    refine (h.isRead (by simp [hr]) _ h₁.pass h₁.pass.tokensLeft).and_then fun s₂ h₂ => ?_
    exact (h₂.expect hr).imp fun _ s₃ h₃ => ⟨rfl, h₃.2.pass⟩

/-! ### Layers -/

namespace Engine

/-- How a layer goes on from an expression that it has read. -/
def goOn (engines : Site → Engine) (p : Precedence) (n : Nat) (left : Expr Token) :
    Parse (Expr Token) :=
  repeatWhile (fun s _ => p < s.peekPrecedence && (s.rules.infixFn s.peek.kind).isSome)
    (extend engines) n left

lemma Bounded.advance {engine : Engine} (h : engine.Bounded) (hs : s.IsBefore rest) :
    Ends engine.nextToken s (fun _ s' => s'.IsAt rest) (fun f _ => f.IsOther) := by
  obtain ⟨reach, hreach⟩ := h.nextToken_eq
  rw [hreach]
  rcases s.advanceWithin_eq_or_overruns reach with hrun | ⟨s', hrun, -⟩
  · have hends := hs.advance
    unfold Ends at hends ⊢
    rwa [hrun]
  · unfold Ends
    rw [hrun]
    trivial

variable {engines : Site → Engine} {p : Precedence} {e : Expr Token}

/-- A layer goes on from what the prefix function of the current token reads. -/
lemma ends_layer {rule : PrefixFn} {post : Expr Token → State → Prop} (h : s.Steady)
    (hr : Rules.standard.prefixFn s.current.kind = some rule)
    (hprefixFn : Yields (applyPrefixFn engines rule) s e rest)
    (hpost : ∀ s' n, s'.IsBefore rest → rest.length ≤ n →
      Ends (goOn engines p n e) s' post (fun f _ => f.IsOther)) :
    Ends (layer engines p) s post (fun f _ => f.IsOther) := by
  unfold layer
  simp only [ends_bind, ends_get, h.rules, hr]
  exact hprefixFn.and_then fun s' h' => hpost s' _ h' h'.tokensLeft

lemma goOn_stop (h : s.IsBefore rest) (hl : (headKind rest).level ≤ p.rank) (n : Nat) :
    Yields (goOn engines p n e) s e rest := by
  cases n with
  | zero => exact ⟨rfl, h⟩
  | succ n =>
    have hp : ¬p < s.peekPrecedence := by
      rw [State.peekPrecedence, h.steady.rules, h.kind]
      exact Nat.not_lt.2 hl
    unfold Yields goOn
    simp only [repeatWhile, ends_bind, ends_get, hp, decide_false, Bool.false_and]
    exact ⟨rfl, h⟩

lemma ends_goOn {rule : InfixFn} {d : Expr Token} {ts : List Token} {n : Nat}
    {post : Expr Token → State → Prop} (h : s.IsBefore (t :: ts))
    (hr : Rules.standard.infixFn t.kind = some rule) (hp : p.rank < t.kind.level)
    (hinfixFn : ∀ s', s'.IsAt (t :: ts) → Yields (applyInfixFn engines e rule) s' d rest)
    (hn : ts.length < n) (hrest : rest.length ≤ ts.length)
    (hpost : ∀ s' n, s'.IsBefore rest → rest.length ≤ n →
      Ends (goOn engines p n d) s' post (fun f _ => f.IsOther)) :
    Ends (goOn engines p n e) s post (fun f _ => f.IsOther) := by
  cases n with
  | zero => exact absurd hn (Nat.not_lt_zero _)
  | succ n =>
    have hk := h.kind
    rw [headKind_cons] at hk
    have hp' : p < s.peekPrecedence := by
      rw [State.peekPrecedence, h.steady.rules, hk]
      exact hp
    unfold goOn
    simp only [repeatWhile, ends_bind, ends_get]
    rw [if_pos (by simp [hp', h.steady.rules, hk, hr])]
    simp only [extend, ends_bind, ends_get, h.steady.rules, hk, hr]
    refine h.advance.imp fun _ s' h' => ?_
    exact (hinfixFn s' h').and_then fun s'' h'' => hpost s'' n h'' (by omega)

end Engine

/-! ### Trees -/

/-- Where a form of expression may stand: what binds more tightly than the precedence belongs to it,
and the token of the kind behind it does not. -/
def Form.Admits : Form → Precedence → Kind → Prop
  | .primary, _, _ | .applied, _, _ => True
  | .operand, _, k => k.level ≤ 6
  | .chain n, p, k => p.rank ≤ n ∧ k.level ≤ n + 1 ∧ k.level ≤ 6

/-- Wherever the part of a tree may stand, it is read from the tokens. -/
def Phrase.IsRead : Phrase → List Token → Prop
  | .expr form e, ts => ∀ (engines : Site → Engine) (p : Precedence) (rest : List Token)
    (s : State),
      (∀ site, (engines site).Bounded) → p.rank ≤ 6 → form.Admits p (headKind rest) →
      headKind rest ≠ .kwElse → s.IsAt (ts ++ rest) →
      ∀ post : Expr Token → State → Prop,
        (∀ s' n, s'.IsBefore rest → rest.length ≤ n →
          Ends (Engine.goOn engines p n e) s' post (fun f _ => f.IsOther)) →
        Ends (Engine.layer engines p) s post (fun f _ => f.IsOther)
  | .arguments es, ts => ∀ (engine : Engine) (r : Token) (rest : List Token) (s : State),
      engine.Bounded → r.kind = .rparen → s.IsBefore (ts ++ r :: rest) →
      Yields engine.arguments s es rest
  | .moreArguments es, ts => ∀ (engine : Engine) (rest : List Token) (s : State) (n : Nat),
      engine.Bounded → headKind rest = .rparen → s.IsBefore (ts ++ rest) → (ts ++ rest).length ≤ n →
      Yields (collectWhile (fun s => s.peek.kind = .comma)
        (do
          engine.nextToken
          engine.nextToken
          engine.expression .lowest) n) s es rest
  | .stmt a, ts => ∀ (engine : Engine) (rest : List Token) (s : State), engine.Bounded →
      (headKind rest).level ≤ 1 → headKind rest ≠ .kwElse → s.IsAt (ts ++ rest) →
      Yields engine.statement s a (dropSemicolon rest)
  | .stmts ss, ts => ∀ (engine : Engine) (rest : List Token) (s : State) (n : Nat),
      engine.Bounded → headKind rest = .rbrace → s.IsAt (ts ++ rest) → (ts ++ rest).length ≤ n →
      Ends (collectWhile (fun s => s.current.kind != .rbrace && s.current.kind != .eof)
        (do
          let s ← engine.statement
          advance
          return s) n) s (fun ss' s' => ss' = ss ∧ s'.IsAt rest) (fun f _ => f.IsOther)
  | .block b, ts => ∀ (engine : Engine) (rest : List Token) (s : State), engine.Bounded →
      s.IsAt (ts ++ rest) → Yields engine.block s b rest

/-- A prefix function reads the expression from the tokens, wherever it may stand. -/
def IsLed (form : Form) (e : Expr Token) (ts : List Token) : Prop :=
  ∃ rule, Rules.standard.prefixFn (headKind ts) = some rule ∧
    ∀ (engines : Site → Engine) (rest : List Token) (s : State),
      (∀ site, (engines site).Bounded) → form.Admits .unary (headKind rest) →
      headKind rest ≠ .kwElse → s.IsAt (ts ++ rest) →
      Yields (Engine.applyPrefixFn engines rule) s e rest

namespace Phrase.IsRead

variable {form : Form} {e : Expr Token} {ts : List Token}

/-- Reading an expression ends where nothing binds more tightly than the precedence. -/
lemma yields {p : Precedence} (h : (Phrase.expr form e).IsRead ts) {engine : Engine}
    (hE : engine.Bounded) (hp : p.rank ≤ 6) (ha : form.Admits p (headKind rest))
    (hl : (headKind rest).level ≤ p.rank) (he : headKind rest ≠ .kwElse)
    (hs : s.IsAt (ts ++ rest)) : Yields (engine.expression p) s e rest := by
  cases hE with
  | empty => exact trivial
  | layer _ hE =>
    exact h _ p rest s hE hp ha he hs _ fun s' n h' _ => Engine.goOn_stop h' hl n

lemma lowest (h : (Phrase.expr (.chain 1) e).IsRead ts) {engine : Engine} (hE : engine.Bounded)
    (hl : (headKind rest).level ≤ 1) (he : headKind rest ≠ .kwElse) (hs : s.IsAt (ts ++ rest)) :
    Yields (engine.expression .lowest) s e rest :=
  h.yields hE (by decide) ⟨by decide, by omega, by omega⟩ hl he hs

lemma of_isLed (h : IsLed form e ts) (hform : form = .primary ∨ form = .operand) :
    (Phrase.expr form e).IsRead ts := by
  obtain ⟨rule, hr, h⟩ := h
  intro engines p rest s hE _ ha he hs post hpost
  have hk : Rules.standard.prefixFn s.current.kind = some rule := by
    rw [hs.kind, headKind_append (Kind.ne_eof_of_prefixFns (by rw [Kind.hasPrefixFn, hr]; rfl)), hr]
  refine Engine.ends_layer hs.steady hk (h engines rest s hE ?_ he hs) hpost
  rcases hform with rfl | rfl <;> exact ha

end Phrase.IsRead

namespace IsLed

variable {e : Expr Token} {ts : List Token}

lemma token (rule : PrefixFn) {t : Token} (hr : Rules.standard.prefixFn t.kind = some rule)
    (h : ∀ (engines : Site → Engine) (s : State), s.current = t →
      Ends (Engine.applyPrefixFn engines rule) s (fun e' s' => e' = e ∧ s' = s)
        (fun f _ => f.IsOther)) :
    IsLed .primary e [t] := by
  refine ⟨rule, hr, fun engines rest s _ _ _ hs => ?_⟩
  refine (h engines s hs.current).imp ?_
  rintro _ _ ⟨rfl, rfl⟩
  exact ⟨rfl, hs.pass⟩

lemma name {t : Token} (h : t.kind = .ident) : IsLed .primary (.name t) [t] := by
  refine .token .name (by rw [h]; rfl) fun engines s hs => ?_
  simp only [Engine.applyPrefixFn, ends_bind, ends_get, ends_pure, hs, and_self]

lemma integer {t : Token} (h : t.kind = .int) : IsLed .primary (.integer t) [t] := by
  refine .token .integer (by rw [h]; rfl) fun engines s hs => ?_
  simp only [Engine.applyPrefixFn, ends_bind, ends_get, ends_pure, hs, and_self]

lemma boolean {t : Token} (h : t.kind = .kwTrue ∨ t.kind = .kwFalse) :
    IsLed .primary (.boolean t) [t] := by
  refine .token .boolean (by rcases h with h | h <;> rw [h] <;> rfl) fun engines s hs => ?_
  simp only [Engine.applyPrefixFn, ends_bind, ends_get, ends_pure, hs, and_self]

lemma grouped {l r : Token} (hl : l.kind = .lparen) (h : (Phrase.expr (.chain 1) e).IsRead ts)
    (hr : r.kind = .rparen) : IsLed .primary e (l :: ts ++ [r]) := by
  refine ⟨.grouped, by simp [hl, Rules.standard], ?_⟩
  intro engines rest s hE _ _ hs
  simp only [List.append_assoc, List.cons_append, List.nil_append] at hs
  simp only [Yields, Engine.applyPrefixFn, Engine.groupedExpression, ends_bind, ends_pure]
  refine ((hE _).advance hs.pass).imp fun _ s₁ h₁ => ?_
  refine (h.lowest (hE _) ?_ ?_ h₁).and_then fun s₂ h₂ => ?_
  · rw [headKind_cons, hr]
    decide
  · rw [headKind_cons, hr]
    decide
  exact (h₂.expect hr).imp fun _ s₃ h₃ => ⟨rfl, h₃.2.pass⟩

lemma conditional {t l r : Token} {c : Expr Token} {b : Block Token} {xs ys : List Token}
    (ht : t.kind = .kwIf) (hl : l.kind = .lparen) (hc : (Phrase.expr (.chain 1) c).IsRead xs)
    (hr : r.kind = .rparen) (hb : (Phrase.block b).IsRead ys) (hys : headKind ys = .lbrace)
    {o : List Token} {d : Option (Block Token)}
    (ho : d = none ∧ o = [] ∨ ∃ t b' zs, d = some b' ∧ o = t :: zs ∧ t.kind = .kwElse ∧
      headKind zs = .lbrace ∧ (Phrase.block b').IsRead zs) :
    IsLed .primary (.conditional t c b d) (t :: l :: xs ++ r :: ys ++ o) := by
  refine ⟨.conditional, by simp [ht, Rules.standard], ?_⟩
  intro engines rest s hE _ he hs
  simp only [List.append_assoc, List.cons_append] at hs
  simp only [Yields, Engine.applyPrefixFn, Engine.conditionalExpression, ends_bind, ends_get]
  refine (hs.pass.expect hl).imp ?_
  rintro _ s₁ ⟨rfl, h₁⟩
  refine ((hE _).advance h₁.pass).imp fun _ s₂ h₂ => ?_
  refine (hc.lowest (hE _) ?_ ?_ h₂).and_then fun s₃ h₃ => ?_
  · rw [headKind_cons, hr]
    decide
  · rw [headKind_cons, hr]
    decide
  refine (h₃.expect hr).imp ?_
  rintro _ s₄ ⟨rfl, h₄⟩
  obtain ⟨l', ys', rfl, hl'⟩ := exists_cons_of_headKind hys (by decide)
  refine (h₄.pass.expect hl').imp ?_
  rintro _ s₅ ⟨rfl, h₅⟩
  refine (hb _ _ s₅ (hE _) h₅).and_then fun s₆ h₆ => ?_
  rcases ho with ⟨rfl, rfl⟩ | ⟨o', b', zs, rfl, rfl, ho', hzs, hb'⟩
  · rw [if_neg (by rw [h₆.kind]; exact he)]
    exact ⟨by rw [hs.current], h₆⟩
  · rw [if_pos (by rw [h₆.kind]; exact ho')]
    simp only [ends_bind, ends_pure]
    refine h₆.advance.imp fun _ s₇ h₇ => ?_
    obtain ⟨l'', zs', rfl, hl''⟩ := exists_cons_of_headKind hzs (by decide)
    refine (h₇.pass.expect hl'').imp ?_
    rintro _ s₈ ⟨rfl, h₈⟩
    exact (hb' _ rest s₈ (hE _) h₈).and_then fun s₉ h₉ => ⟨by rw [hs.current], h₉⟩

lemma function {t l r : Token} {names : List Token} {b : Block Token} {xs ys : List Token}
    (ht : t.kind = .kwFunction) (hl : l.kind = .lparen) (hnames : SpellsNames names xs)
    (hr : r.kind = .rparen) (hb : (Phrase.block b).IsRead ys) (hys : headKind ys = .lbrace) :
    IsLed .primary (.function t names b) (t :: l :: xs ++ r :: ys) := by
  refine ⟨.function, by simp [ht, Rules.standard], ?_⟩
  intro engines rest s hE _ _ hs
  simp only [List.append_assoc, List.cons_append] at hs
  simp only [Yields, Engine.applyPrefixFn, Engine.functionExpression, ends_bind, ends_get,
    ends_pure]
  refine (hs.pass.expect hl).imp ?_
  rintro _ s₁ ⟨rfl, h₁⟩
  refine (hnames.isRead hr h₁.pass).and_then fun s₂ h₂ => ?_
  obtain ⟨l', ys', rfl, hl'⟩ := exists_cons_of_headKind hys (by decide)
  refine (h₂.expect hl').imp ?_
  rintro _ s₃ ⟨rfl, h₃⟩
  exact (hb _ rest s₃ (hE _) h₃).and_then fun s₄ h₄ => ⟨by rw [hs.current], h₄⟩

lemma unary {t : Token} (ht : t.kind.isUnary = true) (h : (Phrase.expr .operand e).IsRead ts) :
    IsLed .operand (.unary t e) (t :: ts) := by
  refine ⟨.unary, Kind.prefixFn_isUnary ht, ?_⟩
  intro engines rest s hE ha he hs
  simp only [Yields, Engine.applyPrefixFn, Engine.unaryExpression, ends_bind, ends_get, ends_pure]
  refine ((hE _).advance hs.pass).imp fun _ s₁ h₁ => ?_
  refine (h.yields (hE _) (by decide) ha ha he h₁).and_then fun s₂ h₂ => ⟨?_, h₂⟩
  rw [hs.current]

end IsLed

namespace Phrase.IsRead

variable {form : Form} {e : Expr Token} {ts : List Token}

lemma call {t r : Token} {es : List (Expr Token)} {xs ys : List Token}
    (h : (Phrase.expr .applied e).IsRead xs) (ht : t.kind = .lparen)
    (hs : (Phrase.arguments es).IsRead ys) (hr : r.kind = .rparen) :
    (Phrase.expr .applied (.call t e es)).IsRead (xs ++ t :: ys ++ [r]) := by
  intro engines p rest s hE hp _ _ hs₁ post hpost
  simp only [List.append_assoc, List.cons_append, List.nil_append] at hs₁
  refine h engines p _ s hE hp trivial (by simp [ht]) hs₁ post fun s₂ n h₂ hn => ?_
  have hinfixFn : Rules.standard.infixFn t.kind = some .call := by rw [ht]; rfl
  have hlevel : p.rank < t.kind.level := by
    rw [ht]
    exact Nat.lt_of_le_of_lt hp (by decide)
  refine Engine.ends_goOn h₂ hinfixFn hlevel (fun s₃ h₃ => ?_) hn (by simp; omega) hpost
  simp only [Yields, Engine.applyInfixFn, Engine.callExpression, ends_bind, ends_get, ends_pure]
  refine (hs _ r rest s₃ (hE _) hr h₃.pass).and_then fun s₄ h₄ => ⟨?_, h₄⟩
  rw [h₃.current]

lemma binary {n : Nat} {t : Token} {d : Expr Token} {xs ys : List Token}
    (ht : t.kind.isBinary = true) (hn : n < t.kind.level)
    (hx : (Phrase.expr (.chain (t.kind.level - 1)) e).IsRead xs)
    (hy : (Phrase.expr (.chain t.kind.level) d).IsRead ys) :
    (Phrase.expr (.chain n) (.binary t e d)).IsRead (xs ++ t :: ys) := by
  intro engines p rest s hE hp ⟨hpn, hrest, hrest'⟩ he hs post hpost
  simp only [List.append_assoc, List.cons_append] at hs
  have hlevel := Kind.level_isBinary ht
  have hadmits : Form.Admits (.chain (t.kind.level - 1)) p t.kind := by
    refine ⟨?_, ?_, ?_⟩ <;> omega
  have helse : t.kind ≠ .kwElse := fun he => by rw [he] at ht; cases ht
  refine hx engines p (t :: (ys ++ rest)) s hE hp hadmits helse hs post fun s₂ n h₂ hn' => ?_
  refine Engine.ends_goOn h₂ (Kind.infixFn_isBinary ht) (by omega) (fun s₃ h₃ => ?_) hn' (by simp)
    hpost
  simp only [Yields, Engine.applyInfixFn, Engine.binaryExpression, ends_bind, ends_get, ends_pure]
  refine ((hE _).advance h₃.pass).imp fun _ s₄ h₄ => ?_
  rw [h₃.steady.rules, h₃.current]
  have hrank : (Rules.standard.precedence t.kind).rank = t.kind.level := rfl
  refine (hy.yields (hE _) ?_ ⟨?_, ?_, hrest'⟩ ?_ he h₄).and_then fun s₅ h₅ => ⟨rfl, h₅⟩ <;>
    omega

/-! ### Arguments -/

lemma headKind_behindArgument {ys rest : List Token} (hys : headKind ys = .comma ∨ ys = [])
    (hr : headKind rest = .rparen) :
    headKind (ys ++ rest) = .comma ∨ headKind (ys ++ rest) = .rparen := by
  rcases hys with hys | rfl
  · exact .inl (by rw [headKind_append (by rw [hys]; decide), hys])
  · exact .inr hr

lemma noMoreArguments : (Phrase.moreArguments []).IsRead [] := by
  intro engine rest s n hE hr hs _
  cases n with
  | zero => exact ⟨rfl, hs⟩
  | succ n =>
    simp only [Yields, collectWhile, ends_bind, ends_get]
    rw [if_neg (by rw [hs.kind, List.nil_append, hr]; decide)]
    exact ⟨rfl, hs⟩

lemma moreArguments {comma : Token} {es : List (Expr Token)} {xs ys : List Token}
    (hc : comma.kind = .comma) (hx : (Phrase.expr (.chain 1) e).IsRead xs)
    (hys : headKind ys = .comma ∨ ys = []) (hy : (Phrase.moreArguments es).IsRead ys) :
    (Phrase.moreArguments (e :: es)).IsRead (comma :: xs ++ ys) := by
  intro engine rest s n hE hr hs hn
  simp only [List.append_assoc, List.cons_append, List.length_cons] at hs hn
  cases n with
  | zero => cases hn
  | succ n =>
    have hbehind := headKind_behindArgument hys hr
    simp only [Yields, collectWhile, ends_bind, ends_get]
    rw [if_pos (by rw [hs.kind, headKind_cons, hc]; rfl)]
    simp only [ends_bind, ends_pure]
    refine (hE.advance hs).imp fun _ s₁ h₁ => (hE.advance h₁.pass).imp fun _ s₂ h₂ => ?_
    refine (hx.lowest hE ?_ ?_ h₂).and_then fun s₃ h₃ => ?_
    · rcases hbehind with h | h <;> rw [h] <;> decide
    · rcases hbehind with h | h <;> rw [h] <;> decide
    refine (hy engine rest s₃ n hE hr h₃ ?_).and_then fun s₄ h₄ => ⟨rfl, h₄⟩
    simp only [List.length_append] at hn ⊢
    omega

lemma noArguments : (Phrase.arguments []).IsRead [] := by
  intro engine r rest s hE hr hs
  simp only [Yields, Engine.arguments, ends_bind, ends_get]
  rw [if_pos (hs.kind.trans hr)]
  simp only [ends_bind, ends_pure]
  exact hs.advance.imp fun _ s₁ h₁ => ⟨trivial, h₁.pass⟩

lemma arguments {es : List (Expr Token)} {xs ys : List Token}
    (hx : (Phrase.expr (.chain 1) e).IsRead xs) (hxs : (headKind xs).hasPrefixFn = true)
    (hys : headKind ys = .comma ∨ ys = []) (hy : (Phrase.moreArguments es).IsRead ys) :
    (Phrase.arguments (e :: es)).IsRead (xs ++ ys) := by
  intro engine r rest s hE hr hs
  rw [List.append_assoc] at hs
  have hbehind := headKind_behindArgument hys (show headKind (r :: rest) = .rparen from hr)
  have hne : headKind xs ≠ .eof := Kind.ne_eof_of_prefixFns hxs
  have hnr : s.peek.kind ≠ .rparen := fun hr => by
    rw [hs.kind, headKind_append hne] at hr
    rw [hr] at hxs
    cases hxs
  simp only [Yields, Engine.arguments, ends_bind, ends_get]
  rw [if_neg hnr]
  simp only [ends_bind, ends_get, ends_pure]
  refine (hE.advance hs).imp fun _ s₁ h₁ => ?_
  refine (hx.lowest hE ?_ ?_ h₁).and_then fun s₂ h₂ => ?_
  · rcases hbehind with h | h <;> rw [h] <;> decide
  · rcases hbehind with h | h <;> rw [h] <;> decide
  refine (hy engine (r :: rest) s₂ _ hE hr h₂ h₂.tokensLeft).and_then fun s₃ h₃ => ?_
  exact (h₃.expect hr).imp fun _ s₄ h₄ => ⟨rfl, h₄.2.pass⟩

/-! ### Statements -/

lemma binding {t name a : Token} (ht : t.kind = .kwLet) (hname : name.kind = .ident)
    (ha : a.kind = .assign) (h : (Phrase.expr (.chain 1) e).IsRead ts) :
    (Phrase.stmt (.binding name e)).IsRead (t :: name :: a :: ts) := by
  intro engine rest s hE hl he hs
  simp only [List.cons_append] at hs
  have hk : s.current.kind = .kwLet := by rw [hs.current, ht]
  simp only [Yields, Engine.statement, ends_bind, ends_get, hk, Engine.bindingStatement, ends_pure]
  refine (hs.pass.expect hname).imp ?_
  rintro _ s₁ ⟨rfl, h₁⟩
  refine (h₁.pass.expect ha).imp ?_
  rintro _ s₂ ⟨rfl, h₂⟩
  refine (hE.advance h₂.pass).imp fun _ s₃ h₃ => ?_
  refine (h.lowest hE hl he h₃).and_then fun s₄ h₄ => ?_
  exact h₄.skipSemicolon.imp fun _ s₅ h₅ => ⟨rfl, h₅⟩

lemma result {t : Token} (ht : t.kind = .kwReturn) (h : (Phrase.expr (.chain 1) e).IsRead ts) :
    (Phrase.stmt (.result e)).IsRead (t :: ts) := by
  intro engine rest s hE hl he hs
  have hk : s.current.kind = .kwReturn := by rw [hs.kind, List.cons_append, headKind_cons, ht]
  simp only [Yields, Engine.statement, ends_bind, ends_get, hk, Engine.resultStatement, ends_pure]
  refine (hE.advance hs.pass).imp fun _ s₁ h₁ => ?_
  refine (h.lowest hE hl he h₁).and_then fun s₂ h₂ => ?_
  exact h₂.skipSemicolon.imp fun _ s₃ h₃ => ⟨rfl, h₃⟩

lemma expression {t : Token} (ht : t.kind.hasPrefixFn = true)
    (h : (Phrase.expr (.chain 1) e).IsRead (t :: ts)) :
    (Phrase.stmt (.expression t e)).IsRead (t :: ts) := by
  intro engine rest s hE hl he hs
  have hk : s.current.kind = t.kind := by rw [hs.kind, List.cons_append, headKind_cons]
  have hc : s.current = t := hs.current
  have hstmt : Yields engine.expressionStatement s (.expression t e)
      (dropSemicolon rest) := by
    simp only [Yields, Engine.expressionStatement, ends_bind, ends_get, ends_pure]
    refine (h.lowest hE hl he hs).and_then fun s₁ h₁ => ?_
    exact h₁.skipSemicolon.imp fun _ s₂ h₂ => ⟨by rw [hc], h₂⟩
  simp only [Yields, Engine.statement, ends_bind, ends_get]
  split
  · next hlet =>
    rw [← hk, hlet] at ht
    cases ht
  · next hreturn =>
    rw [← hk, hreturn] at ht
    cases ht
  · exact hstmt

/-! ### Blocks -/

lemma noStmts : (Phrase.stmts []).IsRead [] := by
  intro engine rest s n hE hr hs _
  cases n with
  | zero => exact ⟨rfl, hs⟩
  | succ n =>
    simp only [collectWhile, ends_bind, ends_get]
    rw [if_neg (by rw [hs.kind, List.nil_append, hr]; decide)]
    exact ⟨rfl, hs⟩

/-- A statement is read before others, with its semicolon or where it may do without. -/
lemma stmts {a : Stmt Token} {ss : List (Stmt Token)} {xs close ys : List Token}
    (hx : (Phrase.stmt a).IsRead xs) (hxs : (headKind xs).begins = true)
    (hclose : close = [] ∧ (headKind ys).level ≤ 1 ∧ headKind ys ≠ .semicolon ∨
      ∃ t : Token, close = [t] ∧ t.kind = .semicolon)
    (hys : ys = [] ∨ (headKind ys).begins = true) (hy : (Phrase.stmts ss).IsRead ys) :
    (Phrase.stmts (a :: ss)).IsRead (xs ++ close ++ ys) := by
  intro engine rest s n hE hr hs hn
  simp only [List.append_assoc] at hs hn
  have hne : headKind xs ≠ .eof ∧ headKind xs ≠ .rbrace := by
    constructor <;> intro he <;> rw [he] at hxs <;> cases hxs
  have hpos : 0 < xs.length := List.length_pos_of_ne_nil fun hn => hne.1 (by rw [hn, headKind_nil])
  have hk : s.current.kind = headKind xs := by rw [hs.kind, headKind_append hne.1]
  cases n with
  | zero =>
    simp only [List.length_append] at hn
    omega
  | succ n =>
    simp only [collectWhile, ends_bind, ends_get]
    rw [if_pos (by simp [hk, hne])]
    simp only [ends_bind, ends_pure]
    have hbehind : (headKind (close ++ (ys ++ rest))).level ≤ 1 ∧
        headKind (close ++ (ys ++ rest)) ≠ .kwElse ∧
        dropSemicolon (close ++ (ys ++ rest)) = ys ++ rest := by
      rcases hclose with ⟨rfl, hl, hk⟩ | ⟨t, rfl, ht⟩
      · have hb : headKind (ys ++ rest) = headKind ys ∨ headKind (ys ++ rest) = .rbrace := by
          rcases hys with rfl | hys
          · exact .inr hr
          · exact .inl (headKind_append (Kind.ne_eof_of_begins hys) rest)
        rw [List.nil_append]
        rcases hb with hb | hb
        · have : headKind ys ≠ .kwElse := fun he => hys.elim (fun hn => by simp [hn] at he)
            fun hys => by rw [he] at hys; cases hys
          exact ⟨hb ▸ hl, hb ▸ this, dropSemicolon_of_ne (hb ▸ hk)⟩
        · rw [hb]
          exact ⟨by decide, by decide, dropSemicolon_of_ne (by rw [hb]; decide)⟩
      · rw [List.singleton_append, headKind_cons, ht, dropSemicolon, if_pos ht]
        exact ⟨by decide, by decide, rfl⟩
    refine (hx engine _ s hE hbehind.1 hbehind.2.1 hs).and_then fun s₁ h₁ => ?_
    rw [hbehind.2.2] at h₁
    refine h₁.advance.imp fun _ s₂ h₂ => ?_
    refine (hy engine rest s₂ n hE hr h₂ ?_).imp ?_
    · simp only [List.length_append] at hn ⊢
      omega
    · rintro ss' s₃ ⟨hss, h₃⟩
      exact ⟨by rw [hss], h₃⟩

lemma block {l r : Token} {ss : List (Stmt Token)} (h : (Phrase.stmts ss).IsRead ts)
    (hr : r.kind = .rbrace) : (Phrase.block (.mk l ss)).IsRead (l :: ts ++ [r]) := by
  intro engine rest s hE hs
  simp only [List.append_assoc, List.cons_append, List.nil_append] at hs
  simp only [Yields, Engine.block, ends_bind, ends_get, ends_addDepth]
  refine ((hs.withDepth _).pass.advance).imp fun _ s₁ h₁ => ?_
  refine (h engine (r :: rest) s₁ _ hE hr h₁ h₁.tokensLeft).imp ?_
  rintro ss' s₂ ⟨hss, h₂⟩
  rw [if_neg (by rw [h₂.kind, headKind_cons, hr]; decide)]
  simp only [ends_bind, ends_addDepth, ends_pure]
  exact ⟨by rw [hs.current, hss], h₂.pass.withDepth _⟩

end Phrase.IsRead

namespace Spells

lemma hasPrefixFn {form : Form} {e : Expr Token} {ts : List Token} (h : Spells (.expr form e) ts) :
    (headKind ts).hasPrefixFn = true := h.mayBegin

lemma headKind_block {b : Block Token} {ts : List Token} (h : Spells (.block b) ts) :
    headKind ts = .lbrace := by
  cases h with
  | block hl => exact hl

lemma headKind_moreArguments {es : List (Expr Token)} {ts : List Token}
    (h : Spells (.moreArguments es) ts) : headKind ts = .comma ∨ ts = [] := by
  cases h with
  | noMoreArguments => exact .inr rfl
  | moreArguments hc => exact .inl hc

lemma headKind_stmts {ss : List (Stmt Token)} {ts : List Token} (h : Spells (.stmts ss) ts) :
    ts = [] ∨ (headKind ts).begins = true := by
  cases ss with
  | nil =>
    cases h with
    | noStmts => exact .inl rfl
  | cons a ss => exact .inr h.mayBegin

section Conditionals

variable {t l r : Token} {c : Expr Token} {b : Block Token} {xs ys : List Token}
  (ht : t.kind = .kwIf) (hl : l.kind = .lparen) (hc : (Phrase.expr (.chain 1) c).IsRead xs)
  (hr : r.kind = .rparen) (hb : Spells (.block b) ys) (ihb : (Phrase.block b).IsRead ys)

include ht hl hc hr hb ihb

lemma isLed_conditional :
    IsLed .primary (.conditional t c b none) (t :: l :: xs ++ r :: ys) := by
  simpa using IsLed.conditional ht hl hc hr ihb hb.headKind_block (.inl ⟨rfl, rfl⟩)

lemma isLed_alternative {o : Token} {d : Block Token} {zs : List Token} (ho : o.kind = .kwElse)
    (hd : Spells (.block d) zs) (ihd : (Phrase.block d).IsRead zs) :
    IsLed .primary (.conditional t c b (some d)) (t :: l :: xs ++ r :: ys ++ o :: zs) :=
  .conditional ht hl hc hr ihb hb.headKind_block
    (.inr ⟨_, _, _, rfl, rfl, ho, hd.headKind_block, ihd⟩)

end Conditionals

theorem isRead {x : Phrase} {ts : List Token} (h : Spells x ts) : x.IsRead ts := by
  induction h with
  | name h => exact .of_isLed (.name h) (.inl rfl)
  | integer h => exact .of_isLed (.integer h) (.inl rfl)
  | boolean h => exact .of_isLed (.boolean h) (.inl rfl)
  | grouped hl _ hr ih => exact .of_isLed (.grouped hl ih hr) (.inl rfl)
  | conditional ht hl _ hr hb ihc ihb =>
    exact .of_isLed (isLed_conditional ht hl ihc hr hb ihb) (.inl rfl)
  | alternative ht hl _ hr hb ho hd ihc ihb ihd =>
    exact .of_isLed (isLed_alternative ht hl ihc hr hb ihb ho hd ihd) (.inl rfl)
  | function ht hl hn hr hb ih =>
    exact .of_isLed (.function ht hl hn hr ih hb.headKind_block) (.inl rfl)
  | applied _ ih => exact ih
  | call _ ht _ hr ih ihs => exact ih.call ht ihs hr
  | operand _ ih =>
    intro engines p rest s hE hp _ he hs
    exact ih engines p rest s hE hp trivial he hs
  | unary ht _ ih => exact .of_isLed (.unary ht ih) (.inr rfl)
  | chain _ ih =>
    intro engines p rest s hE hp ha he hs
    exact ih engines p rest s hE hp ha.2.2 he hs
  | binary ht hn _ _ ihx ihy => exact ihx.binary ht hn ihy
  | noArguments => exact .noArguments
  | arguments hx hy ihx ihy => exact ihx.arguments hx.hasPrefixFn hy.headKind_moreArguments ihy
  | noMoreArguments => exact .noMoreArguments
  | moreArguments hc _ hy ihx ihy => exact ihx.moreArguments hc hy.headKind_moreArguments ihy
  | binding ht hn ha _ ih => exact ih.binding ht hn ha
  | result ht _ ih => exact ih.result ht
  | expression h ih => exact ih.expression h.hasPrefixFn
  | noStmts => exact .noStmts
  | @ended s xs t ss ys hx ht hy ihx ihy =>
    simpa using ihx.stmts hx.mayBegin (.inr ⟨t, rfl, ht⟩) hy.headKind_stmts ihy
  | unended hx hl hk hy ihx ihy =>
    simpa using ihx.stmts hx.mayBegin (.inl ⟨rfl, hl, hk⟩) hy.headKind_stmts ihy
  | block _ _ hr ih => exact ih.block hr

end Spells

theorem SpellsFirst.isLed {form : Form} {e : Expr Token} {ts : List Token}
    (h : SpellsFirst form e ts) : IsLed form e ts := by
  cases h with
  | unary ht h => exact .unary ht h.isRead
  | primary h =>
    cases h with
    | name h => exact .name h
    | integer h => exact .integer h
    | boolean h => exact .boolean h
    | grouped hl h hr => exact .grouped hl h.isRead hr
    | conditional ht hl hc hr hb => exact hb.isLed_conditional ht hl hc.isRead hr hb.isRead
    | alternative ht hl hc hr hb ho hd =>
      exact hb.isLed_alternative ht hl hc.isRead hr hb.isRead ho hd hd.isRead
    | function ht hl hn hr hb => exact .function ht hl hn hr hb.isRead hb.headKind_block

end MonkeyFront
