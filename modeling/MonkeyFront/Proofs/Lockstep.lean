import MonkeyFront.Parsing.Engine
import MonkeyFront.Proofs.Ends
import MonkeyFront.Proofs.Spelling

/-!
# Reading in lockstep

Two parsers are in lockstep where they look at the same tokens and each can follow what the other
does (`IsLockstep`).
-/

namespace MonkeyFront

variable {α β : Type}

/-! ### Operations that mirror each other -/

section Mirrors

variable (rel : State → State → Prop) (excused : Failure → Prop)

/-- From the state `t` the operation `q` comes to the end to which `p` comes from `s`, and to a
related state, unless `p` fails in a way that is excused. -/
def MirrorsFrom (s t : State) (p q : Parse α) : Prop :=
  Ends p s (fun a s' => ∃ t', q t = .ok a t' ∧ rel s' t')
    (fun f s' => excused f ∨ ∃ t', q t = .error f t' ∧ rel s' t')

/-- From related states the operations come to the same end. -/
def Mirrors (p q : Parse α) : Prop := ∀ s t, rel s t → MirrorsFrom rel excused s t p q

end Mirrors

namespace Mirrors

variable {rel : State → State → Prop} {excused : Failure → Prop} {p q : Parse α}

lemma pure (a : α) : Mirrors rel excused (pure a) (pure a) := fun _ t h => ⟨t, rfl, h⟩

lemma throw (f : Failure) : Mirrors rel excused (throw f : Parse α) (throw f) :=
  fun _ t h => .inr ⟨t, rfl, h⟩

lemma throw_excused {f : Failure} (h : excused f) : Mirrors rel excused (.throw f) q :=
  fun _ _ _ => .inl h

lemma bind {p q : Parse β} {f g : β → Parse α} (hp : Mirrors rel excused p q)
    (hf : ∀ b, Mirrors rel excused (f b) (g b)) : Mirrors rel excused (p >>= f) (q >>= g) := by
  intro s t h
  rw [MirrorsFrom, ends_bind]
  apply (hp s t h).mono
  · rintro b s' ⟨t', hrun, h'⟩
    have hbind : (q >>= g) t = g b t' := by simp only [Bind.bind, EStateM.bind, hrun]
    rw [hbind]
    exact hf b s' t' h'
  · rintro e s' (he | ⟨t', hrun, h'⟩)
    · exact .inl he
    · exact .inr ⟨t', by simp only [Bind.bind, EStateM.bind, hrun], h'⟩

lemma get {f g : State → Parse α} (h : ∀ s t, rel s t → Mirrors rel excused (f s) (g t)) :
    Mirrors rel excused (get >>= f) (get >>= g) := by
  intro s t hst
  rw [MirrorsFrom, ends_bind, ends_get]
  exact h s t hst s t hst

lemma tryCatch {f g : Failure → Parse α} (hnone : ∀ e, ¬excused e) (hp : Mirrors rel excused p q)
    (hf : ∀ e, Mirrors rel excused (f e) (g e)) :
    Mirrors rel excused (tryCatch p f) (tryCatch q g) := by
  intro s t h
  rw [MirrorsFrom, ends_tryCatch]
  apply (hp s t h).mono
  · rintro a s' ⟨t', hrun, h'⟩
    refine ⟨t', ?_, h'⟩
    simp only [MonadExcept.tryCatch, tryCatchThe, MonadExceptOf.tryCatch, EStateM.tryCatch, hrun]
  · rintro e s' (he | ⟨t', hrun, h'⟩)
    · exact absurd he (hnone e)
    · have hcatch : MonadExcept.tryCatch q g t = g e t' := by
        simp only [MonadExcept.tryCatch, tryCatchThe, MonadExceptOf.tryCatch, EStateM.tryCatch,
          hrun]
        rfl
      rw [hcatch]
      exact hf e s' t' h'

lemma ite {c : Prop} [Decidable c] {p' q' : Parse α} (hp : Mirrors rel excused p q)
    (hp' : Mirrors rel excused p' q') :
    Mirrors rel excused (if c then p else p') (if c then q else q') := by
  split
  · exact hp
  · exact hp'

lemma repeatWhile {test : State → α → Bool} {f g : α → Parse α}
    (htest : ∀ s t, rel s t → test t = test s) (hf : ∀ a, Mirrors rel excused (f a) (g a))
    (n : Nat) (a : α) :
    Mirrors rel excused (repeatWhile test f n a) (MonkeyFront.repeatWhile test g n a) := by
  induction n generalizing a with
  | zero => exact pure a
  | succ n ih =>
    apply get
    intro s t h
    rw [htest s t h]
    exact ite ((hf a).bind ih) (pure a)

lemma collectWhile {test : State → Bool} (htest : ∀ s t, rel s t → test t = test s)
    (h : Mirrors rel excused p q) (n : Nat) :
    Mirrors rel excused (collectWhile test p n) (MonkeyFront.collectWhile test q n) := by
  induction n with
  | zero => exact pure []
  | succ n ih =>
    apply get
    intro s t hst
    rw [htest s t hst]
    exact ite (h.bind fun a => ih.bind fun as => pure (a :: as)) (pure [])

end Mirrors

/-! ### Parsers in lockstep -/

/-- Related states look at the same tokens by the standard rules, and stay related by what a parser
does. -/
structure IsLockstep (rel : State → State → Prop) : Prop where
  rules : ∀ {s t}, rel s t → s.rules = .standard ∧ t.rules = .standard
  current : ∀ {s t}, rel s t → t.current = s.current
  peek : ∀ {s t}, rel s t → t.peek = s.peek
  tokensLeft : ∀ {s t}, rel s t → t.tokensLeft = s.tokensLeft
  depth : ∀ {s t}, rel s t → t.depth = s.depth
  advanceWithin : ∀ reach, Mirrors rel (fun _ => False) (advanceWithin reach) (advanceWithin reach)
  report : ∀ {s t} (complaint : Complaint) (token : Token), rel s t →
    rel (s.report complaint token) (t.report complaint token)
  count : ∀ {s t} (n : Int), rel s t → rel { s with depth := n } { t with depth := n }

namespace IsLockstep

variable {rel : State → State → Prop} {excused : Failure → Prop} (hrel : IsLockstep rel)

include hrel

lemma mirrors_advanceWithin (reach : Reach) :
    Mirrors rel excused (MonkeyFront.advanceWithin reach) (MonkeyFront.advanceWithin reach) :=
  fun s t h => (hrel.advanceWithin reach s t h).mono (fun _ _ h => h)
    fun _ _ h => h.imp_left False.elim

lemma mirrors_advance : Mirrors rel excused MonkeyFront.advance MonkeyFront.advance :=
  hrel.mirrors_advanceWithin .stored

lemma mirrors_reject (complaint : Complaint) (token : Token) :
    Mirrors rel excused (reject complaint token : Parse α) (reject complaint token) :=
  fun _ _ h => .inr ⟨_, rfl, hrel.report complaint token h⟩

lemma mirrors_setDepth (n : Int) : Mirrors rel excused
    (modify fun s => { s with depth := n }) (modify fun s => { s with depth := n }) :=
  fun _ _ h => ⟨_, rfl, hrel.count n h⟩

lemma mirrors_addDepth (n : Int) : Mirrors rel excused (addDepth n) (addDepth n) := by
  intro s t h
  refine ⟨{ t with depth := t.depth + n }, rfl, ?_⟩
  rw [hrel.depth h]
  exact hrel.count _ h

lemma mirrors_expect (kind : Kind) : Mirrors rel excused (expect kind) (expect kind) := by
  refine .get fun s t h => ?_
  rw [hrel.peek h]
  refine .ite (hrel.mirrors_advance.bind fun _ => .get fun s' t' h' => ?_)
    (hrel.mirrors_reject _ _)
  rw [hrel.current h']
  exact .pure _

lemma mirrors_skipSemicolon : Mirrors rel excused skipSemicolon skipSemicolon := by
  refine .get fun s t h => ?_
  rw [hrel.peek h]
  exact .ite hrel.mirrors_advance (.pure _)

lemma mirrors_parameters : Mirrors rel excused Engine.parameters Engine.parameters := by
  refine .get fun s t h => ?_
  rw [hrel.peek h]
  refine .ite (hrel.mirrors_advance.bind fun _ => .pure []) ?_
  refine (hrel.mirrors_expect .ident).bind fun first => .get fun s' t' h' => ?_
  rw [hrel.tokensLeft h']
  refine .bind (.collectWhile (fun s t h => by rw [hrel.peek h]) ?_ _) fun others => ?_
  · exact hrel.mirrors_advance.bind fun _ => hrel.mirrors_expect .ident
  · exact (hrel.mirrors_expect .rparen).bind fun _ => .pure _

lemma mirrors_synchronize : Mirrors rel excused synchronize synchronize := by
  refine .get fun s t h => ?_
  rw [hrel.depth h]
  refine (hrel.mirrors_setDepth 0).bind fun _ => .ite ?_ ?_
  · refine .get fun s' t' h' => ?_
    rw [hrel.tokensLeft h']
    exact .repeatWhile (fun s t h => by simp only [hrel.current h])
      (fun _ => hrel.mirrors_advance) _ ()
  · refine .get fun s' t' h' => ?_
    rw [hrel.tokensLeft h']
    refine .bind (.repeatWhile (fun s t h => by simp only [hrel.current h])
      (fun nesting => ?_) _ _) fun _ => ?_
    · refine .get fun s₁ t₁ h₁ => ?_
      rw [hrel.current h₁]
      exact hrel.mirrors_advance.bind fun _ => .pure _
    · refine .get fun s₁ t₁ h₁ => ?_
      rw [hrel.current h₁]
      exact .ite hrel.mirrors_skipSemicolon (.pure _)

end IsLockstep

/-! ### Engines -/

namespace Engine

/-- From related states the engines read the same expressions. -/
structure Mirrors (rel : State → State → Prop) (excused : Failure → Prop)
    (engine engine' : Engine) : Prop where
  nextToken : MonkeyFront.Mirrors rel excused engine.nextToken engine'.nextToken
  expression : ∀ p, MonkeyFront.Mirrors rel excused (engine.expression p) (engine'.expression p)

namespace Mirrors

variable {rel : State → State → Prop} {excused : Failure → Prop} {engine engine' : Engine}
variable (hE : engine.Mirrors rel excused engine') (hrel : IsLockstep rel)

include hE hrel

lemma bindingStatement :
    MonkeyFront.Mirrors rel excused engine.bindingStatement engine'.bindingStatement := by
  refine (hrel.mirrors_expect .ident).bind fun name => ?_
  refine (hrel.mirrors_expect .assign).bind fun _ => hE.nextToken.bind fun _ => ?_
  exact (hE.expression .lowest).bind fun value => hrel.mirrors_skipSemicolon.bind fun _ => .pure _

lemma resultStatement :
    MonkeyFront.Mirrors rel excused engine.resultStatement engine'.resultStatement := by
  refine hE.nextToken.bind fun _ => (hE.expression .lowest).bind fun value => ?_
  exact hrel.mirrors_skipSemicolon.bind fun _ => .pure _

lemma expressionStatement :
    MonkeyFront.Mirrors rel excused engine.expressionStatement engine'.expressionStatement := by
  refine .get fun s t h => ?_
  rw [hrel.current h]
  exact (hE.expression .lowest).bind fun value => hrel.mirrors_skipSemicolon.bind fun _ => .pure _

lemma statement : MonkeyFront.Mirrors rel excused engine.statement engine'.statement := by
  refine .get fun s t h => ?_
  rw [hrel.current h]
  split
  · exact hE.bindingStatement hrel
  · exact hE.resultStatement hrel
  · exact hE.expressionStatement hrel

lemma block : MonkeyFront.Mirrors rel excused engine.block engine'.block := by
  refine .get fun s t h => ?_
  rw [hrel.current h]
  refine (hrel.mirrors_addDepth 1).bind fun _ => hrel.mirrors_advance.bind fun _ => ?_
  refine .get fun s' t' h' => ?_
  rw [hrel.tokensLeft h']
  refine .bind (.collectWhile (fun s t h => by rw [hrel.current h]) ?_ _) fun statements => ?_
  · exact (hE.statement hrel).bind fun _ => hrel.mirrors_advance.bind fun _ => .pure _
  · refine .get fun s₁ t₁ h₁ => ?_
    rw [hrel.current h₁]
    exact .ite (hrel.mirrors_reject _ _) ((hrel.mirrors_addDepth (-1)).bind fun _ => .pure _)

lemma unaryExpression :
    MonkeyFront.Mirrors rel excused engine.unaryExpression engine'.unaryExpression := by
  refine .get fun s t h => ?_
  rw [hrel.current h]
  exact hE.nextToken.bind fun _ => (hE.expression .unary).bind fun _ => .pure _

lemma groupedExpression :
    MonkeyFront.Mirrors rel excused engine.groupedExpression engine'.groupedExpression :=
  hE.nextToken.bind fun _ => (hE.expression .lowest).bind fun _ =>
    (hrel.mirrors_expect .rparen).bind fun _ => .pure _

lemma conditionalExpression {inBody inBody' : Engine} (hB : inBody.Mirrors rel excused inBody') :
    MonkeyFront.Mirrors rel excused (engine.conditionalExpression inBody)
      (engine'.conditionalExpression inBody') := by
  refine .get fun s t h => ?_
  rw [hrel.current h]
  refine (hrel.mirrors_expect .lparen).bind fun _ => hE.nextToken.bind fun _ => ?_
  refine (hE.expression .lowest).bind fun c => (hrel.mirrors_expect .rparen).bind fun _ => ?_
  refine (hrel.mirrors_expect .lbrace).bind fun _ => (hB.block hrel).bind fun b => ?_
  refine .get fun s' t' h' => ?_
  rw [hrel.peek h']
  refine .ite (hrel.mirrors_advance.bind fun _ => ?_) (.pure _)
  exact (hrel.mirrors_expect .lbrace).bind fun _ => (hB.block hrel).bind fun _ => .pure _

lemma functionExpression :
    MonkeyFront.Mirrors rel excused engine.functionExpression engine'.functionExpression := by
  refine .get fun s t h => ?_
  rw [hrel.current h]
  refine (hrel.mirrors_expect .lparen).bind fun _ => hrel.mirrors_parameters.bind fun names => ?_
  exact (hrel.mirrors_expect .lbrace).bind fun _ => (hE.block hrel).bind fun _ => .pure _

lemma arguments : MonkeyFront.Mirrors rel excused engine.arguments engine'.arguments := by
  refine .get fun s t h => ?_
  rw [hrel.peek h]
  refine .ite (hrel.mirrors_advance.bind fun _ => .pure _) ?_
  refine hE.nextToken.bind fun _ => (hE.expression .lowest).bind fun first => ?_
  refine .get fun s' t' h' => ?_
  rw [hrel.tokensLeft h']
  refine .bind (.collectWhile (fun s t h => by rw [hrel.peek h]) ?_ _) fun others => ?_
  · exact hE.nextToken.bind fun _ => hE.nextToken.bind fun _ => hE.expression .lowest
  · exact (hrel.mirrors_expect .rparen).bind fun _ => .pure _

lemma binaryExpression (left : Expr Token) :
    MonkeyFront.Mirrors rel excused (engine.binaryExpression left)
      (engine'.binaryExpression left) := by
  refine .get fun s t h => ?_
  rw [hrel.current h, (hrel.rules h).1, (hrel.rules h).2]
  exact hE.nextToken.bind fun _ => (hE.expression _).bind fun _ => .pure _

lemma callExpression (left : Expr Token) :
    MonkeyFront.Mirrors rel excused (engine.callExpression left) (engine'.callExpression left) := by
  refine .get fun s t h => ?_
  rw [hrel.current h]
  exact (hE.arguments hrel).bind fun _ => .pure _

end Mirrors

section Layer

variable {rel : State → State → Prop} {excused : Failure → Prop} {engines engines' : Site → Engine}
variable (hE : ∀ site, (engines site).Mirrors rel excused (engines' site)) (hrel : IsLockstep rel)

include hE hrel

lemma mirrors_applyPrefixFn {kind : Kind} {rule : PrefixFn}
    (h : Rules.standard.prefixFn kind = some rule) :
    MonkeyFront.Mirrors rel excused (applyPrefixFn engines rule) (applyPrefixFn engines' rule) := by
  cases rule with
  | name | integer | boolean =>
    refine .get fun s t h => ?_
    rw [hrel.current h]
    exact .pure _
  | unary => exact (hE .operand).unaryExpression hrel
  | grouped => exact (hE .operand).groupedExpression hrel
  | conditional => exact (hE .operand).conditionalExpression hrel (hE .body)
  | function => exact (hE .body).functionExpression hrel
  | script => exact (Rules.fits_prefixFn h).elim

lemma mirrors_extend (left : Expr Token) :
    MonkeyFront.Mirrors rel excused (extend engines left) (extend engines' left) := by
  refine .get fun s t h => ?_
  rw [hrel.peek h, (hrel.rules h).1, (hrel.rules h).2]
  split
  · exact .pure _
  · next rule hr =>
    refine hrel.mirrors_advance.bind fun _ => ?_
    cases rule with
    | binary => exact (hE .operand).binaryExpression hrel left
    | call => exact (hE .argument).callExpression hrel left
    | script => exact (Rules.fits_infixFn hr).elim

lemma mirrors_repeatWhile_extend (p : Precedence) (n : Nat) (left : Expr Token) :
    MonkeyFront.Mirrors rel excused
      (repeatWhile (fun s _ => p < s.peekPrecedence && (s.rules.infixFn s.peek.kind).isSome)
        (extend engines) n left)
      (repeatWhile (fun s _ => p < s.peekPrecedence && (s.rules.infixFn s.peek.kind).isSome)
        (extend engines') n left) := by
  refine .repeatWhile (fun s t h => ?_) (mirrors_extend hE hrel) n left
  simp only [State.peekPrecedence, hrel.peek h, (hrel.rules h).1, (hrel.rules h).2]

lemma mirrors_layer (p : Precedence) :
    MonkeyFront.Mirrors rel excused (layer engines p) (layer engines' p) := by
  refine .get fun s t h => ?_
  rw [hrel.current h, (hrel.rules h).1, (hrel.rules h).2]
  split
  · exact hrel.mirrors_reject _ _
  · next rule hr =>
    refine (mirrors_applyPrefixFn hE hrel hr).bind fun left => .get fun s' t' h' => ?_
    rw [hrel.tokensLeft h']
    exact mirrors_repeatWhile_extend hE hrel p _ left

end Layer

lemma Bounded.mirrors {rel : State → State → Prop} {excused : Failure → Prop} {engine : Engine}
    (h : engine.Bounded) (hrel : IsLockstep rel) : engine.Mirrors rel excused engine := by
  induction h with
  | empty reach => exact ⟨hrel.mirrors_advanceWithin reach, fun _ => .throw .tooDeep⟩
  | layer reach _ ih => exact ⟨hrel.mirrors_advanceWithin reach, mirrors_layer ih hrel⟩

end Engine

/-! ### Statements that fail -/

/-- The state with another setting for statements that fail. -/
def State.withRecover (s : State) (b : Bool) : State := { s with recover := b }

lemma State.overrun?_withRecover (s : State) (b : Bool) (reach : Reach) :
    (s.withRecover b).overrun? reach = (s.overrun? reach).map (·.withRecover b) := by
  cases reach with
  | stored | entered => rfl
  | storedUnlessNumber =>
    simp only [overrun?, withRecover]
    cases (pull s.last s.upcoming).token with
    | ok token => by_cases hint : token.kind = .int <;> simp [hint, overrun]
    | error e => rfl
  | read =>
    simp only [overrun?, withRecover]
    rcases s.upcoming with - | ⟨e | token, rest⟩ <;> rfl

/-- By the standard rules, whether statements that fail are skipped does not matter to the
operation. -/
def Impartial (p : Parse α) : Prop :=
  ∀ (s : State) (b : Bool), s.rules = .standard →
    Ends p s
      (fun a s' => s'.rules = .standard ∧ p (s.withRecover b) = .ok a (s'.withRecover b))
      (fun f s' => s'.rules = .standard ∧ p (s.withRecover b) = .error f (s'.withRecover b))

/-- The state `t` is `s` with the setting `b` for statements that fail. -/
def IsWithRecover (b : Bool) (s t : State) : Prop := s.rules = .standard ∧ t = s.withRecover b

lemma isLockstep_isWithRecover (b : Bool) : IsLockstep (IsWithRecover b) where
  rules := by
    rintro s t ⟨h, rfl⟩
    exact ⟨h, h⟩
  current := by
    rintro s t ⟨h, rfl⟩
    rfl
  peek := by
    rintro s t ⟨h, rfl⟩
    rfl
  tokensLeft := by
    rintro s t ⟨h, rfl⟩
    rfl
  depth := by
    rintro s t ⟨h, rfl⟩
    rfl
  advanceWithin := by
    rintro reach s t ⟨h, rfl⟩
    simp only [MirrorsFrom, Ends, advanceWithin, s.overrun?_withRecover b]
    cases hs : s.overrun? reach with
    | some s' => exact .inr ⟨_, rfl, (State.overruns_of_overrun? hs).rules_eq.trans h, rfl⟩
    | none =>
      simp only [Option.map_none, advance, State.withRecover]
      cases (pull s.last s.upcoming).token with
      | ok token => exact ⟨_, rfl, h, rfl⟩
      | error e => exact .inr ⟨_, rfl, h, rfl⟩
  report := by
    rintro s t complaint token ⟨h, rfl⟩
    exact ⟨h, rfl⟩
  count := by
    rintro s t n ⟨h, rfl⟩
    exact ⟨h, rfl⟩

lemma impartial_of_mirrors {p : Parse α}
    (h : ∀ b, Mirrors (IsWithRecover b) (fun _ => False) p p) : Impartial p := by
  intro s b hs
  apply (h b s (s.withRecover b) ⟨hs, rfl⟩).mono
  · rintro a s' ⟨t', hrun, hs', rfl⟩
    exact ⟨hs', hrun⟩
  · rintro f s' (hf | ⟨t', hrun, hs', rfl⟩)
    · exact hf.elim
    · exact ⟨hs', hrun⟩

namespace Impartial

lemma advance : Impartial advance :=
  impartial_of_mirrors fun b => (isLockstep_isWithRecover b).mirrors_advance

lemma expect (kind : Kind) : Impartial (expect kind) :=
  impartial_of_mirrors fun b => (isLockstep_isWithRecover b).mirrors_expect kind

lemma synchronize : Impartial synchronize :=
  impartial_of_mirrors fun b => (isLockstep_isWithRecover b).mirrors_synchronize

end Impartial

namespace Engine

variable (bound : Bound)

/-- Reading expressions does not depend on whether statements that fail are skipped. -/
lemma impartial_ofBound (p : Precedence) : Impartial ((ofBound bound).expression p) :=
  impartial_of_mirrors fun b =>
    ((bounded_ofBound bound).mirrors (isLockstep_isWithRecover b)).expression p

lemma impartial_statement : Impartial (ofBound bound).statement :=
  impartial_of_mirrors fun b =>
    have hrel := isLockstep_isWithRecover b
    ((bounded_ofBound bound).mirrors hrel).statement hrel

theorem impartial_outerStatement : Impartial (ofBound bound).outerStatement := by
  apply impartial_of_mirrors
  intro b
  have hrel := isLockstep_isWithRecover b
  refine .tryCatch (fun _ h => h) (((bounded_ofBound bound).mirrors hrel).statement hrel)
    fun e => ?_
  cases e with
  | tooDeep =>
    refine .get fun s t h => ?_
    rw [hrel.current h]
    exact hrel.mirrors_reject _ _
  | scan e => exact .throw _
  | rejected d => exact .throw _

end Engine

end MonkeyFront
