import Mathlib.Data.List.ReduceOption
import MonkeyFront.Parsing.Engine
import MonkeyFront.Proofs.Ends
import MonkeyFront.Proofs.Spelling

/-!
# Parsers in front of like tokens

Two parsers look at their tokens through two views. As long as the views agree on the tokens that
the parsers look at, the parsers do the same: by the standard rules no operation asks for more than
the kinds of these tokens, and trees and complaints that agree come of it.
-/

namespace MonkeyFront

variable {α β γ δ τ : Type}

/-! ### Two runs -/

/-- How two operations end together: both yield a value, or both fail. -/
def Together (p q : Parse α) (s t : State) (post : α → α → State → State → Prop)
    (fail : Failure → Failure → State → State → Prop) : Prop :=
  match p s, q t with
  | .ok a s', .ok b t' => post a b s' t'
  | .error e s', .error f t' => fail e f s' t'
  | _, _ => False

section Rules

variable {p q : Parse α} {s t : State} {post : α → α → State → State → Prop}
  {fail : Failure → Failure → State → State → Prop}

lemma Together.mono {post' : α → α → State → State → Prop}
    {fail' : Failure → Failure → State → State → Prop} (h : Together p q s t post fail)
    (hpost : ∀ a b s' t', post a b s' t' → post' a b s' t')
    (hfail : ∀ e f s' t', fail e f s' t' → fail' e f s' t') :
    Together p q s t post' fail' := by
  unfold Together at h ⊢
  cases hp : p s <;> cases hq : q t <;> simp only [hp, hq] at h ⊢
  · exact hpost _ _ _ _ h
  · exact hfail _ _ _ _ h

/-- What holds of two operations that end together is shown for values and for failures. -/
lemma Together.elim {motive : Prop} (h : Together p q s t post fail)
    (yields : ∀ a b s' t', p s = .ok a s' → q t = .ok b t' → post a b s' t' → motive)
    (fails : ∀ e f s' t', p s = .error e s' → q t = .error f t' → fail e f s' t' → motive) :
    motive := by
  unfold Together at h
  cases hp : p s <;> cases hq : q t <;> simp only [hp, hq] at h
  · exact yields _ _ _ _ hp hq h
  · exact fails _ _ _ _ hp hq h

lemma together_bind {p q : Parse β} {f g : β → Parse α}
    (h : Together p q s t (fun b c s' t' => Together (f b) (g c) s' t' post fail) fail) :
    Together (p >>= f) (q >>= g) s t post fail := by
  unfold Together at h
  unfold Together
  simp only [bind, EStateM.bind]
  cases hp : p s <;> cases hq : q t <;> simp only [hp, hq] at h ⊢ <;> exact h

lemma together_tryCatch {f g : Failure → Parse α}
    (h : Together p q s t post (fun d e s' t' => Together (f d) (g e) s' t' post fail)) :
    Together (tryCatch p f) (tryCatch q g) s t post fail := by
  unfold Together at h
  unfold Together
  simp only [tryCatch, tryCatchThe, MonadExceptOf.tryCatch, EStateM.tryCatch]
  cases hp : p s <;> cases hq : q t <;> simp only [hp, hq] at h ⊢ <;> exact h

lemma together_get {f g : State → Parse α} (h : Together (f s) (g t) s t post fail) :
    Together (get >>= f) (get >>= g) s t post fail := h

end Rules

/-! ### Likenesses -/

inductive Failure.Like : Failure → Failure → Prop
  | rejected {d e : Diagnostic} : d.complaint = e.complaint → Like (.rejected d) (.rejected e)
  | tooDeep : Like .tooDeep .tooDeep

/-- A relation of states of parsers that look at like tokens and whose texts scan to their end. It
is kept where both move on or run out of frames, count blocks, or report the same complaint at the
same place. -/
structure IsSimulation (u v : Token → τ) (R : State → State → Prop) : Prop where
  kind : ∀ {x y}, u x = v y → x.kind = y.kind
  rules : ∀ {s t}, R s t → s.rules = .standard ∧ t.rules = .standard
  current : ∀ {s t}, R s t → u s.current = v t.current
  peek : ∀ {s t}, R s t → u s.peek = v t.peek
  depth : ∀ {s t}, R s t → s.depth = t.depth
  recover : ∀ {s t}, R s t → s.recover = t.recover
  tokensLeft : ∀ {s t}, R s t → s.tokensLeft = t.tokensLeft
  setDepth : ∀ {s t} (n : Int), R s t → R { s with depth := n } { t with depth := n }
  reportCurrent : ∀ {s t} (c : Complaint), c.isStructural = true → R s t →
    R (s.report c s.current) (t.report c t.current)
  reportPeek : ∀ {s t} (c : Complaint), c.isStructural = true → R s t →
    R (s.report c s.peek) (t.report c t.peek)
  advance : ∀ {s t}, R s t → ∃ s' t', MonkeyFront.advance s = .ok () s' ∧
    MonkeyFront.advance t = .ok () t' ∧ R s' t'
  overrun : ∀ {s t} (reach : Reach), R s t → Option.Rel R (s.overrun? reach) (t.overrun? reach)

variable {u v : Token → τ} {R : State → State → Prop}

/-- From related states the two operations come to the same end: values that look alike, or failures
for the same reason, and states that are related again. -/
def LikeFrom (R : State → State → Prop) (g h : α → γ) (p q : Parse α) (s t : State) : Prop :=
  Together p q s t (fun a b s' t' => g a = h b ∧ R s' t') (fun e f s' t' => e.Like f ∧ R s' t')

/-- From all related states the two operations come to the same end. -/
def Alike (R : State → State → Prop) (g h : α → γ) (p q : Parse α) : Prop :=
  ∀ s t, R s t → LikeFrom R g h p q s t

namespace Alike

variable {g h : α → γ} {k l : β → δ}

lemma pure {a b : α} (hab : g a = h b) : Alike R g h (pure a) (pure b) :=
  fun _ _ hR => ⟨hab, hR⟩

lemma bind {p q : Parse β} {f f' : β → Parse α} (hp : Alike R k l p q)
    (hf : ∀ b c, k b = l c → Alike R g h (f b) (f' c)) : Alike R g h (p >>= f) (q >>= f') := by
  intro s t hR
  apply together_bind
  apply (hp s t hR).mono
  · rintro b c s' t' ⟨hbc, hR'⟩
    exact hf b c hbc s' t' hR'
  · intro e f s' t' h
    exact h

/-- Operations that depend on the states that they find come to the same end from these. -/
lemma look {f f' : State → Parse α} (hf : ∀ s t, R s t → LikeFrom R g h (f s) (f' t) s t) :
    Alike R g h (get >>= f) (get >>= f') :=
  fun s t hR => together_get (hf s t hR)

lemma get {f f' : State → Parse α} (hf : ∀ s t, R s t → Alike R g h (f s) (f' t)) :
    Alike R g h (get >>= f) (get >>= f') :=
  look fun s t hR => hf s t hR s t hR

lemma ite {c c' : Prop} [Decidable c] [Decidable c'] {p p' q q' : Parse α} (hc : c ↔ c')
    (hp : Alike R g h p p') (hq : Alike R g h q q') :
    Alike R g h (if c then p else q) (if c' then p' else q') := by
  by_cases hd : c
  · rw [if_pos hd, if_pos (hc.1 hd)]
    exact hp
  · rw [if_neg hd, if_neg fun hd' => hd (hc.2 hd')]
    exact hq

lemma throw {e f : Failure} (hef : e.Like f) : Alike R g h (throw e) (throw f) :=
  fun _ _ hR => ⟨hef, hR⟩

lemma tryCatch {p q : Parse α} {f f' : Failure → Parse α} (hp : Alike R g h p q)
    (hf : ∀ d e, d.Like e → Alike R g h (f d) (f' e)) :
    Alike R g h (tryCatch p f) (tryCatch q f') := by
  intro s t hR
  apply together_tryCatch
  apply (hp s t hR).mono
  · intro a b s' t' h
    exact h
  · rintro d e s' t' ⟨hde, hR'⟩
    exact hf d e hde s' t' hR'

lemma repeatWhile {test : State → α → Bool} {step step' : α → Parse α}
    (htest : ∀ s t a b, R s t → g a = h b → test s a = test t b)
    (hstep : ∀ a b, g a = h b → Alike R g h (step a) (step' b)) (n : Nat) {a b : α}
    (hab : g a = h b) : Alike R g h (repeatWhile test step n a) (repeatWhile test step' n b) := by
  induction n generalizing a b with
  | zero => exact pure hab
  | succ n ih =>
    refine get fun s t hR => ite (by rw [htest s t a b hR hab]) ?_ (pure hab)
    exact (hstep a b hab).bind fun a' b' hab' => ih hab'

lemma collectWhile {test : State → Bool} {step step' : Parse α}
    (htest : ∀ s t, R s t → test s = test t) (hstep : Alike R g h step step') (n : Nat) :
    Alike R (List.map g) (List.map h) (collectWhile test step n) (collectWhile test step' n) := by
  induction n with
  | zero => exact pure rfl
  | succ n ih =>
    refine get fun s t hR => ite (by rw [htest s t hR]) ?_ (pure rfl)
    refine hstep.bind fun a b hab => ih.bind fun as bs has => pure ?_
    rw [List.map_cons, List.map_cons, hab, has]

end Alike

/-! ### Operations -/

abbrev unseen (_ : α) : Unit := ()

namespace IsSimulation

variable (hR : IsSimulation u v R)

include hR

lemma kind_current {s t : State} (h : R s t) : s.current.kind = t.current.kind :=
  hR.kind (hR.current h)

lemma kind_peek {s t : State} (h : R s t) : s.peek.kind = t.peek.kind := hR.kind (hR.peek h)

lemma alike_advance : Alike R unseen unseen MonkeyFront.advance MonkeyFront.advance := by
  intro s t h
  obtain ⟨s', t', hs, ht, h'⟩ := hR.advance h
  simp only [LikeFrom, Together, hs, ht]
  exact ⟨trivial, h'⟩

lemma alike_advanceWithin (reach : Reach) :
    Alike R unseen unseen (advanceWithin reach) (advanceWithin reach) := by
  intro s t h
  have hadvance := hR.alike_advance s t h
  have hoverrun := hR.overrun reach h
  simp only [LikeFrom, Together, advanceWithin] at hadvance ⊢
  generalize s.overrun? reach = left, t.overrun? reach = left' at hoverrun ⊢
  cases hoverrun with
  | none => exact hadvance
  | some h' => exact ⟨.tooDeep, h'⟩

lemma alike_setDepth (n : Int) : Alike R unseen unseen
    (modify fun s => { s with depth := n }) (modify fun s => { s with depth := n }) :=
  fun _ _ h => ⟨rfl, hR.setDepth n h⟩

lemma alike_addDepth (n : Int) : Alike R unseen unseen (addDepth n) (addDepth n) := by
  intro s t h
  have h' := hR.setDepth (s.depth + n) h
  refine ⟨rfl, ?_⟩
  dsimp only
  rwa [hR.depth h] at h' ⊢

section Rejections

variable {g h : α → γ} {s t : State} {c : Complaint} (hc : c.isStructural = true) (hst : R s t)

include hc hst

lemma rejectCurrent : LikeFrom R g h (reject c s.current) (reject c t.current) s t :=
  ⟨.rejected rfl, hR.reportCurrent c hc hst⟩

lemma rejectPeek : LikeFrom R g h (reject c s.peek) (reject c t.peek) s t :=
  ⟨.rejected rfl, hR.reportPeek c hc hst⟩

end Rejections

lemma alike_expect (kind : Kind) : Alike R u v (expect kind) (expect kind) := by
  refine .look fun s t h => ?_
  rw [hR.kind_peek h]
  split
  · refine Alike.bind hR.alike_advance (fun _ _ _ => ?_) s t h
    exact .get fun s' t' h' => .pure (hR.current h')
  · exact hR.rejectPeek rfl h

lemma alike_skipSemicolon : Alike R unseen unseen skipSemicolon skipSemicolon :=
  .get fun _ _ h => .ite (by rw [hR.kind_peek h]) hR.alike_advance (.pure rfl)

lemma alike_parameters :
    Alike R (List.map u) (List.map v) Engine.parameters Engine.parameters := by
  refine .get fun s t h => .ite (by rw [hR.kind_peek h]) ?_ ?_
  · exact .bind hR.alike_advance fun _ _ _ => .pure rfl
  refine .bind (hR.alike_expect .ident) fun x y hxy => .get fun s' t' h' => ?_
  rw [hR.tokensLeft h']
  refine .bind (.collectWhile (g := u) (h := v) (fun _ _ h => ?_) ?_ _) fun xs ys hxs => ?_
  · rw [hR.kind_peek h]
  · exact .bind hR.alike_advance fun _ _ _ => hR.alike_expect .ident
  · refine .bind (hR.alike_expect .rparen) fun _ _ _ => .pure ?_
    rw [List.map_cons, List.map_cons, hxy, hxs]

lemma alike_synchronize : Alike R unseen unseen synchronize synchronize := by
  refine .get fun s t h => .bind (hR.alike_setDepth 0) fun _ _ _ => ?_
  refine .ite (by rw [hR.depth h]) ?_ ?_
  · refine .get fun s' t' h' => ?_
    rw [hR.tokensLeft h']
    refine .repeatWhile (fun _ _ _ _ h _ => ?_) (fun _ _ _ => hR.alike_advance) _ rfl
    rw [hR.kind_current h]
  · refine .get fun s' t' h' => ?_
    rw [hR.tokensLeft h', hR.depth h]
    refine .bind (.repeatWhile (g := id) (h := id) ?_ ?_ _ rfl) fun _ _ _ => ?_
    · intro s t n m h hnm
      rw [hR.kind_current h, show n = m from hnm]
    · intro n m hnm
      refine .get fun s t h => .bind hR.alike_advance fun _ _ _ => .pure ?_
      rw [hR.kind_current h, show n = m from hnm]
    · exact .get fun _ _ h => .ite (by rw [hR.kind_current h]) hR.alike_skipSemicolon (.pure rfl)

end IsSimulation

/-! ### Forms -/

lemma Expr.mapAll_eq_map (f : Token → τ) (es : List (Expr Token)) :
    Expr.mapAll f es = es.map (Expr.map f) := by
  induction es with
  | nil => rfl
  | cons e es ih => rw [Expr.mapAll, List.map_cons, ih]

lemma Stmt.mapAll_eq_map (f : Token → τ) (ss : List (Stmt Token)) :
    Stmt.mapAll f ss = ss.map (Stmt.map f) := by
  induction ss with
  | nil => rfl
  | cons s ss ih => rw [Stmt.mapAll, List.map_cons, ih]

namespace Engine

/-- Reading expressions from related states comes to the same end. -/
structure Alike (engine : Engine) (u v : Token → τ) (R : State → State → Prop) : Prop where
  nextToken : MonkeyFront.Alike R unseen unseen engine.nextToken engine.nextToken
  expression : ∀ p, MonkeyFront.Alike R (Expr.map u) (Expr.map v) (engine.expression p)
    (engine.expression p)

namespace Alike

variable {engine : Engine} (hE : engine.Alike u v R) (hR : IsSimulation u v R)

include hE hR

lemma bindingStatement : MonkeyFront.Alike R (Stmt.map u) (Stmt.map v)
    engine.bindingStatement engine.bindingStatement := by
  refine .bind (hR.alike_expect .ident) fun x y hxy => ?_
  refine .bind (hR.alike_expect .assign) fun _ _ _ => ?_
  refine .bind hE.nextToken fun _ _ _ => .bind (hE.expression .lowest) fun a b hab => ?_
  refine .bind hR.alike_skipSemicolon fun _ _ _ => .pure ?_
  rw [Stmt.map, Stmt.map, hxy, hab]

lemma resultStatement : MonkeyFront.Alike R (Stmt.map u) (Stmt.map v)
    engine.resultStatement engine.resultStatement := by
  refine .bind hE.nextToken fun _ _ _ => .bind (hE.expression .lowest) fun a b hab => ?_
  refine .bind hR.alike_skipSemicolon fun _ _ _ => .pure ?_
  rw [Stmt.map, Stmt.map, hab]

lemma expressionStatement : MonkeyFront.Alike R (Stmt.map u) (Stmt.map v)
    engine.expressionStatement engine.expressionStatement := by
  refine .get fun s t h => .bind (hE.expression .lowest) fun a b hab => ?_
  refine .bind hR.alike_skipSemicolon fun _ _ _ => .pure ?_
  rw [Stmt.map, Stmt.map, hR.current h, hab]

lemma statement : MonkeyFront.Alike R (Stmt.map u) (Stmt.map v)
    engine.statement engine.statement := by
  refine .get fun s t h => ?_
  rw [hR.kind_current h]
  split
  · exact hE.bindingStatement hR
  · exact hE.resultStatement hR
  · exact hE.expressionStatement hR

lemma block : MonkeyFront.Alike R (Block.map u) (Block.map v) engine.block engine.block := by
  refine .get fun s t h => .bind (hR.alike_addDepth 1) fun _ _ _ => ?_
  refine .bind hR.alike_advance fun _ _ _ => .get fun s' t' h' => ?_
  rw [hR.tokensLeft h']
  refine .bind (.collectWhile (g := Stmt.map u) (h := Stmt.map v) (fun _ _ h => ?_) ?_ _)
    fun ss ss' hss => .look fun s' t' h' => ?_
  · rw [hR.kind_current h]
  · refine .bind (hE.statement hR) fun a b hab => ?_
    exact .bind hR.alike_advance fun _ _ _ => .pure hab
  · rw [hR.kind_current h']
    split
    · exact hR.rejectCurrent rfl h'
    · refine MonkeyFront.Alike.bind (hR.alike_addDepth (-1)) (fun _ _ _ => .pure ?_) s' t' h'
      rw [Block.map, Block.map, hR.current h, Stmt.mapAll_eq_map, Stmt.mapAll_eq_map, hss]

lemma unaryExpression : MonkeyFront.Alike R (Expr.map u) (Expr.map v)
    engine.unaryExpression engine.unaryExpression := by
  refine .get fun s t h => .bind hE.nextToken fun _ _ _ => ?_
  refine .bind (hE.expression .unary) fun a b hab => .pure ?_
  rw [Expr.map, Expr.map, hR.current h, hab]

lemma groupedExpression : MonkeyFront.Alike R (Expr.map u) (Expr.map v)
    engine.groupedExpression engine.groupedExpression := by
  refine .bind hE.nextToken fun _ _ _ => .bind (hE.expression .lowest) fun a b hab => ?_
  exact .bind (hR.alike_expect .rparen) fun _ _ _ => .pure hab

lemma conditionalExpression {inBody : Engine} (hB : inBody.Alike u v R) :
    MonkeyFront.Alike R (Expr.map u) (Expr.map v) (engine.conditionalExpression inBody)
      (engine.conditionalExpression inBody) := by
  refine .get fun s t h => .bind (hR.alike_expect .lparen) fun _ _ _ => ?_
  refine .bind hE.nextToken fun _ _ _ => .bind (hE.expression .lowest) fun c c' hc => ?_
  refine .bind (hR.alike_expect .rparen) fun _ _ _ => ?_
  refine .bind (hR.alike_expect .lbrace) fun _ _ _ => .bind (hB.block hR) fun b b' hb => ?_
  refine .get fun s' t' h' => .ite (by rw [hR.kind_peek h']) ?_ (.pure ?_)
  · refine .bind hR.alike_advance fun _ _ _ => .bind (hR.alike_expect .lbrace) fun _ _ _ => ?_
    refine .bind (hB.block hR) fun d d' hd => .pure ?_
    rw [Expr.map, Expr.map, hR.current h, hc, hb, hd]
  · rw [Expr.map, Expr.map, hR.current h, hc, hb]

lemma functionExpression : MonkeyFront.Alike R (Expr.map u) (Expr.map v)
    engine.functionExpression engine.functionExpression := by
  refine .get fun s t h => .bind (hR.alike_expect .lparen) fun _ _ _ => ?_
  refine .bind hR.alike_parameters fun xs ys hxs => .bind (hR.alike_expect .lbrace) fun _ _ _ => ?_
  refine .bind (hE.block hR) fun b b' hb => .pure ?_
  rw [Expr.map, Expr.map, hR.current h, hxs, hb]

lemma arguments : MonkeyFront.Alike R (Expr.mapAll u) (Expr.mapAll v)
    engine.arguments engine.arguments := by
  refine .get fun s t h => .ite (by rw [hR.kind_peek h]) ?_ ?_
  · exact .bind hR.alike_advance fun _ _ _ => .pure rfl
  refine .bind hE.nextToken fun _ _ _ => .bind (hE.expression .lowest) fun a b hab => ?_
  refine .get fun s' t' h' => ?_
  rw [hR.tokensLeft h']
  refine .bind (.collectWhile (g := Expr.map u) (h := Expr.map v) (fun _ _ h => ?_) ?_ _)
    fun es es' hes => ?_
  · rw [hR.kind_peek h]
  · exact .bind hE.nextToken fun _ _ _ => .bind hE.nextToken fun _ _ _ => hE.expression .lowest
  · refine .bind (hR.alike_expect .rparen) fun _ _ _ => .pure ?_
    rw [Expr.mapAll_eq_map, Expr.mapAll_eq_map, List.map_cons, List.map_cons, hab, hes]

lemma binaryExpression {a b : Expr Token} (hab : a.map u = b.map v) :
    MonkeyFront.Alike R (Expr.map u) (Expr.map v)
      (engine.binaryExpression a) (engine.binaryExpression b) := by
  refine .get fun s t h => .bind hE.nextToken fun _ _ _ => ?_
  rw [(hR.rules h).1, (hR.rules h).2, hR.kind_current h]
  refine .bind (hE.expression _) fun c d hcd => .pure ?_
  rw [Expr.map, Expr.map, hR.current h, hab, hcd]

lemma callExpression {a b : Expr Token} (hab : a.map u = b.map v) :
    MonkeyFront.Alike R (Expr.map u) (Expr.map v)
      (engine.callExpression a) (engine.callExpression b) := by
  refine .get fun s t h => .bind (hE.arguments hR) fun es es' hes => .pure ?_
  rw [Expr.map, Expr.map, hR.current h, hab, hes]

lemma outerStatement : MonkeyFront.Alike R (Stmt.map u) (Stmt.map v)
    engine.outerStatement engine.outerStatement := by
  refine .tryCatch (hE.statement hR) fun e f hef => ?_
  cases hef with
  | rejected hd => exact .throw (.rejected hd)
  | tooDeep => exact .look fun s t h => hR.rejectCurrent rfl h

lemma recoveringStatement : MonkeyFront.Alike R (Option.map (Stmt.map u)) (Option.map (Stmt.map v))
    engine.recoveringStatement engine.recoveringStatement := by
  intro s t h
  unfold Engine.recoveringStatement
  apply together_bind
  apply together_tryCatch
  apply together_bind
  apply (hE.outerStatement hR s t h).mono
  · rintro a b s' t' ⟨hab, h'⟩
    exact ⟨congrArg some hab, h'⟩
  · rintro e f s' t' ⟨hef, h'⟩
    cases hef with
    | tooDeep => exact ⟨.tooDeep, h'⟩
    | rejected hd =>
      apply together_get
      rw [hR.recover h']
      split
      · apply together_bind
        apply (hR.alike_synchronize s' t' h').mono
        · rintro _ _ s'' t'' ⟨-, h''⟩
          exact ⟨rfl, h''⟩
        · intro e f s'' t'' hef
          exact hef
      · exact ⟨.rejected hd, h'⟩

theorem program : MonkeyFront.Alike R (Stmt.mapAll u) (Stmt.mapAll v)
    engine.program engine.program := by
  refine .get fun s t h => ?_
  rw [hR.tokensLeft h]
  refine .bind (.collectWhile (g := Option.map (Stmt.map u)) (h := Option.map (Stmt.map v))
    (fun _ _ h => ?_) ?_ _) fun rs rs' hrs => .pure ?_
  · rw [hR.kind_current h]
  · refine .bind (hE.recoveringStatement hR) fun a b hab => ?_
    exact .bind hR.alike_advance fun _ _ _ => .pure hab
  · have hfilter := congrArg List.reduceOption hrs
    rwa [List.reduceOption_map, List.reduceOption_map, ← Stmt.mapAll_eq_map,
      ← Stmt.mapAll_eq_map] at hfilter

end Alike

section Layer

variable {engines : Site → Engine} (hE : ∀ site, (engines site).Alike u v R)
  (hR : IsSimulation u v R)

include hE hR

lemma alike_applyPrefixFn {kind : Kind} {rule : PrefixFn}
    (h : Rules.standard.prefixFn kind = some rule) :
    MonkeyFront.Alike R (Expr.map u) (Expr.map v)
      (applyPrefixFn engines rule) (applyPrefixFn engines rule) := by
  cases rule with
  | name | integer | boolean =>
    refine .get fun s t h => .pure ?_
    rw [Expr.map, Expr.map, hR.current h]
  | unary => exact (hE _).unaryExpression hR
  | grouped => exact (hE _).groupedExpression hR
  | conditional => exact (hE _).conditionalExpression hR (hE _)
  | function => exact (hE _).functionExpression hR
  | script => exact (Rules.fits_prefixFn h).elim

lemma alike_extend {a b : Expr Token} (hab : a.map u = b.map v) :
    MonkeyFront.Alike R (Expr.map u) (Expr.map v) (extend engines a) (extend engines b) := by
  refine .get fun s t h => ?_
  rw [(hR.rules h).1, (hR.rules h).2, hR.kind_peek h]
  split
  · exact .pure hab
  · next rule hr =>
    refine .bind hR.alike_advance fun _ _ _ => ?_
    cases rule with
    | binary => exact (hE _).binaryExpression hR hab
    | call => exact (hE _).callExpression hR hab
    | script => exact (Rules.fits_infixFn hr).elim

lemma alike_layer (p : Precedence) : MonkeyFront.Alike R (Expr.map u) (Expr.map v)
    (layer engines p) (layer engines p) := by
  refine .look fun s t h => ?_
  rw [(hR.rules h).1, (hR.rules h).2, hR.kind_current h]
  split
  · exact hR.rejectCurrent rfl h
  · next rule hr =>
    refine MonkeyFront.Alike.bind (alike_applyPrefixFn hE hR hr) (fun a b hab => ?_) s t h
    refine .get fun s' t' h' => ?_
    rw [hR.tokensLeft h']
    refine .repeatWhile (fun s t _ _ h _ => ?_) (fun a b hab => alike_extend hE hR hab) _ hab
    rw [State.peekPrecedence, State.peekPrecedence, (hR.rules h).1, (hR.rules h).2, hR.kind_peek h]

end Layer

theorem alike_ofBound (hR : IsSimulation u v R) (bound : Bound) : (ofBound bound).Alike u v R := by
  have all {engine : Engine} (h : engine.Bounded) : engine.Alike u v R := by
    induction h with
    | empty reach => exact ⟨hR.alike_advanceWithin reach, fun _ _ _ h => ⟨.tooDeep, h⟩⟩
    | layer reach _ ih => exact ⟨hR.alike_advanceWithin reach, alike_layer ih hR⟩
  exact all (bounded_ofBound bound)

end Engine

end MonkeyFront
