import MonkeyFront.Proofs.Overruns

/-!
# The steps of a parser

Whatever an operation of a parser does, by whatever rules, it does by steps of five kinds: it moves
on by a token, reports a complaint, sets the number of open blocks, changes the rules, or gives up a
statement when the stack runs out (`Engine.takesSteps_ofBound`, `Engine.TakesSteps.program`).
-/

namespace MonkeyFront

variable {α β : Type}

namespace State

/-- What a parser complains about, and at which of the two tokens that it looks at. -/
inductive Blames (s : State) : Complaint → Token → Prop
  | unexpected (kind : Kind) : Blames s (.unexpectedToken kind s.peek.kind) s.peek
  | unclosed : s.current.kind = .eof → Blames s (.unexpectedToken .rbrace .eof) s.current
  | noExpression : Blames s (.noExpression s.current.kind) s.current
  | nestedTooDeeply : Blames s .nestedTooDeeply s.current

/-- The state `s'` is reached from `s` by steps of a parser. -/
inductive Reaches (s : State) : State → Prop
  | refl : Reaches s s
  | advance {s₁ s₂} : Reaches s s₁ → MonkeyFront.advance s₁ = .ok () s₂ → Reaches s s₂
  | report {s₁ complaint t} : Reaches s s₁ → s₁.Blames complaint t →
      Reaches s (s₁.report complaint t)
  | overrun {s₁ s₂} : Reaches s s₁ → s₁.Overruns s₂ →
      Reaches s (s₂.report .nestedTooDeeply s₂.current)
  | count {s₁} (n : Int) : Reaches s s₁ → Reaches s { s₁ with depth := n }
  | rule {s₁} (rules : Rules) : Reaches s s₁ → Reaches s { s₁ with rules := rules }

lemma Reaches.trans {s₁ s₂ s₃ : State} (h₁ : s₁.Reaches s₂) (h₂ : s₂.Reaches s₃) :
    s₁.Reaches s₃ := by
  induction h₂ with
  | refl => exact h₁
  | advance _ ha ih => exact ih.advance ha
  | report _ hb ih => exact ih.report hb
  | overrun _ ho ih => exact ih.overrun ho
  | count n _ ih => exact ih.count n
  | rule rules _ ih => exact ih.rule rules

lemma prefix_report (s : State) (c : Complaint) (t : Token) :
    s.diagnostics <+: (s.report c t).diagnostics := by
  rw [report, List.append_assoc]
  exact List.prefix_append _ _

lemma ends_advance_recorded (s : State) : Ends MonkeyFront.advance s
    (fun _ s' => s'.diagnostics = s.diagnostics ++ s.skipped.map .ofIllegal)
    (fun _ s' => s'.diagnostics = s.diagnostics ++ s.skipped.map .ofIllegal) := by
  simp only [Ends, MonkeyFront.advance]
  cases (pull s.last s.upcoming).token with
  | ok t => rfl
  | error e => rfl

lemma prefix_of_advance {s s' : State} (h : MonkeyFront.advance s = .ok () s') :
    s.diagnostics <+: s'.diagnostics := by
  rw [s.ends_advance_recorded.of_ok h]
  exact List.prefix_append _ _

lemma Reaches.prefix_diagnostics {s s' : State} (h : s.Reaches s') :
    s.diagnostics <+: s'.diagnostics := by
  induction h with
  | refl => exact List.prefix_rfl
  | advance _ hrun ih => exact ih.trans (prefix_of_advance hrun)
  | report _ _ ih => exact ih.trans (prefix_report _ _ _)
  | overrun _ ho ih =>
    exact (ih.trans ho.prefix_diagnostics).trans (prefix_report _ _ _)
  | count _ _ ih => exact ih
  | rule _ _ ih => exact ih

lemma upcoming_suffix_of_advance {s s' : State} (h : MonkeyFront.advance s = .ok () s') :
    s'.upcoming <:+ s.upcoming := by
  simp only [MonkeyFront.advance] at h
  split at h
  · obtain ⟨-, rfl⟩ := EStateM.Result.ok.inj h
    exact pull_rest_suffix _ _
  · cases h

lemma Reaches.upcoming_suffix {s s' : State} (h : s.Reaches s') : s'.upcoming <:+ s.upcoming := by
  induction h with
  | refl => exact List.suffix_rfl
  | advance _ hrun ih => exact (upcoming_suffix_of_advance hrun).trans ih
  | report _ _ ih => exact ih
  | overrun _ ho ih => exact ho.upcoming_suffix.trans ih
  | count _ _ ih => exact ih
  | rule _ _ ih => exact ih

/-- Steps lead to where an operation fails; behind a scan error there are none. -/
def FailsAfter (s : State) : Failure → State → Prop
  | .scan e, s' => ∃ s₁, s.Reaches s₁ ∧ MonkeyFront.advance s₁ = .error (.scan e) s'
  | .rejected _, s' => s.Reaches s'
  | .tooDeep, s' => s.Reaches s' ∨ ∃ s₁, s.Reaches s₁ ∧ s₁.Overruns s'

lemma Reaches.failsAfter {s₁ s₂ s₃ : State} {f : Failure} (h₁ : s₁.Reaches s₂)
    (h₂ : s₂.FailsAfter f s₃) : s₁.FailsAfter f s₃ := by
  cases f with
  | scan e =>
    obtain ⟨s, hs, hrun⟩ := h₂
    exact ⟨s, h₁.trans hs, hrun⟩
  | rejected d => exact Reaches.trans h₁ h₂
  | tooDeep =>
    rcases h₂ with h₂ | ⟨s, hs, ho⟩
    · exact .inl (Reaches.trans h₁ h₂)
    · exact .inr ⟨s, h₁.trans hs, ho⟩

/-- Where an operation has failed for want of frames, the complaint about that is one more step. -/
lemma FailsAfter.report_tooDeep {s s' : State} (h : s.FailsAfter .tooDeep s') :
    s.Reaches (s'.report .nestedTooDeeply s'.current) := by
  rcases h with h | ⟨s₁, h, ho⟩
  · exact h.report .nestedTooDeeply
  · exact h.overrun ho

end State

/-- From the state `s` the operation goes by steps. -/
def StepsFrom (s : State) (p : Parse α) : Prop :=
  Ends p s (fun _ s' => s.Reaches s') s.FailsAfter

def TakesSteps (p : Parse α) : Prop := ∀ s, StepsFrom s p

lemma stepsFrom_reject {s : State} {complaint : Complaint} {t : Token}
    (h : s.Blames complaint t) : StepsFrom s (reject complaint t : Parse α) :=
  State.Reaches.refl.report h

namespace TakesSteps

lemma pure (a : α) : TakesSteps (pure a) := fun _ => .refl

lemma bind {p : Parse β} {f : β → Parse α} (hp : TakesSteps p) (hf : ∀ b, TakesSteps (f b)) :
    TakesSteps (p >>= f) := by
  intro s
  rw [StepsFrom, ends_bind]
  apply (hp s).imp
  intro b s₁ hs₁
  apply (hf b s₁).mono
  · intro a s₂ hs₂
    exact hs₁.trans hs₂
  · intro e s₂ hs₂
    exact hs₁.failsAfter hs₂

/-- An operation that depends on the state that it finds goes by steps from this state. -/
lemma look {f : State → Parse α} (hf : ∀ s, StepsFrom s (f s)) : TakesSteps (get >>= f) := by
  intro s
  rw [StepsFrom, ends_bind, ends_get]
  exact hf s

lemma get {f : State → Parse α} (hf : ∀ s, TakesSteps (f s)) : TakesSteps (get >>= f) :=
  look fun s => hf s s

lemma ite {c : Prop} [Decidable c] {p q : Parse α} (hp : TakesSteps p) (hq : TakesSteps q) :
    TakesSteps (if c then p else q) := by
  split
  · exact hp
  · exact hq

/-- A scan error is passed on; an operation that is rejected is followed by the handler. -/
lemma tryCatch {p : Parse α} {f : Failure → Parse α} (hp : TakesSteps p)
    (hscan : ∀ e, f (.scan e) = throw (.scan e)) (hrejected : ∀ d, TakesSteps (f (.rejected d)))
    (hdeep : ∀ s s' : State, s.FailsAfter .tooDeep s' →
      Ends (f .tooDeep) s' (fun _ s'' => s.Reaches s'') s.FailsAfter) :
    TakesSteps (tryCatch p f) := by
  intro s
  rw [StepsFrom, ends_tryCatch]
  apply Ends.mono (hp s)
  · intro a s₁ h
    exact h
  · intro e s₁ h
    cases e with
    | scan e =>
      rw [hscan]
      exact h
    | rejected d =>
      apply (hrejected d s₁).mono
      · exact fun _ _ hs => State.Reaches.trans h hs
      · exact fun _ _ hs => State.Reaches.failsAfter h hs
    | tooDeep => exact hdeep s s₁ h

lemma repeatWhile {test : State → α → Bool} {step : α → Parse α} (h : ∀ a, TakesSteps (step a))
    (n : Nat) (a : α) : TakesSteps (repeatWhile test step n a) := by
  induction n generalizing a with
  | zero => exact pure a
  | succ n ih => exact get fun s => ite ((h a).bind ih) (pure a)

lemma collectWhile {test : State → Bool} {step : Parse α} (h : TakesSteps step) (n : Nat) :
    TakesSteps (collectWhile test step n) := by
  induction n with
  | zero => exact pure []
  | succ n ih => exact get fun s => ite (h.bind fun _ => ih.bind fun _ => pure _) (pure [])

lemma setDepth (n : State → Int) : TakesSteps (modify fun s => { s with depth := n s }) :=
  fun s => .count (n s) .refl

lemma setRules (rules : State → Rules) : TakesSteps (modify fun s => { s with rules := rules s }) :=
  fun s => .rule (rules s) .refl

lemma advance : TakesSteps advance := by
  intro s
  have hends : Ends MonkeyFront.advance s (fun _ _ => True) (fun f _ => ∃ e, f = .scan e) := by
    simp only [Ends, MonkeyFront.advance]
    cases (pull s.last s.upcoming).token with
    | ok t => trivial
    | error e => exact ⟨e, rfl⟩
  apply (hends.and (ends_run _ s)).mono
  · rintro _ s' ⟨-, hrun⟩
    exact .advance .refl hrun
  · rintro f s' ⟨⟨e, rfl⟩, hrun⟩
    exact ⟨s, .refl, hrun⟩

lemma advanceWithin (reach : Reach) : TakesSteps (advanceWithin reach) := by
  intro s
  rcases s.advanceWithin_eq_or_overruns reach with hrun | ⟨s', hrun, h⟩
  · have hends := advance s
    unfold StepsFrom Ends at hends ⊢
    rwa [hrun]
  · unfold StepsFrom Ends
    rw [hrun]
    exact .inr ⟨s, .refl, h⟩

lemma expect (kind : Kind) : TakesSteps (expect kind) := by
  refine look fun s => ?_
  split
  · exact advance.bind (fun _ => get fun s => pure s.current) s
  · exact stepsFrom_reject (.unexpected kind)

lemma skipSemicolon : TakesSteps skipSemicolon := get fun _ => ite advance (pure _)

lemma parameters : TakesSteps Engine.parameters := by
  refine get fun s => ite (advance.bind fun _ => pure []) ?_
  refine (expect .ident).bind fun first => get fun s => ?_
  refine (collectWhile (advance.bind fun _ => expect .ident) _).bind fun others => ?_
  exact (expect .rparen).bind fun _ => pure _

lemma synchronize : TakesSteps synchronize := by
  refine get fun s => (setDepth fun _ => 0).bind fun _ => ite ?_ ?_
  · exact get fun s => repeatWhile (fun _ => advance) _ ()
  · refine get fun s' => bind (repeatWhile (fun nesting => ?_) s'.tokensLeft s.depth) fun _ => ?_
    · exact get fun s => advance.bind fun _ => pure _
    · exact get fun s => ite skipSemicolon (pure _)

end TakesSteps

namespace Engine

/-- Expressions are moved on to and read by steps. -/
structure TakesSteps (engine : Engine) : Prop where
  nextToken : MonkeyFront.TakesSteps engine.nextToken
  expression : ∀ p, MonkeyFront.TakesSteps (engine.expression p)

namespace TakesSteps

variable {engine : Engine} (hE : engine.TakesSteps)

include hE

lemma bindingStatement : MonkeyFront.TakesSteps engine.bindingStatement := by
  refine .bind (.expect .ident) fun name => .bind (.expect .assign) fun _ => ?_
  refine .bind hE.nextToken fun _ => .bind (hE.expression .lowest) fun value => ?_
  exact .bind .skipSemicolon fun _ => .pure _

lemma resultStatement : MonkeyFront.TakesSteps engine.resultStatement := by
  refine .bind hE.nextToken fun _ => .bind (hE.expression .lowest) fun _ => ?_
  exact .bind .skipSemicolon fun _ => .pure _

lemma expressionStatement : MonkeyFront.TakesSteps engine.expressionStatement :=
  .get fun _ => .bind (hE.expression .lowest) fun _ => .bind .skipSemicolon fun _ => .pure _

lemma statement : MonkeyFront.TakesSteps engine.statement := by
  refine .get fun s => ?_
  split
  · exact hE.bindingStatement
  · exact hE.resultStatement
  · exact hE.expressionStatement

lemma block : MonkeyFront.TakesSteps engine.block := by
  have hiter := hE.statement.bind fun a => .bind .advance fun _ => .pure a
  refine .get fun s => .bind (.setDepth _) fun _ => .bind .advance fun _ => .get fun s' => ?_
  refine .bind (.collectWhile hiter _) fun statements => .look fun s' => ?_
  split
  · exact stepsFrom_reject (.unclosed ‹_›)
  · exact MonkeyFront.TakesSteps.bind (.setDepth _) (fun _ => .pure _) s'

lemma unaryExpression : MonkeyFront.TakesSteps engine.unaryExpression :=
  .get fun _ => .bind hE.nextToken fun _ => .bind (hE.expression .unary) fun _ => .pure _

lemma groupedExpression : MonkeyFront.TakesSteps engine.groupedExpression := by
  refine .bind hE.nextToken fun _ => .bind (hE.expression .lowest) fun _ => ?_
  exact .bind (.expect .rparen) fun _ => .pure _

lemma conditionalExpression {inBody : Engine} (hB : inBody.TakesSteps) :
    MonkeyFront.TakesSteps (engine.conditionalExpression inBody) := by
  refine .get fun s => .bind (.expect .lparen) fun _ => .bind hE.nextToken fun _ => ?_
  refine .bind (hE.expression .lowest) fun c => .bind (.expect .rparen) fun _ => ?_
  refine .bind (.expect .lbrace) fun _ => .bind hB.block fun b => ?_
  refine .get fun s' => .ite (.bind .advance fun _ => ?_) (.pure _)
  exact .bind (.expect .lbrace) fun _ => .bind hB.block fun _ => .pure _

lemma functionExpression : MonkeyFront.TakesSteps engine.functionExpression := by
  refine .get fun s => .bind (.expect .lparen) fun _ => .bind .parameters fun names => ?_
  exact .bind (.expect .lbrace) fun _ => .bind hE.block fun _ => .pure _

lemma arguments : MonkeyFront.TakesSteps engine.arguments := by
  have hiter := hE.nextToken.bind fun _ => .bind hE.nextToken fun _ => hE.expression .lowest
  refine .get fun s => .ite (.bind .advance fun _ => .pure _) ?_
  refine .bind hE.nextToken fun _ => .bind (hE.expression .lowest) fun first => ?_
  refine .get fun s' => ?_
  exact .bind (.collectWhile hiter _) fun others => .bind (.expect .rparen) fun _ => .pure _

lemma binaryExpression (left : Expr Token) :
    MonkeyFront.TakesSteps (engine.binaryExpression left) :=
  .get fun _ => .bind hE.nextToken fun _ => .bind (hE.expression _) fun _ => .pure _

lemma callExpression (callee : Expr Token) :
    MonkeyFront.TakesSteps (engine.callExpression callee) :=
  .get fun _ => .bind hE.arguments fun _ => .pure _

lemma outerStatement : MonkeyFront.TakesSteps engine.outerStatement := by
  refine .tryCatch hE.statement (fun _ => rfl) (fun d => ?_) fun s s' h => ?_
  · exact fun s => .refl
  · rw [ends_bind, ends_get, ends_reject]
    exact h.report_tooDeep

lemma recoveringStatement : MonkeyFront.TakesSteps engine.recoveringStatement := by
  refine .bind (.tryCatch (hE.outerStatement.bind fun a => .pure _) (fun _ => rfl) (fun d => ?_)
    fun s s' h => h) fun r => ?_
  · refine .get fun s => ?_
    split
    · exact .bind .synchronize fun _ => .pure _
    · exact fun s => .refl
  · cases r <;> exact .pure _

lemma program : MonkeyFront.TakesSteps engine.program := by
  have hiter := hE.recoveringStatement.bind fun a => .bind .advance fun _ => .pure a
  exact .get fun s => .bind (.collectWhile hiter _) fun _ => .pure _

end TakesSteps

section Layer

variable {engines : Site → Engine} (hE : ∀ site, (engines site).TakesSteps)

include hE

lemma takesSteps_runScript (commands : Script) :
    MonkeyFront.TakesSteps (runScript engines commands) := by
  induction commands with
  | done value => exact .pure value
  | current rest ih => exact .get fun s => ih s.current
  | peek rest ih => exact .get fun s => ih s.peek
  | advance rest ih => exact .bind (hE .operand).nextToken fun _ => ih
  | expect kind rest ih => exact .bind (.expect kind) ih
  | statement rest ih => exact (hE .body).statement.bind ih
  | expression p rest ih => exact .bind ((hE .operand).expression p) ih
  | program rest ih => exact (hE .body).program.bind ih
  | setPrefixFn kind rule rest _ ih => exact .bind (.setRules _) fun _ => ih
  | setInfixFn kind p rule rest _ ih => exact .bind (.setRules _) fun _ => ih

lemma takesSteps_applyPrefixFn (rule : PrefixFn) :
    MonkeyFront.TakesSteps (applyPrefixFn engines rule) := by
  cases rule with
  | name | integer | boolean => exact .get fun _ => .pure _
  | unary => exact (hE .operand).unaryExpression
  | grouped => exact (hE .operand).groupedExpression
  | conditional => exact (hE .operand).conditionalExpression (hE .body)
  | function => exact (hE .body).functionExpression
  | script commands => exact takesSteps_runScript hE commands

lemma takesSteps_applyInfixFn (left : Expr Token) (rule : InfixFn) :
    MonkeyFront.TakesSteps (applyInfixFn engines left rule) := by
  cases rule with
  | binary => exact (hE .operand).binaryExpression left
  | call => exact (hE .argument).callExpression left
  | script commands => exact takesSteps_runScript hE (commands left)

lemma takesSteps_extend (left : Expr Token) :
    MonkeyFront.TakesSteps (extend engines left) := by
  refine .get fun s => ?_
  split
  · exact .pure left
  · exact .bind .advance fun _ => takesSteps_applyInfixFn hE left _

lemma takesSteps_layer (p : Precedence) : MonkeyFront.TakesSteps (layer engines p) := by
  refine .look fun s => ?_
  split
  · exact stepsFrom_reject .noExpression
  · next rule _ =>
    refine (takesSteps_applyPrefixFn hE rule).bind (fun left => .get fun s => ?_) s
    exact .repeatWhile (takesSteps_extend hE) _ left

end Layer

lemma Bounded.takesSteps {engine : Engine} (h : engine.Bounded) : engine.TakesSteps := by
  induction h with
  | empty reach => exact ⟨.advanceWithin reach, fun p s => .inl .refl⟩
  | layer reach _ ih => exact ⟨.advanceWithin reach, takesSteps_layer ih⟩

theorem takesSteps_ofBound (bound : Bound) : (ofBound bound).TakesSteps :=
  (bounded_ofBound bound).takesSteps

end Engine

end MonkeyFront
