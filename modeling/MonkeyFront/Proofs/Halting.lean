import MonkeyFront.Proofs.Steps
import MonkeyFront.Proofs.Iterations

/-!
# Loops end without their bounds

A loop that has no bound ends when its test fails or when one of its iterations does (`LoopEnds`).
The bounds of the loops of a parser cut none of them short: by the standard rules each iteration
takes a token at least, and at the end of input, which can be pulled for ever, no loop goes on
(`Engine.HasLoop.takesTokens`).
-/

namespace MonkeyFront

variable {α : Type}

/-! ### Loops without bounds -/

/-- The loop that has no bound ends after `n` iterations: then its test fails, or the last iteration
has failed. -/
inductive LoopEnds (test : State → α → Bool) (step : α → Parse α) :
    Nat → α → State → EStateM.Result Failure State α → Prop
  | stop {a s} : test s a = false → LoopEnds test step 0 a s (.ok a s)
  | fail {a s f s'} : test s a = true → step a s = .error f s' →
      LoopEnds test step 1 a s (.error f s')
  | iteration {n a s a' s' r} : test s a = true → step a s = .ok a' s' →
      LoopEnds test step n a' s' r → LoopEnds test step (n + 1) a s r

lemma repeatWhile_succ (test : State → α → Bool) (step : α → Parse α) (n : Nat) (a : α)
    (s : State) : repeatWhile test step (n + 1) a s =
      if test s a then
        match step a s with
        | .ok a' s' => repeatWhile test step n a' s'
        | .error f s' => .error f s'
      else .ok a s := by
  change (if test s a then step a >>= repeatWhile test step n else pure a) s = _
  split
  · change EStateM.bind (step a) (repeatWhile test step n) s = _
    simp only [EStateM.bind]
    cases step a s <;> rfl
  · rfl

/-- A loop whose bound is not below the number of its iterations ends as it does without a bound. -/
lemma LoopEnds.repeatWhile_eq {test : State → α → Bool} {step : α → Parse α} {n m : Nat} {a : α}
    {s : State} {r : EStateM.Result Failure State α} (h : LoopEnds test step n a s r)
    (hm : n ≤ m) : repeatWhile test step m a s = r := by
  induction h generalizing m with
  | stop ht =>
    cases m with
    | zero => rfl
    | succ m => rw [repeatWhile_succ, if_neg (by simp [ht])]
  | fail ht hstep =>
    obtain ⟨m, rfl⟩ := Nat.exists_eq_add_of_le' hm
    rw [repeatWhile_succ, if_pos ht, hstep]
  | iteration ht hstep _ ih =>
    obtain ⟨m, rfl⟩ := Nat.exists_eq_add_of_le' (show 1 ≤ m by omega)
    rw [repeatWhile_succ, if_pos ht, hstep]
    exact ih (by omega)

/-- An iteration of a loop that collects what `step` yields. -/
def collecting (step : Parse α) (as : List α) : Parse (List α) := do
  let a ← step
  return as ++ [a]

theorem collectWhile_eq (test : State → Bool) (step : Parse α) (n : Nat) :
    collectWhile test step n = repeatWhile (fun s _ => test s) (collecting step) n [] := by
  have behind (n : Nat) (as : List α) :
      repeatWhile (fun s _ => test s) (collecting step) n as =
        (as ++ ·) <$> collectWhile test step n := by
    induction n generalizing as with
    | zero => simp [repeatWhile, collectWhile]
    | succ n ih =>
      simp only [repeatWhile, collectWhile, collecting, ih, map_bind, bind_assoc, pure_bind]
      refine bind_congr fun s => ?_
      split <;> simp
  simp [behind]

/-! ### Tokens that are taken -/

namespace State

lemma Steady.current_ne_eof {s : State} (h : s.Steady) (hp : s.peek.kind ≠ .eof) :
    s.current.kind ≠ .eof := by
  intro hc
  rw [(h.current hc).2] at hp
  exact hp h.last

lemma advance_withRules {s s' : State} (rules : Rules) (h : advance s = .ok () s') :
    advance { s with rules := rules } = .ok () { s' with rules := rules } := by
  simp only [advance] at h ⊢
  cases hp : (pull s.last s.upcoming).token with
  | error e => simp [hp] at h
  | ok t =>
    rw [hp] at h
    obtain rfl := (EStateM.Result.ok.inj h).2
    rfl

/-- Steps keep the parser over its text. None of them looks at the rules, so that the standard ones
may stand in the place of any others. -/
lemma Reaches.steady_of_standard {s s' : State} (h : s.Reaches s')
    (hs : ({ s with rules := .standard } : State).Steady) :
    ({ s' with rules := .standard } : State).Steady := by
  induction h with
  | refl => exact hs
  | advance _ hrun ih => exact ((ends_advance ih).of_ok (advance_withRules _ hrun)).1.steady
  | overrun _ ho ih =>
    have hs₂ := (ho.withRules .standard).steady ih
    exact ⟨rfl, hs₂.upcoming, hs₂.last, hs₂.peek, hs₂.current⟩
  | report _ _ ih | count _ _ ih | rule _ _ ih =>
    exact ⟨rfl, ih.upcoming, ih.last, ih.peek, ih.current⟩

/-- By whatever steps a parser comes to a state in which the standard rules are in force, it is
steady there. -/
theorem Reaches.steady {s s' : State} (h : s.Reaches s') (hs : s.Steady)
    (hr : s'.rules = .standard) : s'.Steady := by
  have hkept := h.steady_of_standard ⟨rfl, hs.upcoming, hs.last, hs.peek, hs.current⟩
  rwa [← hr] at hkept

/-- The parser has gone on from one steady state to another and has taken `n` tokens at least. -/
structure HasTaken (n : Nat) (s s' : State) : Prop where
  steady : s'.Steady
  length : s'.ahead.length + n ≤ s.ahead.length

variable {n m : Nat} {s s₁ s₂ : State} {xs : List Token}

lemma HasTaken.trans (h : s.HasTaken n s₁) (h' : s₁.HasTaken m s₂) :
    s.HasTaken (n + m) s₂ := by
  have hn := h.length
  have hm := h'.length
  exact ⟨h'.steady, by omega⟩

lemma length_behind (s : State) : s.behind.length = s.ahead.length - 1 := List.length_tail

lemma length_behind_lt (hc : s.current.kind ≠ .eof) : s.behind.length < s.ahead.length := by
  rw [ahead_cons hc]
  exact Nat.lt_succ_self _

lemma length_ahead_pos (hc : s.current.kind ≠ .eof) : 0 < s.ahead.length :=
  Nat.zero_lt_of_lt (length_behind_lt hc)

lemma Passes.hasTaken (h : s.Passes xs s₁) : s.HasTaken 0 s₁ := by
  obtain ⟨init, hinit⟩ := h.stops
  have hlength := h.length_eq
  rw [hinit, List.length_append, List.length_singleton, length_behind] at hlength
  exact ⟨h.steady, by omega⟩

end State

section Taking

variable {s : State}

lemma ends_advance_taking (hs : s.Steady) : Ends advance s
    (fun _ s' => s'.Steady ∧ s'.ahead.length = s.ahead.length - 1 ∧ s'.current = s.peek)
    (fun _ _ => True) := by
  refine (ends_advance hs).mono ?_ fun _ _ _ => trivial
  rintro - s' ⟨hf, ha, hc, -⟩
  exact ⟨hf.steady, by rw [ha, State.length_behind], hc⟩

/-- Where the loop goes on, the end of input has not come, and an iteration takes a token at least.
-/
def TakesTokens (test : State → α → Bool) (step : α → Parse α) : Prop :=
  ∀ a s, s.Steady → test s a = true → s.current.kind ≠ .eof ∧
    Ends (step a) s (fun _ s' => s.HasTaken 1 s') (fun _ _ => True)

variable {test : State → α → Bool} {step : α → Parse α}

lemma TakesTokens.ends_repeatWhile (h : TakesTokens test step) (hs : s.Steady) (a : α) :
    Ends (repeatWhile test step s.tokensLeft a) s (fun _ s' => s.HasTaken 0 s')
      (fun _ _ => True) := by
  refine (MonkeyFront.ends_repeatWhile (fun s => s.ahead.length) (fun _ s' => s.HasTaken 0 s')
    (fun a s₁ h₁ ht => ?_) _ a s ⟨hs, le_rfl⟩ s.length_ahead_le).imp fun _ _ h => h.1
  obtain ⟨hc, hends⟩ := h a s₁ h₁.steady ht
  refine ⟨State.length_ahead_pos hc, hends.imp fun _ s₂ h₂ => ?_⟩
  have hlength := (h₁.trans h₂).length
  exact ⟨⟨h₂.steady, by omega⟩, h₂.length⟩

theorem TakesTokens.exists_loopEnds (h : TakesTokens test step) (hs : s.Steady) (a : α) :
    ∃ n ≤ s.ahead.length, ∃ r, LoopEnds test step n a s r := by
  induction hlength : s.ahead.length using Nat.strong_induction_on generalizing a s with
  | _ k ih =>
    cases ht : test s a with
    | false => exact ⟨0, Nat.zero_le _, _, .stop ht⟩
    | true =>
      obtain ⟨hc, hends⟩ := h a s hs ht
      have hpos := State.length_ahead_pos hc
      cases hstep : step a s with
      | error f s' => exact ⟨1, by omega, _, .fail ht hstep⟩
      | ok a' s' =>
        obtain ⟨hs', hlt⟩ := hends.of_ok hstep
        obtain ⟨n, hn, r, hr⟩ := ih _ (by omega) hs' a' rfl
        exact ⟨n + 1, by omega, r, .iteration ht hstep hr⟩

lemma takesTokens_delimiter : TakesTokens
    (fun s (_ : Unit) => s.current.kind != .semicolon && s.current.kind != .rbrace &&
      s.current.kind != .eof)
    (fun _ => advance) := by
  intro _ s hs ht
  simp only [bne_iff_ne, ne_eq, Bool.and_eq_true] at ht
  have hpos := State.length_ahead_pos ht.2
  refine ⟨ht.2, (ends_advance_taking hs).imp ?_⟩
  rintro - s' ⟨hs', hlength, -⟩
  exact ⟨hs', by omega⟩

lemma takesTokens_closing : TakesTokens
    (fun s (nesting : Int) =>
      s.current.kind != .eof && !(s.current.kind = .rbrace && nesting = 1))
    (fun nesting => do
      let kind := (← get).current.kind
      advance
      return nesting + kind.nestingChange) := by
  intro nesting s hs ht
  simp only [bne_iff_ne, ne_eq, Bool.and_eq_true] at ht
  have hpos := State.length_ahead_pos ht.1
  refine ⟨ht.1, ?_⟩
  simp only [ends_bind, ends_get, ends_pure]
  refine (ends_advance_taking hs).imp ?_
  rintro - s' ⟨hs', hlength, -⟩
  exact ⟨hs', by omega⟩

/-- To skip an abandoned statement is to go on, however many blocks have been counted. -/
lemma ends_synchronize_taking (hs : s.Steady) :
    Ends synchronize s (fun _ s' => s.HasTaken 0 s') (fun _ _ => True) := by
  have hs₀ := (hs.withDepth 0).steady
  unfold synchronize
  simp only [ends_bind, ends_get, ends_modify]
  refine ends_ite (fun _ => ?_) fun _ => ?_
  · simp only [ends_bind, ends_get]
    exact (takesTokens_delimiter.ends_repeatWhile hs₀ ()).imp fun _ _ h => ⟨h.steady, h.length⟩
  · simp only [ends_bind, ends_get]
    refine (takesTokens_closing.ends_repeatWhile hs₀ s.depth).imp fun _ s₁ h₁ => ?_
    have h₁ : s.HasTaken 0 s₁ := ⟨h₁.steady, h₁.length⟩
    refine ends_ite (fun _ => ?_) fun _ => h₁
    simp only [skipSemicolon, ends_bind, ends_get]
    refine ends_ite (fun _ => ?_) fun _ => h₁
    refine (ends_advance_taking h₁.steady).imp ?_
    rintro - s₂ ⟨hs₂, hlength, -⟩
    have hle := h₁.length
    exact ⟨hs₂, by omega⟩

lemma State.HasReadStmt.ends_advance {a : Stmt Token} {s₁ : State} (h : s.HasReadStmt [] a s₁) :
    Ends advance s₁ (fun _ s' => s.HasTaken 1 s') (fun _ _ => True) := by
  obtain ⟨ys, close, h₁, hys, -⟩ := h
  have hlength := h₁.length_eq
  have hpos := List.length_pos_of_ne_nil hys.ne_nil_of_stmt
  simp only [List.length_append, length_behind] at hlength
  refine (ends_advance_taking h₁.steady).imp ?_
  rintro - s₂ ⟨hs₂, hahead, -⟩
  exact ⟨hs₂, by omega⟩

end Taking

/-! ### The loops of a parser -/

namespace Engine

variable {engine : Engine} {s : State}

/-- What the loops of a parser repeat, and while what holds: those over the statements of a program
and of a block, the parameters of a function, the arguments of a call and the operators behind an
expression, and the two that skip what is left of an abandoned statement. -/
inductive HasLoop : {α : Type} → (State → α → Bool) → (α → Parse α) → Prop
  | program {engine : Engine} (h : engine.Bounded) :
    HasLoop (fun s _ => s.current.kind != .eof) (collecting engine.iteration)
  | block {engine : Engine} (h : engine.Bounded) :
    HasLoop (fun s _ => s.current.kind != .rbrace && s.current.kind != .eof)
      (collecting do
        let s ← engine.statement
        advance
        return s)
  | parameters : HasLoop (fun s _ => s.peek.kind = .comma)
      (collecting do
        advance
        expect .ident)
  | arguments {engine : Engine} (h : engine.Bounded) : HasLoop (fun s _ => s.peek.kind = .comma)
      (collecting do
        engine.nextToken
        engine.nextToken
        engine.expression .lowest)
  | operators {engines : Site → Engine} (h : ∀ site, (engines site).Bounded)
      (precedence : Precedence) : HasLoop
      (fun s _ => precedence < s.peekPrecedence && (s.rules.infixFn s.peek.kind).isSome)
      (extend engines)
  | delimiter : HasLoop
      (fun s (_ : Unit) => s.current.kind != .semicolon && s.current.kind != .rbrace &&
        s.current.kind != .eof)
      (fun _ => advance)
  | closing : HasLoop
      (fun s (nesting : Int) =>
        s.current.kind != .eof && !(s.current.kind = .rbrace && nesting = 1))
      (fun nesting => do
        let kind := (← get).current.kind
        advance
        return nesting + kind.nestingChange)

section Iterations

variable (hE : engine.Reads)

include hE

lemma takesTokens_program :
    TakesTokens (fun s _ => s.current.kind != .eof) (collecting engine.iteration) := by
  intro as s hs ht
  have hc : s.current.kind ≠ .eof := by simpa using ht
  have hpos := State.length_ahead_pos hc
  refine ⟨hc, ?_⟩
  simp only [collecting, iteration, ends_bind, ends_pure]
  refine ends_recoveringStatement ((ends_outerStatement hE hs).mono ?read ?rejected)
  case read => exact fun a s₁ h₁ => h₁.ends_advance
  case rejected =>
    rintro f s₁ (⟨d, rfl, h₁⟩ | ⟨e, rfl, -⟩)
    · dsimp only
      split
      · refine (ends_synchronize_taking h₁.steady).imp fun _ s₂ h₂ => ?_
        refine (ends_advance_taking h₂.steady).imp ?_
        rintro - s₃ ⟨hs₃, hlength, -⟩
        have hbehind := h₁.behind_sublist.length_le
        have hle := h₂.length
        rw [State.length_behind, State.length_behind] at hbehind
        exact ⟨hs₃, by omega⟩
      · trivial
    · trivial

lemma takesTokens_block :
    TakesTokens (fun s _ => s.current.kind != .rbrace && s.current.kind != .eof)
      (collecting do
        let s ← engine.statement
        advance
        return s) := by
  intro as s hs ht
  simp only [bne_iff_ne, ne_eq, Bool.and_eq_true] at ht
  refine ⟨ht.2, ?_⟩
  simp only [collecting, ends_bind, ends_pure]
  exact (ends_statement hE .trivial (.refl hs)).mono (fun a s₁ h₁ => h₁.ends_advance)
    fun _ _ _ => trivial

omit hE in
lemma takesTokens_parameters : TakesTokens (fun s _ => s.peek.kind = .comma)
    (collecting do
      advance
      expect .ident) := by
  intro as s hs ht
  have hc : s.current.kind ≠ .eof := hs.current_ne_eof (by rw [of_decide_eq_true ht]; decide)
  have hpos := State.length_ahead_pos hc
  refine ⟨hc, ?_⟩
  simp only [collecting, expect, ends_bind, ends_pure, ends_get]
  refine (ends_advance_taking hs).imp ?_
  rintro - s₁ ⟨hs₁, hlength₁, -⟩
  refine ends_ite (fun _ => ?_) fun _ => trivial
  simp only [ends_bind, ends_get, ends_pure]
  refine (ends_advance_taking hs₁).imp ?_
  rintro - s₂ ⟨hs₂, hlength₂, -⟩
  exact ⟨hs₂, by omega⟩

lemma Reads.ends_nextToken_taking (hs : s.Steady) : Ends engine.nextToken s
    (fun _ s' => s'.Steady ∧ s'.ahead.length = s.ahead.length - 1 ∧ s'.current = s.peek)
    (fun _ _ => True) := by
  obtain ⟨reach, hreach⟩ := hE.nextToken
  rw [hreach]
  rcases s.advanceWithin_eq_or_overruns reach with hrun | ⟨s', hrun, -⟩
  · have hends := ends_advance_taking hs
    unfold Ends at hends ⊢
    rwa [hrun]
  · unfold Ends
    rw [hrun]
    trivial

lemma takesTokens_arguments : TakesTokens (fun s _ => s.peek.kind = .comma)
    (collecting do
      engine.nextToken
      engine.nextToken
      engine.expression .lowest) := by
  intro as s hs ht
  have hc : s.current.kind ≠ .eof := hs.current_ne_eof (by rw [of_decide_eq_true ht]; decide)
  have hpos := State.length_ahead_pos hc
  refine ⟨hc, ?_⟩
  simp only [collecting, ends_bind, ends_pure]
  refine (hE.ends_nextToken_taking hs).imp ?_
  rintro - s₁ ⟨hs₁, hlength₁, -⟩
  refine (hE.ends_nextToken_taking hs₁).imp ?_
  rintro - s₂ ⟨hs₂, hlength₂, -⟩
  refine (hE.lowest .trivial (.refl hs₂)).mono ?_ fun _ _ _ => trivial
  rintro e s₃ ⟨⟨ys, h₃, -⟩, -⟩
  have hlength₃ := h₃.hasTaken.length
  exact ⟨h₃.steady, by omega⟩

end Iterations

section Operators

variable {engines : Site → Engine} (hE : ∀ site, (engines site).Reads)

include hE

lemma ends_applyInfixFn_taking {rule : InfixFn} (left : Expr Token) (hs : s.Steady)
    (hr : Rules.standard.infixFn s.current.kind = some rule) :
    Ends (applyInfixFn engines left rule) s (fun _ s' => s.HasTaken 0 s') (fun _ _ => True) := by
  have hk := Rules.fits_infixFn hr
  cases rule with
  | binary =>
    simp only [applyInfixFn, binaryExpression, ends_bind, ends_get, ends_pure, hs.rules]
    refine ((hE _).ends_nextToken_taking hs).imp ?_
    rintro - s₁ ⟨hs₁, hlength₁, -⟩
    refine ((hE _).expression _ _ s₁ [] s₁ .trivial (.refl hs₁)).mono ?_ fun _ _ _ => trivial
    rintro e s₂ ⟨⟨ys, h₂, -⟩, -⟩
    have hlength₂ := h₂.hasTaken.length
    exact ⟨h₂.steady, by omega⟩
  | call =>
    have hl : s.current.kind = .lparen := hk
    have h := (State.Stands.refl hs).pass (by rw [hl]; rfl) (by rw [hl]; decide)
    simp only [applyInfixFn, callExpression, ends_bind, ends_get, ends_pure]
    refine (ends_arguments (hE _) .trivial h).mono ?_ fun _ _ _ => trivial
    rintro es s₁ ⟨us, r, h₁, -⟩
    exact h₁.hasTaken
  | script => exact hk.elim

lemma takesTokens_operators (p : Precedence) : TakesTokens
    (fun s _ => p < s.peekPrecedence && (s.rules.infixFn s.peek.kind).isSome) (extend engines) := by
  intro left s hs ht
  rw [Bool.and_eq_true, hs.rules] at ht
  obtain ⟨rule, hr⟩ := Option.isSome_iff_exists.1 ht.2
  have hp : s.peek.kind ≠ .eof := fun hp => by rw [hp] at hr; cases hr
  have hc := hs.current_ne_eof hp
  have hpos := State.length_ahead_pos hc
  refine ⟨hc, ?_⟩
  simp only [extend, ends_bind, ends_get, hs.rules, hr]
  refine (ends_advance_taking hs).imp ?_
  rintro - s₁ ⟨hs₁, hlength₁, hcurrent⟩
  refine (ends_applyInfixFn_taking hE left hs₁ (hcurrent ▸ hr)).imp fun _ s₂ h₂ => ?_
  have hlength₂ := h₂.length
  exact ⟨h₂.steady, by omega⟩

end Operators

/-- No loop of a parser goes on at the end of input, and each iteration takes a token at least. -/
theorem HasLoop.takesTokens {test : State → α → Bool} {step : α → Parse α}
    (h : HasLoop test step) : TakesTokens test step := by
  cases h with
  | program h => exact takesTokens_program h.reads
  | block h => exact takesTokens_block h.reads
  | parameters => exact takesTokens_parameters
  | arguments h => exact takesTokens_arguments h.reads
  | operators h p => exact takesTokens_operators (fun site => (h site).reads) p
  | delimiter => exact takesTokens_delimiter
  | closing => exact takesTokens_closing

/-- Without a bound each loop ends, after no more iterations than there are tokens ahead, and it
ends as it does with its bound. -/
theorem HasLoop.exists_loopEnds {test : State → α → Bool} {step : α → Parse α}
    (h : HasLoop test step) (hs : s.Steady) (a : α) : ∃ n ≤ s.ahead.length,
      LoopEnds test step n a s (repeatWhile test step s.tokensLeft a s) := by
  obtain ⟨n, hn, r, hr⟩ := h.takesTokens.exists_loopEnds hs a
  refine ⟨n, hn, ?_⟩
  rwa [hr.repeatWhile_eq (hn.trans s.length_ahead_le)]

end Engine

end MonkeyFront
