import MonkeyFront.Proofs.SharedTokens
import MonkeyFront.Proofs.Halting

namespace MonkeyFront

open State (Mates Beside)

variable {α : Type} {parting : Parting} {s : State}

/-! ### What iterations pass -/

lemma TakesTokens.shortens {test : State → α → Bool} {step : α → Parse α}
    (h : TakesTokens test step) (a : α) : Shortens (test · a) (step a) := by
  intro s hs ht
  obtain ⟨hc, hends⟩ := h a s hs.steady ht
  exact ⟨hc, hends.imp fun _ s₁ h₁ => h₁.length⟩

lemma TakesTokens.shortens_of_collecting {test : State → Bool} {step : Parse α}
    (h : TakesTokens (fun s _ => test s) (collecting step)) : Shortens test step := by
  intro s hs ht
  obtain ⟨hc, hends⟩ := h [] s hs.steady ht
  simp only [collecting, ends_bind, ends_pure] at hends
  exact ⟨hc, hends.imp fun _ s₁ h₁ => h₁.length⟩

/-! ### Next tokens -/

namespace State

/-- Running out of stack keeps the parser in front of a text that scans to its end. -/
lemma Overruns.unbroken {s s' : State} (h : s.Overruns s') (hs : s.Unbroken) : s'.Unbroken :=
  ⟨h.steady hs.steady, fun e he => hs.scans e (h.upcoming_suffix.subset he)⟩

/-- In front of a text that scans to its end the stack suffices always, or if it is no number that
is scanned. -/
lemma Unbroken.of_overrun?_eq_none {s : State} (hs : s.Unbroken) {reach : Reach}
    (h : s.overrun? reach = none) : reach = .stored ∨ reach = .storedUnlessNumber := by
  cases reach with
  | stored => exact .inl rfl
  | storedUnlessNumber => exact .inr rfl
  | read =>
    simp only [overrun?] at h
    split at h
    · next e rest he =>
      exact absurd (show Except.error e ∈ s.upcoming from he ▸ List.mem_cons_self) (hs.scans e)
    · cases h
  | entered => cases h

lemma overrun?_storedUnlessNumber {s s₁ : State} (h : advance s = .ok () s₁) :
    s.overrun? .storedUnlessNumber = none ↔ s₁.peek.kind ≠ .int := by
  unfold advance at h
  unfold overrun?
  cases ht : (pull s.last s.upcoming).token with
  | error e => simp [ht] at h
  | ok token =>
    simp only [ht, EStateM.Result.ok.injEq, true_and] at h
    subst h
    simp [ht]

/-- The tokens at which mates look are the same, unless the current one is the last token that they
share. -/
lemma Mates.peek_eq {s s' : State} (hs : s.Steady) (h : s.Mates parting .before s') :
    s'.peek = s.peek ∨ (s.peek.kind = .eof ∧ s'.peek.kind = .eof) ∨
      s.stream .before = s.current :: parting.rest ∧ s.stream .on = parting.rest ∧
        s'.stream .on = parting.rest' := by
  by_cases hc : s.current.kind = .eof
  · have hc' : s'.current.kind = .eof := h.current ▸ hc
    refine .inr (.inl ⟨?_, ?_⟩)
    · rw [(hs.current hc).2, hs.last]
    · rw [(h.unbroken.steady.current hc').2, h.unbroken.steady.last]
  · obtain ⟨us, hne, hstream, hstream'⟩ := h.shared
    obtain ⟨t, us, rfl⟩ := List.exists_cons_of_ne_nil hne
    rw [stream_before hc] at hstream ⊢
    rw [stream_before (h.current ▸ hc)] at hstream'
    have hon := (List.cons.inj hstream).2
    have hon' := (List.cons.inj hstream').2
    by_cases hus : us = []
    · rw [hus] at hon hon'
      exact .inr (.inr ⟨congrArg _ hon, hon, hon'⟩)
    · exact .inl (Mates.peek { h with shared := ⟨us, hus, hon, hon'⟩ } hs)

end State

/-- Moving on to an expression keeps in step, if the stack of the mate does not run out before that
of the parser, unless the mate may be left behind. -/
lemma InStep.advanceWithin {reach reach' : Reach}
    (h : ∀ s s' : State, s.Unbroken → s.Mates parting .on s' → s.overrun? reach = none →
      s'.overrun? reach' = none ∨ parting.Leaves .before (s.stream .on)) :
    InStep parting .on .before (advanceWithin reach) (MonkeyFront.advanceWithin reach') := by
  intro s r hs
  cases ho : s.overrun? reach with
  | some left =>
    exact along_of_error (State.advanceWithin_of_eq_some ho)
      ((State.overruns_of_overrun? ho).unbroken hs.unbroken)
  | none =>
    obtain ⟨r₁, hr₁, hs₁⟩ : ∃ r₁, (∀ s' ∈ r₁, s' ∈ r ∧ s'.overrun? reach' = none) ∧
        (s.Beside parting .on r₁ ∨ r₁ = none ∧ parting.Leaves .before (s.stream .on)) := by
      cases r with
      | none => exact ⟨none, fun s' hs' => (Option.not_mem_none s' hs').elim, .inl hs⟩
      | some s' =>
        rcases h s s' hs.unbroken (hs.mate s' rfl) ho with ho' | hleaves
        · exact ⟨some s', fun _ h => by cases h; exact ⟨rfl, ho'⟩, .inl hs⟩
        · exact ⟨none, fun s' hs' => (Option.not_mem_none s' hs').elim, .inr ⟨rfl, hleaves⟩⟩
    rcases hs₁ with hs₁ | ⟨rfl, hleaves⟩
    · have hadvance := (InStep.advance s r₁ hs₁).of_runs (MonkeyFront.advanceWithin reach')
        fun s' hs' => ⟨s', (hr₁ s' hs').1, State.advanceWithin_of_eq_none (hr₁ s' hs').2⟩
      rwa [Along, Ends, ← State.advanceWithin_of_eq_none ho] at hadvance
    · obtain ⟨s₁, hadvance, hunbroken, -, -, -, -, hstream, -⟩ := hs.unbroken.advance
      exact along_of_ok ((State.advanceWithin_of_eq_none ho).trans hadvance)
        (.of_alone hunbroken (.inl (hstream ▸ hleaves)))

namespace Engine

/-- Reading expressions keeps in step, by the one engine and by the other. -/
structure StaysInStep (engine engine' : Engine) (parting : Parting) : Prop where
  nextToken : InStep parting .on .before engine.nextToken engine'.nextToken
  expression : ∀ p, InStep parting .before .on (engine.expression p) (engine'.expression p)

/-! ### Forms -/

lemma inStep_parameters : InStep parting .on .on parameters parameters := by
  refine .get (fun s s' hs hm => by rw [hm.peek hs.steady]) fun s r h => ?_
  split
  · exact InStep.advance.bind (fun _ => .pass (.pure _)) s r h
  · refine (InStep.expect .ident).bind (fun first => ?_) s r h
    have hless := takesTokens_parameters.shortens_of_collecting
    refine .get_bind (.collectWhile ?_ hless ?_) fun others => ?_
    · exact fun s s' hs hm => by rw [hm.peek hs.steady]
    · exact .bind .advance fun _ => .pass (.expect .ident)
    · exact .bind (.expect .rparen) fun _ => .pure _

section Forms

namespace StaysInStep

variable {engine engine' : Engine} (h : engine.StaysInStep engine' parting)

include h

lemma bindingStatement :
    InStep parting .before .on engine.bindingStatement engine'.bindingStatement := by
  refine .pass (.bind (.expect .ident) fun name => .bind (.expect .assign) fun _ => ?_)
  refine .bind h.nextToken fun _ => .bind (h.expression .lowest) fun value => ?_
  exact .bind .skipSemicolon fun _ => .pure _

lemma resultStatement :
    InStep parting .before .on engine.resultStatement engine'.resultStatement :=
  .pass (.bind h.nextToken fun _ => .bind (h.expression .lowest) fun _ =>
    .bind .skipSemicolon fun _ => .pure _)

lemma expressionStatement :
    InStep parting .before .on engine.expressionStatement engine'.expressionStatement :=
  .get (fun s s' _ hm => by rw [hm.current]) fun s =>
    InStep.bind (h.expression .lowest) (fun _ => .bind .skipSemicolon fun _ => .pure _) s

lemma statement : InStep parting .before .on engine.statement engine'.statement := by
  refine .get (fun s s' _ hm => by rw [hm.current]) fun s => ?_
  split
  · exact h.bindingStatement s
  · exact h.resultStatement s
  · exact h.expressionStatement s

lemma block (hE : engine.Reads) : InStep parting .on .on engine.block engine'.block := by
  refine .get (fun s s' _ hm => by rw [hm.current]) fun s => ?_
  refine InStep.bind (.addDepth 1) (fun _ => .bind .advance fun _ => ?_) s
  have hless := (takesTokens_block hE).shortens_of_collecting
  refine .get_bind (.collectWhile ?_ hless ?_) fun statements => ?_
  · exact fun s s' _ hm => by rw [hm.current]
  · exact .bind h.statement fun _ => .bind .advance fun _ => .pure _
  · refine .get (fun s s' _ hm => by rw [hm.current]) fun s₁ r₁ h₁ => ?_
    split
    · exact h₁.reject h₁.unbroken.steady.head_stream_before _ _
    · exact InStep.pass (.bind (.addDepth (-1)) fun _ => .pure _) s₁ r₁ h₁

lemma unaryExpression :
    InStep parting .before .on engine.unaryExpression engine'.unaryExpression :=
  .get (fun s s' _ hm => by rw [hm.current]) fun s =>
    InStep.pass (.bind h.nextToken fun _ => .bind (h.expression .unary) fun _ => .pure _) s

lemma groupedExpression :
    InStep parting .before .on engine.groupedExpression engine'.groupedExpression :=
  .pass (.bind h.nextToken fun _ => .bind (h.expression .lowest) fun _ =>
    .bind (.expect .rparen) fun _ => .pure _)

lemma conditionalExpression {inBody inBody' : Engine}
    (hB : inBody.StaysInStep inBody' parting) (hE : inBody.Reads) :
    InStep parting .before .on (engine.conditionalExpression inBody)
      (engine'.conditionalExpression inBody') := by
  refine .get (fun s s' _ hm => by rw [hm.current]) fun s => ?_
  refine InStep.pass (.bind (.expect .lparen) fun _ => .bind h.nextToken fun _ => ?_) s
  refine .bind (h.expression .lowest) fun c => .bind (.expect .rparen) fun _ => ?_
  refine .bind (.expect .lbrace) fun _ => .bind (hB.block hE) fun b => ?_
  refine .get (fun s s' hs hm => by rw [hm.peek hs.steady]) fun s₁ => ?_
  refine InStep.ite (.bind .advance fun _ => .pass ?_) (.pure _) s₁
  exact .bind (.expect .lbrace) fun _ => .bind (hB.block hE) fun _ => .pure _

lemma functionExpression (hE : engine.Reads) :
    InStep parting .before .on engine.functionExpression engine'.functionExpression := by
  refine .get (fun s s' _ hm => by rw [hm.current]) fun s => ?_
  refine InStep.pass (.bind (.expect .lparen) fun _ => ?_) s
  refine .bind inStep_parameters fun names => .bind (.expect .lbrace) fun _ => ?_
  exact .bind (h.block hE) fun _ => .pure _

lemma arguments (hE : engine.Reads) :
    InStep parting .on .on engine.arguments engine'.arguments := by
  refine .get (fun s s' hs hm => by rw [hm.peek hs.steady]) fun s => ?_
  refine InStep.ite (.bind .advance fun _ => .pass (.pure _)) ?_ s
  refine .bind h.nextToken fun _ => .bind (h.expression .lowest) fun first => ?_
  have hless := (takesTokens_arguments hE).shortens_of_collecting
  refine .get_bind (.collectWhile ?_ hless ?_) fun others => ?_
  · exact fun s s' hs hm => by rw [hm.peek hs.steady]
  · exact .bind h.nextToken fun _ => .pass (.bind h.nextToken fun _ => h.expression .lowest)
  · exact .bind (.expect .rparen) fun _ => .pure _

lemma binaryExpression (left : Expr Token) :
    InStep parting .before .on (engine.binaryExpression left) (engine'.binaryExpression left) :=
  .get (fun s s' hs hm => by rw [hm.current, hm.rules, hs.steady.rules]) fun s =>
    InStep.pass (.bind h.nextToken fun _ => .bind (h.expression _) fun _ => .pure _) s

lemma callExpression (hE : engine.Reads) (left : Expr Token) :
    InStep parting .before .on (engine.callExpression left) (engine'.callExpression left) :=
  .get (fun s s' _ hm => by rw [hm.current]) fun s =>
    InStep.pass (.bind (h.arguments hE) fun _ => .pure _) s

end StaysInStep

end Forms

/-! ### Layers -/

section Layer

variable {engines engines' : Site → Engine}
variable (h : ∀ site, (engines site).StaysInStep (engines' site) parting)
variable (hE : ∀ site, (engines site).Reads)

include h hE

lemma inStep_applyPrefixFn {kind : Kind} {rule : PrefixFn}
    (hr : Rules.standard.prefixFn kind = some rule) :
    InStep parting .before .on (applyPrefixFn engines rule) (applyPrefixFn engines' rule) := by
  cases rule with
  | name | integer | boolean =>
    exact .get (fun s s' _ hm => by rw [hm.current]) fun s => InStep.pass (.pure _) s
  | unary => exact (h _).unaryExpression
  | grouped => exact (h _).groupedExpression
  | conditional => exact (h _).conditionalExpression (h _) (hE _)
  | function => exact (h _).functionExpression (hE _)
  | script => exact (Rules.fits_prefixFn hr).elim

lemma inStep_extend (left : Expr Token) :
    InStep parting .on .on (extend engines left) (extend engines' left) := by
  refine .get (fun s s' hs hm => by rw [hm.peek hs.steady, hm.rules, hs.steady.rules])
    fun s r hs => ?_
  rw [hs.unbroken.steady.rules]
  split
  · exact InStep.pure _ s r hs
  · next rule hr =>
    refine InStep.advance.bind (fun _ => ?_) s r hs
    cases rule with
    | binary => exact (h _).binaryExpression left
    | call => exact (h _).callExpression (hE _) left
    | script => exact (Rules.fits_infixFn hr).elim

lemma inStep_layer (p : Precedence) :
    InStep parting .before .on (layer engines p) (layer engines' p) := by
  refine .get (fun s s' hs hm => by rw [hm.current, hm.rules, hs.steady.rules]) fun s r hs => ?_
  rw [hs.unbroken.steady.rules]
  split
  · exact hs.reject hs.unbroken.steady.head_stream_before _ _
  · next rule hr =>
    refine (inStep_applyPrefixFn h hE hr).bind (fun left => ?_) s r hs
    refine .repeatWhile ?_ (takesTokens_operators hE p).shortens (inStep_extend h hE) left
    intro s s' _ hs hm
    rw [State.peekPrecedence, State.peekPrecedence, hm.peek hs.steady, hm.rules, hs.steady.rules]

end Layer

end Engine

def Bound.succ (bound : Bound) : Bound := { bound with frames := bound.frames + 1 }

namespace Engine

/-- The stack of a mate that has a frame more does not run out before that of the parser. -/
lemma staysInStep_succ (bound : Bound) :
    (ofBound bound).StaysInStep (ofBound bound.succ) parting := by
  have within (frames due : Nat) : (within bound.extra frames due).StaysInStep
      (within bound.extra (frames + 1) due) parting := by
    induction frames generalizing due with
    | zero =>
      obtain ⟨reach', hnext⟩ := (bounded_within bound.extra 1 due).nextToken_eq
      refine ⟨hnext ▸ .advanceWithin fun s s' hs _ ho => ?_, fun p s r hs => ?_⟩
      · exfalso
        rcases hs.of_overrun?_eq_none ho with ho | ho <;> split at ho <;> cases ho
      · exact along_of_error rfl hs.unbroken
    | succ frames ih =>
      cases due with
      | zero =>
        have hnext : InStep parting .on .before
            (advanceWithin (if frames = 0 then .storedUnlessNumber else .stored))
            (advanceWithin .stored) := .advanceWithin fun s s' _ _ _ => .inl rfl
        exact ⟨hnext, fun p =>
          inStep_layer (fun _ => ih _) (fun _ => (bounded_within _ _ _).reads) p⟩
      | succ due => exact ih due
  exact within bound.frames 0

/-- By the same engine a parser and its mate keep in step where they look at the same tokens, or
where the mate may be left behind in front of the last token that is shared. -/
lemma Bounded.staysInStep {engine : Engine} (h : engine.Bounded)
    (hp : parting.rest = parting.rest' ∨ ∀ t, parting.Leaves .before (t :: parting.rest)) :
    engine.StaysInStep engine parting := by
  have next (reach : Reach) :
      InStep parting .on .before (advanceWithin reach) (advanceWithin reach) := by
    refine .advanceWithin fun s s' hs hm ho => ?_
    rcases hs.of_overrun?_eq_none ho with rfl | rfl
    · exact .inl rfl
    obtain ⟨s₁, s₁', hrun, hrun', hunbroken, hstream, h₁⟩ := hm.advance hs
    rw [State.overrun?_storedUnlessNumber hrun] at ho
    rw [State.overrun?_storedUnlessNumber hrun', ← hstream]
    rcases h₁.peek_eq hunbroken.steady with hpeek | ⟨-, heof⟩ | ⟨hbefore, hon, hon'⟩
    · exact .inl (hpeek ▸ ho)
    · exact .inl (by rw [heof]; decide)
    · rcases hp with hsame | hleaves
      · have hpeek := h₁.unbroken.steady.head_stream_on
        rw [hon', ← hsame, ← hon, hunbroken.steady.head_stream_on] at hpeek
        exact .inl (Option.some.inj hpeek ▸ ho)
      · exact .inr (hbefore ▸ hleaves _)
  induction h with
  | empty reach =>
    exact ⟨next reach, fun p s r hs => along_of_error rfl hs.unbroken⟩
  | layer reach h ih =>
    exact ⟨next reach, fun p => inStep_layer ih (fun site => (h site).reads) p⟩

end Engine

/-! ### Programs -/

lemma inStep_synchronize : InStep parting .on .on synchronize synchronize := by
  refine .get (fun s s' _ hm => by rw [hm.depth]) fun s => ?_
  refine InStep.bind (.setDepth fun _ => 0) (fun _ => .ite ?_ ?_) s
  · refine .repeatWhile ?_ takesTokens_delimiter.shortens (fun _ => InStep.advance.passed) ()
    exact fun s s' _ _ hm => by rw [hm.current]
  · refine .get_bind (.repeatWhile ?_ takesTokens_closing.shortens (fun n => ?_) _) fun _ => ?_
    · exact fun s s' _ _ hm => by rw [hm.current]
    · refine .get (fun s s' _ hm => by rw [hm.current]) fun s => ?_
      exact InStep.advance.bind (fun _ => .pass (.pure _)) s
    · refine .get (fun s s' _ hm => by rw [hm.current]) fun s => ?_
      exact InStep.ite .skipSemicolon (.pure _) s

namespace Engine.StaysInStep

variable {engine engine' : Engine} (h : engine.StaysInStep engine' parting)
variable (hnests : parting.Nests)

include h hnests

lemma outerStatement : InStep parting .before .on engine.outerStatement engine'.outerStatement := by
  intro s r hs
  refine along_tryCatch ((h.statement s r hs).mono (fun _ _ _ h => h) fun f s₁ r₁ hf => ?_)
  cases f with
  | scan e => exact hf.elim
  | rejected d => exact along_throw hf
  | tooDeep =>
    -- the mate is left behind, for it may have a frame left
    have hreport : (s₁.report .nestedTooDeeply s₁.current).HasNested :=
      ⟨_, List.mem_append_right _ List.mem_cons_self, rfl⟩
    have hbeside : (s₁.report .nestedTooDeeply s₁.current).Beside parting .before none :=
      .of_alone ⟨hf.steady.report .nestedTooDeeply s₁.current, hf.scans⟩ (.inr ⟨hnests, hreport⟩)
    exact along_of_error rfl
      ⟨.before, s₁.current, hbeside, hf.steady.head_stream_before, rfl⟩

lemma recoveringStatement :
    InStep parting .before .on engine.recoveringStatement engine'.recoveringStatement := by
  have hsync : InStep parting .on .on synchronize synchronize := inStep_synchronize
  refine InStep.bind (show InStep parting .before .on _ _ from fun s r hs => ?_) fun e => by
    cases e <;> exact .pure _
  refine along_tryCatch (along_bind ((h.outerStatement hnests s r hs).mono
    (fun a s₁ r₁ h₁ => along_pure h₁) fun f s₁ r₁ hf => ?_))
  cases f with
  | scan e => exact hf.elim
  | tooDeep => exact along_throw hf
  | rejected d =>
    obtain ⟨k, t, hs₁, -⟩ := id hf
    refine along_get (fun s' hs' => by rw [(hs₁.mate s' hs').recover]) ?_
    split
    · cases k with
      | before => exact hsync.pass.bind (fun _ => .pure _) s₁ r₁ hs₁
      | on => exact hsync.bind (fun _ => .pure _) s₁ r₁ hs₁
    · exact along_throw hf

/-- A program is read in step, up to the end of input or to a complaint at a token that is
shared. -/
theorem program (hE : engine.Reads) {r : Option State} (hs : s.Beside parting .before r)
    (hd : s.depth = 0) :
    Along engine.program engine'.program s r (fun _ s₁ r₁ => s₁.Beside parting .before r₁)
      (Stops parting) := by
  have hiter : InStep parting .before .before engine.iteration
      engine'.iteration :=
    (h.recoveringStatement hnests).bind fun _ => .bind .advance fun _ => .pure _
  have hloop : Along
      (get >>= fun s => collectWhile (fun s => s.current.kind != .eof) engine.iteration
        s.tokensLeft)
      (get >>= fun s => collectWhile (fun s => s.current.kind != .eof) engine'.iteration
        s.tokensLeft)
      s r (fun _ s₁ r₁ => s₁.Beside parting .before r₁ ∧ s₁.depth = 0) (Stops parting) := by
    refine along_collectWhile (fun s r h => h.1) (fun s s' _ hm => by rw [hm.current])
      (fun s _ ht => by simpa using ht) ?_ ⟨hs, hd⟩
    rintro s r ⟨hs, hd⟩ ht
    have hc : s.current.kind ≠ .eof := by simpa using ht
    have hends : Ends engine.iteration s
        (fun _ s₁ => s₁.depth = 0 ∧ s₁.ahead.length < s.ahead.length) (fun _ _ => True) :=
      (ends_iteration hE hs.unbroken.steady hd).mono (fun a s₁ h₁ => ⟨h₁.depth hd,
        Nat.lt_of_le_of_lt h₁.ahead_sublist.length_le (State.length_behind_lt hc)⟩)
        fun _ _ _ => trivial
    refine ((hiter s r hs).and_ends hends).mono ?_ fun _ _ _ h => h
    rintro a s₁ r₁ ⟨h₁, hd₁, hlt⟩
    exact ⟨⟨h₁, hd₁⟩, hlt⟩
  have hprogram (engine : Engine) : engine.program =
      (get >>= fun s => collectWhile (fun s => s.current.kind != .eof) engine.iteration
        s.tokensLeft) >>=
        fun ss => pure (ss.filterMap id) := rfl
  rw [hprogram, hprogram]
  exact along_bind (hloop.mono (fun ss s₁ r₁ h₁ => along_pure h₁.1) fun _ _ _ h => h)

end Engine.StaysInStep

/-! ### Starts -/

/-- Parsers before tokens that begin alike are mates if they differ in nothing else that matters to
an operation. -/
lemma State.Unbroken.beside {s s' : State} (hs : s.Unbroken) (hs' : s'.Unbroken)
    (hdepth : s'.depth = s.depth) (hrecover : s'.recover = s.recover)
    (hcomplaints : s'.complaints = s.complaints) {us : List Token} (hne : us ≠ [])
    (hstream : s.stream .before = us ++ parting.rest)
    (hstream' : s'.stream .before = us ++ parting.rest') :
    s.Beside parting .before (some s') := by
  have hcurrent : s'.current = s.current := by
    have h := hs.steady.head_stream_before
    have h' := hs'.steady.head_stream_before
    rw [hstream, List.head?_append_of_ne_nil _ hne] at h
    rw [hstream', List.head?_append_of_ne_nil _ hne] at h'
    exact Option.some.inj (h'.symm.trans h)
  refine ⟨hs, ?_, fun hnone => by cases hnone⟩
  rintro _ ⟨rfl⟩
  exact ⟨hs', hcurrent, hdepth, hrecover, hcomplaints, us, hne, hstream, hstream'⟩

namespace State.Starts

variable {scan scan' : Scan} {s s' : State} (hs : s.Starts scan)

include hs

lemma unbroken {ts : List Token} (h : scan.items = ts.map .ok) : s.Unbroken := by
  refine ⟨hs.steady, fun e he => ?_⟩
  have := hs.upcoming.subset he
  simp [h] at this

/-- A parser starts in front of all tokens that are no illegal characters. -/
lemma stream {ts : List Token} (h : scan.items = ts.map .ok) :
    s.stream .before = ts.filter (·.kind ≠ .illegal) ++ [scan.last] := by
  rw [State.stream, hs.ahead, hs.last, h, tokensIn_map_ok]

/-- Parsers that start in front of texts whose tokens begin alike are mates. -/
lemma beside {us : List Token} (hs' : s'.Starts scan') (hunbroken : s.Unbroken)
    (hunbroken' : s'.Unbroken) (hrecover : s'.recover = s.recover) (hne : us ≠ [])
    (hstream : s.stream .before = us ++ parting.rest)
    (hstream' : s'.stream .before = us ++ parting.rest') :
    s.Beside parting .before (some s') :=
  hunbroken.beside hunbroken' (hs'.depth.trans hs.depth.symm) hrecover
    (hs'.complaints.trans hs.complaints.symm) hne hstream hstream'

end State.Starts

/-- A text that has tokens is scanned to its end, and what a parser has in front of it is these
tokens without illegal characters. -/
lemma State.Starts.stream_ofText {source : String} {s : State} (hs : s.Starts (.ofText source))
    {tokens : List Token} (h : tokenize source = .ok tokens) :
    s.Unbroken ∧ s.stream .before = tokens.filter (·.kind ≠ .illegal) := by
  obtain ⟨ts, hitems, rfl⟩ := tokenize_eq_ok.1 h
  exact ⟨hs.unbroken hitems, hs.ahead_last h⟩

end MonkeyFront
