import MonkeyFront.Parsing.Engine
import MonkeyFront.Proofs.PassedTokens
import MonkeyFront.Proofs.Viability

/-!
# What a parser reads

By the standard rules, what a parser reads is spelled by the tokens that it passes
(`reads_ofBound`): a successful operation stands on the last token of a spelling of its result, and
behind an expression no operator follows that binds more tightly than the precedence.
-/

namespace MonkeyFront

namespace State

/-- The parser has read the part `x` of a tree behind the tokens `xs`. -/
def HasRead (s : State) (xs : List Token) (x : Phrase) (s' : State) : Prop :=
  ∃ ys, s.Passes (xs ++ ys) s' ∧ Spells x ys

/-- A prefix function has read an expression behind the tokens `xs`. No call goes on with an
operand. -/
def HasLed (s : State) (xs : List Token) (e : Expr Token) (s' : State) : Prop :=
  ∃ form ys, s.Passes (xs ++ ys) s' ∧ SpellsFirst form e ys ∧
    (form = .operand → (headKind s'.behind).level ≤ 6)

lemma HasLed.of_read {s s' : State} {xs : List Token} {e : Expr Token}
    (h : s.HasRead xs (.expr .primary e) s') : s.HasLed xs e s' := by
  obtain ⟨ys, h, hys⟩ := h
  exact ⟨_, ys, h, .primary hys, fun hform => by cases hform⟩

/-- The parser has read a statement behind the tokens `xs`, with its semicolon or, where nothing
follows that could belong to it, without. -/
def HasReadStmt (s : State) (xs : List Token) (a : Stmt Token) (s' : State) : Prop :=
  ∃ ys close, s.Passes (xs ++ ys ++ close) s' ∧ Spells (.stmt a) ys ∧
    (close = [] ∧ (headKind s'.behind).level ≤ 1 ∧ headKind s'.behind ≠ .semicolon ∨
      ∃ t : Token, close = [t] ∧ t.kind = .semicolon)

end State

/-- The engine reads expressions, and each up to the first operator that does not bind more tightly
than the precedence. -/
structure Engine.Reads (engine : Engine) : Prop where
  nextToken : ∃ reach, engine.nextToken = advanceWithin reach
  expression (viable : List Token → Prop) (p : Precedence) (s : State) (xs : List Token)
    (s₁ : State) : Admits viable xs .expression → s.Stands xs s₁ →
    Ends (engine.expression p) s₁
      (fun e s₂ => s.HasRead xs (.expr (.chain p.rank) e) s₂ ∧ (headKind s₂.behind).level ≤ p.rank)
      (s.Fails viable)

namespace Engine

variable {engine : Engine} {s s₁ : State} {xs : List Token} {viable : List Token → Prop}

lemma Reads.advance (hE : engine.Reads) (h : s.Passes xs s₁) :
    Ends engine.nextToken s₁
      (fun _ s₂ => s.Stands xs s₂ ∧ s₂.current = s₁.peek ∧ s₂.ahead = s₁.behind)
      (s.Fails viable) := by
  obtain ⟨reach, hreach⟩ := hE.nextToken
  rw [hreach]
  exact h.advanceWithin reach

lemma Reads.lowest (hE : engine.Reads) (hv : Admits viable xs .expression) (h : s.Stands xs s₁) :
    Ends (engine.expression .lowest) s₁
      (fun e s₂ => s.HasRead xs (.expr (.chain 1) e) s₂ ∧ (headKind s₂.behind).level ≤ 1)
      (s.Fails viable) :=
  hE.expression viable .lowest s xs s₁ hv h

lemma ends_commas {α : Type} {item : Parse α} (all : List α → List Token → Prop) (nil : all [] [])
    (iteration : ∀ as us s', all as us → s.Passes (xs ++ us) s' → s'.peek.kind = .comma →
      Ends item s' (fun a s'' => ∃ vs, vs ≠ [] ∧ s.Passes (xs ++ (us ++ vs)) s'' ∧
        ∀ bs, all bs us → all (bs ++ [a]) (us ++ vs)) (s.Fails viable))
    (h : s.Passes xs s₁) :
    Ends (collectWhile (fun s => s.peek.kind = .comma) item s₁.tokensLeft) s₁
      (fun as s₂ => ∃ us, s.Passes (xs ++ us) s₂ ∧ all as us) (s.Fails viable) := by
  refine (ends_collectWhile (fun s => s.behind.length)
    (fun s' => ∃ as us, all as us ∧ s.Passes (xs ++ us) s')
    (fun s' as s'' => ∀ bs us, all bs us → s.Passes (xs ++ us) s' →
      ∃ vs, s.Passes (xs ++ vs) s'' ∧ all (bs ++ as) vs)
    (fun _ => s.Fails viable) ?stop ?iteration _ s₁ ⟨[], [], nil, by simpa using h⟩
    s₁.length_behind_le).imp fun as s₂ has => has [] [] nil (by simpa using h)
  case stop =>
    rintro s' - - bs us hbs h'
    exact ⟨us, h', by simpa using hbs⟩
  case iteration =>
    rintro s' ⟨as, us, has, h'⟩ hc
    have hc : s'.peek.kind = .comma := of_decide_eq_true hc
    obtain ⟨t, rest, hb, -⟩ :=
      exists_cons_of_headKind (h'.steady.headKind_behind.trans hc) (by decide)
    refine ⟨by rw [hb]; exact Nat.succ_pos _, ?_⟩
    refine (iteration as us s' has h' hc).imp ?_
    rintro a s'' ⟨vs, hne, hs'', hsnoc⟩
    refine ⟨⟨_, _, hsnoc as has, hs''⟩, ?_, ?_, ?_⟩
    · have := h'.length_eq
      have := hs''.length_eq
      have := List.length_pos_of_ne_nil hne
      simp only [List.length_append] at *
      omega
    · intro as s₃ hrel bs us' hbs hz'
      obtain rfl := List.append_cancel_left (h'.unique hz')
      simpa using hrel _ _ (hsnoc bs hbs) hs''
    · exact fun _ _ hf => hf

lemma ends_parameters (hv : Admits viable xs .parameters) (h : s.Passes xs s₁) :
    Ends parameters s₁
      (fun names s₂ => ∃ us r, s.Passes (xs ++ us ++ [r]) s₂ ∧ SpellsNames names us ∧
        r.kind = .rparen) (s.Fails viable) := by
  unfold parameters
  simp only [ends_bind, ends_get]
  refine ends_ite (fun hp => ?_) fun _ => ?_
  · simp only [ends_bind, ends_pure]
    refine h.advance.imp ?_
    rintro _ s₂ ⟨h₂, hr, -⟩
    have hr : s₂.current.kind = .rparen := hr ▸ hp
    have h₂ := h₂.pass (by rw [hr]; rfl) (by rw [hr]; decide)
    exact ⟨[], s₂.current, by simpa using h₂, .nil, hr⟩
  · simp only [ends_bind, ends_get, ends_pure]
    refine (h.expect_pass (hv.here .nil_parameters) rfl (by decide)).imp ?_
    rintro name s₂ ⟨hname, h₂⟩
    refine (ends_commas SpellsMoreNames .nil (fun names us s' hus h' hp => ?_) h₂).imp ?_
    · rw [ends_bind]
      refine h'.advance.imp ?_
      rintro _ s₃ ⟨h₃, hc, -⟩
      have hc : s₃.current.kind = .comma := hc ▸ hp
      have h₃ := h₃.pass (by rw [hc]; rfl) (by rw [hc]; decide)
      have hv₃ : viable (xs ++ [name] ++ us ++ [s₃.current]) := by
        simpa using hv (name :: us ++ [s₃.current])
          (by simpa [hname, hc] using Begins.moreParameters hus.derives)
      refine (h₃.expect_pass hv₃ rfl (by decide)).imp ?_
      rintro name s₄ ⟨hname, h₄⟩
      exact ⟨[s₃.current, name], by simp, by simpa using h₄,
        fun _ hbs => hbs.append_singleton hc hname⟩
    · rintro names s₃ ⟨us, h₃, hus⟩
      have hus := SpellsNames.cons hname hus
      have hv₃ : viable (xs ++ [name] ++ us) := by
        simpa using hv (name :: us) (.of_derives hus.derives)
      refine (h₃.expect_pass hv₃ rfl (by decide)).imp ?_
      rintro r s₄ ⟨hr, h₄⟩
      exact ⟨name :: us, r, by simpa using h₄, hus, hr⟩

section Forms

variable (hE : engine.Reads)

include hE

/-! ### Statements -/

lemma ends_value {a : Expr Token → Stmt Token} (ys : List Token)
    (hv : Admits viable (xs ++ ys) .expression) (h : s.Stands (xs ++ ys) s₁)
    (ha : ∀ e us, Spells (.expr (.chain 1) e) us → Spells (.stmt (a e)) (ys ++ us)) :
    Ends (do
      let value ← engine.expression .lowest
      skipSemicolon
      return a value) s₁ (s.HasReadStmt xs) (s.Fails viable) := by
  simp only [ends_bind, ends_pure]
  refine (hE.lowest hv h).imp ?_
  rintro e s₂ ⟨⟨us, h₂, hus⟩, hl⟩
  refine h₂.skipSemicolon.imp fun _ s₃ h₃ => ?_
  rcases h₃ with ⟨h₃, rfl, hk⟩ | ⟨t, ht, h₃⟩
  · exact ⟨ys ++ us, [], by simpa using h₃, ha e us hus, .inl ⟨rfl, hl, hk⟩⟩
  · exact ⟨ys ++ us, [t], by simpa using h₃, ha e us hus, .inr ⟨t, rfl, ht⟩⟩

lemma ends_bindingStatement (hv : Admits viable xs .statement) (h : s.Stands xs s₁)
    (hk : s₁.current.kind = .kwLet) :
    Ends engine.bindingStatement s₁ (s.HasReadStmt xs) (s.Fails viable) := by
  have h := h.pass (by rw [hk]; rfl) (by rw [hk]; decide)
  unfold bindingStatement
  rw [ends_bind]
  refine (h.expect_pass (hv _ (by simpa [hk] using Begins.binding_keyword)) rfl (by decide)).imp ?_
  rintro name s₂ ⟨hname, h₂⟩
  have hv₂ : viable (xs ++ [s₁.current] ++ [name]) := by
    simpa using hv [s₁.current, name] (by simpa [hk, hname] using Begins.binding_name)
  rw [ends_bind]
  refine (h₂.expect_pass hv₂ rfl (by decide)).imp ?_
  rintro a s₃ ⟨ha, h₃⟩
  rw [ends_bind]
  refine (hE.advance h₃).imp ?_
  rintro _ s₄ ⟨h₄, -⟩
  refine ends_value hE [s₁.current, name, a] (hv.behind _ fun ks hks => ?_) (by simpa using h₄)
    fun e us hus => ?_
  · simpa [hk, hname, ha] using hks.binding
  · exact .binding hk hname ha hus

lemma ends_resultStatement (hv : Admits viable xs .statement) (h : s.Stands xs s₁)
    (hk : s₁.current.kind = .kwReturn) :
    Ends engine.resultStatement s₁ (s.HasReadStmt xs) (s.Fails viable) := by
  have h := h.pass (by rw [hk]; rfl) (by rw [hk]; decide)
  unfold resultStatement
  rw [ends_bind]
  refine (hE.advance h).imp ?_
  rintro _ s₂ ⟨h₂, -⟩
  refine ends_value hE [s₁.current] (hv.behind _ fun ks hks => ?_) h₂
    fun e us hus => .result hk hus
  simpa [hk] using hks.result

lemma ends_expressionStatement (hv : Admits viable xs .statement) (h : s.Stands xs s₁) :
    Ends engine.expressionStatement s₁ (s.HasReadStmt xs) (s.Fails viable) := by
  unfold expressionStatement
  simp only [ends_bind, ends_get, ends_pure]
  refine (hE.lowest (fun ys hys => hv ys hys.value) h).imp ?_
  rintro e s₂ ⟨⟨us, h₂, hus⟩, hl⟩
  refine h₂.skipSemicolon.imp fun _ s₃ h₃ => ?_
  have first : Spells (.stmt (.expression s₁.current e)) us := by
    have hs : s₁.ahead = us ++ s₂.behind := by
      have := h.ahead.symm.trans h₂.ahead
      rwa [List.append_assoc, List.append_cancel_left_eq] at this
    cases us with
    | nil => cases hus.mayBegin
    | cons t us =>
      have hc : s₁.current.kind ≠ .eof := fun hc => by simp [State.ahead_eq_nil hc] at hs
      rw [State.ahead_cons hc, List.cons_append, List.cons.injEq] at hs
      rw [hs.1]
      exact .expression hus
  rcases h₃ with ⟨h₃, rfl, hk⟩ | ⟨t, ht, h₃⟩
  · exact ⟨us, [], by simpa using h₃, first, .inl ⟨rfl, hl, hk⟩⟩
  · exact ⟨us, [t], by simpa using h₃, first, .inr ⟨t, rfl, ht⟩⟩

lemma ends_statement (hv : Admits viable xs .statement) (h : s.Stands xs s₁) :
    Ends engine.statement s₁ (s.HasReadStmt xs) (s.Fails viable) := by
  unfold statement
  rw [ends_bind, ends_get]
  split
  · exact ends_bindingStatement hE hv h ‹_›
  · exact ends_resultStatement hE hv h ‹_›
  · exact ends_expressionStatement hE hv h

/-- The statements of a block, up to its closing brace or the end of input. -/
lemma ends_blockStatements (hv : Admits viable xs .program) (h : s.Stands xs s₁) :
    Ends (collectWhile (fun s => s.current.kind != .rbrace && s.current.kind != .eof)
      (do
        let s ← engine.statement
        advance
        return s) s₁.tokensLeft) s₁
      (fun ss s₂ => ∃ us, s.Stands (xs ++ us) s₂ ∧ Spells (.stmts ss) us ∧
        (s₂.current.kind ≠ .eof → s₂.current.kind = .rbrace)) (s.Fails viable) := by
  refine (ends_collectWhile (fun s => s.ahead.length)
    (fun s' => ∃ zs, s.Stands (xs ++ zs) s' ∧ Derives .program (kinds zs))
    (fun s' ss s'' => ∀ zs, s.Stands zs s' → ∃ us, s.Stands (zs ++ us) s'' ∧
      Spells (.stmts ss) us ∧ (s''.current.kind ≠ .eof → s''.current.kind = .rbrace))
    (fun _ => s.Fails viable) ?stop ?iteration _ s₁ ⟨[], by simpa using h, .programNil⟩
    s₁.length_ahead_le).imp fun ss s₂ hss => hss _ h
  case stop =>
    rintro s' - ht zs hz
    refine ⟨[], by simpa using hz, .noStmts, fun he => ?_⟩
    simpa [he] using ht
  case iteration =>
    rintro s' ⟨zs, hz, hzs⟩ ht
    simp only [bne_iff_ne, ne_eq, Bool.and_eq_true] at ht
    refine ⟨by rw [State.ahead_cons ht.2]; exact Nat.succ_pos _, ?_⟩
    simp only [ends_bind, ends_pure]
    refine (ends_statement hE (hv.behind zs fun ks hks => hks.program hzs) hz).imp ?_
    rintro a s₃ ⟨ys, close, h₃, hys, hclose⟩
    refine h₃.advance.imp ?_
    rintro _ s₄ ⟨h₄, _, ha⟩
    refine ⟨⟨zs ++ (ys ++ close), by simpa using h₄, ?_⟩, ?_, ?_, fun _ _ hf => hf⟩
    · rw [kinds_append]
      exact hzs.program_statement (hys.derives_statement (hclose.imp_left And.left))
    · have := h₄.length_eq
      have := hz.length_eq
      have : 0 < ys.length := List.length_pos_of_ne_nil hys.ne_nil_of_stmt
      simp only [List.length_append] at *
      omega
    · intro ss s₅ hrel zs' hz'
      obtain rfl := hz.unique hz'
      obtain ⟨us, h₅, hus, hend⟩ := hrel _ h₄
      refine ⟨ys ++ close ++ us, by simpa using h₅, ?_, hend⟩
      refine hys.stmts_cons hus (hclose.imp_left ?_)
      rintro ⟨hnil, hl, hs⟩
      refine ⟨hnil, ?_⟩
      have hahead : s₄.ahead = us ++ s₅.ahead :=
        List.append_cancel_left ((h₄.ahead.symm.trans h₅.ahead).trans (List.append_assoc ..))
      rw [← ha, hahead] at hl hs
      cases us with
      | nil => exact .inl rfl
      | cons t us => exact .inr ⟨hl, hs⟩

lemma ends_block (hv : Admits viable xs .block) (h : s.Stands xs s₁)
    (hk : s₁.current.kind = .lbrace) :
    Ends engine.block s₁ (fun b => s.HasRead xs (.block b)) (s.Fails viable) := by
  have he : s₁.current.kind ≠ .eof := by rw [hk]; decide
  obtain ⟨k, hopen, hdepth⟩ := h.opens
  have hopen₁ : Opens (xs ++ [s₁.current]) (k + 1) := hopen.append (.openingBrace hk)
  have h₁ : s.Follows { s₁ with depth := s₁.depth + 1 } :=
    h.toFollows.trans (h.steady.withDepth _)
  unfold block
  simp only [ends_bind, ends_get, ends_addDepth]
  refine (ends_advance h₁.steady).mono ?_ ?_
  case refine_2 =>
    rintro e s₂ ⟨x, rfl, hx⟩
    exact .scan (h₁.upcoming.subset hx)
  rintro - s₂ ⟨hf, ha, -, hd⟩
  have h₂ : s.Stands (xs ++ [s₁.current]) s₂ :=
    { h₁.trans hf with
      ahead := by
        rw [ha, h.ahead, State.ahead_cons he, List.append_assoc, List.singleton_append]
        rfl
      opens := ⟨k + 1, hopen₁, by simp only [hd, hdepth]; omega⟩ }
  have hv₂ : Admits viable (xs ++ [s₁.current]) .program :=
    hv.behind _ fun ks hks => by simpa [hk] using hks.block
  refine (ends_blockStatements hE hv₂ h₂).imp ?_
  rintro ss s₃ ⟨us, h₃, hus, hend⟩
  refine ends_ite (fun hc => ?_) fun hc => ?_
  · simp only [ends_reject]
    exact .current _ rfl (by simp) (hv₂ us (.of_derives hus.derived)) h₃
  · simp only [ends_bind, ends_addDepth, ends_pure]
    have hr := hend hc
    have hopen' : Opens (xs ++ [s₁.current] ++ us) (k + 1) := hopen₁.append hus.balanced
    obtain ⟨j, hj, hd⟩ := h₃.opens
    obtain rfl := hj.unique hopen'
    refine ⟨s₁.current :: us ++ [s₃.current], ?_, .block hk hus hr⟩
    refine { h₃.toFollows.trans (h₃.steady.withDepth _) with
      ahead := ?_, stops := ⟨xs ++ s₁.current :: us, by simp⟩, begun := by rw [hr]; decide
      opens := ⟨k, ?_, ?_⟩ }
    · rw [h₃.ahead, State.ahead_cons hc]
      simp only [List.append_assoc, List.cons_append, List.nil_append]
      rfl
    · simpa using hopen'.closingBrace hr
    · simp only [hd]
      omega

/-! ### Expressions -/

lemma ends_unaryExpression (hv : Admits viable xs .expression) (h : s.Stands xs s₁)
    (hk : s₁.current.kind.isUnary = true) :
    Ends engine.unaryExpression s₁ (s.HasLed xs) (s.Fails viable) := by
  have he : s₁.current.kind ≠ .eof := fun he => by rw [he] at hk; cases hk
  have h₁ := h.pass (Kind.isBrace_isUnary hk) he
  unfold unaryExpression
  simp only [ends_bind, ends_get, ends_pure]
  refine (hE.advance h₁).imp ?_
  rintro _ s₂ ⟨h₂, -⟩
  have hv₂ : Admits viable (xs ++ [s₁.current]) .expression :=
    hv.behind [s₁.current] fun ks hks => hks.unary hk
  refine (hE.expression viable .unary s _ s₂ hv₂ h₂).imp ?_
  rintro e s₃ ⟨⟨us, h₃, hus⟩, hl⟩
  exact ⟨_, s₁.current :: us, by simpa using h₃, .unary hk hus.operand_of_chain, fun _ => hl⟩

lemma ends_groupedExpression (hv : Admits viable xs .expression) (h : s.Stands xs s₁)
    (hk : s₁.current.kind = .lparen) :
    Ends engine.groupedExpression s₁ (fun e => s.HasRead xs (.expr .primary e))
      (s.Fails viable) := by
  have h₁ := h.pass (by rw [hk]; rfl) (by rw [hk]; decide)
  unfold groupedExpression
  simp only [ends_bind, ends_pure]
  refine (hE.advance h₁).imp ?_
  rintro _ s₂ ⟨h₂, -⟩
  have hv₂ : Admits viable (xs ++ [s₁.current]) .expression :=
    hv.behind _ fun ks hks => by simpa [hk] using hks.grouped
  refine (hE.lowest hv₂ h₂).imp ?_
  rintro e s₃ ⟨⟨us, h₃, hus⟩, -⟩
  refine (h₃.expect_pass (hv₂ us (.of_derives hus.derived)) rfl (by decide)).imp ?_
  rintro r s₄ ⟨hr, h₄⟩
  exact ⟨s₁.current :: us ++ [r], by simpa using h₄, .grouped hk hus hr⟩

lemma ends_conditionalExpression {inBody : Engine} (hB : inBody.Reads)
    (hv : Admits viable xs .expression) (h : s.Stands xs s₁) (hk : s₁.current.kind = .kwIf) :
    Ends (engine.conditionalExpression inBody) s₁ (fun e => s.HasRead xs (.expr .primary e))
      (s.Fails viable) := by
  have h₁ := h.pass (by rw [hk]; rfl) (by rw [hk]; decide)
  unfold conditionalExpression
  simp only [ends_bind, ends_get]
  refine (h₁.expect_pass (hv _ (by simpa [hk] using Begins.conditional_keyword)) rfl
    (by decide)).imp ?_
  rintro l s₂ ⟨hl, h₂⟩
  refine (hE.advance h₂).imp ?_
  rintro _ s₃ ⟨h₃, -⟩
  have hv₃ : Admits viable (xs ++ [s₁.current] ++ [l]) .expression := by
    simpa using hv.behind [s₁.current, l] fun ks hks => by simpa [hk, hl] using hks.conditional
  refine (hE.lowest hv₃ h₃).imp ?_
  rintro c s₄ ⟨⟨us, h₄, hus⟩, -⟩
  refine (h₄.expect_pass (hv₃ us (.of_derives hus.derived)) rfl (by decide)).imp ?_
  rintro r s₅ ⟨hr, h₅⟩
  have hv₅ : Admits viable (xs ++ [s₁.current] ++ [l] ++ us ++ [r]) .block := by
    simpa using hv.behind (s₁.current :: l :: us ++ [r]) fun ks hks => by
      simpa [hk, hl, hr] using hks.consequence hus.derived
  refine (h₅.expect (hv₅.here .nil_block) .lbrace).imp ?_
  rintro b s₆ ⟨h₆, hb, hbk⟩
  refine (ends_block hB hv₅ h₆ (hb ▸ hbk)).imp ?_
  rintro body s₇ ⟨vs, h₇, hvs⟩
  refine ends_ite (fun hp => ?_) fun _ => ?_
  · simp only [ends_bind, ends_pure]
    refine h₇.advance.imp ?_
    rintro _ s₈ ⟨h₈, ho, -⟩
    have ho : s₈.current.kind = .kwElse := ho ▸ hp
    have h₈ := h₈.pass (by rw [ho]; rfl) (by rw [ho]; decide)
    have hv₈ : Admits viable (xs ++ [s₁.current] ++ [l] ++ us ++ [r] ++ vs ++ [s₈.current])
        .block := by
      simpa using hv.behind (s₁.current :: l :: us ++ r :: vs ++ [s₈.current]) fun ks hks => by
        simpa [hk, hl, hr, ho] using hks.alternative hus.derived hvs.derived
    refine (h₈.expect (hv₈.here .nil_block) .lbrace).imp ?_
    rintro d s₉ ⟨h₉, hd, hdk⟩
    refine (ends_block hB hv₈ h₉ (hd ▸ hdk)).imp ?_
    rintro other s₁₀ ⟨ws, h₁₀, hws⟩
    exact ⟨s₁.current :: l :: us ++ r :: vs ++ s₈.current :: ws, by simpa using h₁₀,
      .alternative hk hl hus hr hvs ho hws⟩
  · exact ⟨s₁.current :: l :: us ++ r :: vs, by simpa using h₇, .conditional hk hl hus hr hvs⟩

lemma ends_functionExpression (hv : Admits viable xs .expression) (h : s.Stands xs s₁)
    (hk : s₁.current.kind = .kwFunction) :
    Ends engine.functionExpression s₁ (fun e => s.HasRead xs (.expr .primary e))
      (s.Fails viable) := by
  have h₁ := h.pass (by rw [hk]; rfl) (by rw [hk]; decide)
  unfold functionExpression
  simp only [ends_bind, ends_get, ends_pure]
  refine (h₁.expect_pass (hv _ (by simpa [hk] using Begins.function_keyword)) rfl
    (by decide)).imp ?_
  rintro l s₂ ⟨hl, h₂⟩
  have hv₂ : Admits viable (xs ++ [s₁.current] ++ [l]) .parameters := by
    simpa using hv.behind [s₁.current, l] fun ks hks => by simpa [hk, hl] using hks.function
  refine (ends_parameters hv₂ h₂).imp ?_
  rintro names s₃ ⟨us, r, h₃, hus, hr⟩
  have hv₃ : Admits viable (xs ++ [s₁.current] ++ [l] ++ us ++ [r]) .block := by
    simpa using hv.behind (s₁.current :: l :: us ++ [r]) fun ks hks => by
      simpa [hk, hl, hr] using hks.body hus.derives
  refine (h₃.expect (hv₃.here .nil_block) .lbrace).imp ?_
  rintro b s₄ ⟨h₄, hb, hbk⟩
  refine (ends_block hE hv₃ h₄ (hb ▸ hbk)).imp ?_
  rintro body s₅ ⟨vs, h₅, hvs⟩
  exact ⟨s₁.current :: l :: us ++ r :: vs, by simpa using h₅, .function hk hl hus hr hvs⟩

lemma ends_arguments (hv : Admits viable xs .arguments) (h : s.Passes xs s₁) :
    Ends engine.arguments s₁
      (fun es s₂ => ∃ us r, s.Passes (xs ++ us ++ [r]) s₂ ∧ Spells (.arguments es) us ∧
        r.kind = .rparen) (s.Fails viable) := by
  unfold arguments
  simp only [ends_bind, ends_get]
  refine ends_ite (fun hp => ?_) fun _ => ?_
  · simp only [ends_bind, ends_pure]
    refine h.advance.imp ?_
    rintro _ s₂ ⟨h₂, hr, -⟩
    have hr : s₂.current.kind = .rparen := hr ▸ hp
    have h₂ := h₂.pass (by rw [hr]; rfl) (by rw [hr]; decide)
    exact ⟨[], s₂.current, by simpa using h₂, .noArguments, hr⟩
  · simp only [ends_bind, ends_get, ends_pure]
    refine (hE.advance h).imp ?_
    rintro _ s₂ ⟨h₂, -⟩
    refine (hE.lowest (fun zs hzs => hv zs hzs.argument) h₂).imp ?_
    rintro e s₃ ⟨⟨ys, h₃, hys⟩, -⟩
    refine (ends_commas (fun es => Spells (.moreArguments es)) .noMoreArguments
      (fun es us s' hus h' hp => ?_) h₃).imp ?_
    · simp only [ends_bind]
      refine (hE.advance h').imp ?_
      rintro _ s₄ ⟨h₄, hc, -⟩
      have hc : s₄.current.kind = .comma := hc ▸ hp
      have h₄ := h₄.pass (by rw [hc]; rfl) (by rw [hc]; decide)
      refine (hE.advance h₄).imp ?_
      rintro _ s₅ ⟨h₅, -⟩
      have hv₅ : Admits viable (xs ++ ys ++ us ++ [s₄.current]) .expression := by
        simpa using hv.behind (ys ++ us ++ [s₄.current]) fun ks hks => by
          simpa [hc] using hks.moreArguments hys.derived hus.derived
      refine (hE.lowest hv₅ h₅).imp ?_
      rintro e s₆ ⟨⟨ws, h₆, hws⟩, -⟩
      exact ⟨s₄.current :: ws, by simp, by simpa using h₆,
        fun _ hbs => hbs.append_argument hc hws⟩
    · rintro es s₄ ⟨us, h₄, hus⟩
      have hus := Spells.arguments hys hus
      have hv₄ : viable (xs ++ ys ++ us) := by
        simpa using hv (ys ++ us) (.of_derives hus.derived)
      refine (h₄.expect_pass hv₄ rfl (by decide)).imp ?_
      rintro r s₅ ⟨hr, h₅⟩
      exact ⟨ys ++ us, r, by simpa using h₅, hus, hr⟩

end Forms

/-! ### Operators -/

section Layer

variable {engines : Site → Engine} (hE : ∀ site, (engines site).Reads)

include hE

lemma ends_applyPrefixFn {rule : PrefixFn} (hv : Admits viable xs .expression) (h : s.Stands xs s₁)
    (hr : Rules.standard.prefixFn s₁.current.kind = some rule) :
    Ends (applyPrefixFn engines rule) s₁ (s.HasLed xs) (s.Fails viable) := by
  have token {e : Expr Token} (hb : s₁.current.kind.isBrace = false) (he : s₁.current.kind ≠ .eof)
      (hs : Spells (.expr .primary e) [s₁.current]) : s.HasLed xs e s₁ :=
    State.HasLed.of_read ⟨_, h.pass hb he, hs⟩
  have hk := Rules.fits_prefixFn hr
  cases rule with
  | name =>
    simp only [applyPrefixFn, ends_bind, ends_get, ends_pure]
    exact token (by rw [hk]; rfl) (by rw [hk]; decide) (.name hk)
  | integer =>
    simp only [applyPrefixFn, ends_bind, ends_get, ends_pure]
    exact token (by rw [hk]; rfl) (by rw [hk]; decide) (.integer hk)
  | boolean =>
    simp only [applyPrefixFn, ends_bind, ends_get, ends_pure]
    refine token ?_ ?_ (.boolean hk) <;> rcases hk with hk | hk <;> rw [hk] <;> decide
  | unary => exact ends_unaryExpression (hE _) hv h hk
  | grouped => exact (ends_groupedExpression (hE _) hv h hk).imp fun _ _ => .of_read
  | conditional => exact (ends_conditionalExpression (hE _) (hE _) hv h hk).imp fun _ _ => .of_read
  | function => exact (ends_functionExpression (hE _) hv h hk).imp fun _ _ => .of_read
  | script => exact hk.elim

/-- The tokens `ys` spell a chain of level `n` that can be the left operand of a token of the kind
behind it. -/
def IsLeft (n : Nat) (e : Expr Token) (ys : List Token) (kind : Kind) : Prop :=
  Spells (.expr (.chain n) e) ys ∧ (kind = .lparen → Spells (.expr .applied e) ys) ∧
    (kind.isBinary = true → n < kind.level → Spells (.expr (.chain (kind.level - 1)) e) ys)

omit hE in
lemma isLeft_of_applied {n : Nat} {e : Expr Token} {ys : List Token} {kind : Kind}
    (h : Spells (.expr .applied e) ys) : IsLeft n e ys kind :=
  ⟨.chain (.operand h), fun _ => h, fun _ _ => .chain (.operand h)⟩

omit hE in
lemma isLeft_of_prefixFn {n : Nat} {form : Form} {e : Expr Token} {ys : List Token} {kind : Kind}
    (h : SpellsFirst form e ys) (hl : form = .operand → kind.level ≤ 6) : IsLeft n e ys kind := by
  cases h with
  | primary h => exact isLeft_of_applied (.applied h)
  | unary ht h =>
    have h := Spells.unary ht h
    exact ⟨.chain h, fun hk => absurd (hl rfl) (by rw [hk]; decide), fun _ _ => .chain h⟩

omit hE in
lemma isLeft_of_binary {n : Nat} {t : Token} {e d : Expr Token} {xs ys : List Token} {kind : Kind}
    (ht : t.kind.isBinary = true) (hn : n < t.kind.level)
    (he : Spells (.expr (.chain (t.kind.level - 1)) e) xs)
    (hd : Spells (.expr (.chain t.kind.level) d) ys) (hl : kind.level ≤ t.kind.level) :
    IsLeft n (.binary t e d) (xs ++ t :: ys) kind := by
  refine ⟨.binary ht hn he hd, fun hk => ?_, fun hk _ => ?_⟩
  · rw [hk] at hl
    exact absurd (Kind.level_isBinary ht).2 (Nat.not_lt.2 (Nat.le_trans (by decide) hl))
  · have := Kind.level_isBinary hk
    exact .binary ht (by omega) he hd

lemma ends_extend {n : Nat} {left : Expr Token} {ys : List Token} (h1 : 1 ≤ n)
    (hv : Admits viable xs .expression) (h : s.Passes (xs ++ ys) s₁)
    (hleft : IsLeft n left ys (headKind s₁.behind)) (hn : n < (headKind s₁.behind).level) :
    Ends (extend engines left) s₁
      (fun e s₂ => ∃ us, us ≠ [] ∧ s.Passes (xs ++ (ys ++ us)) s₂ ∧
        IsLeft n e (ys ++ us) (headKind s₂.behind)) (s.Fails viable) := by
  have hpeek := h.steady.headKind_behind
  rw [hpeek] at hleft hn
  unfold extend
  simp only [ends_bind, ends_get, h.steady.rules]
  cases hr : Rules.standard.infixFn s₁.peek.kind with
  | none => exact absurd (Rules.level_of_infixFn_none hr ▸ hn) (Nat.not_lt.2 h1)
  | some rule =>
    simp only [ends_bind]
    refine h.advance.imp ?_
    rintro _ s₂ ⟨h₂, hc, -⟩
    rw [← hc] at hr hleft hn
    have hk := Rules.fits_infixFn hr
    cases rule with
    | binary =>
      have he : s₂.current.kind ≠ .eof := fun he => by rw [he] at hk; cases hk
      have h₃ := h₂.pass (Kind.isBrace_isBinary hk) he
      simp only [applyInfixFn, binaryExpression, ends_bind, ends_get, ends_pure]
      refine ((hE .operand).advance h₃).imp ?_
      rintro _ s₄ ⟨h₄, -⟩
      have hl := Kind.level_isBinary hk
      have hv₄ : Admits viable (xs ++ ys ++ [s₂.current]) .expression := by
        simpa using hv.behind (ys ++ [s₂.current]) fun ks hks => by
          simpa using hks.operator hleft.1.derived hk
      rw [h₂.steady.rules]
      refine ((hE .operand).expression viable _ s _ s₄ hv₄ h₄).imp ?_
      rintro d s₅ ⟨⟨us, h₅, hus⟩, hbehind⟩
      refine ⟨s₂.current :: us, by simp, by simpa using h₅, ?_⟩
      exact isLeft_of_binary hk hn (hleft.2.2 hk hn) hus hbehind
    | call =>
      have h₃ := h₂.pass (by rw [hk]; rfl) (by rw [hk]; decide)
      simp only [applyInfixFn, callExpression, ends_bind, ends_get, ends_pure]
      have hv₃ : Admits viable (xs ++ ys ++ [s₂.current]) .arguments := by
        simpa using hv.behind (ys ++ [s₂.current]) fun ks hks => by
          have hk : s₂.current.kind = .lparen := hk
          simpa [hk] using hks.call hleft.1.derived
      refine (ends_arguments (hE _) hv₃ h₃).imp ?_
      rintro es s₄ ⟨us, r, h₄, hus, hr⟩
      refine ⟨s₂.current :: us ++ [r], by simp, by simpa using h₄, ?_⟩
      have := Spells.call (hleft.2.1 hk) hk hus hr
      rw [List.append_assoc] at this
      exact isLeft_of_applied this
    | script => exact hk.elim

lemma reads_layer (p : Precedence) (hv : Admits viable xs .expression) (h : s.Stands xs s₁) :
    Ends (layer engines p) s₁
      (fun e s₂ => s.HasRead xs (.expr (.chain p.rank) e) s₂ ∧ (headKind s₂.behind).level ≤ p.rank)
      (s.Fails viable) := by
  have hlow : 1 ≤ p.rank := by cases p <;> decide
  unfold layer
  simp only [ends_bind, ends_get, h.steady.rules]
  cases hr : Rules.standard.prefixFn s₁.current.kind with
  | none =>
    simp only [ends_reject]
    exact .current _ rfl (by simp) (hv.here .nil_expression) h
  | some rule =>
    simp only [ends_bind, ends_get]
    refine (ends_applyPrefixFn hE hv h hr).imp ?_
    rintro left s₂ ⟨form, ys, h₂, hys, hl⟩
    refine (ends_repeatWhile (fun s => s.behind.length)
      (fun e s' => ∃ ys, s.Passes (xs ++ ys) s' ∧ IsLeft p.rank e ys (headKind s'.behind))
      ?iteration _ left s₂ ⟨ys, h₂, isLeft_of_prefixFn hys hl⟩ s₂.length_behind_le).imp ?stop
    case iteration =>
      rintro e s' ⟨ys, h', hleft⟩ ht
      simp only [Bool.and_eq_true, decide_eq_true_eq] at ht
      have hl : p.rank < (headKind s'.behind).level := by
        rw [h'.steady.headKind_behind]
        have := ht.1
        rwa [State.peekPrecedence, h'.steady.rules] at this
      refine ⟨List.length_pos_of_ne_nil fun hn => ?_, ?_⟩
      · rw [hn] at hl
        exact absurd hl (Nat.not_lt.2 hlow)
      · refine (ends_extend hE hlow hv h' hleft hl).imp ?_
        rintro d s'' ⟨us, hne, h'', hd⟩
        refine ⟨⟨ys ++ us, h'', hd⟩, ?_⟩
        have := h'.length_eq
        have := h''.length_eq
        have := List.length_pos_of_ne_nil hne
        simp only [List.length_append] at *
        omega
    case stop =>
      rintro e s' ⟨⟨ys, h', hleft⟩, ht⟩
      refine ⟨⟨ys, h', hleft.1⟩, ?_⟩
      rw [h'.steady.headKind_behind]
      by_contra hl
      have hl : p < s'.peekPrecedence := by
        rw [State.peekPrecedence, h'.steady.rules]
        exact Nat.lt_of_not_le hl
      simp only [hl, decide_true, Bool.true_and, Option.isSome_eq_false_iff,
        Option.isNone_iff_eq_none, h'.steady.rules] at ht
      rw [State.peekPrecedence, h'.steady.rules] at hl
      exact absurd (Rules.level_of_infixFn_none ht ▸ hl) (Nat.not_lt.2 hlow)

end Layer

lemma Bounded.reads {engine : Engine} (h : engine.Bounded) : engine.Reads := by
  induction h with
  | empty => exact ⟨⟨_, rfl⟩, fun _ _ _ _ _ _ h => .tooDeep h⟩
  | layer _ _ ih => exact ⟨⟨_, rfl⟩, fun _ p _ _ _ hv h => reads_layer ih p hv h⟩

theorem reads_ofBound (bound : Bound) : (ofBound bound).Reads := (bounded_ofBound bound).reads

end Engine

end MonkeyFront
