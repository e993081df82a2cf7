import MonkeyFront.Proofs.Acceptance
import MonkeyFront.Proofs.Spacing
import MonkeyFront.Limits

namespace MonkeyFront

/-- A name that is called `n` times over, without arguments. -/
def callChainLexemes (n : Nat) : List Lexeme :=
  ⟨.ident, "f"⟩ :: (List.replicate n [⟨.lparen, "("⟩, ⟨.rparen, ")"⟩]).flatten

/-- The tokens `ts` call `e` over and over, without arguments, which comes to `e'`. -/
inductive CallsOver : Expr Token → List Token → Expr Token → Prop
  | nil (e : Expr Token) : CallsOver e [] e
  | cons {e e' : Expr Token} {l r : Token} {ts : List Token} : l.kind = .lparen →
      r.kind = .rparen → CallsOver (.call l e []) ts e' → CallsOver e (l :: r :: ts) e'

lemma exists_callsOver {ts : List Token} {n : Nat} (e : Expr Token)
    (h : ts.map Token.toLexeme = (List.replicate n [⟨.lparen, "("⟩, ⟨.rparen, ")"⟩]).flatten) :
    ∃ e', CallsOver e ts e' ∧
      ∀ costs : FrameCosts, n * costs.callee + e.erase.frames costs ≤ e'.erase.frames costs := by
  induction n generalizing ts e with
  | zero =>
    obtain rfl : ts = [] := List.map_eq_nil_iff.1 h
    exact ⟨e, .nil e, fun costs => by rw [Nat.zero_mul, Nat.zero_add]⟩
  | succ n ih =>
    simp only [List.replicate_succ, List.flatten_cons, List.cons_append, List.nil_append,
      List.map_eq_cons_iff] at h
    obtain ⟨l, _, rfl, hl, r, ts, rfl, hr, hts⟩ := h
    obtain ⟨e', hcalls, hframes⟩ := ih (.call l e []) hts
    refine ⟨e', .cons (congrArg Lexeme.kind hl) (congrArg Lexeme.kind hr) hcalls, fun costs => ?_⟩
    have hcall := hframes costs
    simp only [Expr.erase, Expr.map, Expr.mapAll, Expr.frames] at hcall ⊢
    rw [Nat.succ_mul]
    omega

def Failure.IsScan : Failure → Prop
  | .scan _ => True
  | _ => False

namespace State.IsBefore

variable {s : State} {ts : List Token}

lemma advance_scan (h : s.IsBefore ts) :
    Ends MonkeyFront.advance s (fun _ s' => s'.IsAt ts) (fun f _ => f.IsScan) := by
  apply (ends_advance h.steady).mono
  · rintro _ s' ⟨hs, ha, -⟩
    exact ⟨hs.steady, ha.trans h.behind⟩
  · rintro f - ⟨e, rfl, -⟩
    trivial

end State.IsBefore

namespace Engine

variable {engine : Engine} {engines : Site → Engine} {s : State} {ts : List Token}
variable {e e' : Expr Token}

lemma ends_extend_call {l r : Token} (hl : l.kind = .lparen) (hr : r.kind = .rparen)
    (hs : s.IsBefore (l :: r :: ts)) : Ends (extend engines e) s
      (fun a s' => a = .call l e [] ∧ s'.IsBefore ts) (fun f _ => f.IsScan) := by
  have hpeek : s.peek.kind = .lparen := hs.kind.trans hl
  have hinfixFn : Rules.standard.infixFn .lparen = some .call := rfl
  simp only [extend, ends_bind, ends_get, hs.steady.rules, hpeek, hinfixFn]
  apply hs.advance_scan.imp
  intro _ s₁ h₁
  simp only [applyInfixFn, callExpression, arguments, ends_bind, ends_get, ends_pure]
  rw [if_pos (h₁.pass.kind.trans hr)]
  simp only [ends_bind, ends_pure]
  apply h₁.pass.advance_scan.imp
  intro _ s₂ h₂
  exact ⟨by rw [h₁.current], h₂.pass⟩

lemma ends_goOn_calls (h : CallsOver e ts e') (hs : s.IsBefore ts) {n : Nat} (hn : ts.length ≤ n) :
    Ends (goOn engines .lowest n e) s (fun a s' => a = e' ∧ s'.IsBefore [])
      (fun f _ => f.IsScan) := by
  induction h generalizing s n with
  | nil e =>
    cases n with
    | zero => exact ⟨rfl, hs⟩
    | succ n =>
      have hp : ¬Precedence.lowest < s.peekPrecedence := by
        rw [State.peekPrecedence, hs.steady.rules, hs.kind]
        decide
      simp only [goOn, repeatWhile, ends_bind, ends_get, hp, decide_false, Bool.false_and]
      exact ⟨rfl, hs⟩
  | @cons e e' l r ts hl hr _ ih =>
    cases n with
    | zero => simp at hn
    | succ n =>
      have hpeek : s.peek.kind = .lparen := hs.kind.trans hl
      have hp : Precedence.lowest < s.peekPrecedence := by
        rw [State.peekPrecedence, hs.steady.rules, hpeek]
        decide
      have hinfixFn : (Rules.standard.infixFn .lparen).isSome = true := rfl
      simp only [goOn, repeatWhile, ends_bind, ends_get, hp, decide_true, Bool.true_and,
        hs.steady.rules, hpeek, hinfixFn, if_true]
      apply (ends_extend_call hl hr hs).imp
      rintro _ s₁ ⟨rfl, h₁⟩
      simp only [List.length_cons] at hn
      exact ih h₁ (by omega)

lemma ends_outerStatement_callChain {f : Token} (hf : f.kind = .ident)
    (h : CallsOver (.name f) ts e)
    (hs : s.IsAt (f :: ts)) {bound : Bound} (hbound : 0 < bound.frames) :
    Ends (ofBound bound).outerStatement s
      (fun a s' => a = .expression f e ∧ s'.IsBefore []) (fun g _ => g.IsScan) := by
  obtain ⟨engines, -, hlayer⟩ := exists_layer hbound
  have hread : Ends ((ofBound bound).expression .lowest) s (fun a s' => a = e ∧ s'.IsBefore [])
      (fun g _ => g.IsScan) := by
    have hprefixFn : Rules.standard.prefixFn .ident = some .name := rfl
    simp only [hlayer, layer, ends_bind, ends_get, hs.steady.rules, hs.current, hf, hprefixFn,
      applyPrefixFn, ends_pure]
    exact ends_goOn_calls h hs.pass hs.pass.tokensLeft
  have hstatement : Ends (ofBound bound).statement s
      (fun a s' => a = .expression f e ∧ s'.IsBefore []) (fun g _ => g.IsScan) := by
    simp only [statement, ends_bind, ends_get, hs.current, hf, expressionStatement, ends_pure]
    apply hread.imp
    rintro a s₁ ⟨rfl, h₁⟩
    apply (State.ends_skipSemicolon h₁.steady).mono
    · rintro _ s₂ ⟨hfollows, -, hbehind⟩
      exact ⟨rfl, hfollows.steady, by rw [hbehind, h₁.behind]; rfl⟩
    · rintro g - ⟨x, rfl, -⟩
      trivial
  unfold outerStatement
  rw [ends_tryCatch]
  apply hstatement.mono
  · intro a s₁ h₁
    exact h₁
  · intro g s₁ hg
    cases g with
    | scan x => exact hg
    | rejected d => exact hg.elim
    | tooDeep => exact hg.elim

/-- Where a statement goes up to the end of input there is nothing left for another one. -/
lemma Iterations.eq_singleton (hE : engine.Reads) {rs : List (Option (Stmt Token))} {s' : State}
    (h : engine.Iterations s rs s') (hs : s.Steady) (hd : s.depth = 0) (hc : s.current.kind ≠ .eof)
    (hend : s'.current.kind = .eof) {a : Stmt Token} (hends : Ends engine.outerStatement s
      (fun b s' => b = a ∧ s'.IsBefore []) (fun f _ => f.IsScan)) : rs = [some a] := by
  cases h with
  | nil => exact absurd hend hc
  | cons _ hiter hrs =>
    cases (ends_iteration hE hs hd).of_ok hiter with
    | read run ahead =>
      obtain ⟨rfl, h₁⟩ := hends.of_ok run
      cases hrs with
      | nil => rfl
      | cons hc =>
        rw [h₁.behind, State.ahead_cons hc] at ahead
        cases ahead
    | abandoned run => exact (hends.of_error run).elim

end Engine

lemma scans_callChainLexemes (n : Nat) : ∀ x ∈ callChainLexemes n, x.Scans := by
  have hname : Lexeme.Scans ⟨.ident, "f"⟩ :=
    Lexeme.scans_word (List.cons_ne_nil _ _) (List.all_eq_true.1 rfl) rfl (by decide) (by decide)
  have hopening : Lexeme.Scans ⟨.lparen, "("⟩ := Lexeme.scans_operator (by decide)
  have hclosing : Lexeme.Scans ⟨.rparen, ")"⟩ := Lexeme.scans_operator (by decide)
  exact scans_repeated hname (by simp [hopening, hclosing]) n

lemma callsOver_of_callChainLexemes {us : List Token} {n : Nat}
    (h : us.map Token.toLexeme = callChainLexemes n) : ∃ f ts e, us = f :: ts ∧ f.kind = .ident ∧
      (∀ t ∈ us, t.kind ≠ .illegal) ∧ CallsOver (.name f) ts e ∧
      ∀ costs : FrameCosts, n * costs.callee ≤ e.erase.frames costs := by
  have hlegal := kind_ne_illegal_of_scans (h ▸ scans_callChainLexemes n)
  obtain ⟨f, ts, rfl, hf, hts⟩ := List.map_eq_cons_iff.1 h
  obtain ⟨e, hcalls, hframes⟩ := exists_callsOver (.name f) hts
  exact ⟨f, ts, e, rfl, congrArg Lexeme.kind hf, hlegal, hcalls,
    fun costs => (Nat.le_add_right _ _).trans (hframes costs)⟩

/-- A text that scans as a chain of calls, whatever blanks there are, parses without diagnostics to
a tree that takes the frames of as many calls. -/
theorem parse_of_callChainLexemes {bound : Bound} (hbound : 0 < bound.frames) {n : Nat}
    {source : String} {us : List Token}
    (hitems : (Scan.ofText source).items = us.map .ok)
    (hlexemes : us.map Token.toLexeme = callChainLexemes n) : ∃ p : Program Token,
      parseWithin bound true source = .ok ⟨.ok p, []⟩ ∧
        ∀ costs, n * costs.callee ≤ Stmt.framesAll costs (Program.erase p) := by
  obtain ⟨f, ts, e, rfl, hf, hlegal, hcalls, hframes⟩ := callsOver_of_callChainLexemes hlexemes
  have htokens := tokenize_eq_ok.2 ⟨f :: ts, hitems, rfl⟩
  obtain ⟨s, rs, s', hstart, hrs, hend, hparse⟩ := exists_iterations bound htokens
  have hs := (State.starts hstart).1
  obtain ⟨hahead, hpending, hdiagnostics⟩ :=
    hs.of_legal htokens (Scan.kind_ne_illegal_of_append_last hlegal)
  rw [List.dropLast_concat] at hahead
  have hE := Engine.reads_ofBound bound
  have hcurrent : s.current.kind ≠ .eof := by
    intro hc
    rw [State.ahead_eq_nil hc] at hahead
    cases hahead
  obtain rfl := hrs.eq_singleton hE hs.steady hs.depth hcurrent hend
    (Engine.ends_outerStatement_callChain hf hcalls ⟨hs.steady, hahead⟩ hbound)
  have hread : (Engine.ofBound bound).Iterations s ([Stmt.expression f e].map some) s' := hrs
  obtain ⟨us, hus, hreported⟩ := (hread.follows hE hs.steady hs.depth).reported
  obtain ⟨rfl, -⟩ := List.append_eq_nil_iff.1 (hus.symm.trans hpending)
  rw [hdiagnostics] at hreported
  refine ⟨[.expression f e], ?_, fun costs => ?_⟩
  · rw [hparse, hreported]
    rfl
  · have hcalls := hframes costs
    rw [Expr.erase] at hcalls
    simp only [Program.erase, Stmt.mapAll, Stmt.map, Stmt.framesAll, Stmt.frames]
    omega

end MonkeyFront
