import MonkeyFront.Proofs.Faults
import MonkeyFront.Proofs.Pulls
import MonkeyFront.Proofs.Relocation

namespace MonkeyFront

/-! ### Trees -/

section Trees

variable {τ : Type}

mutual

lemma Expr.map_id (e : Expr τ) : e.map id = e := by
  match e with
  | .name _ | .integer _ | .boolean _ => rfl
  | .unary t right => rw [Expr.map, right.map_id, id]
  | .binary t left right => rw [Expr.map, left.map_id, right.map_id, id]
  | .conditional t condition consequence none =>
    rw [Expr.map, condition.map_id, consequence.map_id, id]
  | .conditional t condition consequence (some alternative) =>
    rw [Expr.map, condition.map_id, consequence.map_id, alternative.map_id, id]
  | .function t parameters body => rw [Expr.map, body.map_id, List.map_id, id]
  | .call t callee arguments => rw [Expr.map, callee.map_id, Expr.mapAll_id, id]

lemma Expr.mapAll_id (es : List (Expr τ)) : Expr.mapAll id es = es := by
  match es with
  | [] => rfl
  | e :: es => rw [Expr.mapAll, e.map_id, Expr.mapAll_id]

lemma Stmt.map_id (s : Stmt τ) : s.map id = s := by
  match s with
  | .binding name value => rw [Stmt.map, value.map_id, id]
  | .result value => rw [Stmt.map, value.map_id]
  | .expression t value => rw [Stmt.map, value.map_id, id]
  | .block body => rw [Stmt.map, body.map_id]

lemma Stmt.mapAll_id (ss : List (Stmt τ)) : Stmt.mapAll id ss = ss := by
  match ss with
  | [] => rfl
  | s :: ss => rw [Stmt.mapAll, s.map_id, Stmt.mapAll_id]

lemma Block.map_id (b : Block τ) : b.map id = b := by
  match b with
  | .mk t statements => rw [Block.map, Stmt.mapAll_id, id]

end

end Trees

/-! ### Parsers of like texts -/

namespace Engine

variable {τ : Type} {u v : Token → τ} {R : State → State → Prop}

lemma alike_iteration (hR : IsSimulation u v R) (bound : Bound) :
    MonkeyFront.Alike R (Option.map (Stmt.map u)) (Option.map (Stmt.map v))
      (ofBound bound).iteration (ofBound bound).iteration :=
  .bind ((alike_ofBound hR bound).recoveringStatement hR) fun _ _ hab =>
    .bind hR.alike_advance fun _ _ _ => .pure hab

theorem Iterations.alike (hR : IsSimulation u v R) {bound : Bound} {s s' t : State}
    {rs : List (Option (Stmt Token))} (h : (ofBound bound).Iterations s rs s') (hst : R s t) :
    ∃ rs' t', (ofBound bound).Iterations t rs' t' ∧ R s' t' ∧
      rs.map (Option.map (Stmt.map u)) = rs'.map (Option.map (Stmt.map v)) := by
  induction h generalizing t with
  | nil => exact ⟨[], t, .nil t, hst, rfl⟩
  | @cons s s₁ s' r rs hc hiter _ ih =>
    apply Together.elim (alike_iteration hR bound s t hst)
    · rintro a b s₂ t₁ hs₂ ht₁ ⟨hab, hst₁⟩
      cases hiter.symm.trans hs₂
      obtain ⟨rs', t', hrs', hst', hrs⟩ := ih hst₁
      refine ⟨b :: rs', t', .cons (hR.kind_current hst ▸ hc) ht₁ hrs', hst', ?_⟩
      rw [List.map_cons, List.map_cons, hab, hrs]
    · rintro e f s₂ t₁ hs₂ - -
      cases hiter.symm.trans hs₂

end Engine

/-! ### Parsers within larger texts -/

lemma pull_move (f : Position → Position) (last : Token) (items : List Scanned) :
    pull (last.move f) (items.map (moveScanned f)) =
      ⟨(pull last items).illegal.map (Token.move f), moveScanned f (pull last items).token,
        (pull last items).rest.map (moveScanned f)⟩ := by
  fun_induction pull last items with
  | case1 | case2 => rfl
  | case3 t rest ht pulled ih =>
    have hk : (t.move f).kind = .illegal := ht
    rw [List.map_cons, moveScanned, pull, if_pos hk, ih]
    rfl
  | case4 t rest ht =>
    have hk : (t.move f).kind ≠ .illegal := ht
    rw [List.map_cons, moveScanned, pull, if_neg hk]
    rfl

namespace State

/-- The state in a text that begins at `base` in a larger one, in which `reported` has been reported
before. -/
def within (base : Position) (reported : List Diagnostic) (s : State) : State where
  upcoming := s.upcoming.map (moveScanned base.within)
  last := s.last.move base.within
  current := s.current.move base.within
  peek := s.peek.move base.within
  skipped := s.skipped.map (Token.move base.within)
  depth := s.depth
  diagnostics := reported ++ s.diagnostics.map (Diagnostic.move base.within)
  recover := s.recover
  rules := s.rules

variable {base : Position} {reported : List Diagnostic} {s t : State}

lemma map_move_ofIllegal (f : Position → Position) (ts : List Token) :
    (ts.map Diagnostic.ofIllegal).map (Diagnostic.move f) =
      (ts.map (Token.move f)).map Diagnostic.ofIllegal := by
  rw [List.map_map, List.map_map]
  rfl

lemma report_within (c : Complaint) (x : Token) :
    (s.within base reported).report c (x.move base.within) =
      (s.report c x).within base reported := by
  have hdue (y : Token) : (y.move base.within).span.start.offset <
      (x.move base.within).span.start.offset ↔ y.span.start.offset < x.span.start.offset := by
    simp only [Token.move, Span.move, Position.within]
    omega
  simp only [report, within, List.filter_map, Function.comp_def, hdue, List.map_append,
    map_move_ofIllegal, List.append_assoc, List.map_cons, List.map_nil]
  rfl

lemma advance_within (h : MonkeyFront.advance s = .ok () t) :
    MonkeyFront.advance (s.within base reported) = .ok () (t.within base reported) := by
  have hpull := pull_move base.within s.last s.upcoming
  simp only [MonkeyFront.advance] at h ⊢
  simp only [within, hpull]
  cases htoken : (pull s.last s.upcoming).token with
  | error e => simp [htoken] at h
  | ok u =>
    simp only [htoken, EStateM.Result.ok.injEq, true_and] at h
    subst h
    simp only [moveScanned, List.map_append, map_move_ofIllegal, List.append_assoc]

lemma overrun_within (skipped : List Token) (upcoming : List Scanned) :
    (s.within base reported).overrun (skipped.map (Token.move base.within))
      (upcoming.map (moveScanned base.within)) =
        (s.overrun skipped upcoming).within base reported := by
  simp only [overrun, within, List.map_append, map_move_ofIllegal, List.append_assoc]

lemma overrun?_within (reach : Reach) : (s.within base reported).overrun? reach =
    (s.overrun? reach).map (within base reported) := by
  cases reach with
  | stored => rfl
  | entered => exact congrArg some (overrun_within [] s.upcoming)
  | read =>
    simp only [overrun?, within]
    rcases s.upcoming with - | ⟨e | t, rest⟩
    · exact congrArg some (overrun_within [] [])
    · rfl
    · exact congrArg some (overrun_within [] rest)
  | storedUnlessNumber =>
    have hpull : pull (s.within base reported).last (s.within base reported).upcoming = _ :=
      pull_move base.within s.last s.upcoming
    simp only [overrun?, hpull]
    cases (pull s.last s.upcoming).token with
    | error e => rfl
    | ok t =>
      by_cases hint : t.kind = .int
      · simp only [moveScanned, Token.move, hint, if_true, Option.map_some]
        exact congrArg some (overrun_within _ _)
      · simp only [moveScanned, Token.move, hint, if_false, Option.map_none]

lemma start_within {rules : Rules} {recover : Bool} {scan : Scan}
    (h : start rules recover scan = .ok s) (base : Position) :
    start rules recover (scan.move base.within) = .ok (s.within base []) := by
  obtain ⟨t, u, ht, hu, rfl⟩ := start_eq_ok.1 h
  have hfirst := pull_move base.within scan.last scan.items
  have hsecond := pull_move base.within scan.last (pull scan.last scan.items).rest
  apply start_eq_ok.2
  refine ⟨t.move base.within, u.move base.within, ?_, ?_, ?_⟩
  · rw [Scan.move, hfirst, ht]
    rfl
  · rw [Scan.move, hfirst, hsecond, hu]
    rfl
  · simp only [Scan.move, hfirst, hsecond, within, map_move_ofIllegal, List.nil_append]

/-- The parser `s` does within a larger text what `t` does on its own. -/
structure Continues (base : Position) (reported : List Diagnostic) (s t : State) : Prop where
  eq : s = t.within base reported
  rules : t.rules = .standard
  upcoming : ∃ ts : List Token, t.upcoming = ts.map .ok

theorem isSimulation_continues (base : Position) (reported : List Diagnostic) :
    IsSimulation id (Token.move base.within) (Continues base reported) where
  kind h := congrArg (·.kind) h
  rules h := ⟨by rw [h.eq]; exact h.rules, h.rules⟩
  current h := by rw [h.eq]; rfl
  peek h := by rw [h.eq]; rfl
  depth h := by rw [h.eq]; rfl
  recover h := by rw [h.eq]; rfl
  tokensLeft h := by rw [h.eq, tokensLeft, within, List.length_map]; rfl
  setDepth n h := ⟨by rw [h.eq]; rfl, h.rules, h.upcoming⟩
  reportCurrent c _ h := ⟨by rw [h.eq]; exact report_within c _, h.rules, h.upcoming⟩
  reportPeek c _ h := ⟨by rw [h.eq]; exact report_within c _, h.rules, h.upcoming⟩
  advance {s t} h := by
    obtain ⟨ts, hts⟩ := h.upcoming
    obtain ⟨i, -, x, -, us, -, hpull, -⟩ := exists_pulls (rfl : t.last.toLexeme = t.last.toLexeme)
      (rfl : lexemes ts = lexemes ts)
    rw [← hts] at hpull
    obtain ⟨t', hrun, hrules, hupcoming⟩ : ∃ t', MonkeyFront.advance t = .ok () t' ∧
        t'.rules = t.rules ∧ t'.upcoming = us.map .ok := by
      simp only [MonkeyFront.advance, hpull]
      exact ⟨_, rfl, rfl, rfl⟩
    rw [h.eq]
    exact ⟨_, t', advance_within hrun, hrun, rfl, hrules.trans h.rules, us, hupcoming⟩
  overrun {s t} reach h := by
    rw [h.eq, overrun?_within]
    cases hoverrun : t.overrun? reach with
    | none => exact .none
    | some t' =>
      have ho := overruns_of_overrun? hoverrun
      obtain ⟨ts, hts⟩ := h.upcoming
      have hsuffix := ho.upcoming_suffix
      rw [hts, List.suffix_iff_eq_drop, ← List.map_drop] at hsuffix
      exact .some ⟨rfl, ho.rules_eq.trans h.rules, _, hsuffix⟩

end State

/-! ### The beginnings of iterations -/

lemma kind_pull {last t : Token} {items : List Scanned} (hlast : last.kind ≠ .illegal)
    (h : (pull last items).token = .ok t) : t.kind ≠ .illegal := by
  fun_induction pull last items with
  | case1 =>
    obtain rfl := Except.ok.inj h
    exact hlast
  | case2 => cases h
  | case3 u rest _ pulled ih => exact ih h
  | case4 u rest hu =>
    obtain rfl := Except.ok.inj h
    exact hu

namespace State.HasJustPulled

variable {scan : Scan} {n : Nat} {s s' : State}

/-- Iterations begin where the parser has just pulled, unless the stack has run out. -/
lemma of_iterations (h : s.HasJustPulled scan n) (hscan : scan.Ordered) {bound : Bound}
    {rs : List (Option (Stmt Token))} (hrs : (Engine.ofBound bound).Iterations s rs s')
    (hshallow : ∀ d ∈ s'.diagnostics, d.complaint ≠ .nestedTooDeeply) :
    ∃ m, s'.HasJustPulled scan m := by
  have hE := Engine.takesSteps_ofBound bound
  induction hrs generalizing n with
  | nil => exact ⟨n, h⟩
  | @cons s s₁ s' r rs _ hiter hrs ih =>
    have hlater := (hrs.reaches hE).prefix_diagnostics
    have hends : Ends (Engine.ofBound bound).iteration s
        (fun _ s₂ => s₂.diagnostics <+: s'.diagnostics → ∃ m, s₂.HasJustPulled scan m)
        (fun _ _ => True) := by
      unfold Engine.iteration
      rw [ends_bind]
      refine (hE.recoveringStatement s).mono (fun a s₂ hs₂ => ?_) fun _ _ _ => trivial
      rw [ends_bind]
      refine .of_run fun _ s₃ hrun hextends => ?_
      have hearlier := (State.prefix_of_advance hrun).trans hextends
      obtain ⟨m, -, h₂⟩ :=
        h.toHasPulled.of_reaches hscan hs₂ fun d hd => hshallow d (hearlier.subset hd)
      exact ⟨m + 1, h₂.advance hrun⟩
    obtain ⟨m, h₁⟩ := hends.of_ok hiter hlater
    exact ih h₁ hshallow

lemma exists_items (h : s.HasJustPulled scan n) (hc : s.current ≠ scan.last) :
    ∃ before, scan.items = before ++ .ok s.current :: scan.left (n + 1) := by
  obtain ⟨before, hitems, -⟩ := scan.exists_before n
  have hcurrent : (pull scan.last (scan.left n)).token = .ok s.current := h.current
  rcases eq_pull scan.last (scan.left n) with hleft | ⟨-, hlast, -⟩
  · rw [hcurrent] at hleft
    refine ⟨before ++ (pull scan.last (scan.left n)).illegal.map .ok, ?_⟩
    rw [List.append_assoc]
    exact hitems.trans (congrArg _ hleft)
  · exact absurd (Except.ok.inj (hcurrent.symm.trans hlast)) hc

/-- A parser that has just pulled is, apart from what it has reported, a fresh parser in front of
any outcomes of which its current token is pulled and after which the same outcomes are left. -/
lemma start_eq (h : s.HasJustPulled scan n) (hrules : s.rules = .standard) (hdepth : s.depth = 0)
    {recover : Bool} (hrecover : s.recover = recover) {items : List Scanned}
    (hcurrent : (pull scan.last items).token = .ok s.current)
    (hrest : (pull scan.last items).rest = scan.left (n + 1)) :
    start .standard recover ⟨items, scan.last⟩ =
      .ok { s with diagnostics := (pull scan.last items).illegal.map .ofIllegal } := by
  subst hrecover
  apply start_eq_ok.2
  refine ⟨s.current, s.peek, hcurrent, ?_, ?_⟩
  · rw [hrest]
    exact h.peek
  · rw [hrest, ← hrules, ← hdepth, ← h.last]
    have hpending := h.pending
    have hupcoming := h.upcoming
    rw [Scan.pulled, ← h.last] at hpending
    rw [Scan.left, ← h.last] at hupcoming
    rw [← hpending, ← hupcoming]

end State.HasJustPulled

lemma exists_tokens_of_move {source : String} {f : Position → Position} {ts : List Token}
    (h : ((Scan.ofText source).move f).items = ts.map .ok) :
    ∃ tokens, tokenize source = .ok tokens := by
  cases htokens : tokenize source with
  | ok tokens => exact ⟨tokens, rfl⟩
  | error e =>
    obtain ⟨x, hx, he⟩ := List.exists_of_findSome?_eq_some (tokenize_eq_error.1 htokens)
    cases x with
    | ok t => cases he
    | error e' =>
      have hmem : moveScanned f (.error e') ∈ ts.map Except.ok := h ▸ List.mem_map_of_mem hx
      simp [moveScanned] at hmem

namespace State

/-- A parser starts like another one in a text that stands within a larger one, but has reported
something before. -/
lemma Continues.of_start {base : Position} {reported ds : List Diagnostic} {source : String}
    {tokens : List Token} (htokens : tokenize source = .ok tokens) {s t : State}
    (hs : start .standard true ((Scan.ofText source).move base.within) =
      .ok { s with diagnostics := ds })
    (hreported : s.diagnostics = reported ++ ds)
    (ht : start .standard true (.ofText source) = .ok t) : s.Continues base reported t := by
  obtain ⟨ts, hitems, -⟩ := tokenize_eq_ok.1 htokens
  have hstarts := (State.starts ht).1
  have hsame : { s with diagnostics := ds } = t.within base [] :=
    Except.ok.inj (hs.symm.trans (start_within ht base))
  refine ⟨?_, hstarts.steady.rules, ?_⟩
  · have hds : ds = t.diagnostics.map (Diagnostic.move base.within) :=
      congrArg State.diagnostics hsame
    have hall := congrArg (fun u : State => { u with diagnostics := s.diagnostics }) hsame
    rw [hreported, hds] at hall
    rw [hds] at hreported
    rw [← hreported] at hall
    exact hall.trans (by rw [hreported]; rfl)
  · have hsuffix := hstarts.upcoming
    rw [hitems, List.suffix_iff_eq_drop, ← List.map_drop] at hsuffix
    exact ⟨_, hsuffix⟩

/-- What iterations yield and report within a larger text, a parse of the text on its own yields and
reports. -/
theorem Continues.parse_eq {base : Position} {reported : List Diagnostic} {source : String}
    {tokens : List Token} (htokens : tokenize source = .ok tokens) {s s' t : State}
    (ht : start .standard true (.ofText source) = .ok t) (h : s.Continues base reported t)
    {bound : Bound} {rs : List (Option (Stmt Token))}
    (hrs : (Engine.ofBound bound).Iterations s rs s') (hend : s'.current.kind = .eof) :
    ∃ p ds, parseWithin bound true source = .ok ⟨.ok p, ds⟩ ∧
      rs.filterMap id = p.map (Stmt.map (Token.move base.within)) ∧
      s'.diagnostics = reported ++ ds.map (Diagnostic.move base.within) := by
  obtain ⟨t₀, us, t', ht₀, hus, hend', hparse⟩ := exists_iterations bound htokens
  obtain rfl := Except.ok.inj (ht.symm.trans ht₀)
  obtain ⟨us', t'', hus', hs', hyields⟩ := hrs.alike (isSimulation_continues base reported) h
  have hend'' : t''.current.kind = .eof :=
    ((isSimulation_continues base reported).kind_current hs').symm.trans hend
  obtain ⟨vs, rfl, hvs⟩ := hus'.split hus hend'
  cases hvs with
  | cons hc => exact absurd hend'' hc
  | nil =>
    rw [List.append_nil] at hparse
    refine ⟨_, _, hparse, ?_, by rw [hs'.eq]; rfl⟩
    have hid : (Stmt.map id : Stmt Token → Stmt Token) = id := funext Stmt.map_id
    have hfilter := congrArg List.reduceOption hyields
    rw [hid, Option.map_id, List.map_id, List.reduceOption_map] at hfilter
    exact hfilter

end State

/-- Wherever a recovering parser of a text that has tokens begins with a statement, be it behind
statements that were read or behind abandoned ones, of which none nests too deeply, it yields and
reports from there on what a parser of the text that begins at the current token yields and reports,
in other places. -/
theorem recovery_leaves_no_residue (bound : Bound) {source : String} {tokens : List Token}
    (h : tokenize source = .ok tokens) {s₀ s : State} {rs : List (Option (Stmt Token))}
    (hstart : State.start .standard true (.ofText source) = .ok s₀)
    (hrs : (Engine.ofBound bound).Iterations s₀ rs s) (hc : s.current.kind ≠ .eof)
    (hshallow : ∀ d ∈ s.diagnostics, d.complaint ≠ .nestedTooDeeply) :
    ∃ later s' p ds, (Engine.ofBound bound).Iterations s later s' ∧ s'.current.kind = .eof ∧
      parseWithin bound true source = .ok ⟨.ok ((rs ++ later).filterMap id), s'.diagnostics⟩ ∧
      parseWithin bound true (textFrom source s.current) = .ok ⟨.ok p, ds⟩ ∧
      later.filterMap id = p.map (Stmt.map (Token.move s.current.span.start.within)) ∧
      s'.diagnostics = s.diagnostics ++ ds.map (Diagnostic.move s.current.span.start.within) := by
  obtain ⟨s₁, us, s', hstart', hus, hend, hparse⟩ := exists_iterations bound h
  obtain rfl := Except.ok.inj (hstart.symm.trans hstart')
  obtain ⟨later, rfl, hlater⟩ := hrs.split hus hend
  obtain ⟨hstarts, hrecover⟩ := State.starts hstart
  obtain ⟨hs, hd, hr, -⟩ := hrs.keep (Engine.reads_ofBound bound) hstarts.steady hstarts.depth
  obtain ⟨n, hpulled⟩ :=
    (State.HasJustPulled.of_start hstart).of_iterations (Scan.ordered source) hrs hshallow
  have hlast := Scan.kind_last source
  obtain ⟨before, hitems⟩ := hpulled.exists_items fun he => hc (he ▸ hlast)
  have hfirst : pull (Scan.ofText source).last
      (.ok s.current :: (Scan.ofText source).left (n + 1)) =
        ⟨[], .ok s.current, (Scan.ofText source).left (n + 1)⟩ := by
    rw [pull, if_neg (kind_pull (by rw [hlast]; decide) hpulled.current)]
  have hfresh := hpulled.start_eq hs.rules hd (hr.trans hrecover) (by rw [hfirst]) (by rw [hfirst])
  have hfrom := Scan.move_textFrom hitems
  obtain ⟨ts, hts, -⟩ := tokenize_eq_ok.1 h
  have hbehind : ((Scan.ofText (textFrom source s.current)).move
      s.current.span.start.within).items = (ts.drop before.length).map .ok := by
    rw [hfrom, List.map_drop, ← hts, hitems, List.drop_left]
  obtain ⟨tokens', htokens'⟩ := exists_tokens_of_move hbehind
  rw [hfirst, ← hfrom] at hfresh
  obtain ⟨t, ht⟩ := State.exists_start htokens' .standard true
  have hcontinues := State.Continues.of_start htokens' hfresh (List.append_nil _).symm ht
  obtain ⟨p, ds, hparse', hyields, hreported⟩ := hcontinues.parse_eq htokens' ht hlater hend
  exact ⟨later, s', p, ds, hlater, hend, hparse, hparse', hyields, hreported⟩

lemma run_abandoned_binding :
    (match State.start .standard true (.ofText "let = 1; x @ 2") with
    | .error _ => false
    | .ok s₀ => match (Engine.ofBound 10).iteration s₀ with
      | .ok none s => s₀.current.kind != .eof && s.current.toLexeme == ⟨.ident, "x"⟩ &&
        s.skipped.length == 1 && s.diagnostics.length == 1 &&
        s.diagnostics.all (·.complaint ≠ .nestedTooDeeply)
      | _ => false) = true := by
  decide +kernel

/-- Behind an abandoned binding a name is read, with an illegal character behind it that the parser
has pulled already, as if the text began with it. -/
theorem recovery_leaves_no_residue_behind_binding : ∃ tokens s₀ s later s' p ds,
    tokenize "let = 1; x @ 2" = .ok tokens ∧
      State.start .standard true (.ofText "let = 1; x @ 2") = .ok s₀ ∧
      (Engine.ofBound 10).Iterations s₀ [none] s ∧ s.current.toLexeme = ⟨.ident, "x"⟩ ∧
      s.skipped.length = 1 ∧ s.diagnostics.length = 1 ∧
      (Engine.ofBound 10).Iterations s later s' ∧ s'.current.kind = .eof ∧
      parseWithin 10 true "let = 1; x @ 2" =
        .ok ⟨.ok (later.filterMap id), s'.diagnostics⟩ ∧
      parseWithin 10 true (textFrom "let = 1; x @ 2" s.current) = .ok ⟨.ok p, ds⟩ ∧
      later.filterMap id = p.map (Stmt.map (Token.move s.current.span.start.within)) ∧
      s'.diagnostics = s.diagnostics ++ ds.map (Diagnostic.move s.current.span.start.within) := by
  have hrun := run_abandoned_binding
  cases htokens : tokenize "let = 1; x @ 2" with
  | error e => cases (show tokenize "let = 1; x @ 2" = .ok _ from rfl).symm.trans htokens
  | ok tokens =>
    cases hstart : State.start .standard true (.ofText "let = 1; x @ 2") with
    | error e => simp only [hstart, Bool.false_eq_true] at hrun
    | ok s₀ =>
      simp only [hstart] at hrun
      split at hrun
      · next s hiter =>
        simp only [Bool.and_eq_true, bne_iff_ne, ne_eq, beq_iff_eq, List.all_eq_true,
          decide_eq_true_eq] at hrun
        obtain ⟨⟨⟨⟨hc₀, hname⟩, hskipped⟩, hreported⟩, hshallow⟩ := hrun
        have hiters : (Engine.ofBound 10).Iterations s₀ [none] s := .cons hc₀ hiter (.nil s)
        have hc : s.current.kind ≠ .eof := by rw [hname]; decide
        obtain ⟨later, s', p, ds, hlater, hend, hparse, hfresh, hyields, hds⟩ :=
          recovery_leaves_no_residue 10 htokens hstart hiters hc hshallow
        exact ⟨tokens, s₀, s, later, s', p, ds, rfl, rfl, hiters, hname, hskipped, hreported,
          hlater, hend, hparse, hfresh, hyields, hds⟩
      · cases hrun

end MonkeyFront
