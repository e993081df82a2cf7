import MonkeyFront.Proofs.DigitRuns
import MonkeyFront.Proofs.Halting
import MonkeyFront.Proofs.Segments
import MonkeyFront.Proofs.IllegalCharacters

namespace MonkeyFront

/-! ### Readers -/

/-- In front of the end of a text each outcome takes a character at least. -/
lemma Cursor.Yields.lt {text : List Char} {k k' : Nat} {x : Scanned} (h : Yields text k x k')
    (hk : k < text.length) : k < k' := by
  cases h with
  | ending => exact hk
  | token hi _ hne _ hrun =>
    have hle := add_length_le hne hrun
    omega
  | fault hi hne hrun =>
    have hle := add_length_le hne hrun
    omega

namespace Reader

variable {source : String}

lemma Counts.pos_lt_next {r : Reader} (h : r.Counts) (hr : r.ended = false) :
    r.pos < r.next.2.pos := by
  refine h.yields.lt (lt_of_le_of_ne h.pos_le fun he => ?_)
  rw [h.ended.2 he] at hr
  cases hr

lemma counts_after (source : String) (i : Nat) :
    ((ofText source).after i).Counts ∧ ((ofText source).after i).text = source.toList := by
  obtain ⟨hcounts, htext, -⟩ := counts_ofText source
  obtain ⟨_, hgoes⟩ := hcounts.goes_after i
  exact ⟨hgoes.counts, hgoes.text.trans htext⟩

/-- The end of input is what is yielded at the call behind all that the text yields, and from then
on. -/
lemma eof_outcome_iff (source : String) (i : Nat) :
    (∃ t, outcome source i = .ok t ∧ t.kind = .eof) ↔ (Scan.ofText source).items.length ≤ i := by
  rw [outcome_eq]
  constructor
  · rintro ⟨t, ht, hk⟩
    by_contra hlt
    rw [List.getD_eq_getElem _ _ (by omega)] at ht
    exact Scan.kind_items source (ht ▸ List.getElem_mem _) hk
  · intro hi
    rw [List.getD_eq_default _ _ hi]
    exact ⟨_, rfl, Scan.kind_last source⟩

/-- As long as the end of input is not yielded, each call has taken a character at least. -/
lemma le_pos_after {i : Nat} (hi : i ≤ (Scan.ofText source).items.length) :
    i ≤ ((ofText source).after i).pos := by
  induction i with
  | zero => exact Nat.zero_le _
  | succ i ih =>
    obtain ⟨hcounts, htext⟩ := counts_after source i
    have hended : ((ofText source).after i).ended = false := by
      by_contra hended
      have hpos := hcounts.ended.1 (by simpa using hended)
      have hnext := congrArg Prod.fst (hcounts.next_of_pos_eq hpos)
      have := (eof_outcome_iff source i).1 ⟨_, hnext, rfl⟩
      omega
    have hlt := hcounts.pos_lt_next hended
    have := ih (by omega)
    rw [after_succ]
    omega

lemma length_items_le (source : String) : (Scan.ofText source).items.length ≤ source.length := by
  obtain ⟨hcounts, htext⟩ := counts_after source (Scan.ofText source).items.length
  have hle := hcounts.pos_le
  rw [htext, String.length_toList] at hle
  exact (le_pos_after le_rfl).trans hle

/-- The tokens of a text are what the calls yield up to the first end of input. -/
lemma map_ok_eq_outcomes {tokens : List Token} (h : tokenize source = .ok tokens) :
    tokens.map .ok =
      (List.range ((Scan.ofText source).items.length + 1)).map (outcome source) := by
  obtain ⟨ts, hitems, rfl⟩ := tokenize_eq_ok.1 h
  have hbefore : (List.range (Scan.ofText source).items.length).map (outcome source) =
      (Scan.ofText source).items := by
    refine List.ext_getElem (by simp) fun i hi hi' => ?_
    rw [List.getElem_map, List.getElem_range, outcome_eq, List.getD_eq_getElem _ _ hi']
  rw [List.map_append, ← hitems, List.range_succ, List.map_append, hbefore, List.map_singleton,
    List.map_singleton, outcome_eq, List.getD_eq_default _ _ le_rfl]

end Reader

/-! ### Parsers -/

/-- The tokens of a text that are neither illegal characters nor the end of input. -/
def statementTokens (tokens : List Token) : List Token :=
  tokens.filter fun t => t.kind ≠ .illegal ∧ t.kind ≠ .eof

/-- The parser has come to the end of input outside all blocks and has reported all illegal
characters. -/
structure State.IsExhausted (s : State) : Prop where
  current : s.current.kind = .eof
  peek : s.peek.kind = .eof
  upcoming : s.upcoming = []
  depth : s.depth = 0
  skipped : s.skipped = []

/-- A parser starts in front of all tokens that may belong to a statement. -/
lemma State.Starts.ahead_eq {source : String} {s : State} (h : s.Starts (.ofText source))
    {tokens : List Token} (htokens : tokenize source = .ok tokens) :
    s.ahead = statementTokens tokens := by
  obtain ⟨ts, hitems, rfl⟩ := tokenize_eq_ok.1 htokens
  have hlast : (Scan.ofText source).last.kind = .eof := Scan.kind_last source
  have hts : ∀ t ∈ ts, t.kind ≠ .eof := fun t ht =>
    Scan.kind_items source (hitems ▸ List.mem_map_of_mem ht)
  rw [h.ahead, hitems, tokensIn_map_ok, statementTokens, List.filter_append,
    List.filter_cons_of_neg (by simp [hlast]), List.filter_nil, List.append_nil]
  exact List.filter_congr fun t ht => by simp [hts t ht]

namespace Engine

variable {engine : Engine} {s s' : State}

lemma program_of_eof (engine : Engine) (h : s.current.kind = .eof) :
    engine.program s = .ok [] s := by
  have hloop : collectWhile (fun s => s.current.kind != .eof) engine.iteration s.tokensLeft s =
      .ok [] s := by
    rw [collectWhile_eq]
    exact (LoopEnds.stop (by simpa using h)).repeatWhile_eq (Nat.zero_le _)
  change (collectWhile (fun s => s.current.kind != .eof) engine.iteration s.tokensLeft >>=
    fun rs => pure (rs.filterMap id)) s = _
  simp only [bind, EStateM.bind, hloop]
  rfl

lemma HasIterated.length_eq {r : Option (Stmt Token)} (h : engine.HasIterated s r s') :
    r.toList.length + s'.complaints.length = s.complaints.length + 1 := by
  cases h with
  | read _ _ h =>
    rw [h.toFollows.complaints_eq, Option.toList_some, List.length_singleton, Nat.add_comm]
  | abandoned _ _ h hf =>
    rw [hf.complaints_eq, h.complaints_eq, List.length_append, List.length_singleton,
      Option.toList_none, List.length_nil, Nat.zero_add]

lemma Iterations.length_le (hE : engine.Reads) {rs : List (Option (Stmt Token))}
    (h : engine.Iterations s rs s') (hs : s.Steady) (hd : s.depth = 0) :
    (rs.filterMap id).length + s'.complaints.length + s'.ahead.length ≤
      s.complaints.length + s.ahead.length := by
  induction h with
  | nil s => simp
  | @cons s s₁ s' r rs hc ht _ ih =>
    have h := (ends_iteration hE hs hd).of_ok ht
    have hrun : collecting engine.iteration [] s = .ok [r] s₁ := by
      simp only [collecting, bind, EStateM.bind, ht]
      rfl
    have htaken := ((takesTokens_program hE [] s hs (by simpa using hc)).2.of_ok hrun).length
    have hone := h.length_eq
    have hrest := ih h.steady (h.depth hd)
    have hsplit : (r :: rs).filterMap id = r.toList ++ rs.filterMap id := by
      cases r <;> rfl
    rw [hsplit, List.length_append]
    omega

end Engine

/-- A recovering parser comes to the end of a text that has tokens, where nothing is left over. -/
lemma exists_exhausted (bound : Bound) {source : String} {tokens : List Token}
    (htokens : tokenize source = .ok tokens) : ∃ s p s',
      State.start .standard true (.ofText source) = .ok s ∧
      (Engine.ofBound bound).program s = .ok p s' ∧
      p.length + s'.complaints.length ≤ (statementTokens tokens).length ∧ s'.IsExhausted := by
  have hE := Engine.reads_ofBound bound
  obtain ⟨s, rs₀, s₀, hstart, -, -, hparse₀⟩ := exists_iterations bound htokens
  obtain ⟨t, outcome, hstart', hparse, hends⟩ := exists_program bound true htokens
  obtain rfl := Except.ok.inj (hstart.symm.trans hstart')
  obtain ⟨hs, -⟩ := State.starts hstart
  cases hrun : (Engine.ofBound bound).program s with
  | error f s' =>
    obtain ⟨d, -, rfl⟩ := hends.of_error hrun
    cases Except.ok.inj (hparse₀.symm.trans hparse)
  | ok p s' =>
    obtain ⟨rs, hrs, hend, rfl⟩ := (Engine.ends_program hE hs.steady hs.depth).of_ok hrun
    obtain ⟨hs', hd', -⟩ := hrs.keep hE hs.steady hs.depth
    have hcount := hrs.length_le hE hs.steady hs.depth
    have hnone := hrs.nonePending hE hs.steady hs.depth (.of_start hstart)
    have hpeek : s'.peek.kind = .eof := by
      rw [(hs'.current hend).2]
      exact hs'.last
    have hskipped := (List.append_eq_nil_iff.1 (hnone hend)).1
    refine ⟨s, _, s', hstart, hrun, ?_, hend, hpeek, (hs'.peek hpeek).2, hd', hskipped⟩
    rw [hs.ahead_eq htokens, hs.complaints, List.length_nil, Nat.zero_add] at hcount
    exact (Nat.le_add_right _ _).trans hcount

/-- Reading ends on every text. A call of a reader takes a character at least, whether it yields a
token or fails, unless the input has ended; so no more calls than there are characters come before
the end of input, and these yield the tokens. A recovering parser comes to the end of a text that
has tokens with no more statements and complaints than there are tokens, and nothing is left over:
to parse on yields nothing and changes nothing. In all states that it can come to, its loops end
without their bounds, and take a token at each iteration. -/
theorem reading_ends (source : String) :
    (∀ i, ((Reader.ofText source).after i).ended = false →
      ((Reader.ofText source).after i).pos < ((Reader.ofText source).after (i + 1)).pos) ∧
    (∃ n ≤ source.length,
      (∀ i, (∃ t, Reader.outcome source i = .ok t ∧ t.kind = .eof) ↔ n ≤ i) ∧
      ∀ tokens, tokenize source = .ok tokens →
        tokens.map .ok = (List.range (n + 1)).map (Reader.outcome source)) ∧
    ∀ tokens, tokenize source = .ok tokens → tokens.length ≤ source.length + 1 ∧
      ∀ bound, ∃ s p s', State.start .standard true (.ofText source) = .ok s ∧
        (Engine.ofBound bound).program s = .ok p s' ∧
        p.length + (s'.diagnostics.filter (·.complaint.isStructural)).length ≤
          (statementTokens tokens).length ∧
        s'.IsExhausted ∧ (Engine.ofBound bound).program s' = .ok [] s' ∧
        ∀ {α : Type} (test : State → α → Bool) (step : α → Parse α),
          Engine.HasLoop test step →
          ∀ s₁, s.Reaches s₁ → s₁.rules = .standard → ∀ a, ∃ n ≤ s₁.ahead.length,
            LoopEnds test step n a s₁ (repeatWhile test step s₁.tokensLeft a s₁) := by
  refine ⟨fun i hi => ?calls, ⟨_, Reader.length_items_le source, Reader.eof_outcome_iff source,
    fun tokens => Reader.map_ok_eq_outcomes⟩, fun tokens htokens => ⟨?count, fun bound => ?parse⟩⟩
  case calls =>
    rw [Reader.after_succ]
    exact (Reader.counts_after source i).1.pos_lt_next hi
  case count =>
    have hcalls := congrArg List.length (Reader.map_ok_eq_outcomes htokens)
    have hle := Reader.length_items_le source
    rw [List.length_map, List.length_map, List.length_range] at hcalls
    omega
  case parse =>
    obtain ⟨s, p, s', hstart, hrun, hcount, hend⟩ := exists_exhausted bound htokens
    refine ⟨s, p, s', hstart, hrun, hcount, hend, Engine.program_of_eof _ hend.current,
      fun test step hloop s₁ hs₁ hrules a => ?_⟩
    have hsteady := hs₁.steady (State.starts hstart).1.steady hrules
    exact hloop.exists_loopEnds hsteady a

/-- A text of a statement between two that are abandoned, the first behind an illegal character. -/
theorem reading_ends_around_abandoned : ∃ tokens s p s',
    tokenize "f(a @; b) c" = .ok tokens ∧ tokens.length ≤ 12 ∧
      ((Reader.ofText "f(a @; b) c").after 0).pos <
        ((Reader.ofText "f(a @; b) c").after 1).pos ∧
      State.start .standard true (.ofText "f(a @; b) c") = .ok s ∧
      (Engine.ofBound 10).program s = .ok p s' ∧ s'.IsExhausted ∧
      (Engine.ofBound 10).program s' = .ok [] s' ∧
      ∃ n ≤ s.ahead.length, LoopEnds (fun s _ => s.current.kind != .eof)
        (collecting (Engine.ofBound 10).iteration) n [] s
        (repeatWhile (fun s _ => s.current.kind != .eof) (collecting (Engine.ofBound 10).iteration)
          s.tokensLeft [] s) := by
  cases htokens : tokenize "f(a @; b) c" with
  | error e => cases (show tokenize "f(a @; b) c" = .ok _ from rfl).symm.trans htokens
  | ok tokens =>
    obtain ⟨hcalls, -, hparse⟩ := reading_ends "f(a @; b) c"
    obtain ⟨hlength, hparse⟩ := hparse tokens htokens
    obtain ⟨s, p, s', hstart, hrun, -, hend, hagain, hloops⟩ := hparse 10
    have hrules := (State.starts hstart).1.steady.rules
    exact ⟨tokens, s, p, s', rfl, hlength, hcalls 0 rfl, hstart, hrun, hend, hagain,
      hloops _ _ (.program (Engine.bounded_ofBound 10)) s .refl hrules []⟩

end MonkeyFront
