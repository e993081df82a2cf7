import MonkeyFront.Parsing.Program
import MonkeyFront.Proofs.Accepting
import MonkeyFront.Proofs.Derivation

namespace MonkeyFront

/-- The parser is before a statement that is spelled; the tokens `rest` behind it do not go on with
it. -/
structure State.IsAtStmt (s : State) (a : Stmt Token) (rest : List Token) : Prop where
  spelled : ∃ xs, Spells (.stmt a) xs ∧ s.IsAt (xs ++ rest)
  level : (headKind rest).level ≤ 1
  noElse : headKind rest ≠ .kwElse

lemma State.exists_isAtStmt {s : State} {ss : List (Stmt Token)} (hs : s.Steady)
    (hc : s.current.kind ≠ .eof) (h : Spells (.stmts ss) s.ahead) : ∃ a rest ss', ss = a :: ss' ∧
      s.IsAtStmt a rest ∧ Spells (.stmts ss') (dropSemicolon rest) := by
  generalize hahead : s.ahead = ts at h
  cases h with
  | noStmts => simp [State.ahead_cons hc] at hahead
  | @ended a xs t ss ys ha hk hys =>
    refine ⟨a, t :: ys, ss, rfl, ⟨⟨xs, ha, hs, hahead⟩, ?_, ?_⟩, ?_⟩
    · rw [headKind_cons, hk]
      decide
    · rw [headKind_cons, hk]
      decide
    · rwa [dropSemicolon, if_pos hk]
  | @unended a xs ss ys ha hl hk hys =>
    have he : headKind ys ≠ .kwElse := fun he => by
      rcases hys.headKind_stmts with rfl | hb
      · cases he
      · rw [he] at hb
        cases hb
    exact ⟨a, ys, ss, rfl, ⟨⟨xs, ha, hs, hahead⟩, hl, he⟩, by rwa [dropSemicolon_of_ne hk]⟩

namespace Engine

variable {engine : Engine} {s s' : State}

/-- Iterations that report nothing but illegal characters read what their tokens spell. -/
theorem Iterations.spells (hE : engine.Reads) {rs : List (Option (Stmt Token))}
    (h : engine.Iterations s rs s') (hs : s.Steady) (hd : s.depth = 0)
    (hend : s'.current.kind = .eof)
    (hclean : ∀ d ∈ s'.diagnostics, d.complaint.isStructural = false) :
    Spells (.stmts (rs.filterMap id)) s.ahead := by
  induction h with
  | nil =>
    rw [State.ahead_eq_nil hend]
    exact .noStmts
  | @cons s s₁ s' r rs _ ht hrs ih =>
    have h := (ends_iteration hE hs hd).of_ok ht
    have hlater := hrs.prefix_diagnostics hE h.steady (h.depth hd)
    have hspells := ih h.steady (h.depth hd) hend hclean
    cases h with
    | @read a s₂ ys close _ _ _ h hys ended =>
      simp only [List.filterMap_cons, id_eq]
      rw [h.ahead]
      refine hys.stmts_cons hspells (ended.imp_left ?_)
      rintro ⟨hnil, hl, hk⟩
      exact ⟨hnil, .inr ⟨hl, hk⟩⟩
    | abandoned _ _ h hf =>
      have := hclean _ (hlater.subset (h.mem_diagnostics hf))
      rw [h.reported.1] at this
      cases this

/-- Iterations that abandon nothing report the illegal characters that they pass and nothing else.
-/
theorem Iterations.follows (hE : engine.Reads) {ss : List (Stmt Token)}
    (h : engine.Iterations s (ss.map some) s') (hs : s.Steady) (hd : s.depth = 0) :
    s.Follows s' := by
  induction ss generalizing s with
  | nil =>
    cases h
    exact .refl hs
  | cons a ss ih =>
    cases h with
    | cons _ ht hrs =>
      have h := (ends_iteration hE hs hd).of_ok ht
      have := ih hrs h.steady (h.depth hd)
      cases h with
      | read _ _ h => exact h.toFollows.trans this

/-- In front of a spelling of a statement the statement is read, unless expressions nest too
deeply. -/
lemma ends_outerStatement_of_isAtStmt {a : Stmt Token} {rest : List Token}
    (h : s.IsAtStmt a rest) (bound : Bound) : Ends (ofBound bound).outerStatement s
      (fun a' s' => a' = a ∧ s'.IsBefore (dropSemicolon rest))
      (fun f _ => ∀ d, f = .rejected d → d.complaint = .nestedTooDeeply) := by
  obtain ⟨xs, ha, hs⟩ := h.spelled
  unfold outerStatement
  rw [ends_tryCatch]
  refine Ends.mono (p := (ofBound bound).statement)
    (ha.isRead _ rest s (bounded_ofBound bound) h.level h.noElse hs)
    (fun _ _ h => h) fun f s₁ hf => ?_
  cases f with
  | rejected d => exact hf.elim
  | scan e =>
    intro d hd
    cases hd
  | tooDeep =>
    simp only [ends_bind, ends_get, ends_reject]
    rintro d ⟨rfl⟩
    rfl

/-- In front of a spelling of a statement an iteration reads the statement, unless expressions nest
too deeply. -/
lemma HasIterated.of_isAtStmt {bound : Bound} {r : Option (Stmt Token)} {a : Stmt Token}
    {rest : List Token} (h : (ofBound bound).HasIterated s r s') (ha : s.IsAtStmt a rest) :
    r = some a ∧ s'.ahead = dropSemicolon rest ∨
      ∃ d ∈ s'.diagnostics, d.complaint = .nestedTooDeeply := by
  have houter := ends_outerStatement_of_isAtStmt ha bound
  cases h with
  | read run ahead =>
    obtain ⟨rfl, hb⟩ := houter.of_ok run
    exact .inl ⟨rfl, ahead.trans hb.behind⟩
  | abandoned run _ h hf => exact .inr ⟨_, h.mem_diagnostics hf, houter.of_error run _ rfl⟩

/-- Iterations read the statements that a text spells, one after the other, unless expressions nest
too deeply. -/
lemma Iterations.of_spells {bound : Bound} {rs : List (Option (Stmt Token))}
    (h : (ofBound bound).Iterations s rs s') (hs : s.Steady) (hd : s.depth = 0)
    (hshallow : ∀ d ∈ s'.diagnostics, d.complaint ≠ .nestedTooDeeply) {ss : List (Stmt Token)}
    (hss : Spells (.stmts ss) s.ahead) :
    ∃ ss', ss.map some = rs ++ ss'.map some ∧ Spells (.stmts ss') s'.ahead := by
  induction h generalizing ss with
  | nil => exact ⟨ss, rfl, hss⟩
  | @cons s s₁ s' r rs hc ht hrs ih =>
    have h := (ends_iteration (reads_ofBound bound) hs hd).of_ok ht
    have hlater := hrs.prefix_diagnostics (reads_ofBound bound) h.steady (h.depth hd)
    obtain ⟨a, rest, ss, rfl, hfirst, hss⟩ := State.exists_isAtStmt hs hc hss
    obtain ⟨rfl, hs₁⟩ := (h.of_isAtStmt hfirst).resolve_right fun ⟨d, hd, hdeep⟩ =>
      hshallow d (hlater.subset hd) hdeep
    obtain ⟨ss', hss', hrest⟩ := ih h.steady (h.depth hd) hshallow (hs₁ ▸ hss)
    exact ⟨ss', by rw [List.map_cons, hss', List.cons_append], hrest⟩

/-- A text that spells statements is read as these statements, unless expressions nest too
deeply. -/
theorem Iterations.complete {bound : Bound} {rs : List (Option (Stmt Token))}
    (h : (ofBound bound).Iterations s rs s') (hs : s.Steady) (hd : s.depth = 0)
    (hend : s'.current.kind = .eof)
    (hshallow : ∀ d ∈ s'.diagnostics, d.complaint ≠ .nestedTooDeeply) {ss : List (Stmt Token)}
    (hss : Spells (.stmts ss) s.ahead) : rs = ss.map some := by
  obtain ⟨ss', hss', hrest⟩ := h.of_spells hs hd hshallow hss
  rw [State.ahead_eq_nil hend] at hrest
  cases ss' with
  | nil => rw [hss', List.map_nil, List.append_nil]
  | cons a ss' => cases hrest.mayBegin

end Engine

/-- A parse of a text that has tokens comes to what a program is read as, or to the diagnostic by
which a statement is rejected. -/
theorem exists_program (bound : Bound) (recover : Bool) {source : String} {tokens : List Token}
    (h : tokenize source = .ok tokens) : ∃ s outcome,
      State.start .standard recover (.ofText source) = .ok s ∧
      parseWithin bound recover source = .ok outcome ∧
      Ends (Engine.ofBound bound).program s
        (fun p s' => outcome = ⟨.ok p, s'.diagnostics⟩)
        (fun f s' => ∃ d, f = .rejected d ∧ outcome = ⟨.error d, s'.diagnostics⟩) := by
  obtain ⟨s, hs⟩ := State.exists_start h .standard recover
  have hstarts := (State.starts hs).1
  obtain ⟨ts, hitems, -⟩ := tokenize_eq_ok.1 h
  have hE := Engine.reads_ofBound bound
  unfold parseWithin
  simp only [hs, bind, Except.bind]
  cases hrun : (Engine.ofBound bound).program s with
  | ok p s' => exact ⟨s, _, rfl, rfl, by rw [Ends, hrun]⟩
  | error f s' =>
    obtain ⟨rs, s₁, hrs, -, hiter⟩ :=
      (Engine.ends_program hE hstarts.steady hstarts.depth).of_error hrun
    obtain ⟨hs₁, hd₁, -, hu₁, -⟩ := hrs.keep hE hstarts.steady hstarts.depth
    rcases (Engine.ends_iteration hE hs₁ hd₁).of_error hiter with ⟨-, d, rfl, -⟩ | ⟨e, -, he⟩
    · refine ⟨s, _, rfl, rfl, ?_⟩
      rw [Ends, hrun]
      exact ⟨d, rfl, rfl⟩
    · have := (hu₁.trans hstarts.upcoming).subset he
      simp [hitems] at this

/-- A recovering parse of a text that has tokens comes to what its iterations yield. -/
theorem exists_iterations (bound : Bound) {source : String} {tokens : List Token}
    (h : tokenize source = .ok tokens) :
    ∃ s rs s', State.start .standard true (.ofText source) = .ok s ∧
      (Engine.ofBound bound).Iterations s rs s' ∧ s'.current.kind = .eof ∧
      parseWithin bound true source = .ok ⟨.ok (rs.filterMap id), s'.diagnostics⟩ := by
  obtain ⟨s, outcome, hstart, hparse, hends⟩ := exists_program bound true h
  obtain ⟨hstarts, hrecover⟩ := State.starts hstart
  have hE := Engine.reads_ofBound bound
  have hprogram := Engine.ends_program hE hstarts.steady hstarts.depth
  cases hrun : (Engine.ofBound bound).program s with
  | ok p s' =>
    obtain ⟨rs, hrs, hend, rfl⟩ := hprogram.of_ok hrun
    exact ⟨s, rs, s', hstart, hrs, hend, hends.of_ok hrun ▸ hparse⟩
  | error f s' =>
    obtain ⟨d, rfl, -⟩ := hends.of_error hrun
    obtain ⟨rs, s₁, hrs, -, hiter⟩ := hprogram.of_error hrun
    obtain ⟨hs₁, hd₁, hr₁, -⟩ := hrs.keep hE hstarts.steady hstarts.depth
    rcases (Engine.ends_iteration hE hs₁ hd₁).of_error hiter with ⟨hstrict, -⟩ | ⟨e, he, -⟩
    · rw [hr₁, hrecover] at hstrict
      cases hstrict
    · cases he

lemma State.Starts.of_legal {source : String} {s : State} (hs : s.Starts (.ofText source))
    {tokens : List Token} (htokens : tokenize source = .ok tokens)
    (hlegal : ∀ t ∈ tokens, t.kind ≠ .illegal) :
    s.ahead = tokens.dropLast ∧ s.pending = [] ∧ s.diagnostics = [] := by
  obtain ⟨ts, hitems, rfl⟩ := tokenize_eq_ok.1 htokens
  have hts : ∀ t ∈ ts, t.kind ≠ .illegal := fun t ht => hlegal t (List.mem_append_left _ ht)
  have hillegals : illegalIn (Scan.ofText source).items = [] := by
    rw [hitems, illegalIn_map_ok, List.filter_eq_nil_iff]
    exact fun t ht => by simpa using hts t ht
  obtain ⟨us, hus, hdiagnostics⟩ := hs.reported
  obtain ⟨rfl, hpending⟩ := List.append_eq_nil_iff.1 (hus.symm.trans hillegals)
  refine ⟨?_, hpending, hdiagnostics⟩
  rw [hs.ahead, hitems, tokensIn_map_ok, List.dropLast_concat, List.filter_eq_self]
  exact fun t ht => decide_eq_true (hts t ht)

/-- A text whose tokens spell a program parses to this program and nothing is reported, unless
expressions nest too deeply. -/
theorem parse_spelled (bound : Bound) {source : String} {tokens : List Token}
    (htokens : tokenize source = .ok tokens) (hlegal : ∀ t ∈ tokens, t.kind ≠ .illegal)
    {p : Program Token} (hp : Spells (.stmts p) tokens.dropLast) :
    ∃ outcome, parseWithin bound true source = .ok outcome ∧
      ((∀ d ∈ outcome.diagnostics, d.complaint ≠ .nestedTooDeeply) → outcome = ⟨.ok p, []⟩) := by
  obtain ⟨s, rs, s', hstart, hrs, hend, hparse⟩ := exists_iterations bound htokens
  have hs := (State.starts hstart).1
  obtain ⟨hahead, hpending, hdiagnostics⟩ := hs.of_legal htokens hlegal
  refine ⟨_, hparse, fun hshallow => ?_⟩
  obtain rfl := hrs.complete hs.steady hs.depth hend hshallow (hahead ▸ hp)
  obtain ⟨us, hus, hreported⟩ :=
    (hrs.follows (Engine.reads_ofBound bound) hs.steady hs.depth).reported
  obtain ⟨rfl, -⟩ := List.append_eq_nil_iff.1 (hus.symm.trans hpending)
  rw [hreported, hdiagnostics, List.filterMap_map]
  simp

/-- A text without illegal characters whose expressions do not nest too deeply parses without
diagnostics if and only if its tokens, without the end of input, are derived from a program. -/
theorem diagnostics_eq_nil_iff_derives (bound : Bound) {source : String} {tokens : List Token}
    (htokens : tokenize source = .ok tokens) (hlegal : ∀ t ∈ tokens, t.kind ≠ .illegal) :
    ∃ outcome, parseWithin bound true source = .ok outcome ∧
      ((∀ d ∈ outcome.diagnostics, d.complaint ≠ .nestedTooDeeply) →
        (outcome.diagnostics = [] ↔ Derives .program (kinds tokens.dropLast))) := by
  obtain ⟨s, rs, s', hstart, hrs, hend, hparse⟩ := exists_iterations bound htokens
  have hs := (State.starts hstart).1
  refine ⟨_, hparse, fun hshallow => ?_⟩
  rw [derives_program_iff]
  constructor
  · intro hclean
    have hspells := hrs.spells (Engine.reads_ofBound bound) hs.steady hs.depth hend
      (by rw [show s'.diagnostics = [] from hclean]; exact List.forall_mem_nil _)
    exact ⟨_, (hs.of_legal htokens hlegal).1 ▸ hspells⟩
  · rintro ⟨ss, hss⟩
    obtain ⟨outcome, houtcome, h⟩ := parse_spelled bound htokens hlegal hss
    obtain rfl := Except.ok.inj (hparse.symm.trans houtcome)
    rw [h hshallow]

/-- Two statements without semicolons, the first of which can also be taken for three. -/
theorem diagnostics_eq_nil_of_juxtaposed : ∃ tokens outcome,
    tokenize "f (x) -y let a = 1" = .ok tokens ∧ (∀ t ∈ tokens, t.kind ≠ .illegal) ∧
      parseWithin 10 true "f (x) -y let a = 1" = .ok outcome ∧ outcome.diagnostics = [] ∧
      Derives .program (kinds tokens.dropLast) := by
  have hkinds : (tokenize "f (x) -y let a = 1").map kinds = .ok [.ident, .lparen, .ident, .rparen,
      .minus, .ident, .kwLet, .ident, .assign, .int, .eof] := rfl
  have hclean : (parseWithin 10 true "f (x) -y let a = 1").map (·.diagnostics) = .ok [] := by
    decide +kernel
  cases htokens : tokenize "f (x) -y let a = 1" with
  | error e => simp [htokens, Except.map] at hkinds
  | ok tokens =>
    rw [htokens] at hkinds
    have hlegal : ∀ t ∈ tokens, t.kind ≠ .illegal := fun t ht he => by
      have : Kind.illegal ∈ kinds tokens := he ▸ List.mem_map_of_mem ht
      rw [Except.ok.inj hkinds] at this
      exact absurd this (by decide)
    obtain ⟨outcome, hparse, h⟩ := diagnostics_eq_nil_iff_derives 10 htokens hlegal
    rw [hparse] at hclean
    have hnil : outcome.diagnostics = [] := Except.ok.inj hclean
    exact ⟨tokens, outcome, rfl, hlegal, hparse, hnil, (h (by simp [hnil])).1 hnil⟩

end MonkeyFront
