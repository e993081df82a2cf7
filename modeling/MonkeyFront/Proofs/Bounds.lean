import MonkeyFront.Proofs.Withheld

/-!
# Bounds on nesting

A larger bound changes nothing but where the smaller one is exceeded (`Engine.mirrors_of_le`).
Parsers with two bounds take the same iterations up to the first statement that exceeds the smaller
one (`Engine.Iterations.keep_or_part`); there the parser with this bound records its complaint and
abandons the statement.
-/

namespace MonkeyFront

variable {α : Type}

/-! ### Engines with larger bounds -/

/-- The states are the same, with the standard rules in force. -/
def IsSame (s t : State) : Prop := s.rules = .standard ∧ t = s

lemma isLockstep_isSame : IsLockstep IsSame where
  rules := by
    rintro s t ⟨h, rfl⟩
    exact ⟨h, h⟩
  current := by
    rintro s t ⟨h, rfl⟩
    rfl
  peek := by
    rintro s t ⟨h, rfl⟩
    rfl
  tokensLeft := by
    rintro s t ⟨h, rfl⟩
    rfl
  depth := by
    rintro s t ⟨h, rfl⟩
    rfl
  advanceWithin := by
    rintro reach s t ⟨h, rfl⟩
    simp only [MirrorsFrom, Ends, MonkeyFront.advanceWithin]
    cases ht : t.overrun? reach with
    | some t' => exact .inr ⟨_, rfl, (State.overruns_of_overrun? ht).rules_eq.trans h, rfl⟩
    | none =>
      simp only [advance]
      cases (pull t.last t.upcoming).token with
      | ok token => exact ⟨_, rfl, h, rfl⟩
      | error e => exact .inr ⟨_, rfl, h, rfl⟩
  report := by
    rintro s t complaint token ⟨h, rfl⟩
    exact ⟨h, rfl⟩
  count := by
    rintro s t n ⟨h, rfl⟩
    exact ⟨h, rfl⟩

/-- From the same state the operations come to the same end and the same state, unless the first one
goes too deep. -/
lemma Mirrors.ends_of_isSame {p q : Parse α} (h : Mirrors IsSame (· = .tooDeep) p q) {s : State}
    (hs : s.rules = .standard) :
    Ends p s (fun a s' => q s = .ok a s') (fun f s' => f = .tooDeep ∨ q s = .error f s') := by
  apply (h s s ⟨hs, rfl⟩).mono
  · rintro a s' ⟨t', hrun, -, rfl⟩
    exact hrun
  · rintro f s' (hf | ⟨t', hrun, -, rfl⟩)
    · exact .inl hf
    · exact .inr hrun

/-- If the stack suffices until a token has been read, it is because the scan fails. -/
lemma State.overrun?_storedUnlessNumber_of_read {s : State} (h : s.overrun? .read = none) :
    s.overrun? .storedUnlessNumber = none := by
  simp only [overrun?] at h ⊢
  split at h
  · next e rest he => rw [he, pull]
  · cases h

namespace Engine

variable {engine engine' : Engine} {N M : Bound} {s u v : State}

/-- With more frames the parser moves on to an expression as with fewer, unless these run out. -/
lemma nextToken_within_of_le (extra : Site → Nat) {frames frames' : Nat} (h : frames ≤ frames')
    (due : Nat) (s : State) :
    (∃ left, (within extra frames due).nextToken s = .error .tooDeep left) ∨
      (within extra frames due).nextToken s = advance s ∧
        (within extra frames' due).nextToken s = advance s := by
  induction frames generalizing frames' due with
  | zero =>
    cases due with
    | succ due =>
      have ho : s.overrun? .entered = some (s.overrun [] s.upcoming) := rfl
      exact .inl ⟨_, State.advanceWithin_of_eq_some ho⟩
    | zero =>
      cases ho : s.overrun? .read with
      | some left => exact .inl ⟨left, State.advanceWithin_of_eq_some ho⟩
      | none =>
        refine .inr ⟨State.advanceWithin_of_eq_none ho, ?_⟩
        rcases frames' with - | - | frames'
        · exact State.advanceWithin_of_eq_none ho
        · exact State.advanceWithin_of_eq_none (State.overrun?_storedUnlessNumber_of_read ho)
        · rfl
  | succ frames ih =>
    obtain ⟨frames', rfl⟩ := Nat.exists_eq_add_of_le' (Nat.zero_lt_of_lt h)
    have h := Nat.le_of_succ_le_succ h
    cases due with
    | succ due => exact ih h due
    | zero =>
      by_cases hf : frames = 0
      · subst hf
        cases ho : s.overrun? .storedUnlessNumber with
        | some left => exact .inl ⟨left, State.advanceWithin_of_eq_some ho⟩
        | none =>
          refine .inr ⟨State.advanceWithin_of_eq_none ho, ?_⟩
          cases frames' with
          | zero => exact State.advanceWithin_of_eq_none ho
          | succ frames' => rfl
      · have hf' : frames' ≠ 0 := fun h0 => hf (Nat.le_zero.1 (h0 ▸ h))
        simp only [within, hf, hf', if_false]
        exact .inr ⟨rfl, rfl⟩

lemma mirrors_within (extra : Site → Nat) {frames frames' : Nat} (h : frames ≤ frames')
    (due : Nat) :
    (within extra frames due).Mirrors IsSame (· = .tooDeep) (within extra frames' due) := by
  have next {frames frames' : Nat} (h : frames ≤ frames') (due : Nat) :
      MonkeyFront.Mirrors IsSame (· = .tooDeep) (within extra frames due).nextToken
        (within extra frames' due).nextToken := by
    intro s t hst
    obtain ⟨hr, rfl⟩ := hst
    rw [MirrorsFrom, Ends]
    rcases nextToken_within_of_le extra h due t with ⟨left, hleft⟩ | ⟨hs, ht⟩
    · rw [hleft]
      exact .inl rfl
    · rw [hs, ht]
      exact isLockstep_isSame.mirrors_advance t t ⟨hr, rfl⟩
  induction frames generalizing frames' due with
  | zero => exact ⟨next h due, fun p => .throw_excused rfl⟩
  | succ frames ih =>
    obtain ⟨frames', rfl⟩ := Nat.exists_eq_add_of_le' (Nat.zero_lt_of_lt h)
    have hle := Nat.le_of_succ_le_succ h
    cases due with
    | succ due => exact ih hle due
    | zero => exact ⟨next h 0, mirrors_layer (fun site => ih hle (extra site)) isLockstep_isSame⟩

/-- A larger bound changes nothing but where the smaller one is exceeded. -/
lemma mirrors_of_le (h : N ≤ M) : (ofBound N).Mirrors IsSame (· = .tooDeep) (ofBound M) := by
  obtain ⟨hframes, hextra⟩ := h
  rw [ofBound, ofBound, hextra]
  exact mirrors_within M.extra hframes 0

/-- The statement at the current token is nested too deeply for the engine. -/
def Exceeds (engine : Engine) (s : State) : Prop := ∃ v, engine.statement s = .error .tooDeep v

lemma statement_eq_or_exceeds (h : N ≤ M) (hs : s.rules = .standard) :
    (ofBound N).statement s = (ofBound M).statement s ∨ (ofBound N).Exceeds s := by
  have hends := ((mirrors_of_le h).statement isLockstep_isSame).ends_of_isSame hs
  cases hrun : (ofBound N).statement s with
  | ok a s' => exact .inl (hends.of_ok hrun).symm
  | error f s' =>
    rcases hends.of_error hrun with rfl | hsame
    · exact .inr ⟨s', hrun⟩
    · exact .inl hsame.symm

/-! ### Iterations -/

/-- An iteration depends on the engine only by the statement that it reads. -/
lemma iteration_congr (h : engine.statement s = engine'.statement s) :
    engine.iteration s = engine'.iteration s := by
  have houter : engine.outerStatement s = engine'.outerStatement s := by
    simp only [outerStatement, tryCatch, tryCatchThe, MonadExceptOf.tryCatch, EStateM.tryCatch, h]
  simp only [iteration, recoveringStatement, tryCatch, tryCatchThe, MonadExceptOf.tryCatch,
    EStateM.tryCatch, bind, EStateM.bind, houter]

lemma ends_outerStatement_of_not_exceeds (hE : engine.Reads) (hs : s.Steady)
    (h : ¬engine.Exceeds s) : Ends engine.outerStatement s (fun _ _ => True)
      (fun f _ => ∀ d, f = .rejected d → d.complaint ≠ .nestedTooDeeply) := by
  unfold outerStatement
  rw [ends_tryCatch]
  have hends := (ends_statement hE .trivial (.refl hs)).and (ends_run _ s)
  refine hends.mono (fun _ _ _ => trivial) ?_
  rintro f s' ⟨hfails, hrun⟩
  cases hfails with
  | current _ _ shallow _ _ =>
    rintro d ⟨rfl⟩
    exact shallow
  | peek _ _ shallow _ _ =>
    rintro d ⟨rfl⟩
    exact shallow
  | tooDeep | overrun => exact absurd ⟨_, hrun⟩ h
  | scan _ =>
    rintro d ⟨⟩

/-- An iteration that does not exceed the bound does not complain about it. -/
lemma HasIterated.shallow {r : Option (Stmt Token)} {s' : State} (h : engine.HasIterated s r s')
    (hE : engine.Reads) (hs : s.Steady) (hnot : ¬engine.Exceeds s) :
    ∀ d ∈ s'.diagnostics, d.complaint = .nestedTooDeeply → d ∈ s.diagnostics := by
  have illegal {ds : List Diagnostic} (hds : ∀ d ∈ ds, d.complaint.isStructural = false) :
      ∀ d ∈ ds, d.complaint ≠ .nestedTooDeeply := by
    intro d hd hdeep
    have hskip := hds d hd
    rw [hdeep] at hskip
    cases hskip
  intro d hd hdeep
  cases h with
  | read _ _ h =>
    obtain ⟨ds, hdiagnostics, hds⟩ := h.illegal
    rw [hdiagnostics] at hd
    exact (List.mem_append.1 hd).resolve_right fun hd => illegal hds d hd hdeep
  | abandoned run _ h hf =>
    have hrejected := (ends_outerStatement_of_not_exceeds hE hs hnot).of_error run
    obtain ⟨-, ds, hdiagnostics, hds⟩ := h.reported
    obtain ⟨es, hskipped, hes⟩ := hf.illegal
    rw [hskipped, hdiagnostics] at hd
    rcases List.mem_append.1 hd with hd | hd
    · rcases List.mem_append.1 hd with hd | hd
      · exact (List.mem_append.1 hd).resolve_right fun hd => illegal hds d hd hdeep
      · rw [List.mem_singleton.1 hd] at hdeep
        exact absurd hdeep (hrejected _ rfl)
    · exact absurd hdeep (illegal hes d hd)

/-- A statement that is nested too deeply is complained about, and an iteration abandons it. -/
lemma Exceeds.outerStatement_eq (h : engine.Exceeds s) : ∃ v : State,
    engine.outerStatement s = .error (.rejected ⟨.nestedTooDeeply, v.current.span⟩)
      (v.report .nestedTooDeeply v.current) := by
  obtain ⟨v, hv⟩ := h
  refine ⟨v, ?_⟩
  simp only [outerStatement, tryCatch, tryCatchThe, MonadExceptOf.tryCatch, EStateM.tryCatch, hv]
  rfl

lemma Exceeds.abandoned (h : engine.Exceeds s) (hE : engine.Reads) (hs : s.Steady)
    (hd : s.depth = 0) {r : Option (Stmt Token)} {s' : State}
    (hiter : engine.iteration s = .ok r s') :
    r = none := by
  obtain ⟨v, hv⟩ := h.outerStatement_eq
  cases (ends_iteration hE hs hd).of_ok hiter with
  | read run => cases run.symm.trans hv
  | abandoned => rfl

/-- What is recorded about a statement that is nested too deeply stays recorded where its iteration
ends, be it by a scan error in what is skipped. -/
lemma Exceeds.mem_recordedBy (h : engine.Exceeds s) :
    ∃ d ∈ recordedBy engine.iteration s, d.complaint = .nestedTooDeeply := by
  obtain ⟨v, hv⟩ := h.outerStatement_eq
  refine ⟨⟨.nestedTooDeeply, v.current.span⟩, ?_, rfl⟩
  generalize hd : (⟨.nestedTooDeeply, v.current.span⟩ : Diagnostic) = d at hv
  have hmem : d ∈ (v.report .nestedTooDeeply v.current).diagnostics := by
    rw [← hd]
    exact List.mem_append_right _ List.mem_cons_self
  have kept {β : Type} {p : Parse β} (hp : MonkeyFront.TakesSteps p) {t : State}
      (ht : d ∈ t.diagnostics) :
      Ends p t (fun _ t' => d ∈ t'.diagnostics) (fun _ t' => d ∈ t'.diagnostics) :=
    (hp t).mono (fun _ _ h => h.prefix_diagnostics.subset ht)
      fun _ _ h => h.prefix_diagnostics.subset ht
  refine Ends.recordedBy (motive := fun ds => d ∈ ds) ?_
  unfold iteration
  simp only [ends_bind, ends_pure]
  apply ends_recoveringStatement
  rw [Ends, hv]
  dsimp only
  split
  · exact (kept .synchronize hmem).imp fun _ t ht => kept .advance ht
  · exact hmem

/-- Under both engines the iterations `rs` lead from `s` to `u`, where there is another statement
that is nested too deeply for the first one. No other has been so before. -/
structure PartAt (engine engine' : Engine) (s : State) (rs : List (Option (Stmt Token)))
    (u : State) : Prop where
  iterations : engine.Iterations s rs u
  iterations' : engine'.Iterations s rs u
  more : u.current.kind ≠ .eof
  exceeds : engine.Exceeds u
  shallow : ∀ d ∈ u.diagnostics, d.complaint = .nestedTooDeeply → d ∈ s.diagnostics

/-- Iterations that do not exceed the smaller bound are taken under a larger one too. -/
lemma Iterations.keep_or_part (h : N ≤ M) {rs : List (Option (Stmt Token))}
    (hrs : (ofBound N).Iterations s rs u) (hs : s.Steady) (hd : s.depth = 0) :
    ((ofBound M).Iterations s rs u ∧
      ∀ d ∈ u.diagnostics, d.complaint = .nestedTooDeeply → d ∈ s.diagnostics) ∨
    ∃ rs₁ v, PartAt (ofBound N) (ofBound M) s rs₁ v := by
  induction hrs with
  | nil => exact .inl ⟨.nil _, fun _ hd _ => hd⟩
  | @cons s s₁ u r rs hc ht _ ih =>
    by_cases hexceeds : (ofBound N).Exceeds s
    · exact .inr ⟨[], s, .nil s, .nil s, hc, hexceeds, fun _ hd _ => hd⟩
    have hE := reads_ofBound N
    have hiterated := (ends_iteration hE hs hd).of_ok ht
    have hshallow := hiterated.shallow hE hs hexceeds
    have hsame := iteration_congr ((statement_eq_or_exceeds h hs.rules).resolve_right hexceeds)
    have ht' : (ofBound M).iteration s = .ok r s₁ := hsame ▸ ht
    rcases ih hiterated.steady (hiterated.depth hd) with ⟨hrs, hmore⟩ | ⟨rs₁, v, hpart⟩
    · exact .inl ⟨.cons hc ht' hrs, fun d hd hdeep => hshallow d (hmore d hd hdeep) hdeep⟩
    · refine .inr ⟨r :: rs₁, v, .cons hc ht hpart.iterations, .cons hc ht' hpart.iterations',
        hpart.more, hpart.exceeds, fun d hd hdeep => ?_⟩
      exact hshallow d (hpart.shallow d hd hdeep) hdeep

/-- A program comes to the same under a larger bound, unless a statement exceeds the smaller one. -/
lemma program_eq_or_part (h : N ≤ M) (hs : s.Steady) (hd : s.depth = 0) :
    (ofBound N).program s = (ofBound M).program s ∨
      ∃ rs u, PartAt (ofBound N) (ofBound M) s rs u := by
  have hprogram := ends_program (reads_ofBound N) hs hd
  have hM := reads_ofBound M
  cases hrun : (ofBound N).program s with
  | ok p s' =>
    obtain ⟨rs, hrs, hend, rfl⟩ := hprogram.of_ok hrun
    rcases hrs.keep_or_part h hs hd with ⟨hrs', -⟩ | hpart
    · exact .inl (hrs'.program_eq_ok hM hs hd hend).symm
    · exact .inr hpart
  | error f s' =>
    obtain ⟨rs, u, hrs, hc, hiter⟩ := hprogram.of_error hrun
    rcases hrs.keep_or_part h hs hd with ⟨hrs', hshallow⟩ | hpart
    · by_cases hexceeds : (ofBound N).Exceeds u
      · exact .inr ⟨rs, u, hrs, hrs', hc, hexceeds, hshallow⟩
      have hu := (hrs.keep (reads_ofBound N) hs hd).1
      have hsame := iteration_congr ((statement_eq_or_exceeds h hu.rules).resolve_right hexceeds)
      exact .inl (hrs'.program_eq_error hM hs hd hc (hsame ▸ hiter)).symm
    · exact .inr hpart

/-- What the iteration at a further statement records is recorded by the program. -/
lemma Iterations.prefix_recordedBy (hE : engine.Reads) (hsteps : engine.TakesSteps)
    {rs : List (Option (Stmt Token))} (h : engine.Iterations s rs u) (hs : s.Steady)
    (hd : s.depth = 0) (hc : u.current.kind ≠ .eof) :
    recordedBy engine.iteration u <+: recordedBy engine.program s := by
  cases hiter : engine.iteration u with
  | ok r v =>
    rw [recordedBy, hiter]
    have hiters := h.append (.cons hc hiter (.nil v))
    exact hiters.prefix_recorded hE hsteps hs hd
  | error f v =>
    rw [recordedBy, recordedBy, hiter, h.program_eq_error hE hs hd hc hiter]

lemma PartAt.mem_recordedBy {rs : List (Option (Stmt Token))}
    (h : PartAt (ofBound N) engine' s rs u) (hs : s.Steady) (hd : s.depth = 0) :
    ∃ d ∈ recordedBy (ofBound N).program s, d.complaint = .nestedTooDeeply := by
  obtain ⟨d, hmem, hdeep⟩ := h.exceeds.mem_recordedBy
  have hlater := h.iterations.prefix_recordedBy (reads_ofBound N) (takesSteps_ofBound N) hs hd
    h.more
  exact ⟨d, hlater.subset hmem, hdeep⟩

lemma whole_blank_congr {recover : Bool} {scan : Scan}
    (h : ∀ s, State.start .standard recover scan = .ok s → engine.program s = engine'.program s) :
    engine.whole (.blank recover scan) = engine'.whole (.blank recover scan) := by
  simp only [State.start, bind, Except.bind, pure, Except.pure] at h
  simp only [whole, bind, EStateM.bind, advance, State.blank]
  cases hfirst : (pull scan.last scan.items).token with
  | error e => rfl
  | ok current =>
    simp only [hfirst, List.map_nil, List.append_nil, List.nil_append] at h ⊢
    cases hsecond : (pull scan.last (pull scan.last scan.items).rest).token with
    | error e => rfl
    | ok peek =>
      simp only [hsecond] at h ⊢
      exact h _ rfl

end Engine

/-! ### Whole parses -/

section Parses

variable {N M : Bound} {recover : Bool} {source : String}

lemma recordedWithin_of_start {bound : Bound} {s : State}
    (h : State.start .standard recover (.ofText source) = .ok s) :
    recordedWithin bound recover source = recordedBy (Engine.ofBound bound).program s := by
  have hwhole := (Engine.ofBound bound).whole_blank recover (.ofText source)
  rw [h] at hwhole
  rw [recordedWithin, recordedBy, hwhole, recordedBy]

/-- A parse that does not complain about its bound comes to the same under every larger one. -/
lemma parseWithin_eq_of_shallow (h : N ≤ M)
    (hshallow : ∀ d ∈ recordedWithin N recover source, d.complaint ≠ .nestedTooDeeply) :
    parseWithin M recover source = parseWithin N recover source ∧
      recordedWithin M recover source = recordedWithin N recover source := by
  have hsame : ∀ s, State.start .standard recover (.ofText source) = .ok s →
      (Engine.ofBound M).program s = (Engine.ofBound N).program s := by
    intro s hstart
    obtain ⟨hstarts, -⟩ := State.starts hstart
    rcases Engine.program_eq_or_part h hstarts.steady hstarts.depth with hsame | ⟨rs, u, hpart⟩
    · exact hsame.symm
    · obtain ⟨d, hd, hdeep⟩ := hpart.mem_recordedBy hstarts.steady hstarts.depth
      rw [← recordedWithin_of_start hstart] at hd
      exact absurd hdeep (hshallow d hd)
  constructor
  · unfold parseWithin
    cases hstart : State.start .standard recover (.ofText source) with
    | error e => simp only [bind, Except.bind]
    | ok s => simp only [bind, Except.bind, hsame s hstart]
  · have hwhole := Engine.whole_blank_congr hsame
    unfold recordedWithin recordedBy
    rw [hwhole]

/-- Two recovering parses come to outcomes that begin with the same statements, up to a statement
that is nested too deeply for the smaller bound. Its parser abandons this statement. -/
inductive PartsWithin (N M : Bound) (source : String) : Outcome → Outcome → Prop
  | intro {s rs u rest s' rest' s''}
      (start : State.start .standard true (.ofText source) = .ok s)
      (part : Engine.PartAt (Engine.ofBound N) (Engine.ofBound M) s rs u)
      (goesOn : (Engine.ofBound N).Iterations u (none :: rest) s')
      (goesOn' : (Engine.ofBound M).Iterations u rest' s'')
      (recorded : u.diagnostics <+: s'.diagnostics)
      (recorded' : u.diagnostics <+: s''.diagnostics) :
      PartsWithin N M source ⟨.ok ((rs ++ none :: rest).filterMap id), s'.diagnostics⟩
        ⟨.ok ((rs ++ rest').filterMap id), s''.diagnostics⟩

/-- A recovering parse that complains about its bound does so first at a statement up to which a
parse with a larger bound is the same. -/
lemma exists_partsWithin (h : N ≤ M) {outcome : Outcome}
    (hparse : parseWithin N true source = .ok outcome)
    (hdeep : ∃ d ∈ outcome.diagnostics, d.complaint = .nestedTooDeeply) :
    ∃ outcome', parseWithin M true source = .ok outcome' ∧
      PartsWithin N M source outcome outcome' := by
  have htokens : ∃ tokens, tokenize source = .ok tokens := by
    cases htokenize : tokenize source with
    | ok tokens => exact ⟨tokens, rfl⟩
    | error e => cases (((recovering_fails_iff N source).1 e).2 htokenize).symm.trans hparse
  obtain ⟨tokens, htokens⟩ := htokens
  obtain ⟨s, rs, s', hstart, hrs, hend, houtcome⟩ := exists_iterations N htokens
  obtain ⟨t, rs', s'', hstart', hrs', hend', houtcome'⟩ := exists_iterations M htokens
  obtain rfl := Except.ok.inj (hstart.symm.trans hstart')
  obtain rfl := Except.ok.inj (hparse.symm.trans houtcome)
  have hstarts := (State.starts hstart).1
  have hs := hstarts.steady
  have hd := hstarts.depth
  obtain ⟨d, hmem, hdeep⟩ := hdeep
  rcases hrs.keep_or_part h hs hd with ⟨-, hshallow⟩ | ⟨rs₁, u, hpart⟩
  · have hskip := hstarts.illegal d (hshallow d hmem hdeep)
    rw [hdeep] at hskip
    cases hskip
  obtain ⟨rs₂, rfl, hrest⟩ := hpart.iterations.split hrs hend
  obtain ⟨rest', rfl, hrest'⟩ := hpart.iterations'.split hrs' hend'
  have hN := Engine.reads_ofBound N
  have hM := Engine.reads_ofBound M
  obtain ⟨hu, hdepth, -⟩ := hpart.iterations.keep hN hs hd
  have hrecorded := hrest.prefix_diagnostics hN hu hdepth
  have hrecorded' := hrest'.prefix_diagnostics hM hu hdepth
  cases hrest with
  | nil => exact absurd hend hpart.more
  | cons hc hiter hlater =>
    obtain rfl := hpart.exceeds.abandoned hN hu hdepth hiter
    have hgoes := Engine.Iterations.cons hc hiter hlater
    exact ⟨_, houtcome', .intro hstart hpart hgoes hrest' hrecorded hrecorded'⟩

end Parses

/-- The bound on nesting adds nothing but its own complaint. A parse that does not record this
complaint comes to the same, and records the same, under every larger bound. Under every bound a
recovering parse comes to a program unless the scan fails; it abandons each statement that exceeds
the bound, and up to the first of these it is the parse with a larger bound. -/
theorem bound_adds_only_its_complaint (source : String) {N M : Bound} (h : N ≤ M) :
    (∀ recover, (∀ d ∈ recordedWithin N recover source, d.complaint ≠ .nestedTooDeeply) →
      parseWithin M recover source = parseWithin N recover source ∧
        recordedWithin M recover source = recordedWithin N recover source) ∧
    (∀ bound, (∀ e, parseWithin bound true source = .error e ↔ tokenize source = .error e) ∧
      ∀ tokens, tokenize source = .ok tokens →
        ∃ p ds, parseWithin bound true source = .ok ⟨.ok p, ds⟩) ∧
    (∀ bound s rs u r s', State.start .standard true (.ofText source) = .ok s →
      (Engine.ofBound bound).Iterations s rs u → (Engine.ofBound bound).Exceeds u →
        (Engine.ofBound bound).iteration u = .ok r s' →
          r = none ∧ ∃ d ∈ s'.diagnostics, d.complaint = .nestedTooDeeply) ∧
    ∀ outcome, parseWithin N true source = .ok outcome →
      (∃ d ∈ outcome.diagnostics, d.complaint = .nestedTooDeeply) →
        ∃ outcome', parseWithin M true source = .ok outcome' ∧
          PartsWithin N M source outcome outcome' := by
  refine ⟨fun recover => parseWithin_eq_of_shallow h, fun bound => ?returns, ?abandons,
    fun outcome => exists_partsWithin h⟩
  case returns =>
    obtain ⟨hfails, -, hreturns⟩ := recovering_fails_iff bound source
    exact ⟨hfails, fun tokens htokens => hreturns ⟨tokens, htokens⟩⟩
  case abandons =>
    intro bound s rs u r s' hstart hrs hexceeds hiter
    have hE := Engine.reads_ofBound bound
    have hstarts := (State.starts hstart).1
    obtain ⟨hu, hdepth, -⟩ := hrs.keep hE hstarts.steady hstarts.depth
    have hrecorded := hexceeds.mem_recordedBy
    rw [recordedBy, hiter] at hrecorded
    exact ⟨hexceeds.abandoned hE hu hdepth hiter, hrecorded⟩

/-- The statement in the middle is nested too deeply for the smaller bound, and the statements in
front of it are not. -/
theorem bound_adds_only_its_complaint_at_parentheses :
    parseWithin 5 false "a; -b;" = parseWithin 2 false "a; -b;" ∧
    ∃ outcome outcome', parseWithin 2 true "a; ((b)); -c" = .ok outcome ∧
      parseWithin 5 true "a; ((b)); -c" = .ok outcome' ∧
      PartsWithin 2 5 "a; ((b)); -c" outcome outcome' ∧
      ∃ u s', (Engine.ofBound 2).Exceeds u ∧ (Engine.ofBound 2).iteration u = .ok none s' ∧
        ∃ d ∈ s'.diagnostics, d.complaint = .nestedTooDeeply := by
  have hshallow : recordedWithin 2 false "a; -b;" = [] := by decide +kernel
  have hdeep : ((parseWithin 2 true "a; ((b)); -c").map
      fun outcome => outcome.diagnostics.any (·.complaint = .nestedTooDeeply)) = .ok true := by
    decide +kernel
  constructor
  · obtain ⟨hsame, -⟩ := bound_adds_only_its_complaint "a; -b;"
      (show (2 : Bound) ≤ 5 from ⟨by decide, rfl⟩)
    refine (hsame false fun d hd => ?_).1
    rw [hshallow] at hd
    cases hd
  · obtain ⟨-, -, habandons, hparts⟩ :=
      bound_adds_only_its_complaint "a; ((b)); -c" (show (2 : Bound) ≤ 5 from ⟨by decide, rfl⟩)
    cases hparse : parseWithin 2 true "a; ((b)); -c" with
    | error e =>
      rw [hparse] at hdeep
      cases hdeep
    | ok outcome =>
      rw [hparse] at hdeep
      obtain ⟨d, hd, hcomplaint⟩ := List.any_eq_true.1 (Except.ok.inj hdeep)
      obtain ⟨outcome', hparse', hpart⟩ :=
        hparts outcome hparse ⟨d, hd, of_decide_eq_true hcomplaint⟩
      refine ⟨outcome, outcome', rfl, hparse', hpart, ?_⟩
      cases hpart with
      | intro start part goesOn goesOn' recorded recorded' =>
        cases goesOn with
        | cons hc hiter hrest =>
          have habandoned := habandons 2 _ _ _ _ _ start part.iterations part.exceeds hiter
          exact ⟨_, _, part.exceeds, hiter, habandoned.2⟩

end MonkeyFront
