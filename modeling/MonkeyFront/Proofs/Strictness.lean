import MonkeyFront.Proofs.Acceptance
import MonkeyFront.Proofs.Lockstep

namespace MonkeyFront

lemma State.Steady.withRecover {s : State} (h : s.Steady) (b : Bool) : (s.withRecover b).Steady :=
  ⟨h.rules, h.upcoming, h.last, h.peek, h.current⟩

namespace Engine

variable {engine : Engine} {s s' u : State}

/-- Iterations up to where no other one succeeds go on from wherever iterations of the same start
lead. -/
lemma Iterations.split_of_stops {rs₁ rs : List (Option (Stmt Token))}
    (h₁ : engine.Iterations s rs₁ u)
    (h : engine.Iterations s rs s')
    (hstops : s'.current.kind ≠ .eof → ∃ f v, engine.iteration s' = .error f v) :
    ∃ rs₂, rs = rs₁ ++ rs₂ ∧ engine.Iterations u rs₂ s' := by
  induction h₁ generalizing rs with
  | nil => exact ⟨rs, rfl, h⟩
  | cons hc ht _ ih =>
    cases h with
    | nil =>
      obtain ⟨f, v, hfails⟩ := hstops hc
      cases ht.symm.trans hfails
    | cons _ ht' hrs =>
      cases ht.symm.trans ht'
      obtain ⟨rs₂, rfl, h₂⟩ := ih hrs
      exact ⟨rs₂, rfl, h₂⟩

/-- Iterations to the end of input go on from wherever iterations of the same start lead. -/
lemma Iterations.split {rs₁ rs : List (Option (Stmt Token))} (h₁ : engine.Iterations s rs₁ u)
    (h : engine.Iterations s rs s') (hend : s'.current.kind = .eof) :
    ∃ rs₂, rs = rs₁ ++ rs₂ ∧ engine.Iterations u rs₂ s' :=
  h₁.split_of_stops h fun hc => absurd hend hc

lemma Iterations.append {rs₁ rs₂ : List (Option (Stmt Token))} (h₁ : engine.Iterations s rs₁ u)
    (h₂ : engine.Iterations u rs₂ s') : engine.Iterations s (rs₁ ++ rs₂) s' := by
  induction h₁ with
  | nil => exact h₂
  | cons hc ht _ ih => exact .cons hc ht (ih h₂)

lemma Iterations.program_eq_ok {rs : List (Option (Stmt Token))} (h : engine.Iterations s rs s')
    (hE : engine.Reads) (hs : s.Steady) (hd : s.depth = 0) (hend : s'.current.kind = .eof) :
    engine.program s = .ok (rs.filterMap id) s' := by
  have hprogram := ends_program hE hs hd
  cases hrun : engine.program s with
  | ok p u =>
    obtain ⟨rs', hrs', hend', rfl⟩ := hprogram.of_ok hrun
    obtain ⟨rs₂, rfl, hrs₂⟩ := h.split hrs' hend'
    cases hrs₂ with
    | nil => rw [List.append_nil]
    | cons hc => exact absurd hend hc
  | error f u =>
    obtain ⟨rs', v, hrs', hc', hfails⟩ := hprogram.of_error hrun
    obtain ⟨rs₂, rfl, hrs₂⟩ := h.split_of_stops hrs' fun _ => ⟨f, u, hfails⟩
    cases hrs₂ with
    | nil => exact absurd hend hc'
    | cons hc => exact absurd hend hc

lemma Iterations.program_eq_error {rs : List (Option (Stmt Token))} (h : engine.Iterations s rs u)
    (hE : engine.Reads) (hs : s.Steady) (hd : s.depth = 0) (hc : u.current.kind ≠ .eof)
    {f : Failure} (hiter : engine.iteration u = .error f s') : engine.program s = .error f s' := by
  have hprogram := ends_program hE hs hd
  cases hrun : engine.program s with
  | ok p v =>
    obtain ⟨rs', hrs', hend', -⟩ := hprogram.of_ok hrun
    obtain ⟨rs₂, -, hrs₂⟩ := h.split hrs' hend'
    cases hrs₂ with
    | nil => exact absurd hend' hc
    | cons _ ht => cases ht.symm.trans hiter
  | error f' v =>
    obtain ⟨rs', u', hrs', -, hfails⟩ := hprogram.of_error hrun
    obtain ⟨rs₂, -, hrs₂⟩ := h.split_of_stops hrs' fun _ => ⟨f', v, hfails⟩
    cases hrs₂ with
    | nil =>
      cases hfails.symm.trans hiter
      rfl
    | cons _ ht => cases ht.symm.trans hiter

lemma iteration_eq_ok {a : Stmt Token} {s₁ : State} (h₁ : engine.outerStatement s = .ok a s₁)
    (h : advance s₁ = .ok () s') : engine.iteration s = .ok (some a) s' := by
  have hread : Ends engine.recoveringStatement s (fun r u => r = some a ∧ u = s₁)
      (fun _ _ => False) :=
    ends_recoveringStatement (by rw [Ends, h₁]; exact ⟨rfl, rfl⟩)
  have hiter : Ends engine.iteration s (fun r u => r = some a ∧ u = s') (fun _ _ => False) := by
    unfold iteration
    simp only [ends_bind, ends_pure]
    refine hread.imp ?_
    rintro r u ⟨rfl, rfl⟩
    rw [Ends, h]
    exact ⟨rfl, rfl⟩
  cases hrun : engine.iteration s with
  | ok r u =>
    obtain ⟨rfl, rfl⟩ := hiter.of_ok hrun
    rfl
  | error f u => exact (hiter.of_error hrun).elim

/-- An iteration of a strict parser reads what one of a recovering parser reads, or fails where a
statement is rejected. -/
lemma ends_strictIteration (bound : Bound) (h : s.Steady) (hstrict : s.recover = false) (b : Bool) :
    Ends (ofBound bound).iteration s
      (fun r s' => (∃ a, r = some a) ∧
        (ofBound bound).iteration (s.withRecover b) = .ok r (s'.withRecover b))
      (fun f s' => ∀ d, f = .rejected d →
        (ofBound bound).outerStatement (s.withRecover b) =
          .error (.rejected d) (s'.withRecover b)) := by
  have houter := (ends_outerStatement (reads_ofBound bound) h).and
    (impartial_outerStatement bound s b h.rules)
  unfold iteration
  simp only [ends_bind, ends_pure]
  refine ends_recoveringStatement (houter.mono ?read ?rejected)
  case read =>
    rintro a s₁ ⟨⟨ys, close, h₁, -⟩, -, hrun⟩
    refine ((ends_advance h₁.steady).and (Impartial.advance s₁ b h₁.steady.rules)).mono ?_ ?_
    · rintro _ s₂ ⟨-, -, hadvance⟩
      exact ⟨⟨a, rfl⟩, iteration_eq_ok hrun hadvance⟩
    · rintro f s₂ ⟨⟨e, rfl, -⟩, -⟩ d hd
      cases hd
  case rejected =>
    rintro f s₁ ⟨⟨d, rfl, h₁⟩ | ⟨e, rfl, -⟩, -, hrun⟩
    · have hs₁ : s₁.recover = false := h₁.recover.trans hstrict
      simp only [hs₁, Bool.false_eq_true, if_false]
      rintro d' ⟨rfl⟩
      exact hrun
    · intro d hd
      cases hd

/-- Iterations of a strict parser abandon nothing, and a recovering one takes them too. -/
lemma Iterations.withRecover {bound : Bound} {rs : List (Option (Stmt Token))}
    (h : (ofBound bound).Iterations s rs s') (hs : s.Steady) (hd : s.depth = 0)
    (hstrict : s.recover = false) (b : Bool) :
    (∃ ss : List (Stmt Token), rs = ss.map some) ∧
      (ofBound bound).Iterations (s.withRecover b) rs (s'.withRecover b) := by
  induction h with
  | nil => exact ⟨⟨[], rfl⟩, .nil _⟩
  | cons hc ht _ ih =>
    have h := (ends_iteration (reads_ofBound bound) hs hd).of_ok ht
    obtain ⟨⟨a, rfl⟩, ht'⟩ := (ends_strictIteration bound hs hstrict b).of_ok ht
    obtain ⟨⟨ss, rfl⟩, hrs⟩ := ih h.steady (h.depth hd) (h.recover.trans hstrict)
    exact ⟨⟨a :: ss, rfl⟩, .cons hc ht' hrs⟩

/-- What is recorded where a statement is rejected stays in front of what is recorded later. -/
lemma Iterations.diagnostics_of_rejected (hE : engine.Reads) {rs : List (Option (Stmt Token))}
    (h : engine.Iterations s rs s') (hs : s.Steady) (hd : s.depth = 0) (hc : s.current.kind ≠ .eof)
    (hend : s'.current.kind = .eof) {d : Diagnostic}
    (hrun : engine.outerStatement s = .error (.rejected d) u) :
    u.diagnostics <+: s'.diagnostics := by
  cases h with
  | nil => exact absurd hend hc
  | cons _ ht hrs =>
    have h := (ends_iteration hE hs hd).of_ok ht
    have hlater := hrs.prefix_diagnostics hE h.steady (h.depth hd)
    cases h with
    | read run => cases run.symm.trans hrun
    | abandoned run _ h hf =>
      cases run.symm.trans hrun
      obtain ⟨ds, hds, -⟩ := hf.illegal
      exact (List.prefix_append _ ds).trans (hds ▸ hlater)

/-- A strict parser yields what a recovering one yields, or fails by the first diagnostic of the
recovering one that is not about an illegal character. -/
theorem ends_strictProgram {bound : Bound} (hs : s.Steady) (hd : s.depth = 0)
    (hstrict : s.recover = false) (hclean : ∀ d ∈ s.diagnostics, d.complaint.isStructural = false)
    {rs : List (Option (Stmt Token))} (hrs : (ofBound bound).Iterations (s.withRecover true) rs s')
    (hend : s'.current.kind = .eof) :
    Ends (ofBound bound).program s
      (fun p u => p = rs.filterMap id ∧ s'.diagnostics = u.diagnostics ∧
        ∀ d ∈ u.diagnostics, d.complaint.isStructural = false)
      (fun f u => (∃ d ds, f = .rejected d ∧ u.diagnostics = ds ++ [d] ∧
        (∀ x ∈ ds, x.complaint.isStructural = false) ∧ d.complaint.isStructural = true ∧
        u.diagnostics <+: s'.diagnostics) ∨ s.BreaksOff f) := by
  have hE := reads_ofBound bound
  -- The recovering parser takes the iterations of the strict one, and then its own.
  have lockstep {rs₁ : List (Option (Stmt Token))} {u : State}
      (hu : (ofBound bound).Iterations s rs₁ u) :
      (∀ d ∈ u.diagnostics, d.complaint.isStructural = false) ∧
        ∃ rs₂, rs = rs₁ ++ rs₂ ∧ (ofBound bound).Iterations (u.withRecover true) rs₂ s' := by
    obtain ⟨⟨ss, rfl⟩, hu'⟩ := hu.withRecover hs hd hstrict true
    obtain ⟨ds, hds, hskip⟩ := (hu.follows hE hs hd).illegal
    refine ⟨?_, hu'.split hrs hend⟩
    rw [hds]
    exact fun d hd => (List.mem_append.1 hd).elim (hclean d) (hskip d)
  refine (ends_program hE hs hd).mono ?yields ?fails
  case yields =>
    rintro p u ⟨rs₁, hu, hendu, rfl⟩
    obtain ⟨hcleanu, rs₂, rfl, hrs₂⟩ := lockstep hu
    cases hrs₂ with
    | cons hc => exact absurd hendu hc
    | nil => exact ⟨by rw [List.append_nil], rfl, hcleanu⟩
  case fails =>
    rintro f u ⟨rs₁, s₁, hs₁, hc, hiter⟩
    obtain ⟨hclean₁, rs₂, rfl, hrs₂⟩ := lockstep hs₁
    obtain ⟨hsteady, hdepth, hstrict₁, hupcoming, -⟩ := hs₁.keep hE hs hd
    rcases (ends_iteration hE hsteady hdepth).of_error hiter with ⟨-, d, rfl, hrejects⟩ |
      ⟨e, rfl, he⟩
    · have hrun := (ends_strictIteration bound hsteady (hstrict₁.trans hstrict) true).of_error hiter
      obtain ⟨hk, ds, hds, hskip⟩ := hrejects.reported
      refine .inl ⟨d, s₁.diagnostics ++ ds, rfl, hds, ?_, hk, ?_⟩
      · exact fun x hx => (List.mem_append.1 hx).elim (hclean₁ x) (hskip x)
      · exact hrs₂.diagnostics_of_rejected (u := u.withRecover true) hE
          (hsteady.withRecover true) hdepth hc hend (hrun d rfl)
    · exact .inr ⟨e, rfl, hupcoming.subset he⟩

end Engine

lemma State.start_withRecover {rules : Rules} {b : Bool} {scan : Scan} {s : State}
    (h : start rules b scan = .ok s) (b' : Bool) :
    start rules b' scan = .ok (s.withRecover b') ∧ s.recover = b := by
  obtain ⟨t, u, ht, hu, rfl⟩ := start_eq_ok.1 h
  exact ⟨start_eq_ok.2 ⟨t, u, ht, hu, rfl⟩, rfl⟩

lemma State.Starts.illegal {scan : Scan} {s : State} (h : s.Starts scan) :
    ∀ d ∈ s.diagnostics, d.complaint.isStructural = false := by
  obtain ⟨ts, -, hts⟩ := h.reported
  rw [hts]
  exact State.isStructural_ofIllegal ts

/-- The outcome of a strict parse is that of a recovering one, cut off behind the first diagnostic
that is not about an illegal character. -/
structure Outcome.IsCutOf (strict recovering : Outcome) : Prop where
  same : ∀ p, strict.program = .ok p → recovering = strict
  clean : ∀ p, strict.program = .ok p →
    ∀ d ∈ strict.diagnostics, d.complaint.isStructural = false
  failed : ∀ d, strict.program = .error d → d.complaint.isStructural = true ∧
    ∃ ds, strict.diagnostics = ds ++ [d] ∧ ∀ x ∈ ds, x.complaint.isStructural = false
  le : strict.diagnostics <+: recovering.diagnostics

lemma Outcome.IsCutOf.find?_eq {strict recovering : Outcome} (h : strict.IsCutOf recovering)
    {d : Diagnostic} (hd : strict.program = .error d) :
    strict.diagnostics.find? (·.complaint.isStructural) = some d ∧
      recovering.diagnostics.find? (·.complaint.isStructural) = some d := by
  obtain ⟨hk, ds, hds, hclean⟩ := h.failed d hd
  have hnone : ds.find? (·.complaint.isStructural) = none :=
    List.find?_eq_none.2 fun x hx => by simp [hclean x hx]
  obtain ⟨later, hlater⟩ := h.le
  rw [hds] at hlater
  rw [← hlater, hds]
  simp [List.find?_append, hnone, hk]

/-- Both parses of a text that has tokens come to an outcome, the strict one to a part of that of
the recovering one. -/
theorem exists_outcomes (bound : Bound) {source : String} {tokens : List Token}
    (h : tokenize source = .ok tokens) : ∃ strict recovering : Outcome,
      parseWithin bound false source = .ok strict ∧
      parseWithin bound true source = .ok recovering ∧ strict.IsCutOf recovering := by
  obtain ⟨s, rs, s', hs, hrs, hend, hparse⟩ := exists_iterations bound h
  obtain ⟨hstart, hrecover⟩ := State.start_withRecover hs false
  have hstarts := (State.starts hstart).1
  have hsame : (s.withRecover false).withRecover true = s := by
    rw [← hrecover]
    rfl
  have hends := Engine.ends_strictProgram hstarts.steady hstarts.depth rfl hstarts.illegal
    (hsame ▸ hrs) hend
  cases hrun : (Engine.ofBound bound).program (s.withRecover false) with
  | ok p u =>
    obtain ⟨rfl, hsame, hclean⟩ := hends.of_ok hrun
    refine ⟨⟨.ok (rs.filterMap id), u.diagnostics⟩, _, ?_, hparse, ?_⟩
    · simp only [parseWithin, hstart, bind, Except.bind, hrun]
      rfl
    · rw [hsame]
      exact ⟨fun _ _ => rfl, fun _ _ => hclean, fun _ hd => (by cases hd), List.prefix_rfl⟩
  | error f u =>
    rcases hends.of_error hrun with ⟨d, ds, rfl, hds, hclean, hk, hle⟩ | ⟨e, -, he⟩
    · refine ⟨⟨.error d, u.diagnostics⟩, _, ?_, hparse, fun _ hp => (by cases hp),
        fun _ hp => (by cases hp), ?_, hle⟩
      · simp only [parseWithin, hstart, bind, Except.bind, hrun]
        rfl
      · rintro d' ⟨rfl⟩
        exact ⟨hk, ds, hds, hclean⟩
    · obtain ⟨ts, hitems, -⟩ := tokenize_eq_ok.1 h
      have := hstarts.upcoming.subset he
      simp [hitems] at this

/-- A strict parse of a text that has tokens fails if and only if the recovering one records a
diagnostic that is not about an illegal character. It fails by the first such diagnostic, and
records what the recovering one records up to there. A strict parse that does not fail comes to what
the recovering one comes to. -/
theorem strict_agrees (bound : Bound) {source : String} {tokens : List Token}
    (h : tokenize source = .ok tokens) : ∃ strict recovering : Outcome,
      parseWithin bound false source = .ok strict ∧
      parseWithin bound true source = .ok recovering ∧
      ((∃ d, strict.program = .error d) ↔
        ∃ d ∈ recovering.diagnostics, d.complaint.isStructural = true) ∧
      (∀ d, strict.program = .error d →
        (∃ ds, strict.diagnostics = ds ++ [d] ∧
          ∀ x ∈ ds, x.complaint.isStructural = false) ∧
        d.complaint.isStructural = true ∧ strict.diagnostics <+: recovering.diagnostics) ∧
      (∀ p, strict.program = .ok p → recovering = strict) := by
  obtain ⟨strict, recovering, hstrict, hrecovering, hcut⟩ := exists_outcomes bound h
  refine ⟨strict, recovering, hstrict, hrecovering, ⟨?_, ?_⟩, ?_, hcut.same⟩
  · rintro ⟨d, hd⟩
    obtain ⟨hk, ds, hds, -⟩ := hcut.failed d hd
    have hmem : d ∈ strict.diagnostics := hds ▸ List.mem_append_right ds List.mem_cons_self
    exact ⟨d, hcut.le.subset hmem, hk⟩
  · rintro ⟨d, hd, hk⟩
    cases hprogram : strict.program with
    | error d => exact ⟨d, rfl⟩
    | ok p =>
      rw [hcut.same p hprogram] at hd
      rw [hcut.clean p hprogram d hd] at hk
      cases hk
  · intro d hd
    obtain ⟨hk, hds⟩ := hcut.failed d hd
    exact ⟨hds, hk, hcut.le⟩

/-- A strict parse that ends behind an illegal character, in front of another one. -/
theorem strict_agrees_at_illegal : ∃ tokens strict recovering d,
    tokenize "1 @ ) 2 $ (" = .ok tokens ∧ parseWithin 10 false "1 @ ) 2 $ (" = .ok strict ∧
      parseWithin 10 true "1 @ ) 2 $ (" = .ok recovering ∧ strict.program = .error d ∧
      strict.diagnostics <+: recovering.diagnostics := by
  have hsome : ((parseWithin 10 true "1 @ ) 2 $ (").map
      fun o => o.diagnostics.any (·.complaint.isStructural)) = .ok true := by
    decide +kernel
  cases htokens : tokenize "1 @ ) 2 $ (" with
  | error e => cases (show tokenize "1 @ ) 2 $ (" = .ok _ from rfl).symm.trans htokens
  | ok tokens =>
    obtain ⟨strict, recovering, hs, hr, hiff, hfails, -⟩ := strict_agrees 10 htokens
    rw [hr] at hsome
    obtain ⟨d, hd⟩ := hiff.2 (List.any_eq_true.1 (Except.ok.inj hsome))
    exact ⟨tokens, strict, recovering, d, rfl, hs, hr, hd, (hfails d hd).2.2⟩

end MonkeyFront
