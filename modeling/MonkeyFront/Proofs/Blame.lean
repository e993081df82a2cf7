import MonkeyFront.Proofs.Pulls

/-!
# Diagnostics are about tokens

A parser complains about nothing but tokens of its scan, an illegal character where it quotes the
literal and another token where it names the kind (`IsRecorded.exists_token`).
-/

namespace MonkeyFront

/-- The tokens of a scan, and the one behind them all. -/
def Scan.tokens (scan : Scan) : List Token := tokensAmong scan.items ++ [scan.last]

/-- The diagnostic has the stretch of the token and names it: it quotes the literal of an illegal
character, and it tells the kind of any other token unless expressions nest too deeply there. -/
inductive Names (t : Token) : Diagnostic → Prop
  | illegal : t.kind = .illegal → Names t ⟨.illegalCharacter t.literal, t.span⟩
  | unexpected (wanted : Kind) : t.kind ≠ .illegal →
      Names t ⟨.unexpectedToken wanted t.kind, t.span⟩
  | noExpression : t.kind ≠ .illegal → Names t ⟨.noExpression t.kind, t.span⟩
  | tooDeep : t.kind ≠ .illegal → Names t ⟨.nestedTooDeeply, t.span⟩

lemma Names.span_eq {t : Token} {d : Diagnostic} (h : Names t d) : d.span = t.span := by
  cases h <;> rfl

/-- When the parse of a text by the standard rules ends, in whichever way, the diagnostic has been
recorded. -/
def IsRecorded (bound : Bound) (recover : Bool) (source : String) (d : Diagnostic) : Prop :=
  ∃ s s' : State, State.start .standard recover (.ofText source) = .ok s ∧
    ((∃ p, (Engine.ofBound bound).program s = .ok p s') ∨
      ∃ f, (Engine.ofBound bound).program s = .error f s') ∧ d ∈ s'.diagnostics

/-- The diagnostics of a parse that comes to an outcome are those that have been recorded. -/
lemma isRecorded_of_parseWithin {bound : Bound} {recover : Bool} {source : String}
    {outcome : Outcome} (h : parseWithin bound recover source = .ok outcome) {d : Diagnostic}
    (hd : d ∈ outcome.diagnostics) : IsRecorded bound recover source d := by
  obtain ⟨s, s', hstart, hdiagnostics, hrun⟩ := parseWithin_eq_ok h
  refine ⟨s, s', hstart, ?_, hdiagnostics ▸ hd⟩
  rcases hrun with ⟨p, hrun, -⟩ | ⟨f, -, hrun, -⟩
  · exact .inl ⟨p, hrun⟩
  · exact .inr ⟨f, hrun⟩

/-! ### Pulls -/

section Pulls

variable {last t : Token} {items : List Scanned}

lemma kind_pull_ne_illegal (hlast : last.kind ≠ .illegal)
    (h : (pull last items).token = .ok t) : t.kind ≠ .illegal := by
  fun_induction pull last items with
  | case1 => rwa [← Except.ok.inj h]
  | case2 => cases h
  | case3 _ _ _ _ ih => exact ih h
  | case4 u _ hu => rwa [← Except.ok.inj h]

end Pulls

/-! ### States -/

namespace State

/-- The parser draws on the scan: the tokens that it looks at and those that it has still to report
are of the scan, and each diagnostic is about a token of the scan. -/
structure Draws (scan : Scan) (s : State) : Prop where
  last : s.last = scan.last
  upcoming : s.upcoming <:+ scan.items
  current : s.current ∈ scan.tokens ∧ s.current.kind ≠ .illegal
  peek : s.peek ∈ scan.tokens ∧ s.peek.kind ≠ .illegal
  skipped : ∀ t ∈ s.skipped, t ∈ scan.tokens ∧ t.kind = .illegal
  diagnostics : ∀ d ∈ s.diagnostics, ∃ t ∈ scan.tokens, Names t d

namespace Draws

variable {scan : Scan} {s s' : State}

lemma mem_tokens {t : Token} {items : List Scanned} (hitems : items <:+ scan.items)
    (h : .ok t ∈ items) : t ∈ scan.tokens :=
  List.mem_append_left _ (mem_tokensAmong.2 (hitems.subset h))

lemma pulled (hlast : scan.last.kind ≠ .illegal) {items : List Scanned}
    (hitems : items <:+ scan.items) {t : Token} (h : (pull scan.last items).token = .ok t) :
    t ∈ scan.tokens ∧ t.kind ≠ .illegal := by
  refine ⟨?_, kind_pull_ne_illegal hlast h⟩
  rcases pull_ok h with ⟨rfl, -⟩ | ⟨hmem, -⟩
  · exact List.mem_append_right _ (List.mem_singleton.2 rfl)
  · exact mem_tokens hitems hmem

lemma passed {items : List Scanned} (hitems : items <:+ scan.items) :
    ∀ t ∈ (pull scan.last items).illegal, t ∈ scan.tokens ∧ t.kind = .illegal := by
  intro t ht
  obtain ⟨hmem, hk⟩ := of_mem_pull_illegal ht
  exact ⟨mem_tokens hitems hmem, hk⟩

lemma names_ofIllegal {ts : List Token} (h : ∀ t ∈ ts, t ∈ scan.tokens ∧ t.kind = .illegal) :
    ∀ d ∈ ts.map Diagnostic.ofIllegal, ∃ t ∈ scan.tokens, Names t d := by
  rw [List.forall_mem_map]
  exact fun t ht => ⟨t, (h t ht).1, .illegal (h t ht).2⟩

lemma of_start (hlast : scan.last.kind ≠ .illegal) {rules : Rules} {recover : Bool}
    (h : start rules recover scan = .ok s) : s.Draws scan := by
  obtain ⟨t, u, ht, hu, rfl⟩ := start_eq_ok.1 h
  have hrest := pull_rest_suffix scan.last scan.items
  exact {
    last := rfl
    upcoming := (pull_rest_suffix _ _).trans hrest
    current := pulled hlast List.suffix_rfl ht
    peek := pulled hlast hrest hu
    skipped := passed hrest
    diagnostics := names_ofIllegal (passed List.suffix_rfl) }

/-- The parser goes on drawing on the scan when it advances, also where the scan fails. -/
lemma ends_advance (hlast : scan.last.kind ≠ .illegal) (h : s.Draws scan) :
    Ends advance s (fun _ s' => s'.Draws scan) (fun _ s' => s'.Draws scan) := by
  have hdiagnostics : ∀ d ∈ s.diagnostics ++ s.skipped.map .ofIllegal,
      ∃ t ∈ scan.tokens, Names t d :=
    List.forall_mem_append.2 ⟨h.diagnostics, names_ofIllegal h.skipped⟩
  simp only [Ends, advance, h.last]
  have hrest := (pull_rest_suffix scan.last s.upcoming).trans h.upcoming
  cases htoken : (pull scan.last s.upcoming).token with
  | ok t =>
    exact ⟨rfl, hrest, h.peek, pulled hlast h.upcoming htoken, passed h.upcoming, hdiagnostics⟩
  | error e => exact ⟨rfl, hrest, h.peek, h.peek, passed h.upcoming, hdiagnostics⟩

lemma names_of_blames (h : s.Draws scan) {complaint : Complaint} {t : Token}
    (ht : s.Blames complaint t) : t ∈ scan.tokens ∧ Names t ⟨complaint, t.span⟩ := by
  cases ht with
  | unexpected kind => exact ⟨h.peek.1, .unexpected kind h.peek.2⟩
  | unclosed hc => exact ⟨h.current.1, hc ▸ .unexpected .rbrace h.current.2⟩
  | noExpression => exact ⟨h.current.1, .noExpression h.current.2⟩
  | nestedTooDeeply => exact ⟨h.current.1, .tooDeep h.current.2⟩

lemma report (h : s.Draws scan) {complaint : Complaint} {t : Token} (ht : s.Blames complaint t) :
    (s.report complaint t).Draws scan where
  last := h.last
  upcoming := h.upcoming
  current := h.current
  peek := h.peek
  skipped := fun u hu => h.skipped u (List.mem_of_mem_filter hu)
  diagnostics := by
    have hnames := h.names_of_blames ht
    rw [State.report, List.forall_mem_append, List.forall_mem_append, List.forall_mem_singleton]
    refine ⟨⟨h.diagnostics, names_ofIllegal fun u hu => ?_⟩, t, hnames⟩
    exact h.skipped u (List.mem_of_mem_filter hu)

lemma overrun (h : s.Draws scan) (ho : s.Overruns s') : s'.Draws scan where
  last := ho.last_eq.trans h.last
  upcoming := ho.upcoming_suffix.trans h.upcoming
  current := by
    rw [ho.current_eq]
    exact h.peek
  peek := by
    rw [ho.peek_eq]
    exact h.peek
  skipped := fun t ht => (ho.of_mem_skipped ht).imp_left (mem_tokens h.upcoming)
  diagnostics := by
    rw [ho.diagnostics_eq]
    exact List.forall_mem_append.2 ⟨h.diagnostics, names_ofIllegal h.skipped⟩

theorem of_reaches (hlast : scan.last.kind ≠ .illegal) (h : s.Draws scan) (hs : s.Reaches s') :
    s'.Draws scan := by
  induction hs with
  | refl => exact h
  | advance _ hrun ih => exact (ih.ends_advance hlast).of_ok hrun
  | report _ hblames ih => exact ih.report hblames
  | overrun _ ho ih => exact (ih.overrun ho).report .nestedTooDeeply
  | count _ _ ih | rule _ _ ih =>
    exact ⟨ih.last, ih.upcoming, ih.current, ih.peek, ih.skipped, ih.diagnostics⟩

lemma of_failsAfter (hlast : scan.last.kind ≠ .illegal) (h : s.Draws scan) {f : Failure}
    (hs : s.FailsAfter f s') : s'.Draws scan := by
  cases f with
  | scan e =>
    obtain ⟨s₁, hs₁, hrun⟩ := hs
    exact ((h.of_reaches hlast hs₁).ends_advance hlast).of_error hrun
  | rejected d => exact h.of_reaches hlast hs
  | tooDeep =>
    rcases hs with hs | ⟨s₁, hs₁, ho⟩
    · exact h.of_reaches hlast hs
    · exact (h.of_reaches hlast hs₁).overrun ho

end Draws

end State

/-- Every diagnostic that is recorded is about a token of the scan, which it names. -/
theorem IsRecorded.exists_token {bound : Bound} {recover : Bool} {source : String} {d : Diagnostic}
    (h : IsRecorded bound recover source d) : ∃ t ∈ (Scan.ofText source).tokens, Names t d := by
  obtain ⟨s, s', hstart, hrun, hd⟩ := h
  have hlast : (Scan.ofText source).last.kind ≠ .illegal := by
    rw [Scan.kind_last]
    decide
  have hs := State.Draws.of_start hlast hstart
  have hsteps := (Engine.takesSteps_ofBound bound).program s
  have hs' : s'.Draws (.ofText source) := by
    rcases hrun with ⟨p, hrun⟩ | ⟨f, hrun⟩
    · exact hs.of_reaches hlast (hsteps.of_ok hrun)
    · exact hs.of_failsAfter hlast (hsteps.of_error hrun)
  exact hs'.diagnostics d hd

end MonkeyFront
