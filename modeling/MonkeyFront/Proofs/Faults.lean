import MonkeyFront.Proofs.Acceptance
import MonkeyFront.Proofs.Steps

namespace MonkeyFront

def firstError? (items : List Scanned) : Option ScanError :=
  items.findSome? fun
    | .error e => some e
    | .ok _ => none

lemma firstError?_eq_none {items : List Scanned} :
    firstError? items = none ↔ ∀ e, .error e ∉ items := by
  rw [firstError?, List.findSome?_eq_none_iff]
  constructor
  · exact fun h e he => by cases h _ he
  · rintro h (e | t) hx
    · exact absurd hx (h e)
    · rfl

theorem tokenize_eq_error {source : String} {e : ScanError} :
    tokenize source = .error e ↔ firstError? (Scan.ofText source).items = some e := by
  have collect (items : List Scanned) : items.mapM id = .error e ↔ firstError? items = some e := by
    induction items with
    | nil => simp [firstError?, pure, Except.pure]
    | cons x items ih =>
      cases x with
      | error e' => simp [firstError?, bind, Except.bind]
      | ok t =>
        rw [firstError?, List.findSome?_cons, ← firstError?, ← ih]
        cases hm : items.mapM id <;> simp [bind, Except.bind, pure, Except.pure, hm]
  rw [← collect, tokenize]
  cases (Scan.ofText source).items.mapM id <;> simp [bind, Except.bind, pure, Except.pure]

/-- A pull that fails does so by the first scan error, any other leaves this one to come. -/
lemma firstError?_eq_pull (last : Token) (items : List Scanned) :
    firstError? items =
      match (pull last items).token with
      | .error e => some e
      | .ok _ => firstError? (pull last items).rest := by
  fun_induction pull last items with
  | case1 => rfl
  | case2 => rfl
  | case3 t rest _ pulled ih => exact ih
  | case4 t rest _ => rfl

namespace State

variable {s s' : State}

lemma firstError?_of_advance (h : MonkeyFront.advance s = .ok () s') :
    firstError? s'.upcoming = firstError? s.upcoming := by
  have hpull := firstError?_eq_pull s.last s.upcoming
  simp only [MonkeyFront.advance] at h
  cases htoken : (pull s.last s.upcoming).token with
  | error e =>
    rw [htoken] at h
    cases h
  | ok t =>
    rw [htoken] at h hpull
    cases h
    exact hpull.symm

lemma firstError?_of_fault {e : ScanError} (h : MonkeyFront.advance s = .error (.scan e) s') :
    firstError? s.upcoming = some e := by
  have hpull := firstError?_eq_pull s.last s.upcoming
  simp only [MonkeyFront.advance] at h
  cases htoken : (pull s.last s.upcoming).token with
  | error e' =>
    rw [htoken] at h hpull
    cases h
    exact hpull
  | ok t =>
    rw [htoken] at h
    cases h

lemma Overruns.firstError?_eq (h : s.Overruns s') :
    firstError? s'.upcoming = firstError? s.upcoming := by
  cases h with
  | pulled htoken =>
    have hpull := firstError?_eq_pull s.last s.upcoming
    rw [htoken] at hpull
    exact hpull.symm
  | taken htaken =>
    rw [htaken]
    rfl
  | entered => rfl

lemma Reaches.firstError?_eq (h : s.Reaches s') :
    firstError? s'.upcoming = firstError? s.upcoming := by
  induction h with
  | refl => rfl
  | advance _ hrun ih => rw [firstError?_of_advance hrun, ih]
  | report _ _ ih => exact ih
  | overrun _ ho ih => exact ho.firstError?_eq.trans ih
  | count _ _ ih => exact ih
  | rule _ _ ih => exact ih

lemma start_spec (rules : Rules) (recover : Bool) (scan : Scan) :
    match start rules recover scan with
    | .error e => firstError? scan.items = some e
    | .ok s => firstError? s.upcoming = firstError? scan.items := by
  have hfirst := firstError?_eq_pull scan.last scan.items
  have hsecond := firstError?_eq_pull scan.last (pull scan.last scan.items).rest
  unfold start
  cases ht : (pull scan.last scan.items).token with
  | error e =>
    rw [ht] at hfirst
    simpa [bind, Except.bind, ht] using hfirst
  | ok t =>
    rw [ht] at hfirst
    cases hu : (pull scan.last (pull scan.last scan.items).rest).token with
    | error e =>
      rw [hu] at hsecond
      simpa [bind, Except.bind, ht, hu] using hfirst.trans hsecond
    | ok u =>
      rw [hu] at hsecond
      simpa [bind, Except.bind, pure, Except.pure, ht, hu] using (hfirst.trans hsecond).symm

end State

lemma Engine.TakesSteps.iteration {engine : Engine} (hE : engine.TakesSteps) :
    MonkeyFront.TakesSteps engine.iteration :=
  .bind hE.recoveringStatement fun _ => .bind .advance fun _ => .pure _

lemma Engine.Iterations.reaches {engine : Engine} (hE : engine.TakesSteps) {s s' : State}
    {rs : List (Option (Stmt Token))} (h : engine.Iterations s rs s') : s.Reaches s' := by
  induction h with
  | nil => exact .refl
  | cons _ hiter _ ih => exact ((hE.iteration _).of_ok hiter).trans ih

/-- A recovering parser reads up to the end of input, where nothing is left to scan, or meets the
first scan error. -/
theorem Engine.ends_program_of_recover (bound : Bound) {s : State} (hs : s.Steady)
    (hd : s.depth = 0) (hrecover : s.recover = true) : Ends (ofBound bound).program s
      (fun _ _ => firstError? s.upcoming = none)
      (fun f _ => ∃ e, f = .scan e ∧ firstError? s.upcoming = some e) := by
  have hE := reads_ofBound bound
  apply ((ends_program hE hs hd).and ((takesSteps_ofBound bound).program s)).mono
  · rintro p s' ⟨⟨rs, hrs, hend, -⟩, hsteps⟩
    have hs' := (hrs.keep hE hs hd).1
    have hupcoming : s'.upcoming = [] := by
      apply (hs'.peek _).2
      rw [(hs'.current hend).2, hs'.last]
    rw [← hsteps.firstError?_eq, hupcoming]
    rfl
  · rintro f s' ⟨⟨rs, s₁, hrs, -, hiter⟩, hsteps⟩
    obtain ⟨hs₁, hd₁, hrecover₁, -⟩ := hrs.keep hE hs hd
    rcases (ends_iteration hE hs₁ hd₁).of_error hiter with ⟨hstrict, -⟩ | ⟨e, rfl, -⟩
    · rw [hrecover₁, hrecover] at hstrict
      cases hstrict
    · obtain ⟨s₂, hs₂, hfault⟩ := hsteps
      refine ⟨e, rfl, ?_⟩
      rw [← hs₂.firstError?_eq]
      exact State.firstError?_of_fault hfault

/-- A recovering parse fails by the first scan error of its text, or comes to a program. -/
lemma parse_recovering (bound : Bound) (source : String) :
    match firstError? (Scan.ofText source).items with
    | some e => parseWithin bound true source = .error e
    | none => ∃ p ds, parseWithin bound true source = .ok ⟨.ok p, ds⟩ := by
  have hstart := State.start_spec .standard true (.ofText source)
  unfold parseWithin
  cases hs : State.start .standard true (.ofText source) with
  | error e =>
    rw [hs] at hstart
    rw [hstart]
    rfl
  | ok s =>
    rw [hs] at hstart
    obtain ⟨hstarts, hrecover⟩ := State.starts hs
    have hends := Engine.ends_program_of_recover bound hstarts.steady hstarts.depth hrecover
    simp only [bind, Except.bind]
    cases hrun : (Engine.ofBound bound).program s with
    | ok p s' =>
      rw [← hstart, hends.of_ok hrun]
      exact ⟨p, s'.diagnostics, rfl⟩
    | error f s' =>
      obtain ⟨e, rfl, herror⟩ := hends.of_error hrun
      rw [← hstart, herror]
      rfl

/-- A recovering parse fails exactly by the scan error that its text fails to scan by. It rejects no
program, and comes to one where the text has tokens. -/
theorem recovering_fails_iff (bound : Bound) (source : String) :
    (∀ e, parseWithin bound true source = .error e ↔ tokenize source = .error e) ∧
    (∀ outcome, parseWithin bound true source = .ok outcome → ∃ p, outcome.program = .ok p) ∧
    ((∃ tokens, tokenize source = .ok tokens) →
      ∃ p ds, parseWithin bound true source = .ok ⟨.ok p, ds⟩) := by
  have hparse := parse_recovering bound source
  simp only [tokenize_eq_error]
  cases herror : firstError? (Scan.ofText source).items with
  | some e =>
    rw [herror] at hparse
    have hfails := tokenize_eq_error.2 herror
    refine ⟨fun e' => by rw [hparse]; simp, fun outcome h => ?_, fun ⟨tokens, h⟩ => ?_⟩
    · rw [hparse] at h
      cases h
    · rw [hfails] at h
      cases h
  | none =>
    rw [herror] at hparse
    obtain ⟨p, ds, hparse⟩ := hparse
    refine ⟨fun e' => by rw [hparse]; simp, fun outcome h => ⟨p, ?_⟩, fun _ => ⟨p, ds, hparse⟩⟩
    rw [← Except.ok.inj (hparse.symm.trans h)]

/-- A scan error in what is skipped is not passed over. -/
example : (parseWithin 10 true "let = 1 ² ; 2 ³").map (·.diagnostics.length) =
    .error ⟨"²", ⟨1, 9, 8⟩⟩ := by
  decide +kernel

end MonkeyFront
