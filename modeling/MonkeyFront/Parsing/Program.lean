import MonkeyFront.Limits

namespace MonkeyFront

/-- What a parse comes to: the program, or the diagnostic at which a strict parse ended, and all
diagnostics in the order in which they were found. -/
structure Outcome where
  program : Except Diagnostic (Program Token)
  diagnostics : List Diagnostic

def Outcome.program? (outcome : Outcome) : Option (Program Token) := outcome.program.toOption

/-- Parses a source text with a bound on the nesting of expressions. -/
def parseWithin (bound : Bound) (recover : Bool) (source : String) : Except ScanError Outcome := do
  let s ← State.start .standard recover (.ofText source)
  match (Engine.ofBound bound).program s with
  | .ok program s => return ⟨.ok program, s.diagnostics⟩
  | .error (.scan e) _ => throw e
  | .error (.rejected d) s => return ⟨.error d, s.diagnostics⟩
  | .error .tooDeep s => return ⟨.error ⟨.nestedTooDeeply, s.current.span⟩, s.diagnostics⟩

/-- A parse that comes to an outcome has started, and its program has been read or has failed, but
not for a scan error. -/
theorem parseWithin_eq_ok {bound : Bound} {recover : Bool} {source : String} {outcome : Outcome}
    (h : parseWithin bound recover source = .ok outcome) :
    ∃ s s', State.start .standard recover (.ofText source) = .ok s ∧
      outcome.diagnostics = s'.diagnostics ∧
      ((∃ p, (Engine.ofBound bound).program s = .ok p s' ∧ outcome.program = .ok p) ∨
        ∃ f d, (Engine.ofBound bound).program s = .error f s' ∧ (∀ e, f ≠ .scan e) ∧
          outcome.program = .error d) := by
  unfold parseWithin at h
  cases hstart : State.start .standard recover (.ofText source) with
  | error e => simp [hstart, bind, Except.bind] at h
  | ok s =>
    simp only [hstart, bind, Except.bind] at h
    cases hrun : (Engine.ofBound bound).program s with
    | ok p s' =>
      rw [hrun] at h
      obtain rfl := Except.ok.inj h
      exact ⟨s, s', rfl, rfl, .inl ⟨p, hrun, rfl⟩⟩
    | error f s' =>
      rw [hrun] at h
      cases f with
      | scan e => cases h
      | rejected d | tooDeep =>
        obtain rfl := Except.ok.inj h
        exact ⟨s, s', rfl, rfl, .inr ⟨_, _, hrun, by rintro e ⟨⟩, rfl⟩⟩

section Limited

variable [limits : Limits]

def parse (recover : Bool) (source : String) : Except ScanError Outcome :=
  parseWithin limits.nesting recover source

/-- The wordings of all diagnostics of a source text; none where it is well formed. -/
def check (source : String) : Except ScanError (List String) :=
  return (← parse true source).diagnostics.map (·.message)

end Limited

end MonkeyFront
