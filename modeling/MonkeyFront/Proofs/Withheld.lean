import MonkeyFront.Proofs.Endings
import MonkeyFront.Proofs.Faults

namespace MonkeyFront

/-! ### What a parser has recorded -/

namespace State

variable {s s' : State}

lemma FailsAfter.prefix_diagnostics {f : Failure} (h : s.FailsAfter f s') :
    s.diagnostics <+: s'.diagnostics := by
  cases f with
  | scan e =>
    obtain ⟨s₁, hs₁, hrun⟩ := h
    rw [s₁.ends_advance_recorded.of_error hrun]
    exact hs₁.prefix_diagnostics.trans (List.prefix_append _ _)
  | rejected d => exact Reaches.prefix_diagnostics h
  | tooDeep =>
    rcases h with h | ⟨s₁, hs₁, ho⟩
    · exact Reaches.prefix_diagnostics h
    · exact hs₁.prefix_diagnostics.trans ho.prefix_diagnostics

/-- The state of a parser that has not looked at a scan yet. -/
def blank (recover : Bool) (scan : Scan) : State where
  upcoming := scan.items
  last := scan.last
  current := scan.last
  peek := scan.last
  skipped := []
  depth := 0
  diagnostics := []
  recover := recover
  rules := .standard

end State

/-- The diagnostics recorded where an operation ends, whether it fails or not. -/
def recordedBy {α : Type} (p : Parse α) (s : State) : List Diagnostic :=
  match p s with
  | .ok _ s' => s'.diagnostics
  | .error _ s' => s'.diagnostics

lemma Ends.recordedBy {α : Type} {p : Parse α} {s : State} {motive : List Diagnostic → Prop}
    (h : Ends p s (fun _ s' => motive s'.diagnostics) (fun _ s' => motive s'.diagnostics)) :
    motive (recordedBy p s) := by
  unfold Ends at h
  unfold MonkeyFront.recordedBy
  cases hrun : p s <;> rwa [hrun] at h

/-! ### Whole parses -/

namespace Engine

variable {engine : Engine}

/-- What iterations have had recorded is recorded by the program that begins with them. -/
lemma Iterations.prefix_recorded (hE : engine.Reads) (hsteps : engine.TakesSteps) {s u : State}
    {rs : List (Option (Stmt Token))} (h : engine.Iterations s rs u) (hs : s.Steady)
    (hd : s.depth = 0) : u.diagnostics <+: recordedBy engine.program s := by
  obtain ⟨hu, hdepth, -⟩ := h.keep hE hs hd
  apply Ends.recordedBy
  apply (ends_program hE hs hd).mono
  · rintro p s' ⟨rs', hrs', hend, -⟩
    obtain ⟨rs₂, -, hrest⟩ := h.split hrs' hend
    exact hrest.prefix_diagnostics hE hu hdepth
  · rintro f s' ⟨rs', s₁, hrs', -, hfails⟩
    obtain ⟨rs₂, -, hrest⟩ := h.split_of_stops hrs' fun _ => ⟨f, s', hfails⟩
    have hlast := (hsteps.iteration s₁).of_error hfails
    exact (hrest.prefix_diagnostics hE hu hdepth).trans hlast.prefix_diagnostics

/-- Takes the first two tokens and reads a program. -/
def whole (engine : Engine) : Parse (Program Token) := do
  advance
  advance
  engine.program

lemma whole_blank (engine : Engine) (recover : Bool) (scan : Scan) :
    match State.start .standard recover scan with
    | .ok s => engine.whole (.blank recover scan) = engine.program s
    | .error e => ∃ s, engine.whole (.blank recover scan) = .error (.scan e) s := by
  simp only [State.start, whole, bind, EStateM.bind, Except.bind, pure, Except.pure, advance,
    State.blank]
  cases hfirst : (pull scan.last scan.items).token with
  | error e => exact ⟨_, rfl⟩
  | ok current =>
    simp only [List.map_nil, List.append_nil, List.nil_append]
    cases hsecond : (pull scan.last (pull scan.last scan.items).rest).token with
    | error e => exact ⟨_, rfl⟩
    | ok peek => rfl

end Engine

/-- The diagnostics that a parse of a source text has recorded where it ends, be it by a scan
error. -/
def recordedWithin (bound : Bound) (recover : Bool) (source : String) : List Diagnostic :=
  recordedBy (Engine.ofBound bound).whole (.blank recover (.ofText source))

section Recorded

variable {bound : Bound} {recover : Bool} {source : String}

lemma recordedWithin_of_parse {outcome : Outcome}
    (h : parseWithin bound recover source = .ok outcome) :
    recordedWithin bound recover source = outcome.diagnostics := by
  have hwhole := (Engine.ofBound bound).whole_blank recover (.ofText source)
  obtain ⟨s, s', hstart, hdiagnostics, hrun⟩ := parseWithin_eq_ok h
  rw [hstart] at hwhole
  rw [recordedWithin, recordedBy, hwhole, hdiagnostics]
  rcases hrun with ⟨p, hrun, -⟩ | ⟨f, -, hrun, -⟩ <;> simp only [hrun]

/-- What the iterations of a parse have had recorded is recorded where it ends. -/
lemma recordedWithin_of_iterations {s s' : State} {rs : List (Option (Stmt Token))}
    (hstart : State.start .standard recover (.ofText source) = .ok s)
    (h : (Engine.ofBound bound).Iterations s rs s') :
    s'.diagnostics <+: recordedWithin bound recover source := by
  have hwhole := (Engine.ofBound bound).whole_blank recover (.ofText source)
  rw [hstart] at hwhole
  obtain ⟨hstarts, -⟩ := State.starts hstart
  rw [recordedWithin, recordedBy, hwhole]
  exact h.prefix_recorded (Engine.reads_ofBound bound) (Engine.takesSteps_ofBound bound)
    hstarts.steady hstarts.depth

end Recorded

/-! ### What a run shows -/

/-- The diagnostics of a file, as a run shows them. -/
def diagnosticsShown (file source : String) (ds : List Diagnostic) : String :=
  String.join (ds.map fun d => d.report file source ++ "\n")

lemma diagnosticsShown_append_eq_self {file source shown : String} {ds : List Diagnostic} :
    diagnosticsShown file source ds ++ shown = shown ↔ ds = [] := by
  rw [← String.toList_inj, String.toList_append, List.append_left_eq_self]
  cases ds with
  | nil => simp [diagnosticsShown]
  | cons d ds => simp [diagnosticsShown, String.join_cons]

/-- A run that parses a file shows all diagnostics that the parse has recorded, unless the scan
fails. Then it shows the scan error alone, so that what has been recorded, by the statements in
front of it for one, is withheld if there is anything. -/
theorem run_shows_recorded_unless_scan_fails [limits : Limits] {disk : Disk}
    {commandLine : List String}
    {arguments : Arguments} {options : Options} {file : Path} {source : String}
    (harguments : Arguments.ofList commandLine = .ok arguments)
    (hoptions : optionsFor disk arguments = .ok options) (hfile : options.input = some file)
    (hparsing : options.tokens = false) (hholds : disk.Holds file source) (input : String) :
    let recorded := recordedWithin limits.nesting options.recover source
    let shown := diagnosticsShown file.text source recorded
    (∀ outcome, parse options.recover source = .ok outcome → outcome.diagnostics = recorded ∧
      (recorded ≠ [] → run disk commandLine input = ⟨"", shown, .exited 1⟩)) ∧
    (∀ e, parse options.recover source = .error e →
      let fault := excerptFrom e.message file.text source e.position ++ "\n"
      run disk commandLine input = ⟨"", fault, .exited 2⟩ ∧
      ((run disk commandLine input).err = shown ++ fault ↔ recorded = [])) ∧
    ∀ s rs s', State.start .standard options.recover (.ofText source) = .ok s →
      (Engine.ofBound limits.nesting).Iterations s rs s' → s'.diagnostics <+: recorded := by
  intro recorded shown
  have hrun : run disk commandLine input = runFile disk options file := by
    simp only [run, harguments, runArguments, hoptions, runWith, hfile]
  refine ⟨fun outcome h => ?_, fun e h => ?_, fun s rs s' hstart h => ?_⟩
  · have hrecorded : recorded = outcome.diagnostics := recordedWithin_of_parse h
    refine ⟨hrecorded.symm, fun hne => ?_⟩
    have hreport := runFile_of_faulty hholds hparsing h (hrecorded ▸ hne)
    rw [hrun, hreport, ← hrecorded]
    rfl
  · intro fault
    have hfault : run disk commandLine input = ⟨"", fault, .exited 2⟩ := by
      rw [hrun, runFile_of_holds hholds, runSource, hparsing, h]
      simp only [Bool.false_eq_true, if_false, Run.failed, String.empty_append]
      rfl
    refine ⟨hfault, ?_⟩
    rw [hfault]
    exact eq_comm.trans diagnosticsShown_append_eq_self
  · exact recordedWithin_of_iterations hstart h

/-- The complaint about a binding without a name is withheld for the digit in the next line that is
no number. -/
theorem run_withholds_complaint_before_digit :
    let source := "let 5;\n²\n"
    let disk := Disk.ofFile "a.monkey" source.toUTF8
    let fault := excerptFrom "digit run '²' is not a base-10 integer" "a.monkey" source ⟨2, 1, 7⟩
    (recordedWithin Limits.standard.nesting true source).map (·.message) =
      ["expected next token to be IDENT, got INT instead"] ∧
    run disk ["a.monkey"] "" = ⟨"", fault ++ "\n", .exited 2⟩ ∧
    (run disk ["a.monkey"] "").err ≠
      diagnosticsShown "a.monkey" source (recordedWithin Limits.standard.nesting true source) ++
        (fault ++ "\n") := by
  intro source disk fault
  have harguments : Arguments.ofList ["a.monkey"] =
      .ok ⟨some "a.monkey", false, false, none, none, none, false⟩ := by decide +kernel
  have hoptions : optionsFor disk ⟨some "a.monkey", false, false, none, none, none, false⟩ =
      .ok ⟨some (.ofText "a.monkey"), false, true, .value defaultPrompt, .value .tokens, false⟩ :=
    by decide +kernel
  have hholds : disk.Holds (.ofText "a.monkey") source :=
    ⟨source.toUTF8, source, by rfl, dif_pos source.isValidUTF8, by decide +kernel⟩
  have hparse : parse true source = .error ⟨"²", ⟨2, 1, 7⟩⟩ := by
    have hfails := parse_recovering Limits.standard.nesting source
    have hfirst : firstError? (Scan.ofText source).items = some ⟨"²", ⟨2, 1, 7⟩⟩ := by
      decide +kernel
    rw [hfirst] at hfails
    exact hfails
  have hrecorded : (recordedWithin Limits.standard.nesting true source).map (·.message) =
      ["expected next token to be IDENT, got INT instead"] := by decide +kernel
  obtain ⟨-, hfails, -⟩ :=
    run_shows_recorded_unless_scan_fails harguments hoptions rfl rfl hholds ""
  obtain ⟨hrun, hshown⟩ := hfails _ hparse
  refine ⟨hrecorded, hrun, fun h => ?_⟩
  rw [hshown.1 h] at hrecorded
  cases hrecorded

end MonkeyFront
