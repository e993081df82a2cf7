import MonkeyFront.Proofs.SharedOperations
import MonkeyFront.Proofs.Blanking

namespace MonkeyFront

namespace State

/-- A mate that shares all tokens is left behind only where expressions nest too deeply. -/
lemma Beside.exists_mate {v' : List Token} {k : Place} {s : State} {r : Option State}
    (h : s.Beside (.atRest [] v' True) k r)
    (hshallow : ∀ d ∈ s.diagnostics, d.complaint ≠ .nestedTooDeeply) :
    ∃ s', r = some s' ∧ s.Mates (.atRest [] v' True) k s' := by
  cases r with
  | some s' => exact ⟨s', rfl, h.mate s' rfl⟩
  | none =>
    rcases h.alone rfl with hleaves | ⟨-, d, hd, hdeep⟩
    · have := List.suffix_nil.1 hleaves
      cases k <;> simp [stream] at this
    · exact absurd hdeep (hshallow d hd)

end State

/-- Parsers before the same tokens come to the same end, with the same diagnostics but for those
that are about illegal characters, if nothing nests too deeply. -/
theorem Engine.ends_program_beside (bound : Bound) {s s' : State}
    (h : s.Beside (.atRest [] [] True) .before (some s')) (hd : s.depth = 0) :
    Ends (ofBound bound).program s
      (fun p u => (∀ d ∈ u.diagnostics, d.complaint ≠ .nestedTooDeeply) →
        ∃ u', (ofBound bound).program s' = .ok p u' ∧ u'.complaints = u.complaints)
      (fun f u => ∀ d, f = .rejected d → (∀ d ∈ u.diagnostics, d.complaint ≠ .nestedTooDeeply) →
        ∃ u', (ofBound bound).program s' = .error f u' ∧ u'.complaints = u.complaints) := by
  have hinStep : (ofBound bound).StaysInStep (ofBound bound) (.atRest [] [] True) :=
    (bounded_ofBound bound).staysInStep (.inl rfl)
  refine Ends.mono (hinStep.program trivial (reads_ofBound bound) h hd) ?_ ?_
  · rintro p u ⟨r, hr, hb⟩ hshallow
    obtain ⟨u', rfl, hm⟩ := hb.exists_mate hshallow
    obtain ⟨_, ⟨rfl⟩, hrun⟩ := hr u' rfl
    exact ⟨u', hrun, hm.complaints⟩
  · rintro _ u ⟨r, hr, hstops⟩ d rfl hshallow
    obtain ⟨k, t, hb, -⟩ := hstops
    obtain ⟨u', rfl, hm⟩ := hb.exists_mate hshallow
    obtain ⟨_, ⟨rfl⟩, hrun⟩ := hr u' rfl
    exact ⟨u', hrun, hm.complaints⟩

/-- Where no illegal character is reported, everything that is reported is a complaint. -/
lemma filter_isStructural_of_illegal_eq_nil {ds : List Diagnostic}
    (h : ds.filter (!·.complaint.isStructural) = []) :
    ds.filter (·.complaint.isStructural) = ds :=
  List.filter_eq_self.2 fun d hd => by simpa using List.filter_eq_nil_iff.1 h d hd

/-- In a text with spaces for its illegal characters nothing else is missing. -/
theorem tokenize_spacedAt {source : String} {tokens : List Token}
    (h : tokenize source = .ok tokens) : tokenize (spacedAt (illegalAmong tokens) source) =
      .ok (tokens.filter (·.kind ≠ .illegal)) := by
  have hscan := Scan.ofText_spacedAt h
  obtain ⟨ts, hitems, rfl⟩ := tokenize_eq_ok.1 h
  have hlegal : (ts.map Except.ok).filter isLegal = (ts.filter (·.kind ≠ .illegal)).map .ok := by
    rw [List.filter_map]
    rfl
  rw [hitems, hlegal] at hscan
  refine tokenize_eq_ok.2 ⟨ts.filter (·.kind ≠ .illegal), by rw [hscan], ?_⟩
  rw [hscan, List.filter_append, List.filter_cons_of_pos (by simp [Scan.kind_last]),
    List.filter_nil]

lemma illegalDiagnostics_eq_nil {tokens : List Token} (h : illegalAmong tokens = [])
    (program : Except Diagnostic (Program Token)) : illegalDiagnostics tokens program = [] := by
  cases program with
  | ok p => rw [illegalDiagnostics, h, List.map_nil]
  | error d => rw [illegalDiagnostics, h, List.filter_nil, List.map_nil]

/-- A text in which nothing nests too deeply is parsed as the text with spaces for its illegal
characters; besides, each illegal character is reported. -/
theorem parse_spacedAt (bound : Bound) (recover : Bool) {source : String} {tokens : List Token}
    (h : tokenize source = .ok tokens) : ∃ outcome,
      parseWithin bound recover source = .ok outcome ∧
      ((∀ d ∈ outcome.diagnostics, d.complaint ≠ .nestedTooDeeply) → ∃ spaced,
        parseWithin bound recover (spacedAt (illegalAmong tokens) source) = .ok spaced ∧
        spaced.program = outcome.program ∧
        spaced.diagnostics = outcome.diagnostics.filter (·.complaint.isStructural) ∧
        outcome.diagnostics.filter (!·.complaint.isStructural) =
          illegalDiagnostics tokens outcome.program) := by
  have h' := tokenize_spacedAt h
  obtain ⟨s, outcome, hstart, hparse, hends⟩ := exists_program bound recover h
  obtain ⟨s', spaced, hstart', hparse', hends'⟩ := exists_program bound recover h'
  obtain ⟨hs, hrecover⟩ := State.starts hstart
  obtain ⟨hs', hrecover'⟩ := State.starts hstart'
  have hbeside : s.Beside (.atRest [] [] True) .before (some s') := by
    obtain ⟨hunbroken, hstream⟩ := hs.stream_ofText h
    obtain ⟨hunbroken', hstream'⟩ := hs'.stream_ofText h'
    have hne : s.stream .before ≠ [] := by simp [State.stream]
    refine hs.beside hs' hunbroken hunbroken' (hrecover'.trans hrecover.symm) hne
      (List.append_nil _).symm ?_
    rw [hstream', hstream, List.filter_filter]
    simp [Parting.atRest]
  obtain ⟨_, hreported, hillegals⟩ := illegal_reported bound recover h
  obtain rfl := Except.ok.inj (hparse.symm.trans hreported)
  obtain ⟨_, hreported', hillegals'⟩ := illegal_reported bound recover h'
  obtain rfl := Except.ok.inj (hparse'.symm.trans hreported')
  refine ⟨outcome, hparse, fun hshallow => ?_⟩
  obtain ⟨hprogram, hcomplaints⟩ : spaced.program = outcome.program ∧
      spaced.diagnostics.filter (·.complaint.isStructural) =
        outcome.diagnostics.filter (·.complaint.isStructural) := by
    have hprogram := Engine.ends_program_beside bound hbeside hs.depth
    cases hrun : (Engine.ofBound bound).program s with
    | ok p u =>
      obtain rfl := hends.of_ok hrun
      obtain ⟨u', hrun', hcomplaints⟩ := hprogram.of_ok hrun hshallow
      rw [hends'.of_ok hrun']
      exact ⟨rfl, hcomplaints⟩
    | error f u =>
      obtain ⟨d, rfl, rfl⟩ := hends.of_error hrun
      obtain ⟨u', hrun', hcomplaints⟩ := hprogram.of_error hrun d rfl hshallow
      obtain ⟨_, ⟨rfl⟩, hspaced⟩ := hends'.of_error hrun'
      rw [hspaced]
      exact ⟨rfl, hcomplaints⟩
  have hshallow' : ∀ d ∈ spaced.diagnostics, d.complaint ≠ .nestedTooDeeply := by
    intro d hd hdeep
    have hmem : d ∈ spaced.diagnostics.filter (·.complaint.isStructural) :=
      List.mem_filter.2 ⟨hd, by rw [hdeep]; rfl⟩
    rw [hcomplaints] at hmem
    exact hshallow d (List.mem_filter.1 hmem).1 hdeep
  have hnone : illegalAmong (tokens.filter (·.kind ≠ .illegal)) = [] :=
    List.filter_eq_nil_iff.2 fun t ht => by simpa using (List.mem_filter.1 ht).2
  have hclean : spaced.diagnostics.filter (·.complaint.isStructural) = spaced.diagnostics := by
    refine filter_isStructural_of_illegal_eq_nil ?_
    rw [hillegals' hshallow', illegalDiagnostics_eq_nil hnone]
  exact ⟨spaced, hparse', hprogram, hclean.symm.trans hcomplaints, hillegals hshallow⟩

/-- Illegal characters at the beginning and the end of a text, inside a statement and in front of
and behind the token at which a strict parse fails. -/
theorem parse_spacedAt_around_failure : ∃ tokens outcome spaced d,
    tokenize "@ let $ a = 1; # ) ~ 2 ?" = .ok tokens ∧
      parseWithin 10 false "@ let $ a = 1; # ) ~ 2 ?" = .ok outcome ∧
      (∀ d ∈ outcome.diagnostics, d.complaint ≠ .nestedTooDeeply) ∧
      parseWithin 10 false (spacedAt (illegalAmong tokens) "@ let $ a = 1; # ) ~ 2 ?") =
        .ok spaced ∧
      outcome.program = .error d ∧ spaced.program = .error d ∧
      outcome.diagnostics.filter (!·.complaint.isStructural) =
        ((illegalAmong tokens).filter (·.place < d.place)).map .ofIllegal := by
  have hfails : (parseWithin 10 false "@ let $ a = 1; # ) ~ 2 ?").map (fun o =>
      (o.program.toOption.isNone, o.diagnostics.all (·.complaint != .nestedTooDeeply))) =
        .ok (true, true) := by
    decide +kernel
  cases htokens : tokenize "@ let $ a = 1; # ) ~ 2 ?" with
  | error e => cases (show tokenize "@ let $ a = 1; # ) ~ 2 ?" = .ok _ from rfl).symm.trans htokens
  | ok tokens =>
    obtain ⟨outcome, hparse, hsame⟩ := parse_spacedAt 10 false htokens
    rw [hparse] at hfails
    obtain ⟨hnone, hall⟩ := Prod.mk.inj (Except.ok.inj hfails)
    have hshallow : ∀ d ∈ outcome.diagnostics, d.complaint ≠ .nestedTooDeeply := by
      simpa using hall
    obtain ⟨spaced, hparse', hsame, -, hillegals⟩ := hsame hshallow
    cases hprogram : outcome.program with
    | ok p => simp [hprogram, Except.toOption] at hnone
    | error d =>
      rw [hprogram] at hsame hillegals
      exact ⟨tokens, outcome, spaced, d, rfl, hparse, hshallow, hparse', hprogram, hsame, hillegals⟩

end MonkeyFront
