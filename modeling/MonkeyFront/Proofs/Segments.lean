import MonkeyFront.Proofs.Acceptance

namespace MonkeyFront

/-- What an iteration takes: the tokens of a statement that is kept, or tokens that are abandoned,
and the diagnostic for which they are. -/
inductive Segment where
  | kept (tokens : List Token) (statement : Stmt Token)
  | abandoned (tokens : List Token) (diagnostic : Diagnostic)

namespace Segment

def tokens : Segment → List Token
  | kept ts _ => ts
  | abandoned ts _ => ts

def statement? : Segment → Option (Stmt Token)
  | kept _ s => some s
  | abandoned _ _ => none

/-- The diagnostic of a segment that is abandoned. -/
def diagnostic? : Segment → Option Diagnostic
  | kept _ _ => none
  | abandoned _ d => some d

/-- A segment that is kept is its statement written out, with a semicolon behind it or without. -/
def IsWritten : Segment → Prop
  | kept ts s => ∃ ys close, ts = ys ++ close ∧ Spells (.stmt s) ys ∧
      (close = [] ∨ ∃ t : Token, close = [t] ∧ t.kind = .semicolon)
  | abandoned _ _ => True

end Segment

lemma filter_isStructural_eq_nil {ds : List Diagnostic}
    (h : ∀ d ∈ ds, d.complaint.isStructural = false) :
    ds.filter (·.complaint.isStructural) = [] :=
  List.filter_eq_nil_iff.2 fun d hd => by simp [h d hd]

namespace State

variable {s s' : State}

/-- The diagnostics for which statements are given up. -/
def complaints (s : State) : List Diagnostic := s.diagnostics.filter (·.complaint.isStructural)

/-- What is reported about illegal characters adds nothing to the complaints. -/
lemma complaints_append {ds es : List Diagnostic}
    (h : s'.diagnostics = s.diagnostics ++ ds ++ es)
    (hds : ∀ d ∈ ds, d.complaint.isStructural = false) :
    s'.complaints = s.complaints ++ es.filter (·.complaint.isStructural) := by
  rw [complaints, h, List.filter_append, List.filter_append, filter_isStructural_eq_nil hds,
    List.append_nil]
  rfl

lemma Follows.complaints_eq (h : s.Follows s') : s'.complaints = s.complaints := by
  obtain ⟨ds, hds, hskip⟩ := h.illegal
  have := complaints_append (hds.trans (List.append_nil _).symm) hskip
  rwa [List.filter_nil, List.append_nil] at this

lemma report_complaints (s : State) (complaint : Complaint) (t : Token) :
    (s.report complaint t).complaints =
      s.complaints ++ [⟨complaint, t.span⟩].filter (·.complaint.isStructural) := by
  obtain ⟨ds, hds, hskip⟩ := s.report_diagnostics complaint t
  exact complaints_append hds hskip

lemma Rejects.complaints_eq {d : Diagnostic} (h : s.Rejects d s') :
    s'.complaints = s.complaints ++ [d] := by
  obtain ⟨hk, ds, hds, hskip⟩ := h.reported
  rw [complaints_append hds hskip]
  exact congrArg (s.complaints ++ ·) (List.filter_cons_of_pos (l := []) hk)

lemma Starts.complaints {scan : Scan} (hs : s.Starts scan) : s.complaints = [] := by
  obtain ⟨ts, -, hts⟩ := hs.reported
  rw [State.complaints, hts, filter_isStructural_eq_nil (isStructural_ofIllegal ts)]

end State

namespace Engine

variable {engine : Engine} {s s' : State}

/-- An iteration takes a segment of the tokens ahead, and records the diagnostic of one that it
abandons. -/
structure Takes (engine : Engine) (s : State) (x : Segment) (s' : State) : Prop where
  unended : s.current.kind ≠ .eof
  run : engine.iteration s = .ok x.statement? s'
  ahead : s.ahead = x.tokens ++ s'.ahead
  complaints : s'.complaints = s.complaints ++ x.diagnostic?.toList

/-- The segments that the iterations from one state to another take. -/
inductive TakesAll (engine : Engine) : State → List Segment → State → Prop
  | nil (s : State) : TakesAll engine s [] s
  | cons {s s₁ s' x xs} : engine.Takes s x s₁ → TakesAll engine s₁ xs s' →
      TakesAll engine s (x :: xs) s'

theorem HasIterated.exists_segment {r : Option (Stmt Token)} (h : engine.HasIterated s r s')
    (hrun : engine.iteration s = .ok r s') (hc : s.current.kind ≠ .eof)
    (hshallow : ∀ d ∈ s'.diagnostics, d.complaint ≠ .nestedTooDeeply) :
    ∃ x, r = x.statement? ∧ engine.Takes s x s' ∧ x.tokens ≠ [] ∧ x.IsWritten := by
  cases h with
  | @read a s₁ ys close _ _ ha h hys ended =>
    have hne : ys ++ close ≠ [] := List.append_ne_nil_of_left_ne_nil hys.ne_nil_of_stmt _
    have hcomplaints : s'.complaints = s.complaints := h.toFollows.complaints_eq
    refine ⟨.kept (ys ++ close) a, rfl, ⟨hc, hrun, h.ahead, ?_⟩, hne, ys, close, rfl, hys, ?_⟩
    · rw [hcomplaints]
      exact (List.append_nil _).symm
    · exact ended.imp_left And.left
  | @abandoned d s₁ _ hrej _ h hf _ ha =>
    obtain ⟨ts, hts⟩ : s'.ahead <:+ s.behind := by
      rw [ha]
      exact (State.resumption_suffix s₁).trans
        (h.behind_suffix (hshallow d (h.mem_diagnostics hf)))
    refine ⟨.abandoned (s.current :: ts) d, rfl, ⟨hc, hrun, ?_, ?_⟩, List.cons_ne_nil _ _, trivial⟩
    · rw [State.ahead_cons hc, ← hts]
      rfl
    · rw [hf.complaints_eq, h.complaints_eq]
      rfl

/-- Iterations take segments, none of them empty, unless a statement nests too deeply. -/
theorem Iterations.takesAll (hE : engine.Reads) {rs : List (Option (Stmt Token))}
    (h : engine.Iterations s rs s') (hs : s.Steady) (hd : s.depth = 0)
    (hshallow : ∀ d ∈ s'.diagnostics, d.complaint ≠ .nestedTooDeeply) :
    ∃ xs, rs = xs.map Segment.statement? ∧ engine.TakesAll s xs s' ∧
      ∀ x ∈ xs, x.tokens ≠ [] ∧ x.IsWritten := by
  induction h with
  | nil s => exact ⟨[], rfl, .nil s, List.forall_mem_nil _⟩
  | cons hc ht hrs ih =>
    have h := (ends_iteration hE hs hd).of_ok ht
    have hlater := hrs.prefix_diagnostics hE h.steady (h.depth hd)
    obtain ⟨x, rfl, htakes, hx⟩ :=
      h.exists_segment ht hc fun d hd => hshallow d (hlater.subset hd)
    obtain ⟨xs, rfl, hall, hxs⟩ := ih h.steady (h.depth hd) hshallow
    exact ⟨x :: xs, rfl, .cons htakes hall, List.forall_mem_cons.2 ⟨hx, hxs⟩⟩

namespace TakesAll

variable {xs : List Segment} (h : engine.TakesAll s xs s')

include h

lemma ahead : s.ahead = xs.flatMap Segment.tokens ++ s'.ahead := by
  induction h with
  | nil => rfl
  | cons hx _ ih => rw [hx.ahead, ih, List.flatMap_cons, List.append_assoc]

lemma complaints : s'.complaints = s.complaints ++ xs.filterMap Segment.diagnostic? := by
  induction h with
  | nil => exact (List.append_nil _).symm
  | @cons s s₁ s' x xs hx _ ih =>
    rw [ih, hx.complaints, List.append_assoc]
    cases x <;> rfl

end TakesAll

end Engine

/-- The tokens of a text, without illegal characters and the end of input, are those of the segments
that the iterations of a recovering parse take, unless expressions nest too deeply. The segments
that are kept are the statements of the program written out, those that are abandoned come with the
diagnostics that are not about illegal characters, both in order; where there are no such
diagnostics every segment is kept. -/
theorem exists_segments (bound : Bound) {source : String} {tokens : List Token}
    (htokens : tokenize source = .ok tokens) : ∃ outcome,
      parseWithin bound true source = .ok outcome ∧
      ((∀ d ∈ outcome.diagnostics, d.complaint ≠ .nestedTooDeeply) → ∃ s xs s',
        State.start .standard true (.ofText source) = .ok s ∧
        (Engine.ofBound bound).TakesAll s xs s' ∧ s'.current.kind = .eof ∧
        tokens.filter (fun t => t.kind ≠ .illegal ∧ t.kind ≠ .eof) = xs.flatMap Segment.tokens ∧
        (∀ x ∈ xs, x.tokens ≠ [] ∧ x.IsWritten) ∧
        outcome.program = .ok (xs.filterMap Segment.statement?) ∧
        outcome.diagnostics.filter (·.complaint.isStructural) =
          xs.filterMap Segment.diagnostic? ∧
        ((∀ d ∈ outcome.diagnostics, d.complaint.isStructural = false) →
          ∀ x ∈ xs, x.statement?.isSome = true)) := by
  obtain ⟨s, rs, s', hstart, hrs, hend, hparse⟩ := exists_iterations bound htokens
  refine ⟨_, hparse, fun hshallow => ?_⟩
  have hs := (State.starts hstart).1
  obtain ⟨xs, rfl, hall, hxs⟩ :=
    hrs.takesAll (Engine.reads_ofBound bound) hs.steady hs.depth hshallow
  have hcomplaints : s'.complaints = xs.filterMap Segment.diagnostic? := by
    rw [hall.complaints, hs.complaints, List.nil_append]
  refine ⟨s, xs, s', hstart, hall, hend, ?_, hxs, ?_, hcomplaints, fun hclean => ?_⟩
  · obtain ⟨ts, hitems, rfl⟩ := tokenize_eq_ok.1 htokens
    have hlast : (Scan.ofText source).last.kind = .eof := Scan.kind_last source
    have hts : ∀ t ∈ ts, t.kind ≠ .eof := fun t ht =>
      Scan.kind_items source (hitems ▸ List.mem_map_of_mem ht)
    have hahead := hall.ahead
    rw [State.ahead_eq_nil hend, List.append_nil, hs.ahead, hitems, tokensIn_map_ok] at hahead
    rw [← hahead, List.filter_append, List.filter_cons_of_neg (by simp [hlast]), List.filter_nil,
      List.append_nil]
    exact List.filter_congr fun t ht => by simp [hts t ht]
  · rw [List.filterMap_map]
    rfl
  · have hnil : xs.filterMap Segment.diagnostic? = [] := by
      rw [← hcomplaints]
      exact filter_isStructural_eq_nil hclean
    intro x hx
    have hx := List.filterMap_eq_nil_iff.1 hnil x hx
    cases x with
    | kept => rfl
    | abandoned => cases hx

/-- A text of three segments, the second of which is abandoned. -/
theorem exists_segments_around_abandoned : ∃ tokens s xs s' outcome,
    tokenize "let a = (b); ) c; d" = .ok tokens ∧
      (Engine.ofBound 10).TakesAll s xs s' ∧
      parseWithin 10 true "let a = (b); ) c; d" = .ok outcome ∧
      tokens.filter (fun t => t.kind ≠ .illegal ∧ t.kind ≠ .eof) = xs.flatMap Segment.tokens ∧
      (∀ x ∈ xs, x.tokens ≠ [] ∧ x.IsWritten) ∧
      (xs.filterMap Segment.statement?).length = 2 ∧
      (xs.filterMap Segment.diagnostic?).length = 1 := by
  have hparse : (parseWithin 10 true "let a = (b); ) c; d").map (fun o =>
      (o.program.toOption.map (·.length),
        (o.diagnostics.filter (·.complaint.isStructural)).length)) = .ok (some 2, 1) := by
    decide +kernel
  have hcomplaints : (parseWithin 10 true "let a = (b); ) c; d").map
      (·.diagnostics.all (·.complaint != .nestedTooDeeply)) = .ok true := by
    decide +kernel
  cases htokens : tokenize "let a = (b); ) c; d" with
  | error e => cases (show tokenize "let a = (b); ) c; d" = .ok _ from rfl).symm.trans htokens
  | ok tokens =>
    obtain ⟨outcome, hrun, h⟩ := exists_segments 10 htokens
    rw [hrun] at hparse hcomplaints
    obtain ⟨s, xs, s', -, hall, -, hsplit, hxs, hkept, habandoned, -⟩ :=
      h (by simpa using Except.ok.inj hcomplaints)
    have hcounts := Except.ok.inj hparse
    dsimp only at hcounts
    rw [hkept, habandoned] at hcounts
    obtain ⟨hstatements, hdiagnostics⟩ := Prod.mk.inj hcounts
    exact ⟨tokens, s, xs, s', outcome, rfl, hall, hrun, hsplit, hxs,
      Option.some.inj hstatements, hdiagnostics⟩

end MonkeyFront
