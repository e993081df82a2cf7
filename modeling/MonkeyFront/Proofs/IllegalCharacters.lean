import MonkeyFront.Proofs.Order

namespace MonkeyFront

lemma filter_lt_append_filter_not {xs : List Token} {a : Int}
    (h : xs.Pairwise (·.place ≤ ·.place)) :
    xs.filter (·.place < a) ++ xs.filter (fun t => !(t.place < a)) = xs := by
  induction xs with
  | nil => rfl
  | cons t ts ih =>
    obtain ⟨hle, hts⟩ := List.pairwise_cons.1 h
    by_cases ht : t.place < a
    · simp only [List.filter_cons, ht, decide_true, Bool.not_true, if_true, Bool.false_eq_true,
        if_false, List.cons_append, ih hts]
    · have hnone : ts.filter (·.place < a) = [] := by
        refine List.filter_eq_nil_iff.2 fun u hu => ?_
        have := hle u hu
        simp only [decide_eq_true_eq]
        omega
      have hall : ts.filter (fun t => !(t.place < a)) = ts := by
        refine List.filter_eq_self.2 fun u hu => ?_
        have := hle u hu
        simp only [Bool.not_eq_true', decide_eq_false_iff_not]
        omega
      simp [ht, hnone, hall]

lemma illegalIn_sublist (items : List Scanned) : (illegalIn items).Sublist (tokensAmong items) := by
  have hfilter : illegalIn items = (tokensAmong items).filter (·.kind = .illegal) := by
    rw [tokensAmong, List.filter_filterMap]
    refine List.filterMap_congr fun x _ => ?_
    cases x with
    | error e => rfl
    | ok t => simp [Except.toOption, Option.filter]
  rw [hfilter]
  exact List.filter_sublist

namespace State

variable {s s' : State}

/-- The diagnostics for illegal characters, those that have been reported and those that will be. -/
def allIllegal (s : State) : List Diagnostic :=
  s.diagnostics.filter (!·.complaint.isStructural) ++ s.pending.map .ofIllegal

lemma filter_ofIllegal (ts : List Token) :
    (ts.map Diagnostic.ofIllegal).filter (!·.complaint.isStructural) = ts.map .ofIllegal :=
  List.filter_eq_self.2 fun d hd => by simp [isStructural_ofIllegal ts d hd]

lemma pending_sublist (s : State) : s.pending.Sublist s.following := by
  refine List.Sublist.append_left (List.Sublist.cons _ ?_) _
  exact (illegalIn_sublist _).trans (List.sublist_append_left _ _)

lemma Follows.allIllegal_eq (h : s.Follows s') : s'.allIllegal = s.allIllegal := by
  obtain ⟨ts, hpending, hdiagnostics⟩ := h.reported
  rw [allIllegal, allIllegal, hpending, hdiagnostics, List.filter_append, filter_ofIllegal,
    List.map_append, List.append_assoc]

/-- A complaint reports the illegal characters in front of it, which are the first of those that are
pending. -/
lemma InOrder.allIllegal_report (h : s.InOrder) {complaint : Complaint}
    (hk : complaint.isStructural = true) (t : Token) :
    (s.report complaint t).allIllegal = s.allIllegal := by
  have hskipped : s.skipped.Pairwise (·.place ≤ ·.place) := by
    have := (List.pairwise_append.1 h).2.1
    simp only [places, following, List.map_append, List.pairwise_append] at this
    exact List.pairwise_map.1 this.1
  have hsplit := congrArg (List.map Diagnostic.ofIllegal)
    (filter_lt_append_filter_not (a := t.place) hskipped)
  rw [List.map_append] at hsplit
  have hcomplaint : [Diagnostic.mk complaint t.span].filter (!·.complaint.isStructural) = [] :=
    List.filter_cons_of_neg (by simp [hk])
  simp only [allIllegal, pending, report, List.filter_append, filter_ofIllegal, hcomplaint,
    List.append_nil, List.map_append, List.append_assoc]
  rw [← hsplit, List.append_assoc]
  rfl

lemma Rejects.allIllegal_eq {d : Diagnostic} (h : s.Rejects d s') (hs : s.InOrderHere)
    (hshallow : d.complaint ≠ .nestedTooDeeply) : s'.allIllegal = s.allIllegal := by
  cases h with
  | current _ hk h =>
    rw [(h.moves.inOrderHere hs).inOrder.allIllegal_report hk, h.toFollows.allIllegal_eq]
  | peek _ hk h =>
    rw [(h.moves.inOrderHere hs).inOrder.allIllegal_report hk, h.toFollows.allIllegal_eq]
  | overrun => exact absurd rfl hshallow

/-! ### The end of input -/

/-- At the end of input no illegal character is left to be reported. -/
def NonePending (s : State) : Prop := s.current.kind = .eof → s.pending = []

lemma Moves.nonePending (h : s.Moves s') (hs : s.Steady) (hnone : s.NonePending) :
    s'.Steady ∧ s'.NonePending := by
  induction h with
  | refl => exact ⟨hs, hnone⟩
  | count n _ ih => exact ⟨(ih.1.withDepth n).steady, ih.2⟩
  | @advance s₁ s₂ _ hrun ih =>
    obtain ⟨hf, -, hcurrent, -⟩ := (ends_advance ih.1).of_ok hrun
    refine ⟨hf.steady, fun hc => ?_⟩
    have hupcoming := (ih.1.peek (hcurrent ▸ hc)).2
    simp only [MonkeyFront.advance, hupcoming, pull, EStateM.Result.ok.injEq, true_and] at hrun
    rw [← hrun]
    rfl

lemma NonePending.report (h : s.NonePending) (complaint : Complaint) (t : Token) :
    (s.report complaint t).NonePending := by
  intro hc
  obtain ⟨hskipped, hupcoming⟩ := List.append_eq_nil_iff.1 (h hc)
  simp only [pending, State.report, hskipped, List.filter_nil, List.nil_append]
  exact hupcoming

lemma Overruns.nonePending (h : s.Overruns s') (hs : s.Steady) : s'.NonePending := by
  intro hc
  have hnil := (hs.peek (h.current_eq ▸ hc)).2
  have hskipped : s'.skipped = [] := List.eq_nil_iff_forall_not_mem.2 fun t ht => by
    have hmem := (h.of_mem_skipped ht).1
    rw [hnil] at hmem
    cases hmem
  have hupcoming : s'.upcoming = [] := List.suffix_nil.1 (hnil ▸ h.upcoming_suffix)
  rw [pending, hskipped, hupcoming]
  rfl

lemma Rejects.nonePending {d : Diagnostic} (h : s.Rejects d s') (hs : s.Steady)
    (hnone : s.NonePending) : s'.NonePending := by
  cases h with
  | current complaint _ h => exact (h.moves.nonePending hs hnone).2.report complaint _
  | peek complaint _ h => exact (h.moves.nonePending hs hnone).2.report complaint _
  | overrun h ho => exact (ho.nonePending h.steady).report _ _

lemma NonePending.of_start {rules : Rules} {recover : Bool} {source : String}
    (h : start rules recover (.ofText source) = .ok s) : s.NonePending := by
  obtain ⟨t, u, ht, hu, rfl⟩ := start_eq_ok.1 h
  intro hc
  rcases pull_ok ht with ⟨-, -, hrest⟩ | ⟨hmem, -⟩
  · simp only [pending, hrest]
    rfl
  · exact absurd hc (Scan.kind_items source hmem)

end State

namespace Engine

variable {engine : Engine} {s s' : State}

lemma HasIterated.nonePending {r : Option (Stmt Token)} (h : engine.HasIterated s r s')
    (hs : s.Steady) (hnone : s.NonePending) : s'.NonePending := by
  cases h with
  | read _ _ h => exact (h.moves.nonePending hs hnone).2
  | abandoned _ _ h hf => exact (hf.moves.nonePending h.steady (h.nonePending hs hnone)).2

lemma Iterations.nonePending (hE : engine.Reads) {rs : List (Option (Stmt Token))}
    (h : engine.Iterations s rs s') (hs : s.Steady) (hd : s.depth = 0) (hnone : s.NonePending) :
    s'.NonePending := by
  induction h with
  | nil => exact hnone
  | cons _ ht _ ih =>
    have h := (ends_iteration hE hs hd).of_ok ht
    exact ih h.steady (h.depth hd) (h.nonePending hs hnone)

/-- An iteration in which nothing nests too deeply neither loses illegal characters nor reports them
twice. -/
lemma HasIterated.allIllegal_eq {r : Option (Stmt Token)} (h : engine.HasIterated s r s')
    (horder : s.InOrderHere) (hshallow : ∀ d ∈ s'.diagnostics, d.complaint ≠ .nestedTooDeeply) :
    s'.allIllegal = s.allIllegal := by
  cases h with
  | read _ _ h => exact h.toFollows.allIllegal_eq
  | abandoned _ _ h hf =>
    exact hf.allIllegal_eq.trans (h.allIllegal_eq horder (hshallow _ (h.mem_diagnostics hf)))

/-- Iterations in which nothing nests too deeply neither lose illegal characters nor report them
twice. -/
lemma Iterations.allIllegal_eq (hE : engine.Reads) {rs : List (Option (Stmt Token))}
    (h : engine.Iterations s rs s') (hs : s.Steady) (hd : s.depth = 0)
    (horder : s.current.kind ≠ .eof → s.InOrderHere)
    (hshallow : ∀ d ∈ s'.diagnostics, d.complaint ≠ .nestedTooDeeply) :
    s'.allIllegal = s.allIllegal := by
  induction h with
  | nil => rfl
  | @cons s s₁ _ _ _ hc ht hrs ih =>
    have h := (ends_iteration hE hs hd).of_ok ht
    have hlater := hrs.prefix_diagnostics hE h.steady (h.depth hd)
    have hshallow₁ : ∀ d ∈ s₁.diagnostics, d.complaint ≠ .nestedTooDeeply :=
      fun d hd => hshallow d (hlater.subset hd)
    have horder₁ := ((Iterations.cons hc ht (.nil s₁)).inOrder hE hs hd (horder hc).inOrder horder
      hshallow₁).2
    exact (ih h.steady (h.depth hd) horder₁ hshallow).trans (h.allIllegal_eq (horder hc) hshallow₁)

end Engine

/-- The tokens of a text that are illegal characters. -/
def illegalAmong (ts : List Token) : List Token := ts.filter (·.kind = .illegal)

lemma illegalAmong_eq {source : String} {tokens : List Token} (h : tokenize source = .ok tokens) :
    illegalAmong tokens = illegalIn (Scan.ofText source).items := by
  obtain ⟨ts, hitems, rfl⟩ := tokenize_eq_ok.1 h
  rw [illegalAmong, List.filter_append, hitems, illegalIn_map_ok,
    List.filter_cons_of_neg (by simp [Scan.kind_last source]), List.filter_nil, List.append_nil]

/-- The illegal characters that a parse reports: all of the text, or those in front of the token at
which it ends. -/
def illegalDiagnostics (tokens : List Token) : Except Diagnostic (Program Token) → List Diagnostic
  | .ok _ => (illegalAmong tokens).map .ofIllegal
  | .error d => ((illegalAmong tokens).filter (·.place < d.place)).map .ofIllegal

lemma State.Starts.allIllegal_eq {source : String} {s : State} {tokens : List Token}
    (hs : s.Starts (.ofText source)) (h : tokenize source = .ok tokens) :
    s.allIllegal = (illegalAmong tokens).map .ofIllegal := by
  obtain ⟨us, hus, hdiagnostics⟩ := hs.reported
  rw [illegalAmong_eq h, hus, List.map_append, allIllegal, hdiagnostics, filter_ofIllegal]

/-- Among diagnostics in order, those about illegal characters that are in front of a complaint are
the ones whose place is in front. -/
lemma filter_eq_of_sorted {es later illegal : List Diagnostic} {d : Diagnostic}
    (hsorted : (es ++ d :: later).Pairwise (·.place ≤ ·.place))
    (hk : d.complaint.isStructural = true)
    (hillegals : (es ++ d :: later).filter (!·.complaint.isStructural) = illegal)
    (hne : ∀ x ∈ illegal, x.place ≠ d.place) :
    es.filter (!·.complaint.isStructural) = illegal.filter (·.place < d.place) := by
  rw [List.filter_append, List.filter_cons_of_neg (by simp [hk])] at hillegals
  obtain ⟨-, hlater, hbefore⟩ := List.pairwise_append.1 hsorted
  have hlt : ∀ x ∈ es.filter (!·.complaint.isStructural), x.place < d.place := fun x hx =>
    lt_of_le_of_ne (hbefore x (List.mem_filter.1 hx).1 d List.mem_cons_self)
      (hne x (hillegals ▸ List.mem_append_left _ hx))
  have hge : ∀ x ∈ later, ¬x.place < d.place := fun x hx =>
    Int.not_lt.2 ((List.pairwise_cons.1 hlater).1 x hx)
  have hall : (es.filter (!·.complaint.isStructural)).filter (·.place < d.place) =
      es.filter (!·.complaint.isStructural) :=
    List.filter_eq_self.2 fun x hx => decide_eq_true (hlt x hx)
  have hnone : (later.filter (!·.complaint.isStructural)).filter (·.place < d.place) = [] :=
    List.filter_eq_nil_iff.2 fun x hx => by simpa using hge x (List.mem_filter.1 hx).1
  rw [← hillegals, List.filter_append, hall, hnone, List.append_nil]

/-- Where a statement is rejected that does not nest too deeply, the illegal characters in front of
the token that the complaint is about have been reported. -/
lemma State.Rejects.illegal_eq {s s' : State} {d : Diagnostic} (h : s.Rejects d s')
    (hs : s.InOrderHere) (hshallow : d.complaint ≠ .nestedTooDeeply)
    (hne : ∀ x ∈ s.allIllegal, x.place ≠ d.place) :
    s'.diagnostics.filter (!·.complaint.isStructural) =
      s.allIllegal.filter (·.place < d.place) := by
  obtain ⟨hk, ds, hds, -⟩ := h.reported
  have horder := h.inOrder hs hshallow
  have hall := h.allIllegal_eq hs hshallow
  have hsorted : (s.diagnostics ++ ds ++ d :: s'.pending.map .ofIllegal).Pairwise
      (·.place ≤ ·.place) := by
    have hplaces : (s.diagnostics ++ ds ++ d :: s'.pending.map .ofIllegal).map Diagnostic.place =
        s'.diagnostics.map Diagnostic.place ++ places s'.pending := by
      simp [hds, places, Function.comp_def]
    refine List.pairwise_map.1 (hplaces ▸ ?_)
    exact List.Pairwise.sublist ((pending_sublist s').map _ |>.append_left _) horder
  rw [hds, List.filter_append, List.filter_cons_of_neg (by simp [hk]), List.filter_nil,
    List.append_nil]
  refine filter_eq_of_sorted hsorted hk ?_ hne
  rw [← hall, allIllegal, hds, List.filter_append, List.filter_append (s.diagnostics ++ ds)]
  simp [hk, filter_ofIllegal]

/-- A parse reports each illegal character of a text once, in order; a strict parse that fails
reports those in front of the token at which it fails. Expressions that nest too deeply are the
exception. -/
theorem illegal_reported (bound : Bound) (recover : Bool) {source : String} {tokens : List Token}
    (h : tokenize source = .ok tokens) : ∃ outcome,
      parseWithin bound recover source = .ok outcome ∧
      ((∀ d ∈ outcome.diagnostics, d.complaint ≠ .nestedTooDeeply) →
        outcome.diagnostics.filter (!·.complaint.isStructural) =
          illegalDiagnostics tokens outcome.program) := by
  obtain ⟨s, outcome, hstart, hparse, hends⟩ := exists_program bound recover h
  have hs := (State.starts hstart).1
  have hE := Engine.reads_ofBound bound
  have horder := State.InOrderHere.of_start hstart
  have hall := hs.allIllegal_eq h
  refine ⟨outcome, hparse, fun hshallow => ?_⟩
  cases hrun : (Engine.ofBound bound).program s with
  | ok p s' =>
    obtain rfl := hends.of_ok hrun
    obtain ⟨rs, hrs, hend, -⟩ := (Engine.ends_program hE hs.steady hs.depth).of_ok hrun
    have hillegals := hrs.allIllegal_eq hE hs.steady hs.depth (fun _ => horder) hshallow
    have hnone := hrs.nonePending hE hs.steady hs.depth (.of_start hstart) hend
    rwa [hall, State.allIllegal, hnone, List.map_nil, List.append_nil] at hillegals
  | error f s' =>
    obtain ⟨d, rfl, rfl⟩ := hends.of_error hrun
    obtain ⟨rs, s₁, hrs, hc, -, -, hrejects⟩ := Engine.exists_rejects hE hs.steady hs.depth hrun
    obtain ⟨-, ds, hds, -⟩ := hrejects.reported
    have hd : d.complaint ≠ .nestedTooDeeply := hshallow d (hds ▸ by simp)
    have hshallow₁ : ∀ d ∈ s₁.diagnostics, d.complaint ≠ .nestedTooDeeply :=
      fun d hd => hshallow d (hds ▸ by simp [hd])
    have horder₁ := (hrs.inOrder hE hs.steady hs.depth horder.inOrder (fun _ => horder)
      hshallow₁).2 hc
    have hall₁ : s₁.allIllegal = (illegalAmong tokens).map .ofIllegal :=
      (hrs.allIllegal_eq hE hs.steady hs.depth (fun _ => horder) hshallow₁).trans hall
    obtain ⟨t, ht, hspan⟩ := hrejects.exists_token
    rw [hrejects.illegal_eq horder₁ hd ?_, hall₁, List.filter_map]
    · rfl
    have hmem : t ∈ tokens.filter (·.kind ≠ .illegal) := by
      rw [← hs.ahead_last h]
      rw [hrs.last hE hs.steady hs.depth] at ht
      exact ((hrs.ahead_sublist hE hs.steady hs.depth).append_right _).subset ht
    intro x hx hplace
    rw [hall₁] at hx
    obtain ⟨u, hu, rfl⟩ := List.mem_map.1 hx
    obtain ⟨hu, hillegal⟩ := List.mem_filter.1 hu
    obtain ⟨ht, hlegal⟩ := List.mem_filter.1 hmem
    have hplace : u.place = t.place := by
      rw [← Diagnostic.place_ofIllegal, hplace, Diagnostic.place, hspan, Token.place]
    rw [eq_of_place_eq h hu ht hplace] at hillegal
    simp_all

end MonkeyFront
