import MonkeyFront.Proofs.SharedOperations
import MonkeyFront.Proofs.Order

namespace MonkeyFront

/-- The token `t` behind `xs` is the first of the tokens `ts` with which they begin no sentence. -/
structure Offends (ts xs : List Token) (t : Token) : Prop where
  split : xs ++ [t] <+: ts
  viable : Viable (kinds xs)
  unviable : ¬ Viable (kinds (xs ++ [t]))
  first : ∀ us u, us ++ [u] <+: ts → ¬ Viable (kinds (us ++ [u])) → xs <+: us

lemma offends_of_viable {ts xs : List Token} {t : Token} (split : xs ++ [t] <+: ts)
    (viable : Viable (kinds xs)) (unviable : ¬ Viable (kinds (xs ++ [t]))) : Offends ts xs t := by
  refine ⟨split, viable, unviable, fun us u hus hunviable => ?_⟩
  have hlonger : ¬ us ++ [u] <+: xs := fun hle => hunviable (viable.of_isPrefix (hle.map _))
  have hxs : xs <+: us ++ [u] := (List.prefix_or_prefix_of_prefix
    ((List.prefix_append xs [t]).trans split) hus).resolve_right hlonger
  refine (List.prefix_concat_iff.1 hxs).resolve_left fun heq => hlonger ?_
  rw [heq]

namespace Engine

variable {engine : Engine} {bound : Bound} {s s' : State} {d : Diagnostic}

/-- What iterations take that read statements is derived from the grammar. -/
lemma Iterations.derives (hE : engine.Reads) {ss : List (Stmt Token)}
    (h : engine.Iterations s (ss.map some) s') (hs : s.Steady) (hd : s.depth = 0) :
    ∃ us, s.ahead = us ++ s'.ahead ∧ Derives .program (kinds us) := by
  induction ss generalizing s with
  | nil =>
    cases h
    exact ⟨[], rfl, .programNil⟩
  | cons a ss ih =>
    cases h with
    | cons _ ht hrs =>
      have h := (ends_iteration hE hs hd).of_ok ht
      obtain ⟨us, hus, hderives⟩ := ih hrs h.steady (h.depth hd)
      cases h with
      | @read _ _ ys close _ _ _ h hys ended =>
        refine ⟨ys ++ close ++ us, by simp [h.ahead, hus], ?_⟩
        rw [kinds_append]
        exact .programCons (hys.derives_statement (ended.imp_left And.left)) hderives

/-- Where a strict parser rejects a program it rejects a statement, behind iterations that read. -/
lemma exists_rejected_statement (hs : s.Steady) (hd : s.depth = 0) (hstrict : s.recover = false)
    (hrun : (ofBound bound).program s = .error (.rejected d) s') :
    ∃ (ss : List (Stmt Token)) (s₁ : State), (ofBound bound).Iterations s (ss.map some) s₁ ∧
      s₁.Steady ∧ s₁.current.kind ≠ .eof ∧
      (ofBound bound).outerStatement s₁ = .error (.rejected d) s' := by
  have hE := reads_ofBound bound
  obtain ⟨rs, s₁, hrs, hc, hiter, hstrict₁, hrejects⟩ := exists_rejects hE hs hd hrun
  obtain ⟨⟨ss, rfl⟩, -⟩ := hrs.withRecover hs hd hstrict false
  have hs₁ := (hrs.keep hE hs hd).1
  have houter := (ends_strictIteration bound hs₁ hstrict₁ false).of_error hiter d rfl
  rw [← hstrict₁] at houter
  refine ⟨ss, s₁, hrs, hs₁, hc, ?_⟩
  rwa [show s'.withRecover s₁.recover = s' by rw [← hrejects.recover]; rfl] at houter

lemma complaints_of_rejected (hs : s.Steady) (hd : s.depth = 0) (hstrict : s.recover = false)
    (hcomplaints : s.complaints = [])
    (hrun : (ofBound bound).program s = .error (.rejected d) s') : s'.complaints = [d] := by
  have hE := reads_ofBound bound
  obtain ⟨ss, s₁, hss, hs₁, -, houter⟩ := exists_rejected_statement hs hd hstrict hrun
  have hnone : s₁.complaints = [] := (hss.follows hE hs hd).complaints_eq.trans hcomplaints
  rcases (ends_outerStatement hE hs₁).of_error houter with ⟨_, ⟨rfl⟩, hrejects⟩ | ⟨e, he, -⟩
  · obtain ⟨hk, ds, hds, hillegals⟩ := hrejects.reported
    have hdsnone : ds.filter (·.complaint.isStructural) = [] :=
      List.filter_eq_nil_iff.2 fun x hx => by simp [hillegals x hx]
    rw [State.complaints] at hnone
    rw [State.complaints, hds, List.filter_append, List.filter_append, hnone, hdsnone]
    simp [hk]
  · cases he

/-- What is in front of the token that a statement is rejected for is viable, where a statement may
stand. -/
lemma ends_outerStatement_viable {viable : List Token → Prop} (hE : engine.Reads) (hs : s.Steady)
    (hv : Admits viable [] .statement) : Ends engine.outerStatement s (fun _ _ => True)
      (fun f _ => ∀ d, f = .rejected d → d.complaint ≠ .nestedTooDeeply →
        ∃ xs rest, s.ahead = xs ++ rest ∧ viable xs ∧ d.span = (rest.headD s.last).span) := by
  unfold outerStatement
  rw [ends_tryCatch]
  refine (ends_statement hE hv (.refl hs)).mono (fun _ _ _ => trivial) fun f s' hf => ?_
  cases hf with
  | @current xs s₁ complaint _ _ hxs h =>
    rintro _ ⟨rfl⟩ -
    refine ⟨xs, s₁.ahead, h.ahead, hxs, ?_⟩
    rw [← h.last, ← h.steady.current_eq]
  | @peek xs s₁ complaint _ _ hxs h =>
    rintro _ ⟨rfl⟩ -
    refine ⟨xs, s₁.behind, h.ahead, hxs, ?_⟩
    rw [← h.last, ← h.steady.peek_eq]
  | tooDeep | overrun =>
    simp only [ends_bind, ends_get, ends_reject]
    rintro _ ⟨rfl⟩ hshallow
    exact absurd rfl hshallow
  | scan he =>
    intro d hd
    cases hd

/-- In front of the token that a strict parser complains about stands what begins a program. -/
theorem begins_of_rejected (hs : s.Steady) (hd : s.depth = 0) (hstrict : s.recover = false)
    (hrun : (ofBound bound).program s = .error (.rejected d) s')
    (hshallow : d.complaint ≠ .nestedTooDeeply) : ∃ xs rest, s.ahead = xs ++ rest ∧
      Begins .program (kinds xs) ∧ d.span = (rest.headD s.last).span := by
  have hE := reads_ofBound bound
  obtain ⟨ss, s₁, hss, hs₁, -, houter⟩ := exists_rejected_statement hs hd hstrict hrun
  obtain ⟨us, hus, hderives⟩ := hss.derives hE hs hd
  have hv : Admits (fun xs => Begins .program (kinds (us ++ xs))) [] .statement := by
    intro ys hys
    rw [List.nil_append, kinds_append]
    exact hys.program hderives
  obtain ⟨xs, rest, hxs, hbegins, hspan⟩ :=
    (ends_outerStatement_viable hE hs₁ hv).of_error houter d rfl hshallow
  refine ⟨us ++ xs, rest, by rw [hus, hxs, List.append_assoc], hbegins, ?_⟩
  rw [hspan, hss.last hE hs hd]

theorem nestedTooDeeply_of_derives (hs : s.Steady) (hd : s.depth = 0) (hstrict : s.recover = false)
    (hcomplaints : s.complaints = []) (hderives : Derives .program (kinds s.ahead))
    (hrun : (ofBound bound).program s = .error (.rejected d) s') :
    d.complaint = .nestedTooDeeply := by
  obtain ⟨ss, s₁, hss, hs₁, hc, houter⟩ := exists_rejected_statement hs hd hstrict hrun
  obtain ⟨as, has⟩ := derives_program_iff.1 hderives
  have hnone := (hss.follows (reads_ofBound bound) hs hd).complaints_eq.trans hcomplaints
  have hshallow : ∀ x ∈ s₁.diagnostics, x.complaint ≠ .nestedTooDeeply := by
    intro x hx hdeep
    refine List.filter_eq_nil_iff.1 hnone x hx ?_
    rw [hdeep]
    rfl
  obtain ⟨bs, -, hbs⟩ := hss.of_spells hs hd hshallow has
  obtain ⟨a, rest, -, -, ha, -⟩ := State.exists_isAtStmt hs₁ hc hbs
  exact (ends_outerStatement_of_isAtStmt ha bound).of_error houter d rfl

end Engine

/-- Another parser may start in front of the same tokens and go on with others. -/
lemma State.Starts.exists_beside {scan : Scan} {s : State} (hs : s.Starts scan)
    (hunbroken : s.Unbroken) {us v : List Token} (hne : us ≠ [])
    (hstream : s.stream .before = us ++ v) {zs : List Kind}
    (hproper : ∀ k ∈ kinds us ++ zs, k.isProper = true) :
    ∃ (scan' : Scan) (s' : State) (v' : List Token), s'.Starts scan' ∧ s'.recover = s.recover ∧
      kinds s'.ahead = kinds us ++ zs ∧ s.Beside (.atRest v v' True) .before (some s') := by
  let vs : List Token := zs.map fun k => { s.last with kind := k }
  let scan' : Scan := ⟨(us ++ vs).map .ok, s.last⟩
  have hvs : kinds vs = zs := by simp [vs, kinds, Function.comp_def]
  have hkinds : ∀ t ∈ us ++ vs, t.kind.isProper = true := fun t ht => by
    refine hproper _ ?_
    rw [← hvs, ← kinds_append]
    exact List.mem_map_of_mem ht
  have hitems : ∀ t, .ok t ∈ scan'.items → t.kind ≠ .eof := fun t ht he => by
    obtain ⟨u, hu, hut⟩ := List.mem_map.1 ht
    have := hkinds t (Except.ok.inj hut ▸ hu)
    rw [he] at this
    cases this
  have hlegal : (us ++ vs).filter (·.kind ≠ .illegal) = us ++ vs := by
    refine List.filter_eq_self.2 fun t ht => decide_eq_true fun he => ?_
    have := hkinds t ht
    rw [he] at this
    cases this
  obtain ⟨s', hstart⟩ :=
    exists_start_of_items (show scan'.items = (us ++ vs).map .ok from rfl) .standard s.recover
  obtain ⟨hs', hrecover⟩ := starts_of_kinds hunbroken.steady.last hitems hstart
  refine ⟨scan', s', vs ++ [s.last], hs', hrecover, ?_, ?_⟩
  · rw [hs'.ahead, tokensIn_map_ok, hlegal, kinds_append, hvs]
  · refine hs.beside hs' hunbroken (hs'.unbroken rfl) hrecover hne hstream ?_
    rw [hs'.stream rfl, hlegal, List.append_assoc, Parting.atRest]

/-- With the token that a strict parser complains about no program begins, unless the complaint is
about nesting. -/
theorem not_begins_of_rejected {bound : Bound} {scan : Scan} {s s' : State} {d : Diagnostic}
    (hs : s.Starts scan) (hunbroken : s.Unbroken) (hstrict : s.recover = false)
    (hrun : (Engine.ofBound bound).program s = .error (.rejected d) s')
    (hshallow : d.complaint ≠ .nestedTooDeeply) {xs v : List Token} {t : Token}
    (hstream : s.stream .before = xs ++ t :: v) (hspan : d.span = t.span)
    (hbehind : ∀ u ∈ v, u.span ≠ t.span) : ¬ Begins .program (kinds (xs ++ [t])) := by
  rintro ⟨zs, hderives⟩
  rw [List.append_cons] at hstream
  obtain ⟨scan', u, v', hu, hrecover, hkinds, hbeside⟩ :=
    hs.exists_beside hunbroken (by simp) hstream hderives.isProper
  obtain ⟨r, hr, k, t', hb, ht', hspan'⟩ := ((Engine.staysInStep_succ bound).program trivial
    (Engine.reads_ofBound bound) hbeside hs.depth).of_error hrun
  cases r with
  | none =>
    rcases hb.alone rfl with hleaves | hnested
    · -- the complaint would be about a token behind the ones that are shared
      have hmem : t' ∈ v := hleaves.subset (List.mem_of_head? ht')
      exact hbehind t' hmem (hspan'.symm.trans hspan)
    · obtain ⟨-, x, hx, hdeep⟩ := hnested
      have hmem : x ∈ s'.complaints := List.mem_filter.2 ⟨hx, by rw [hdeep]; rfl⟩
      rw [Engine.complaints_of_rejected hs.steady hs.depth hstrict hs.complaints hrun] at hmem
      exact hshallow (List.mem_singleton.1 hmem ▸ hdeep)
  | some u' =>
    obtain ⟨_, ⟨rfl⟩, hrun'⟩ := hr u' rfl
    exact hshallow (Engine.nestedTooDeeply_of_derives hu.steady hu.depth (hrecover.trans hstrict)
      hu.complaints (hkinds ▸ hderives) hrun')

/-- Behind tokens ahead of a parser stands another one, or the end of input behind all of them. -/
lemma State.stream_of_ahead {s : State} {xs rest : List Token} (h : s.ahead = xs ++ rest) :
    ∃ v, s.stream .before = xs ++ rest.headD s.last :: v ∧
      ((rest.headD s.last).kind = .eof → s.ahead = xs) := by
  cases rest with
  | nil =>
    rw [List.append_nil] at h
    exact ⟨[], by rw [stream, h, List.headD_nil], fun _ => h⟩
  | cons t rest =>
    have ht : t ∈ s.ahead := h ▸ by simp
    refine ⟨rest ++ [s.last], by rw [stream, h]; simp, fun he => absurd he ?_⟩
    simpa using List.mem_takeWhile_imp ht

/-- A strict parse of a text that is no sentence fails, and not before the first token with which
the text begins no sentence, unless expressions nest too deeply. -/
theorem strict_offends (bound : Bound) {source : String} {tokens : List Token}
    (h : tokenize source = .ok tokens)
    (hno : ∀ ws, Derives .program ws → kinds (tokens.filter (·.kind ≠ .illegal)) ≠ ws ++ [.eof]) :
    ∃ outcome d, parseWithin bound false source = .ok outcome ∧ outcome.program = .error d ∧
      (d.complaint ≠ .nestedTooDeeply → ∃ xs t,
        Offends (tokens.filter (·.kind ≠ .illegal)) xs t ∧ d.span = t.span) := by
  obtain ⟨s, outcome, hstart, hparse, hends⟩ := exists_program bound false h
  obtain ⟨hs, hstrict⟩ := State.starts hstart
  obtain ⟨hunbroken, hstream⟩ := hs.stream_ofText h
  have hE := Engine.reads_ofBound bound
  have hno' : ¬ Derives .program (kinds s.ahead) := fun hderives => hno _ hderives <| by
    rw [← hstream, State.stream, kinds_append, kinds_cons, hs.steady.last, kinds_nil]
  cases hrun : (Engine.ofBound bound).program s with
  | ok p s' =>
    obtain ⟨rs, hrs, hend, -⟩ := (Engine.ends_program hE hs.steady hs.depth).of_ok hrun
    obtain ⟨⟨ss, rfl⟩, -⟩ := hrs.withRecover hs.steady hs.depth hstrict false
    obtain ⟨us, hus, hderives⟩ := hrs.derives hE hs.steady hs.depth
    rw [State.ahead_eq_nil hend, List.append_nil] at hus
    exact absurd (hus ▸ hderives) hno'
  | error f s' =>
    obtain ⟨d, rfl, rfl⟩ := hends.of_error hrun
    refine ⟨_, d, hparse, rfl, fun hshallow => ?_⟩
    obtain ⟨xs, rest, hahead, hbegins, hspan⟩ :=
      Engine.begins_of_rejected hs.steady hs.depth hstrict hrun hshallow
    obtain ⟨v, hsplit, heof⟩ := State.stream_of_ahead hahead
    refine ⟨xs, _, offends_of_viable ⟨v, ?_⟩ hbegins.viable ?_, hspan⟩
    · rw [← hstream, hsplit, List.append_assoc, List.singleton_append]
    · rw [kinds_append, kinds_cons, kinds_nil, viable_append_singleton]
      split
      · next he =>
        rwa [heof he] at hno'
      · have hbehind : ∀ u ∈ v, u.span ≠ (rest.headD s.last).span := by
          have hplaces := (pairwise_place h).filter (·.kind ≠ .illegal)
          rw [← hstream, hsplit] at hplaces
          intro u hu hsame
          have hlt := (List.pairwise_cons.1 (List.pairwise_append.1 hplaces).2.1).1 u hu
          rw [Token.place, Token.place, hsame] at hlt
          exact lt_irrefl _ hlt
        have := not_begins_of_rejected hs hunbroken hstrict hrun hshallow hsplit hspan hbehind
        rwa [kinds_append, kinds_cons, kinds_nil] at this

/-- The first complaint about a text that is no sentence is about the first token with which the
text begins no sentence, unless expressions nest too deeply. -/
theorem first_complaint_offends (bound : Bound) (recover : Bool) {source : String}
    {tokens : List Token} (h : tokenize source = .ok tokens)
    (hno : ∀ ws, Derives .program ws → kinds (tokens.filter (·.kind ≠ .illegal)) ≠ ws ++ [.eof]) :
    ∃ outcome, parseWithin bound recover source = .ok outcome ∧
      ((∀ d ∈ outcome.diagnostics, d.complaint ≠ .nestedTooDeeply) → ∃ d xs t,
        outcome.diagnostics.find? (·.complaint.isStructural) = some d ∧
        Offends (tokens.filter (·.kind ≠ .illegal)) xs t ∧ d.span = t.span) := by
  obtain ⟨_, d, hparse, hd, hoffends⟩ := strict_offends bound h hno
  obtain ⟨strict, recovering, hstrict, hrecovering, hcut⟩ := exists_outcomes bound h
  obtain rfl := Except.ok.inj (hparse.symm.trans hstrict)
  obtain ⟨hfirst, hfirst'⟩ := hcut.find?_eq hd
  have conclude {outcome : Outcome}
      (hfind : outcome.diagnostics.find? (·.complaint.isStructural) = some d)
      (hshallow : ∀ d ∈ outcome.diagnostics, d.complaint ≠ .nestedTooDeeply) : ∃ d xs t,
        outcome.diagnostics.find? (·.complaint.isStructural) = some d ∧
        Offends (tokens.filter (·.kind ≠ .illegal)) xs t ∧ d.span = t.span := by
    obtain ⟨xs, t, h⟩ := hoffends (hshallow d (List.mem_of_find?_eq_some hfind))
    exact ⟨d, xs, t, hfind, h⟩
  cases recover with
  | true => exact ⟨_, hrecovering, conclude hfirst'⟩
  | false => exact ⟨_, hstrict, conclude hfirst⟩

/-- A comma behind which a name is missing, in a block that is closed all the same. -/
theorem first_complaint_offends_behind_comma : ∃ tokens outcome d xs t,
    tokenize "let f = fn(x, ) { x }; f(1)" = .ok tokens ∧
      (∀ ws, Derives .program ws → kinds (tokens.filter (·.kind ≠ .illegal)) ≠ ws ++ [.eof]) ∧
      parseWithin 10 true "let f = fn(x, ) { x }; f(1)" = .ok outcome ∧
      outcome.diagnostics.find? (·.complaint.isStructural) = some d ∧
      Offends (tokens.filter (·.kind ≠ .illegal)) xs t ∧ d.span = t.span := by
  have hkinds : (tokenize "let f = fn(x, ) { x }; f(1)").map kinds = .ok [.kwLet, .ident, .assign,
      .kwFunction, .lparen, .ident, .comma, .rparen, .lbrace, .ident, .rbrace, .semicolon, .ident,
      .lparen, .int, .rparen, .eof] := rfl
  have hfails : (parseWithin 10 true "let f = fn(x, ) { x }; f(1)").map (fun o =>
      (o.diagnostics.isEmpty, o.diagnostics.all (·.complaint ≠ .nestedTooDeeply))) =
        .ok (false, true) := by
    decide +kernel
  cases htokens : tokenize "let f = fn(x, ) { x }; f(1)" with
  | error e => simp [htokens, Except.map] at hkinds
  | ok tokens =>
    rw [htokens] at hkinds
    have hkinds : kinds tokens = _ := Except.ok.inj hkinds
    have hlegal : ∀ t ∈ tokens, t.kind ≠ .illegal := fun t ht he => by
      have : Kind.illegal ∈ kinds tokens := he ▸ List.mem_map_of_mem ht
      rw [hkinds] at this
      exact absurd this (by decide)
    have hall : tokens.filter (·.kind ≠ .illegal) = tokens :=
      List.filter_eq_self.2 fun t ht => decide_eq_true (hlegal t ht)
    have hno : ∀ ws, Derives .program ws →
        kinds (tokens.filter (·.kind ≠ .illegal)) ≠ ws ++ [.eof] := by
      intro ws hws heq
      have hdrop : kinds tokens.dropLast = ws := by
        rw [kinds, List.map_dropLast, ← kinds, ← hall, heq, List.dropLast_concat]
      obtain ⟨p, hp⟩ := derives_program_iff.1 (hdrop ▸ hws)
      obtain ⟨outcome, hparse, h⟩ := parse_spelled 10 htokens hlegal hp
      rw [hparse] at hfails
      obtain ⟨hsome, hshallow⟩ := Prod.mk.inj (Except.ok.inj hfails)
      simp [h (by simpa using hshallow)] at hsome
    obtain ⟨outcome, hparse, h⟩ := first_complaint_offends 10 true htokens hno
    rw [hparse] at hfails
    have hshallow := (Prod.mk.inj (Except.ok.inj hfails)).2
    obtain ⟨d, xs, t, hd, hoffends, hspan⟩ := h (by simpa using hshallow)
    exact ⟨tokens, outcome, d, xs, t, rfl, hno, hparse, hd, hoffends, hspan⟩

end MonkeyFront
