import MonkeyFront.Proofs.Residue
import MonkeyFront.Proofs.Terminated

namespace MonkeyFront

/-! ### Outcomes behind other outcomes -/

section Pulls

variable {xs : List Scanned}

lemma tokensIn_append (hxs : ∀ e, .error e ∉ xs) (ys : List Scanned) :
    tokensIn (xs ++ ys) = tokensIn xs ++ tokensIn ys := by
  induction xs with
  | nil => rfl
  | cons x xs ih =>
    cases x with
    | error e => exact absurd List.mem_cons_self (hxs e)
    | ok t =>
      have ih := ih fun e he => hxs e (List.mem_cons_of_mem _ he)
      by_cases ht : t.kind = .illegal <;> simp [tokensIn, ht, ih]

lemma pull_append (last : Token) (hxs : ∀ e, .error e ∉ xs) (hnone : tokensIn xs = [])
    (ys : List Scanned) : (pull last (xs ++ ys)).token = (pull last ys).token ∧
      (pull last (xs ++ ys)).rest = (pull last ys).rest := by
  induction xs with
  | nil => exact ⟨rfl, rfl⟩
  | cons x xs ih =>
    cases x with
    | error e => exact absurd List.mem_cons_self (hxs e)
    | ok t =>
      by_cases ht : t.kind = .illegal
      · rw [tokensIn, if_pos ht] at hnone
        rw [List.cons_append, pull, if_pos ht]
        exact ih (fun e he => hxs e (List.mem_cons_of_mem _ he)) hnone
      · rw [tokensIn, if_neg ht] at hnone
        cases hnone

/-- Of outcomes at the end of others the same token is pulled, if no tokens but illegal characters
are in between. -/
lemma pull_eq_of_suffix (last : Token) {ys : List Scanned} (h : xs <:+ ys)
    (hys : ∀ e, .error e ∉ ys) (htokens : tokensIn ys = tokensIn xs) :
    (pull last ys).token = (pull last xs).token ∧ (pull last ys).rest = (pull last xs).rest := by
  obtain ⟨before, rfl⟩ := h
  have hbefore : ∀ e, .error e ∉ before := fun e he => hys e (List.mem_append_left _ he)
  rw [tokensIn_append hbefore] at htokens
  exact pull_append last hbefore (List.append_left_eq_self.1 htokens) xs

end Pulls

lemma Complaint.ne_nestedTooDeeply {c : Complaint} (h : c.isStructural = false) :
    c ≠ .nestedTooDeeply := by
  rintro rfl
  cases h

/-- In front of a scan that goes on, the iterations of a terminated program are taken as well, up to
what is behind it. -/
lemma State.Starts.exists_iterations {bound : Bound} {scan scan' : Scan} {s s' t : State}
    (hs : s.Starts scan) (ht : t.Starts scan') (hunbroken : s.Unbroken) (hunbroken' : t.Unbroken)
    (hrecover : t.recover = s.recover) (hended : AreEnded (tokensIn scan.items))
    {ys : List Token} (hahead : t.ahead = tokensIn scan.items ++ ys) {ss : List (Stmt Token)}
    (hrs : (Engine.ofBound bound).Iterations s (ss.map some) s') (hend : s'.current.kind = .eof)
    (hshallow : ∀ d ∈ s'.diagnostics, d.complaint ≠ .nestedTooDeeply) :
    ∃ t', (Engine.ofBound bound).Iterations t (ss.map some) t' ∧ t'.ahead = ys := by
  by_cases hnil : tokensIn scan.items = []
  · rw [hnil, List.nil_append] at hahead
    cases ss with
    | nil => exact ⟨t, .nil t, hahead⟩
    | cons a ss =>
      cases hrs with
      | cons hc =>
        have := hs.ahead
        rw [State.ahead_cons hc, hnil] at this
        cases this
  · have hstream : s.stream .before = tokensIn scan.items ++ [s.last] := by
      rw [State.stream, hs.ahead]
    have hstream' : t.stream .before = tokensIn scan.items ++ (ys ++ [t.last]) := by
      rw [State.stream, hahead, List.append_assoc]
    have hbeside : s.Beside (.atEnd s.last (ys ++ [t.last])) .before (some t) :=
      hs.beside ht hunbroken hunbroken' hrecover hnil hstream hstream'
    obtain ⟨t', hrs', hbehind⟩ :=
      hrs.beside_terminated hend hbeside hs.depth (hs.ahead ▸ hended) hshallow
    exact ⟨t', hrs', (List.append_inj' hbehind rfl).1⟩

namespace State.HasJustPulled

variable {scan : Scan} {n : Nat} {s : State}

/-- The tokens from the current one on are those that are left behind the pulls before it. -/
lemma ahead_eq (h : s.HasJustPulled scan n) (hs : s.Steady) (hd : s.depth = 0)
    (hlast : scan.last.kind = .eof) (hitems : ∀ t, .ok t ∈ scan.items → t.kind ≠ .eof) :
    s.ahead = tokensIn (scan.left n) := by
  have hstart := h.start_eq hs.rules hd rfl h.current rfl
  refine (starts_of_kinds (by exact hlast) (fun t ht => ?_) hstart).1.ahead
  exact hitems t ((scan.left_suffix n).subset ht)

lemma illegal_eq (h : s.HasJustPulled scan n) :
    s.illegal = (scan.passed (n + 1)).map .ofIllegal := by
  rcases h.illegal with ⟨-, hillegals⟩ | ⟨hskipped, hillegals⟩
  · exact hillegals
  · rw [hillegals, Scan.passed, ← h.pending, hskipped, List.append_nil]

/-- Before the tokens of the outcomes `ys` a parser is, apart from what it has reported, a fresh
parser in front of them. Of the illegal characters it has reported those of the outcomes before, and
besides what the fresh parser reports. -/
lemma start_behind (h : s.HasJustPulled scan n) (hs : s.Steady) (hd : s.depth = 0)
    (hrecover : s.recover = true) (hlast : scan.last.kind = .eof)
    (hitems : ∀ t, .ok t ∈ scan.items → t.kind ≠ .eof) (hscans : ∀ e, .error e ∉ scan.items)
    {xs ys : List Scanned} (hsplit : scan.items = xs ++ ys) (hahead : s.ahead = tokensIn ys) :
    ∃ ds, start .standard true ⟨ys, scan.last⟩ = .ok { s with diagnostics := ds } ∧
      s.illegal = (illegalIn xs).map .ofIllegal ++ ds := by
  have hleft := scan.left_suffix n
  have hys : ys <:+ scan.items := ⟨xs, hsplit.symm⟩
  have htokens : tokensIn (scan.left n) = tokensIn ys :=
    (h.ahead_eq hs hd hlast hitems).symm.trans hahead
  obtain ⟨htoken, hrest⟩ : (pull scan.last ys).token = (pull scan.last (scan.left n)).token ∧
      (pull scan.last ys).rest = (pull scan.last (scan.left n)).rest := by
    rcases List.suffix_or_suffix_of_suffix hleft hys with hsuffix | hsuffix
    · exact pull_eq_of_suffix _ hsuffix (fun e he => hscans e (hys.subset he)) htokens.symm
    · obtain ⟨htoken, hrest⟩ :=
        pull_eq_of_suffix scan.last hsuffix (fun e he => hscans e (hleft.subset he)) htokens
      exact ⟨htoken.symm, hrest.symm⟩
  refine ⟨_, h.start_eq hs.rules hd hrecover (htoken.trans h.current) hrest, ?_⟩
  have hpassed := scan.illegalIn_items (n + 1)
  rw [hsplit, illegalIn_append, illegalIn_eq_pull scan.last ys, hrest, ← List.append_assoc]
    at hpassed
  rw [h.illegal_eq, ← List.append_cancel_right hpassed, List.map_append]

end State.HasJustPulled

/-! ### Texts -/

/-- The last token of a text that is neither an illegal character nor the end of input is a
semicolon, if there is such a token. -/
def IsTerminated (tokens : List Token) : Prop :=
  AreEnded (tokens.filter fun t => t.kind ≠ .illegal ∧ t.kind ≠ .eof)

lemma IsTerminated.areEnded {source : String} {tokens : List Token} (h : IsTerminated tokens)
    (htokens : tokenize source = .ok tokens) : AreEnded (tokensIn (Scan.ofText source).items) := by
  obtain ⟨ts, hitems, rfl⟩ := tokenize_eq_ok.1 htokens
  have hts : ∀ t ∈ ts, t.kind ≠ .eof := fun t ht =>
    Scan.kind_items source (hitems ▸ List.mem_map_of_mem ht)
  rw [IsTerminated, List.filter_append, List.filter_cons_of_neg (by simp [Scan.kind_last source]),
    List.filter_nil, List.append_nil] at h
  rw [hitems, tokensIn_map_ok]
  convert h using 1
  exact List.filter_congr fun t ht => by simp [hts t ht]

/-- A parse that complains about nothing reports the illegal characters of its text, and its
iterations abandon nothing. -/
lemma exists_iterations_of_clean (bound : Bound) {source : String} {tokens : List Token}
    (htokens : tokenize source = .ok tokens) {p : Program Token} {ds : List Diagnostic}
    (hparse : parseWithin bound true source = .ok ⟨.ok p, ds⟩)
    (hclean : ∀ d ∈ ds, d.complaint.isStructural = false) :
    (∃ s s', State.start .standard true (.ofText source) = .ok s ∧
      (Engine.ofBound bound).Iterations s (p.map some) s' ∧ s'.current.kind = .eof ∧
      s'.diagnostics = ds) ∧
    ds = (illegalIn (Scan.ofText source).items).map .ofIllegal := by
  obtain ⟨s, rs, s', hstart, hrs, hend, hparse'⟩ := exists_iterations bound htokens
  obtain ⟨outcome, hparse'', hillegals⟩ := illegal_reported bound true htokens
  cases hparse.symm.trans hparse'
  obtain rfl := Except.ok.inj (hparse'.symm.trans hparse'')
  have hs := (State.starts hstart).1
  have hshallow : ∀ d ∈ s'.diagnostics, d.complaint ≠ .nestedTooDeeply :=
    fun d hd => Complaint.ne_nestedTooDeeply (hclean d hd)
  constructor
  · have hspells := hrs.spells (Engine.reads_ofBound bound) hs.steady hs.depth hend hclean
    have hread := hrs.complete hs.steady hs.depth hend hshallow hspells
    exact ⟨s, s', hstart, hread ▸ hrs, hend, rfl⟩
  · have hall := hillegals hshallow
    rw [List.filter_eq_self.2 fun d hd => by simp [hclean d hd]] at hall
    exact hall.trans (congrArg (List.map Diagnostic.ofIllegal) (illegalAmong_eq htokens))

/-- The place that a place in a text has below another text. -/
def Position.below (text : String) (p : Position) : Position where
  line := p.line + 1 + text.toList.count '\n'
  column := p.column
  offset := p.offset + text.length + 1

lemma within_behindLine (text : String) :
    (behindLine text.toList).within = Position.below text := by
  have hbase : behindLine text.toList =
      ⟨(Position.origin.afterAll text.toList).line + 1, 1,
        (Position.origin.afterAll text.toList).offset + 1⟩ := by
    rw [behindLine, Position.afterAll_append]
    rfl
  funext p
  rw [hbase, Position.line_afterAll, Position.offset_afterAll, String.length_toList]
  simp only [Position.within, Position.below, Position.origin, Position.mk.injEq]
  refine ⟨by omega, ?_, by omega⟩
  split <;> omega

section Texts

variable {bound : Bound} {a b : String} {as bs : List Token} (ha : tokenize a = .ok as)
  (hb : tokenize b = .ok bs)

include ha hb

/-- A line feed between two texts that have tokens makes a text that has tokens. -/
lemma exists_items_lineFeed :
    ∃ ts : List Token, (Scan.ofText (a ++ "\n" ++ b)).items = ts.map .ok := by
  obtain ⟨xs, hxs, -⟩ := tokenize_eq_ok.1 ha
  obtain ⟨ys, hys, -⟩ := tokenize_eq_ok.1 hb
  refine ⟨xs ++ ys.map (Token.move (behindLine a.toList).within), ?_⟩
  rw [Scan.ofText_lineFeed, Scan.move, hxs, hys, List.map_append, List.map_map, List.map_map]
  rfl

variable (hended : IsTerminated as) {p : Program Token} {ds : List Diagnostic}
  (hparse : parseWithin bound true a = .ok ⟨.ok p, ds⟩)
  (hclean : ∀ d ∈ ds, d.complaint.isStructural = false)

include hended hparse hclean

/-- Behind the iterations of a terminated program the parser is, apart from what it has reported, a
fresh one in front of the text below. -/
lemma exists_continues : ∃ s s₁ t,
    State.start .standard true (.ofText (a ++ "\n" ++ b)) = .ok s ∧
      (Engine.ofBound bound).Iterations s (p.map some) s₁ ∧
      State.start .standard true (.ofText b) = .ok t ∧
      s₁.Continues (behindLine a.toList) ds t := by
  obtain ⟨⟨u, u', hstartu, hrsu, hendu, hdsu⟩, hds⟩ :=
    exists_iterations_of_clean bound ha hparse hclean
  obtain ⟨ts, hts⟩ := exists_items_lineFeed ha hb
  have hscan := Scan.ofText_lineFeed a b
  generalize a ++ "\n" ++ b = source at hscan hts ⊢
  have hitems := congrArg Scan.items hscan
  obtain ⟨s, hstart⟩ := State.exists_start_of_items hts .standard true
  obtain ⟨hs, hrecover⟩ := State.starts hstart
  obtain ⟨hu, hrecoveru⟩ := State.starts hstartu
  obtain ⟨xs, hxs, -⟩ := tokenize_eq_ok.1 ha
  have hahead := hs.ahead
  rw [hitems, tokensIn_append (by simp [hxs])] at hahead
  obtain ⟨s₁, hrs, hahead⟩ := hu.exists_iterations hs (hu.unbroken hxs) (hs.unbroken hts)
    (hrecover.trans hrecoveru.symm) (hended.areEnded ha) hahead hrsu hendu
    fun d hd => Complaint.ne_nestedTooDeeply (hclean d (hdsu ▸ hd))
  have hreported : s₁.illegal = s₁.diagnostics := by
    obtain ⟨us, -, hstarted⟩ := hs.reported
    obtain ⟨vs, -, hfollowed⟩ :=
      (hrs.follows (Engine.reads_ofBound bound) hs.steady hs.depth).reported
    rw [State.illegal, hfollowed, hstarted, ← List.map_append, State.filter_ofIllegal]
  obtain ⟨hs₁, hd₁, hr₁, -⟩ := hrs.keep (Engine.reads_ofBound bound) hs.steady hs.depth
  have hshallow : ∀ d ∈ s₁.diagnostics, d.complaint ≠ .nestedTooDeeply := by
    intro d hd
    rw [← hreported] at hd
    exact Complaint.ne_nestedTooDeeply (by simpa using (List.mem_filter.1 hd).2)
  obtain ⟨n, hpulled⟩ :=
    (State.HasJustPulled.of_start hstart).of_iterations (Scan.ordered source) hrs hshallow
  obtain ⟨ds₁, hfresh, hillegals⟩ := hpulled.start_behind hs₁ hd₁ (hr₁.trans hrecover)
    (Scan.kind_last source) (fun _ => Scan.kind_items source) (by simp [hts]) hitems hahead
  rw [hreported, ← hds] at hillegals
  rw [congrArg Scan.last hscan] at hfresh
  obtain ⟨t, ht⟩ := State.exists_start hb .standard true
  exact ⟨s, s₁, t, hstart, hrs, ht, .of_start hb hfresh hillegals ht⟩

/-- A recovering parse of a text, a line feed and another text yields and reports what the parses of
the two texts yield and report, the second one in the places below the first text, if the first text
ends with a semicolon and nothing but illegal characters is wrong with it. -/
theorem terminated_programs_compose : ∃ q es, parseWithin bound true b = .ok ⟨.ok q, es⟩ ∧
    parseWithin bound true (a ++ "\n" ++ b) =
      .ok ⟨.ok (p ++ q.map (Stmt.map (Token.move (.below a)))),
        ds ++ es.map (Diagnostic.move (.below a))⟩ := by
  obtain ⟨s, s₁, t, hstart, hfirst, ht, hcontinues⟩ := exists_continues ha hb hended hparse hclean
  obtain ⟨ts, hts⟩ := exists_items_lineFeed ha hb
  obtain ⟨s₀, rs, s', hstart', hrs, hend, hjoint⟩ :=
    exists_iterations bound (tokenize_eq_ok.2 ⟨ts, hts, rfl⟩)
  obtain rfl := Except.ok.inj (hstart.symm.trans hstart')
  obtain ⟨later, rfl, hlater⟩ := hfirst.split hrs hend
  obtain ⟨q, es, hq, hyields, hdiagnostics⟩ := hcontinues.parse_eq hb ht hlater hend
  refine ⟨q, es, hq, ?_⟩
  rw [hjoint, List.filterMap_append, hyields, hdiagnostics, List.filterMap_map, within_behindLine]
  simp

end Texts

/-- Illegal characters stand on both sides of the line feed, and a binding below it is abandoned. -/
theorem terminated_programs_compose_around_illegal : ∃ as bs p ds q es,
    tokenize "x @; #" = .ok as ∧ tokenize "$ let = 1" = .ok bs ∧ IsTerminated as ∧
      parseWithin 10 true "x @; #" = .ok ⟨.ok p, ds⟩ ∧ ds.length = 2 ∧
      (∀ d ∈ ds, d.complaint.isStructural = false) ∧
      parseWithin 10 true "$ let = 1" = .ok ⟨.ok q, es⟩ ∧ es.length = 2 ∧
      parseWithin 10 true ("x @; #" ++ "\n" ++ "$ let = 1") =
        .ok ⟨.ok (p ++ q.map (Stmt.map (Token.move (.below "x @; #")))),
          ds ++ es.map (Diagnostic.move (.below "x @; #"))⟩ := by
  have hlast : (tokenize "x @; #").map (fun ts =>
      (ts.filter fun t => t.kind ≠ .illegal ∧ t.kind ≠ .eof).getLast?.map (·.kind)) =
        .ok (some .semicolon) := by decide +kernel
  have hillegals : (parseWithin 10 true "x @; #").map (fun outcome =>
      outcome.diagnostics.length == 2 && outcome.diagnostics.all (!·.complaint.isStructural)) =
        .ok true := by decide +kernel
  have habandoned : (parseWithin 10 true "$ let = 1").map (fun outcome =>
      outcome.diagnostics.length) = .ok 2 := by decide +kernel
  cases ha : tokenize "x @; #" with
  | error e => simp [ha, Except.map] at hlast
  | ok as =>
    cases hb : tokenize "$ let = 1" with
    | error e => cases (show tokenize "$ let = 1" = .ok _ from rfl).symm.trans hb
    | ok bs =>
      have hended : IsTerminated as := by
        intro t ht
        rw [ha] at hlast
        simp only [Except.map, Option.mem_def.1 ht, Option.map_some, Except.ok.injEq,
          Option.some.injEq] at hlast
        exact hlast
      obtain ⟨s, rs, s', -, -, -, hparse⟩ := exists_iterations 10 ha
      rw [hparse] at hillegals
      obtain ⟨hlength, hclean⟩ : s'.diagnostics.length = 2 ∧
          ∀ d ∈ s'.diagnostics, d.complaint.isStructural = false := by
        simpa using Except.ok.inj hillegals
      obtain ⟨q, es, hq, hjoint⟩ := terminated_programs_compose ha hb hended hparse hclean
      rw [hq] at habandoned
      exact ⟨as, bs, _, _, q, es, rfl, rfl, hended, hparse, hlength, hclean, hq,
        Except.ok.inj habandoned, hjoint⟩

end MonkeyFront
