import MonkeyFront.Parsing.Command
import MonkeyFront.Proofs.Pulls

namespace MonkeyFront

/-! ### Operations in a row -/

/-- The state that an operation leaves, whether it fails or not. -/
def Command.after (bound : Bound) (s : State) (command : Command) : State :=
  match command.runWithin bound s with
  | .ok _ s' => s'
  | .error _ s' => s'

/-- The state that operations leave one after the other, whether they fail or not. -/
def drive (bound : Bound) (commands : List Command) (s : State) : State :=
  commands.foldl (Command.after bound) s

/-- None of the operations fails for want of frames. -/
def NeverTooDeep (bound : Bound) : List Command → State → Prop
  | [], _ => True
  | command :: commands, s =>
    (∀ s', command.runWithin bound s ≠ .error .tooDeep s') ∧
      NeverTooDeep bound commands (command.after bound s)

lemma NeverTooDeep.append {bound : Bound} {commands more : List Command} {s : State}
    (h : NeverTooDeep bound (commands ++ more) s) :
    NeverTooDeep bound commands s ∧ NeverTooDeep bound more (drive bound commands s) := by
  induction commands generalizing s with
  | nil => exact ⟨trivial, h⟩
  | cons command commands ih =>
    obtain ⟨hcommands, hmore⟩ := ih h.2
    exact ⟨⟨h.1, hcommands⟩, hmore⟩

lemma Command.takesSteps (bound : Bound) (command : Command) :
    TakesSteps (command.runWithin bound) := by
  have hE := Engine.takesSteps_ofBound bound
  cases command with
  | advance => exact .bind .advance fun _ => .pure _
  | expect kind => exact .bind (.expect kind) fun _ => .pure _
  | statement => exact .bind hE.statement fun _ => .pure _
  | expression precedence => exact .bind (hE.expression precedence) fun _ => .pure _
  | program => exact .bind hE.program fun _ => .pure _
  | setPrefixFn kind rule => exact .bind (.setRules _) fun _ => .pure _
  | setInfixFn kind precedence rule => exact .bind (.setRules _) fun _ => .pure _

namespace State

variable {s s' : State}

namespace Scans

variable (h : s.Scans)

include h

/-- An operation leaves a state to which its steps lead, also where it fails. -/
lemma reaches_after {bound : Bound} {command : Command}
    (hdeep : ∀ s', command.runWithin bound s ≠ .error .tooDeep s') :
    s.Reaches (command.after bound s) := by
  have hsteps := command.takesSteps bound s
  unfold Command.after
  cases hrun : command.runWithin bound s with
  | ok answer s' => exact hsteps.of_ok hrun
  | error f s' =>
    have hfails := hsteps.of_error hrun
    cases f with
    | rejected d => exact hfails
    | tooDeep => exact absurd hrun (hdeep s')
    | scan e =>
      obtain ⟨s₁, hs₁, hfault⟩ := hfails
      obtain ⟨s₂, hs₂⟩ := (hs₁.scans h).exists_advance
      cases hs₂.symm.trans hfault

lemma reaches_drive {bound : Bound} {commands : List Command}
    (hdeep : NeverTooDeep bound commands s) : s.Reaches (drive bound commands s) := by
  induction commands generalizing s with
  | nil => exact .refl
  | cons command commands ih =>
    have hstep := h.reaches_after hdeep.1
    exact hstep.trans (ih (hstep.scans h) hdeep.2)

lemma ends_expect (kind : Kind) : Ends (expect kind) s (fun _ _ => True)
      (fun _ s' => s' = s.report (.unexpectedToken kind s.peek.kind) s.peek) := by
  unfold expect
  rw [ends_bind, ends_get]
  apply ends_ite
  · intro _
    obtain ⟨s₁, hs₁⟩ := h.exists_advance
    rw [ends_bind, Ends, hs₁]
    trivial
  · intro _
    rw [ends_reject]

end Scans

/-- The two tokens that the parser looks at and those that are still to come are in the order of the
source. -/
def Onward (s : State) : Prop :=
  Ascending (places (s.current :: s.peek :: (tokensAmong s.upcoming ++ [s.last])))

lemma InOrderHere.onward (h : s.InOrderHere) : s.Onward := by
  have hplaces := (List.pairwise_append.1 h).2.1
  refine hplaces.sublist (List.Sublist.map _ (List.Sublist.cons_cons _ ?_))
  exact List.sublist_append_right _ _

lemma Onward.place_le (h : s.Onward) : s.current.place ≤ s.peek.place :=
  (List.pairwise_cons.1 h).1 _ List.mem_cons_self

lemma Onward.advance (h : s.Onward) (hrun : MonkeyFront.advance s = .ok () s') :
    s'.Onward ∧ s'.current = s.peek := by
  simp only [MonkeyFront.advance] at hrun
  cases ht : (pull s.last s.upcoming).token with
  | error e => simp [ht] at hrun
  | ok t =>
    simp only [ht, EStateM.Result.ok.injEq, true_and] at hrun
    subst hrun
    have hpull := ascending_pull [s.peek.place] ht (List.pairwise_cons.1 h).2
    refine ⟨hpull.sublist (List.Sublist.cons_cons _ (List.Sublist.map _ ?_)), rfl⟩
    exact List.sublist_append_right _ _

lemma Onward.overrun (h : s.Onward) (ho : s.Overruns s') : s'.Onward := by
  have hrest : (tokensAmong s'.upcoming ++ [s'.last]).Sublist
      (tokensAmong s.upcoming ++ [s.last]) := by
    rw [ho.last_eq]
    exact (ho.upcoming_suffix.sublist.filterMap _).append_right _
  have hpeek := (List.pairwise_cons.1 h).2
  rw [Onward, ho.current_eq, ho.peek_eq]
  have hfrom : Ascending (places (s.peek :: (tokensAmong s'.upcoming ++ [s'.last]))) :=
    hpeek.sublist (List.Sublist.map _ (List.Sublist.cons_cons _ hrest))
  refine List.pairwise_cons.2 ⟨fun x hx => ?_, hfrom⟩
  rcases List.mem_cons.1 hx with rfl | hx
  · exact le_rfl
  · exact (List.pairwise_cons.1 hfrom).1 x hx

lemma Reaches.onward (hs : s.Reaches s') (h : s.Onward) :
    s'.Onward ∧ s.current.place ≤ s'.current.place := by
  induction hs with
  | refl => exact ⟨h, le_rfl⟩
  | advance _ hrun ih =>
    obtain ⟨h₂, hcurrent⟩ := ih.1.advance hrun
    exact ⟨h₂, ih.2.trans (hcurrent ▸ ih.1.place_le)⟩
  | @overrun s₁ s₂ _ ho ih =>
    have hcurrent : s.current.place ≤ s₂.current.place :=
      ih.2.trans (ho.current_eq ▸ ih.1.place_le)
    exact ⟨show s₂.Onward from ih.1.overrun ho, hcurrent⟩
  | report _ _ ih | count _ _ ih | rule _ _ ih => exact ih

end State

/-! ### The place of a parser -/

def legalAmong (ts : List Token) : List Token := ts.filter (·.kind ≠ .illegal)

/-- The token in the `i`-th place of those that are no illegal characters. The last one, the end of
input, is repeated for ever. -/
def legalAt (tokens : List Token) (i : Nat) : Option Token :=
  (legalAmong tokens)[i]?.or (legalAmong tokens).getLast?

namespace State

/-- How many tokens that are no illegal characters stand in front of the current token. -/
def index (tokens : List Token) (s : State) : Nat :=
  (legalAmong tokens).countP (·.place < s.current.place)

/-- How often an illegal character has been reported. -/
def reports (s : State) (t : Token) : Nat := s.diagnostics.count (.ofIllegal t)

/-- The parser looks at two tokens in a row. The illegal characters in front of them have been
reported once and are not pending, those behind them are neither reported nor pending, and those in
between are either pending or reported once. -/
structure Tracks (tokens : List Token) (s : State) : Prop where
  current : legalAt tokens (s.index tokens) = some s.current
  peek : legalAt tokens (s.index tokens + 1) = some s.peek
  before : ∀ t ∈ illegalAmong tokens, t.place < s.current.place → t ∉ s.skipped ∧ s.reports t = 1
  between : ∀ t ∈ illegalAmong tokens, s.current.place < t.place → t.place < s.peek.place →
    t ∈ s.skipped ∧ s.reports t = 0 ∨ t ∉ s.skipped ∧ s.reports t = 1
  behind : ∀ t ∈ illegalAmong tokens, s.peek.place < t.place → t ∉ s.skipped ∧ s.reports t = 0

end State

/-- A token that stands behind `n` others has `n` of them in front of it. -/
lemma countP_place {ts : List Token} (h : ts.Pairwise (·.place < ·.place)) {n : Nat} {t : Token}
    (ht : ts[n]? = some t) : ts.countP (·.place < t.place) = n := by
  induction ts generalizing n with
  | nil => cases ht
  | cons u us ih =>
    obtain ⟨hu, hus⟩ := List.pairwise_cons.1 h
    cases n with
    | zero =>
      obtain rfl := Option.some.inj ht
      rw [List.countP_eq_zero]
      intro v hv
      rw [decide_eq_true_eq]
      rcases List.mem_cons.1 hv with rfl | hv
      · exact lt_irrefl _
      · exact (hu v hv).asymm
    | succ n =>
      rw [List.getElem?_cons_succ] at ht
      have hlt : u.place < t.place := hu t (List.mem_of_getElem? ht)
      rw [List.countP_cons_of_pos (by simpa using hlt), ih hus ht]

section Text

variable {source : String} {tokens : List Token} (h : tokenize source = .ok tokens)

include h

lemma legalAmong_eq : legalAmong tokens =
    tokensIn (Scan.ofText source).items ++ [(Scan.ofText source).last] := by
  obtain ⟨ts, hitems, rfl⟩ := tokenize_eq_ok.1 h
  rw [legalAmong, List.filter_append, hitems, tokensIn_map_ok,
    List.filter_cons_of_pos (by simp [Scan.kind_last source]), List.filter_nil]

/-- Each illegal character that has been passed has one report among those for all that have. -/
lemma count_passed {k : Nat} {t : Token} (ht : t ∈ illegalAmong tokens) :
    (((Scan.ofText source).passed k).map Diagnostic.ofIllegal).count (.ofIllegal t) =
      if t ∈ (Scan.ofText source).passed k then 1 else 0 := by
  have hsplit := (Scan.ofText source).illegalIn_items k
  rw [← illegalAmong_eq h] at hsplit
  have hsublist : ((Scan.ofText source).passed k).Sublist tokens :=
    (hsplit ▸ List.sublist_append_left _ _).trans List.filter_sublist
  split
  · next hpassed =>
    apply List.count_eq_one_of_mem
    · apply List.Nodup.of_map Diagnostic.place
      rw [List.map_map]
      exact List.pairwise_map.2 (((pairwise_place h).sublist hsublist).imp ne_of_lt)
    · exact List.mem_map_of_mem hpassed
  · next hpassed =>
    rw [List.count_eq_zero]
    intro hmem
    obtain ⟨u, hu, hsame⟩ := List.mem_map.1 hmem
    have hplace : u.place = t.place := congrArg Diagnostic.place hsame
    have htokens : t ∈ tokens := (List.mem_filter.1 ht).1
    rw [eq_of_place_eq h (hsublist.subset hu) htokens hplace] at hu
    exact hpassed hu

lemma State.reports_eq {s : State} {k : Nat}
    (hk : s.illegal = ((Scan.ofText source).passed k).map .ofIllegal) {t : Token}
    (ht : t ∈ illegalAmong tokens) :
    s.reports t = if t ∈ (Scan.ofText source).passed k then 1 else 0 := by
  rw [← count_passed h ht, ← hk, State.reports, State.illegal]
  exact (List.count_filter rfl).symm

namespace State.HasPulled

variable {n : Nat} {s s' : State} (hs : s.HasPulled (.ofText source) n)

include hs

/-- The parser looks at the token behind those that it has passed, and at the one behind it. -/
lemma legalAt_index : s.index tokens = min n (tokensIn (Scan.ofText source).items).length ∧
    legalAt tokens (s.index tokens) = some s.current ∧
    legalAt tokens (s.index tokens + 1) = some s.peek := by
  obtain ⟨ts, hitems, -⟩ := tokenize_eq_ok.1 h
  have hcurrent := Except.ok.inj (hs.current.symm.trans (Scan.pulled_eq hitems n).2)
  have hpeek := Except.ok.inj (hs.peek.symm.trans (Scan.pulled_eq hitems (n + 1)).2)
  have hlegal := legalAmong_eq h
  have hordered : (legalAmong tokens).Pairwise (·.place < ·.place) :=
    (pairwise_place h).sublist List.filter_sublist
  generalize tokensIn (Scan.ofText source).items = us at hcurrent hpeek hlegal ⊢
  have hat : (legalAmong tokens)[min n us.length]? = some s.current := by
    rw [hlegal, hcurrent]
    rcases Nat.lt_or_ge n us.length with hn | hn
    · rw [min_eq_left hn.le, List.getElem?_append_left hn, List.getElem?_eq_getElem hn]
      rfl
    · rw [min_eq_right hn, List.getElem?_concat_length, List.getElem?_eq_none hn]
      rfl
  have hindex : s.index tokens = min n us.length := countP_place hordered hat
  refine ⟨hindex, ?_, ?_⟩
  · rw [legalAt, hindex, hat]
    rfl
  · rw [legalAt, hindex, hlegal, hpeek, List.getLast?_concat]
    rcases Nat.lt_trichotomy (n + 1) us.length with hn | hn | hn
    · rw [min_eq_left (by omega), List.getElem?_append_left hn, List.getElem?_eq_getElem hn]
      rfl
    · rw [min_eq_left (by omega), hn, List.getElem?_concat_length, List.getElem?_eq_none le_rfl]
      rfl
    · rw [List.getElem?_eq_none (by simp; omega), List.getElem?_eq_none hn.le]
      rfl

lemma tracks : s.Tracks tokens := by
  have hscan := Scan.ordered source
  obtain ⟨-, hcurrent, hpeek⟩ := hs.legalAt_index h
  have hskipped := (hs.apart hscan).skipped
  have hpassed := hscan.place_lt_of_mem_passed hs.current
  have hpassed' := hscan.place_lt_of_mem_passed hs.peek
  have hnext := hscan.place_le hs.current
  have hrest : ∀ t ∈ illegalIn ((Scan.ofText source).left (n + 2)), s.peek.place ≤ t.place :=
    fun t ht => (hscan.pulled hs.peek).2.1 t
    (List.mem_append_left _ ((illegalIn_sublist _).subset ht))
  have hle : s.current.place ≤ s.peek.place :=
    (hscan.pulled hs.current).2.1 _ ((hscan.pulled hs.peek).2.2 _ List.mem_cons_self)
  have hsplit {t : Token} (ht : t ∈ illegalAmong tokens) :
      (t ∈ (Scan.ofText source).passed (n + 1) ∨
        t ∈ ((Scan.ofText source).pulled (n + 1)).illegal) ∨
      t ∈ illegalIn ((Scan.ofText source).left (n + 2)) := by
    rw [illegalAmong_eq h, (Scan.ofText source).illegalIn_items (n + 2)] at ht
    exact (List.mem_append.1 ht).imp_left List.mem_append.1
  refine ⟨hcurrent, hpeek, ?before, ?between, ?behind⟩
  case before =>
    intro t ht hlt
    refine ⟨fun hmem => absurd hlt (hskipped t hmem).1.not_gt, ?_⟩
    have hmem : t ∈ (Scan.ofText source).passed (n + 1) := by
      rcases hsplit ht with (hmem | hmem) | hmem
      · exact hmem
      · exact absurd hlt (hnext t hmem).not_gt
      · exact absurd hlt (hle.trans (hrest t hmem)).not_gt
    have hmem' : t ∈ (Scan.ofText source).passed (n + 2) := List.mem_append_left _ hmem
    rcases hs.illegal with ⟨-, hk⟩ | ⟨-, hk⟩
    · rw [reports_eq h hk ht, if_pos hmem]
    · rw [reports_eq h hk ht, if_pos hmem']
  case between =>
    intro t ht hgt hlt
    have hmem : t ∈ ((Scan.ofText source).pulled (n + 1)).illegal := by
      rcases hsplit ht with (hmem | hmem) | hmem
      · exact absurd hgt (hpassed t hmem).asymm
      · exact hmem
      · exact absurd hlt (hrest t hmem).not_gt
    have hmem' : t ∈ (Scan.ofText source).passed (n + 2) := List.mem_append_right _ hmem
    rcases hs.illegal with ⟨hall, hk⟩ | ⟨hnone, hk⟩
    · refine .inl ⟨hall ▸ hmem, ?_⟩
      rw [reports_eq h hk ht, if_neg fun hmem => hgt.asymm (hpassed t hmem)]
    · refine .inr ⟨by simp [hnone], ?_⟩
      rw [reports_eq h hk ht, if_pos hmem']
  case behind =>
    intro t ht hgt
    refine ⟨fun hmem => hgt.asymm ((hskipped t hmem).2.2 rfl), ?_⟩
    rcases hs.illegal with ⟨-, hk⟩ | ⟨-, hk⟩
    · rw [reports_eq h hk ht, if_neg fun hmem => (hle.trans_lt hgt).asymm (hpassed t hmem)]
    · rw [reports_eq h hk ht, if_neg fun hmem => hgt.asymm (hpassed' t hmem)]

end State.HasPulled

/-- A parser in front of a text that has tokens can be driven by any operations. In every state that
it reaches, also in the middle of an operation and also behind operations that failed, it tracks the
tokens unless the stack has run out; it never goes back and takes no diagnostic back. An expectation
that is not met leaves it where it is. -/
theorem driven_parser_tracks (bound : Bound) (recover : Bool) :
    ∃ s₀, State.start .standard recover (.ofText source) = .ok s₀ ∧
      (∀ commands more, NeverTooDeep bound (commands ++ more) s₀ →
        s₀.Reaches (drive bound commands s₀) ∧
          (drive bound commands s₀).Reaches (drive bound (commands ++ more) s₀)) ∧
      ∀ s, s₀.Reaches s →
        ((∀ d ∈ s.diagnostics, d.complaint ≠ .nestedTooDeeply) → s.Tracks tokens) ∧
        (∀ s', s.Reaches s' →
          s.index tokens ≤ s'.index tokens ∧ s.diagnostics <+: s'.diagnostics) ∧
        ∀ kind f s', expect kind s = .error f s' →
          s'.index tokens = s.index tokens ∧ s'.current = s.current ∧ s'.peek = s.peek := by
  obtain ⟨s₀, hstart⟩ := State.exists_start h .standard recover
  have hscan := Scan.ordered source
  have h₀ := (State.HasJustPulled.of_start hstart).toHasPulled
  obtain ⟨ts, hitems, -⟩ := tokenize_eq_ok.1 h
  have hscans := h₀.scans hitems
  have honward := (State.InOrderHere.of_start hstart).onward
  refine ⟨s₀, hstart, fun commands more hdeep => ?driven, fun s hs => ⟨fun hshallow => ?tracks,
    fun s' hs' => ⟨?onward, hs'.prefix_diagnostics⟩, fun kind f s' hrun => ?expect⟩⟩
  case driven =>
    obtain ⟨hcommands, hmore⟩ := hdeep.append
    have hfirst := hscans.reaches_drive hcommands
    refine ⟨hfirst, ?_⟩
    have hdrive : drive bound (commands ++ more) s₀ = drive bound more (drive bound commands s₀) :=
      List.foldl_append
    rw [hdrive]
    exact (hfirst.scans hscans).reaches_drive hmore
  case tracks =>
    obtain ⟨n, -, hn⟩ := h₀.of_reaches hscan hs hshallow
    exact hn.tracks h
  case onward =>
    have hplace := (hs'.onward (hs.onward honward).1).2
    exact List.countP_mono_left fun t _ ht => by
      simp only [decide_eq_true_eq] at ht ⊢
      exact ht.trans_le hplace
  case expect =>
    obtain rfl := ((hs.scans hscans).ends_expect kind).of_error hrun
    exact ⟨rfl, rfl, rfl⟩

end Text

/-- A number that is read as if it were in parentheses. -/
def closedNumber : Script := .expect .rparen fun t => .done (.integer t)

lemma run_closedNumber :
    (match State.start .standard true (.ofText "1 @ x $") with
    | .error _ => false
    | .ok s₀ => match (Command.expression .lowest).runWithin 10
        (drive 10 [.setPrefixFn .int (some (.script closedNumber))] s₀) with
      | .ok _ _ | .error .tooDeep _ | .error (.scan _) _ => false
      | .error (.rejected _) s₁ => match Command.program.runWithin 10 s₁ with
        | .ok _ s₂ => s₁.diagnostics.length == 2 && s₂.diagnostics.length == 4 &&
            s₁.diagnostics.all (·.complaint ≠ .nestedTooDeeply) &&
            s₂.diagnostics.all (·.complaint ≠ .nestedTooDeeply)
        | .error _ _ => false) = true := by
  decide +kernel

/-- A script that hangs on numbers fails behind an illegal character, and the parser is driven on to
the end of input. -/
theorem driven_parser_tracks_behind_script : ∃ tokens s₀ s₁ s₂ f answer,
    tokenize "1 @ x $" = .ok tokens ∧
      s₁ = drive 10 [.setPrefixFn .int (some (.script closedNumber)), .expression .lowest] s₀ ∧
      s₂ = drive 10 [.setPrefixFn .int (some (.script closedNumber)), .expression .lowest,
        .program] s₀ ∧
      (Command.expression .lowest).runWithin 10
        (drive 10 [.setPrefixFn .int (some (.script closedNumber))] s₀) = .error f s₁ ∧
      Command.program.runWithin 10 s₁ = .ok answer s₂ ∧ s₁.Tracks tokens ∧ s₂.Tracks tokens ∧
      s₁.diagnostics.length = 2 ∧ s₂.diagnostics.length = 4 := by
  have hrun := run_closedNumber
  cases htokens : tokenize "1 @ x $" with
  | error e => cases (show tokenize "1 @ x $" = .ok _ from rfl).symm.trans htokens
  | ok tokens =>
    obtain ⟨s₀, hstart, hdriven, hreached⟩ := driven_parser_tracks htokens 10 true
    simp only [hstart] at hrun
    split at hrun
    · cases hrun
    · cases hrun
    · cases hrun
    · next d s₁ hfails =>
      split at hrun
      · next answer s₂ hprogram =>
        simp only [Bool.and_eq_true, beq_iff_eq, List.all_eq_true, decide_eq_true_eq] at hrun
        obtain ⟨⟨hlengths, hshallow₁⟩, hshallow₂⟩ := hrun
        have h₁ : s₁ = drive 10 [.setPrefixFn .int (some (.script closedNumber)),
            .expression .lowest] s₀ := by
          simp only [drive, List.foldl_cons, List.foldl_nil] at hfails ⊢
          rw [Command.after, hfails]
        have h₂ : s₂ = drive 10 [.setPrefixFn .int (some (.script closedNumber)),
            .expression .lowest, .program] s₀ := by
          simp only [drive, List.foldl_cons, List.foldl_nil] at h₁ ⊢
          rw [← h₁, Command.after, hprogram]
        have hdeep : NeverTooDeep 10 [.setPrefixFn .int (some (.script closedNumber)),
            .expression .lowest, .program] s₀ := by
          refine ⟨fun s' hs' => ?_, fun s' hs' => ?_, fun s' hs' => ?_, trivial⟩
          · cases hs'
          · cases hfails.symm.trans hs'
          · have hfailed : Command.program.runWithin 10 s₁ = .error .tooDeep s' := by
              rw [h₁]
              exact hs'
            cases hprogram.symm.trans hfailed
        obtain ⟨hreaches₁, hreaches₂⟩ := hdriven [.setPrefixFn .int (some (.script closedNumber)),
          .expression .lowest] [.program] hdeep
        rw [← h₁] at hreaches₁ hreaches₂
        refine ⟨tokens, s₀, s₁, s₂, _, answer, rfl, h₁, h₂, hfails, hprogram, ?_, ?_, hlengths⟩
        · exact (hreached s₁ hreaches₁).1 hshallow₁
        · refine (hreached s₂ (hreaches₁.trans ?_)).1 hshallow₂
          rw [h₂]
          exact hreaches₂
      · cases hrun

end MonkeyFront
