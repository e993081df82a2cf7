import MonkeyFront.Proofs.Simulation
import MonkeyFront.Proofs.Order

/-!
# Layout

Where the tokens of a text stand has no influence on what is read and reported (`parse_congr`). The
one use that a parser makes of places is to report the illegal characters in front of a complaint
before the complaint.
-/

namespace MonkeyFront

def lexemes (ts : List Token) : List Lexeme := ts.map Token.toLexeme

/-! ### Pulling tokens -/

lemma exists_pulls {last last' : Token} (hlast : last.toLexeme = last'.toLexeme)
    {xs ys : List Token} (h : lexemes xs = lexemes ys) :
    ∃ i j t u xs' ys', pull last (xs.map .ok) = ⟨i, .ok t, xs'.map .ok⟩ ∧
      pull last' (ys.map .ok) = ⟨j, .ok u, ys'.map .ok⟩ ∧ lexemes i = lexemes j ∧
      t.toLexeme = u.toLexeme ∧ lexemes xs' = lexemes ys' := by
  induction xs generalizing ys with
  | nil =>
    obtain rfl : ys = [] := List.map_eq_nil_iff.1 h.symm
    exact ⟨[], [], last, last', [], [], rfl, rfl, rfl, hlast, rfl⟩
  | cons x xs ih =>
    cases ys with
    | nil => cases h
    | cons y ys =>
      obtain ⟨hxy, hrest⟩ := List.cons.inj h
      have hkind : x.kind = y.kind := congrArg Lexeme.kind hxy
      by_cases hk : y.kind = .illegal
      · obtain ⟨i, j, t, u, xs', ys', hx, hy, hi, htu, hxs⟩ := ih hrest
        refine ⟨x :: i, y :: j, t, u, xs', ys', ?_, ?_, ?_, htu, hxs⟩
        · simp only [List.map_cons, pull, hkind.trans hk, if_true, hx]
        · simp only [List.map_cons, pull, hk, if_true, hy]
        · exact congrArg₂ List.cons hxy hi
      · refine ⟨[], [], x, y, xs, ys, ?_, ?_, rfl, hxy, hrest⟩
        · simp only [List.map_cons, pull, if_neg (hkind ▸ hk)]
        · simp only [List.map_cons, pull, if_neg hk]

/-- What is pulled stands behind the illegal characters that are passed, and in front of the rest.
-/
lemma places_pull {last t : Token} {items : List Scanned} (ht : (pull last items).token = .ok t)
    (h : (tokensAmong items ++ [last]).Pairwise (·.place < ·.place)) :
    (∀ x ∈ (pull last items).illegal, x.place < t.place) ∧
      (∀ x ∈ tokensAmong (pull last items).rest ++ [last], t.place ≤ x.place) ∧
      (tokensAmong (pull last items).rest ++ [last]).Pairwise (·.place < ·.place) ∧
      ∀ x ∈ t :: (pull last items).illegal, x ∈ tokensAmong items ++ [last] := by
  fun_induction pull last items with
  | case1 =>
    obtain rfl := Except.ok.inj ht
    exact ⟨by simp, by simp, h, by simp⟩
  | case2 => cases ht
  | case3 u rest _ pulled ih =>
    obtain ⟨hfirst, hrest⟩ := List.pairwise_cons.1 h
    obtain ⟨hillegal, hbehind, hpairwise, hmem⟩ := ih ht hrest
    refine ⟨List.forall_mem_cons.2 ⟨hfirst t (hmem t List.mem_cons_self), hillegal⟩, hbehind,
      hpairwise, ?_⟩
    simp only [List.mem_cons, tokensAmong_ok, List.cons_append] at hmem ⊢
    rintro x (rfl | rfl | hx)
    · exact .inr (hmem x (.inl rfl))
    · exact .inl rfl
    · exact .inr (hmem x (.inr hx))
  | case4 u rest _ =>
    obtain rfl := Except.ok.inj ht
    obtain ⟨hfirst, hrest⟩ := List.pairwise_cons.1 h
    exact ⟨by simp, fun x hx => (hfirst x hx).le, hrest, by simp⟩

/-! ### States -/

namespace State

/-- The illegal characters that have been pulled with the next token stand between the current token
and this one, or behind this one where the token with which they were pulled is lost. -/
structure Apart (lost : Bool) (s : State) : Prop where
  skipped : ∀ x ∈ s.skipped, s.current.place ≤ x.place ∧ (x.place < s.peek.place ↔ lost = false)
  behind : ∀ x ∈ tokensAmong s.upcoming ++ [s.last], s.peek.place ≤ x.place
  upcoming : (tokensAmong s.upcoming ++ [s.last]).Pairwise (·.place < ·.place)

namespace Apart

variable {lost : Bool} {s : State} (h : s.Apart lost)

include h

/-- A complaint about the current token comes before all illegal characters that are pending. -/
lemma report_current (c : Complaint) : s.report c s.current =
    { s with diagnostics := s.diagnostics ++ [⟨c, s.current.span⟩] } := by
  have hnone : s.skipped.filter (·.place < s.current.place) = [] :=
    List.filter_eq_nil_iff.2 fun x hx => by simpa using (h.skipped x hx).1
  have hall : s.skipped.filter (fun t => !(t.place < s.current.place)) = s.skipped :=
    List.filter_eq_self.2 fun x hx => by simpa using (h.skipped x hx).1
  unfold Token.place at hnone hall
  simp only [report, hnone, hall, List.map_nil, List.append_nil]

/-- A complaint about the next token comes behind all illegal characters that are pending, or before
all of them. -/
lemma report_peek (c : Complaint) : s.report c s.peek =
    { s with
      skipped := if lost then s.skipped else []
      diagnostics := s.diagnostics ++ (if lost then [] else s.skipped).map .ofIllegal ++
        [⟨c, s.peek.span⟩] } := by
  have hdue : s.skipped.filter (·.place < s.peek.place) = if lost then [] else s.skipped := by
    cases lost with
    | false => exact List.filter_eq_self.2 fun x hx => by simpa using (h.skipped x hx).2
    | true => exact List.filter_eq_nil_iff.2 fun x hx => by simpa using (h.skipped x hx).2
  have hrest : s.skipped.filter (fun t => !(t.place < s.peek.place)) =
      if lost then s.skipped else [] := by
    cases lost with
    | false => exact List.filter_eq_nil_iff.2 fun x hx => by simpa using (h.skipped x hx).2
    | true => exact List.filter_eq_self.2 fun x hx => by simpa using (h.skipped x hx).2
  unfold Token.place at hdue hrest
  simp only [report, hdue, hrest]

/-- Behind the next token the tokens stand apart again, whatever has been reported. -/
lemma pulled {i ts : List Token} {t : Token}
    (hpull : pull s.last s.upcoming = ⟨i, .ok t, ts.map .ok⟩) (ds : List Diagnostic) :
    Apart false { s with
      upcoming := ts.map .ok
      current := s.peek
      peek := t
      skipped := i
      diagnostics := ds } := by
  obtain ⟨hillegal, hbehind, hpairwise, hmem⟩ := places_pull (by rw [hpull]) h.upcoming
  rw [hpull] at hillegal hbehind hpairwise hmem
  refine ⟨fun x hx => ⟨?_, iff_of_true (hillegal x hx) rfl⟩, hbehind, hpairwise⟩
  exact h.behind x (hmem x (List.mem_cons_of_mem _ hx))

/-- Where the stack runs out, what is pending stands behind the token that is both the current and
the next one. -/
lemma overrun {skipped : List Token} {upcoming : List Scanned}
    (hskipped : ∀ x ∈ skipped, .ok x ∈ s.upcoming) (hupcoming : upcoming <:+ s.upcoming) :
    (s.overrun skipped upcoming).Apart true := by
  have hsublist : (tokensAmong upcoming ++ [s.last]).Sublist (tokensAmong s.upcoming ++ [s.last]) :=
    (hupcoming.sublist.filterMap _).append_right _
  refine ⟨fun x hx => ?_, fun x hx => h.behind x (hsublist.subset hx), h.upcoming.sublist hsublist⟩
  have hle := h.behind x (List.mem_append_left _ (mem_tokensAmong.2 (hskipped x hx)))
  exact ⟨hle, iff_of_false (not_lt.2 hle) (by simp)⟩

end Apart

/-- Parsers in front of the same lexemes, which have reported the same complaints. -/
structure Matches (s t : State) : Prop where
  rules : s.rules = .standard ∧ t.rules = .standard
  upcoming : ∃ xs ys : List Token, s.upcoming = xs.map .ok ∧ t.upcoming = ys.map .ok ∧
    lexemes xs = lexemes ys
  last : s.last.toLexeme = t.last.toLexeme
  current : s.current.toLexeme = t.current.toLexeme
  peek : s.peek.toLexeme = t.peek.toLexeme
  skipped : lexemes s.skipped = lexemes t.skipped
  depth : s.depth = t.depth
  recover : s.recover = t.recover
  complaints : s.diagnostics.map Diagnostic.complaint = t.diagnostics.map Diagnostic.complaint
  apart : ∃ lost, s.Apart lost ∧ t.Apart lost

/-- The complaints about illegal characters do not depend on where these stand. -/
lemma map_complaint_ofIllegal {xs ys : List Token} (h : lexemes xs = lexemes ys) :
    (xs.map Diagnostic.ofIllegal).map Diagnostic.complaint =
      (ys.map Diagnostic.ofIllegal).map Diagnostic.complaint := by
  have hliterals := congrArg (List.map fun x => Complaint.illegalCharacter x.literal) h
  simp only [lexemes, List.map_map] at hliterals ⊢
  exact hliterals

namespace Matches

variable {s t : State} (h : s.Matches t)

include h

lemma advance : ∃ s' t', MonkeyFront.advance s = .ok () s' ∧ MonkeyFront.advance t = .ok () t' ∧
    s'.Matches t' := by
  obtain ⟨xs, ys, hxs, hys, hsame⟩ := h.upcoming
  obtain ⟨i, j, x, y, xs', ys', hx, hy, hi, hxy, hsame'⟩ := exists_pulls h.last hsame
  rw [← hxs] at hx
  rw [← hys] at hy
  simp only [MonkeyFront.advance, hx, hy]
  obtain ⟨lost, hs, ht⟩ := h.apart
  refine ⟨_, _, rfl, rfl, h.rules, ⟨xs', ys', rfl, rfl, hsame'⟩, h.last, h.peek, hxy, hi, h.depth,
    h.recover, ?_, false, hs.pulled hx _, ht.pulled hy _⟩
  simp only [List.map_append, h.complaints, map_complaint_ofIllegal h.skipped]

/-- The same illegal characters and tokens are left where the stack runs out. -/
lemma overrun {i j xs ys : List Token} (hi : lexemes i = lexemes j) (hxs : lexemes xs = lexemes ys)
    (his : ∀ x ∈ i, .ok x ∈ s.upcoming) (hjs : ∀ y ∈ j, .ok y ∈ t.upcoming)
    (hxsuffix : xs.map .ok <:+ s.upcoming) (hysuffix : ys.map .ok <:+ t.upcoming) :
    (s.overrun i (xs.map .ok)).Matches (t.overrun j (ys.map .ok)) := by
  obtain ⟨lost, hs, ht⟩ := h.apart
  refine ⟨h.rules, ⟨xs, ys, rfl, rfl, hxs⟩, h.last, h.peek, h.peek, hi, h.depth, h.recover, ?_,
    true, hs.overrun his hxsuffix, ht.overrun hjs hysuffix⟩
  simp only [State.overrun, List.map_append, h.complaints, map_complaint_ofIllegal h.skipped]

lemma overrun? (reach : Reach) :
    Option.Rel Matches (s.overrun? reach) (t.overrun? reach) := by
  obtain ⟨xs, ys, hxs, hys, hsame⟩ := h.upcoming
  cases reach with
  | stored => exact .none
  | storedUnlessNumber =>
    obtain ⟨i, j, x, y, xs', ys', hx, hy, hi, hxy, hsame'⟩ := exists_pulls h.last hsame
    rw [← hxs] at hx
    rw [← hys] at hy
    have hkind : x.kind = y.kind := congrArg Lexeme.kind hxy
    have hleft {u : State} {k : List Token} {z : Token} {zs : List Token}
        (hz : pull u.last u.upcoming = ⟨k, .ok z, zs.map .ok⟩) :
        (∀ w ∈ k, .ok w ∈ u.upcoming) ∧ zs.map .ok <:+ u.upcoming := by
      have hrest := pull_rest_suffix u.last u.upcoming
      rw [hz] at hrest
      exact ⟨fun w hw => (of_mem_pull_illegal (by rwa [hz])).1, hrest⟩
    simp only [State.overrun?, hx, hy, hkind]
    split
    · exact .some (h.overrun hi hsame' (hleft hx).1 (hleft hy).1 (hleft hx).2 (hleft hy).2)
    · exact .none
  | read =>
    simp only [State.overrun?]
    cases xs with
    | nil =>
      obtain rfl : ys = [] := List.map_eq_nil_iff.1 hsame.symm
      rw [hxs, hys]
      have hnil : lexemes ([] : List Token) = lexemes [] := rfl
      exact .some (h.overrun hnil hnil (by simp) (by simp) (by simp) (by simp))
    | cons x xs =>
      cases ys with
      | nil => cases hsame
      | cons y ys =>
        rw [hxs, hys]
        refine .some (h.overrun rfl (List.cons.inj hsame).2 (by simp) (by simp) ?_ ?_)
        · exact hxs ▸ List.suffix_cons _ _
        · exact hys ▸ List.suffix_cons _ _
  | entered =>
    rw [State.overrun?, State.overrun?, hxs, hys]
    exact .some (h.overrun rfl hsame (by simp) (by simp) (hxs ▸ List.suffix_rfl)
      (hys ▸ List.suffix_rfl))

lemma reportCurrent (c : Complaint) : (s.report c s.current).Matches (t.report c t.current) := by
  obtain ⟨lost, hs, ht⟩ := h.apart
  rw [hs.report_current, ht.report_current]
  refine { h with
    complaints := ?_
    apart := ⟨lost, ⟨hs.skipped, hs.behind, hs.upcoming⟩, ⟨ht.skipped, ht.behind, ht.upcoming⟩⟩ }
  simp only [List.map_append, h.complaints, List.map_cons, List.map_nil]

lemma reportPeek (c : Complaint) : (s.report c s.peek).Matches (t.report c t.peek) := by
  obtain ⟨lost, hs, ht⟩ := h.apart
  rw [hs.report_peek, ht.report_peek]
  cases lost with
  | false =>
    refine { h with
      skipped := rfl
      complaints := ?_
      apart := ⟨false, ⟨List.forall_mem_nil _, hs.behind, hs.upcoming⟩,
        ⟨List.forall_mem_nil _, ht.behind, ht.upcoming⟩⟩ }
    simp [h.complaints, map_complaint_ofIllegal h.skipped]
  | true =>
    refine { h with
      skipped := h.skipped
      complaints := ?_
      apart := ⟨true, ⟨hs.skipped, hs.behind, hs.upcoming⟩,
        ⟨ht.skipped, ht.behind, ht.upcoming⟩⟩ }
    simp [h.complaints]

end Matches

theorem isSimulation_matches : IsSimulation Token.toLexeme Token.toLexeme Matches where
  kind := congrArg Lexeme.kind
  rules h := h.rules
  current h := h.current
  peek h := h.peek
  depth h := h.depth
  recover h := h.recover
  tokensLeft h := by
    obtain ⟨xs, ys, hxs, hys, hsame⟩ := h.upcoming
    have hlength := congrArg List.length hsame
    simp only [lexemes, List.length_map] at hlength
    simp only [tokensLeft, hxs, hys, List.length_map, hlength]
  setDepth n h := by
    obtain ⟨lost, hs, ht⟩ := h.apart
    exact { h with
      depth := rfl
      apart := ⟨lost, ⟨hs.skipped, hs.behind, hs.upcoming⟩, ⟨ht.skipped, ht.behind, ht.upcoming⟩⟩ }
  reportCurrent c _ h := h.reportCurrent c
  reportPeek c _ h := h.reportPeek c
  advance h := h.advance
  overrun reach h := h.overrun? reach

lemma Apart.of_start {rules : Rules} {recover : Bool} {source : String} {s : State}
    (h : start rules recover (.ofText source) = .ok s) : s.Apart false := by
  obtain ⟨t, u, ht, hu, rfl⟩ := start_eq_ok.1 h
  obtain ⟨-, hbehind, hpairwise, -⟩ := places_pull ht (Scan.pairwise_place source)
  obtain ⟨hillegal, hbehind', hpairwise', hmem⟩ := places_pull hu hpairwise
  refine ⟨fun x hx => ⟨?_, iff_of_true (hillegal x hx) rfl⟩, hbehind', hpairwise'⟩
  exact hbehind x (hmem x (List.mem_cons_of_mem _ hx))

lemma Matches.of_start {source source' : String} {tokens tokens' : List Token}
    (h : tokenize source = .ok tokens) (h' : tokenize source' = .ok tokens')
    (hsame : tokens.map Token.toLexeme = tokens'.map Token.toLexeme) {recover : Bool} {s t : State}
    (hs : start .standard recover (.ofText source) = .ok s)
    (ht : start .standard recover (.ofText source') = .ok t) : s.Matches t := by
  have hapart : ∃ lost, s.Apart lost ∧ t.Apart lost := ⟨false, .of_start hs, .of_start ht⟩
  obtain ⟨xs, hitems, rfl⟩ := tokenize_eq_ok.1 h
  obtain ⟨ys, hitems', rfl⟩ := tokenize_eq_ok.1 h'
  simp only [List.map_append, List.map_cons, List.map_nil] at hsame
  obtain ⟨hxs, hlasts⟩ := List.append_inj' hsame rfl
  have hlast := (List.cons.inj hlasts).1
  obtain ⟨i₁, j₁, x₁, y₁, xs₁, ys₁, hp₁, hq₁, hi₁, hx₁, hxs₁⟩ := exists_pulls hlast hxs
  obtain ⟨i₂, j₂, x₂, y₂, xs₂, ys₂, hp₂, hq₂, hi₂, hx₂, hxs₂⟩ := exists_pulls hlast hxs₁
  obtain ⟨_, _, hx, hx', rfl⟩ := start_eq_ok.1 hs
  obtain ⟨_, _, hy, hy', rfl⟩ := start_eq_ok.1 ht
  simp only [hitems, hp₁, hp₂, Except.ok.injEq] at hx hx' hapart ⊢
  simp only [hitems', hq₁, hq₂, Except.ok.injEq] at hy hy' hapart ⊢
  subst hx hx' hy hy'
  exact ⟨⟨rfl, rfl⟩, ⟨xs₂, ys₂, rfl, rfl, hxs₂⟩, hlast, hx₁, hx₂, hi₂, rfl, rfl,
    map_complaint_ofIllegal hi₁, hapart⟩

end State

/-- Texts with the same lexemes are read alike: both as the same program, or both with the same
message by which a statement is rejected. What is reported on the way are the same messages in the
same order. -/
theorem parse_congr (bound : Bound) (recover : Bool) {source source' : String}
    {tokens tokens' : List Token} (h : tokenize source = .ok tokens)
    (h' : tokenize source' = .ok tokens')
    (hsame : tokens.map Token.toLexeme = tokens'.map Token.toLexeme) :
    ∃ outcome outcome' : Outcome, parseWithin bound recover source = .ok outcome ∧
      parseWithin bound recover source' = .ok outcome' ∧
      ((∃ p p', outcome.program = .ok p ∧ outcome'.program = .ok p' ∧
          Program.erase p = Program.erase p') ∨
        ∃ d d', outcome.program = .error d ∧ outcome'.program = .error d' ∧
          d.message = d'.message) ∧
      outcome.diagnostics.map Diagnostic.message = outcome'.diagnostics.map Diagnostic.message := by
  obtain ⟨s, outcome, hs, hparse, hends⟩ := exists_program bound recover h
  obtain ⟨t, outcome', ht, hparse', hends'⟩ := exists_program bound recover h'
  refine ⟨outcome, outcome', hparse, hparse', ?_⟩
  have hmessages {s' t' : State} (hst : s'.Matches t') :
      s'.diagnostics.map Diagnostic.message = t'.diagnostics.map Diagnostic.message := by
    have hwordings := congrArg (List.map Complaint.message) hst.complaints
    simp only [List.map_map] at hwordings
    exact hwordings
  have hlike := (Engine.alike_ofBound State.isSimulation_matches bound).program
    State.isSimulation_matches s t (.of_start h h' hsame hs ht)
  apply Together.elim hlike
  · rintro p p' s' t' hrun hrun' ⟨hp, hst⟩
    rw [hends.of_ok hrun, hends'.of_ok hrun']
    exact ⟨.inl ⟨p, p', rfl, rfl, hp⟩, hmessages hst⟩
  · rintro f f' s' t' hrun hrun' ⟨hff', hst⟩
    obtain ⟨d, rfl, ho⟩ := hends.of_error hrun
    obtain ⟨d', rfl, ho'⟩ := hends'.of_error hrun'
    obtain ⟨hd⟩ := hff'
    rw [ho, ho']
    exact ⟨.inr ⟨d, d', rfl, rfl, congrArg Complaint.message hd⟩, hmessages hst⟩

/-- A text and the same text over several lines; the complaints are about other places, but are the
same in the same order. -/
theorem parse_congr_over_lines : ∃ outcome outcome' : Outcome,
    parseWithin 10 true "let @ x = (1 $ ; 2" = .ok outcome ∧
      parseWithin 10 true "let@x\n=(1\n$\n\n;2" = .ok outcome' ∧
      outcome.diagnostics.length = 3 ∧ outcome.diagnostics ≠ outcome'.diagnostics ∧
      outcome.diagnostics.map Diagnostic.message =
        outcome'.diagnostics.map Diagnostic.message := by
  have hlength : (parseWithin 10 true "let @ x = (1 $ ; 2").map (·.diagnostics.length) =
      .ok 3 := by
    decide +kernel
  have hne : (parseWithin 10 true "let @ x = (1 $ ; 2").map (·.diagnostics) ≠
      (parseWithin 10 true "let@x\n=(1\n$\n\n;2").map (·.diagnostics) := by
    decide +kernel
  have hlexemes : (tokenize "let @ x = (1 $ ; 2").map lexemes = .ok
      [⟨.kwLet, "let"⟩, ⟨.illegal, "@"⟩, ⟨.ident, "x"⟩, ⟨.assign, "="⟩, ⟨.lparen, "("⟩, ⟨.int, "1"⟩,
        ⟨.illegal, "$"⟩, ⟨.semicolon, ";"⟩, ⟨.int, "2"⟩, ⟨.eof, ""⟩] := by
    decide +kernel
  have hlexemes' : (tokenize "let@x\n=(1\n$\n\n;2").map lexemes =
      (tokenize "let @ x = (1 $ ; 2").map lexemes := by
    decide +kernel
  rw [hlexemes] at hlexemes'
  cases h : tokenize "let @ x = (1 $ ; 2" with
  | error e =>
    rw [h] at hlexemes
    cases hlexemes
  | ok tokens =>
    cases h' : tokenize "let@x\n=(1\n$\n\n;2" with
    | error e =>
      rw [h'] at hlexemes'
      cases hlexemes'
    | ok tokens' =>
      rw [h] at hlexemes
      rw [h'] at hlexemes'
      have hsame := Except.ok.inj (hlexemes.trans hlexemes'.symm)
      obtain ⟨outcome, outcome', hparse, hparse', -, hmessages⟩ := parse_congr 10 true h h' hsame
      rw [hparse] at hlength hne
      rw [hparse'] at hne
      refine ⟨outcome, outcome', hparse, hparse', Except.ok.inj hlength, ?_, hmessages⟩
      exact fun heq => hne (congrArg Except.ok heq)

end MonkeyFront
