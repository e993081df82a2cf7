import Mathlib.Algebra.Order.Group.Unbundled.Int
import Mathlib.Data.List.Nodup
import MonkeyFront.Proofs.Strictness

namespace MonkeyFront

def Token.place (t : Token) : Int := t.span.start.offset

/-- Where the stretch begins that a diagnostic is about. -/
def Diagnostic.place (d : Diagnostic) : Int := d.span.start.offset

@[simp] lemma Diagnostic.place_ofIllegal (t : Token) : (Diagnostic.ofIllegal t).place = t.place :=
  rfl

/-! ### Scans -/

/-- The tokens among outcomes, illegal characters included. -/
def tokensAmong (items : List Scanned) : List Token := items.filterMap Except.toOption

@[simp] lemma tokensAmong_nil : tokensAmong [] = [] := rfl

@[simp] lemma tokensAmong_ok (t : Token) (items : List Scanned) :
    tokensAmong (.ok t :: items) = t :: tokensAmong items := rfl

@[simp] lemma tokensAmong_error (e : ScanError) (items : List Scanned) :
    tokensAmong (.error e :: items) = tokensAmong items := rfl

lemma tokensAmong_append (xs ys : List Scanned) :
    tokensAmong (xs ++ ys) = tokensAmong xs ++ tokensAmong ys := List.filterMap_append

lemma mem_tokensAmong {t : Token} {items : List Scanned} :
    t ∈ tokensAmong items ↔ .ok t ∈ items := by
  simp only [tokensAmong, List.mem_filterMap]
  constructor
  · rintro ⟨x, hx, htoken⟩
    cases x with
    | error e => cases htoken
    | ok u =>
      obtain rfl := Option.some.inj htoken
      exact hx
  · exact fun h => ⟨_, h, rfl⟩

namespace Cursor

lemma offset_skipBlanks (c : Cursor) : c.position.offset ≤ c.skipBlanks.position.offset := by
  simp only [skipBlanks, Position.offset_afterAll]
  omega

/-- A cursor yields what stands behind it and goes on behind what it yields. -/
lemma next_place (c : Cursor) :
    c.position.offset ≤ c.next.2.position.offset ∧ ∀ t, c.next.1 = .ok t →
      c.position.offset ≤ t.place ∧ (t.kind ≠ .eof → t.place < c.next.2.position.offset) := by
  have hblanks := c.offset_skipBlanks
  cases hrest : c.skipBlanks.rest with
  | nil =>
    rw [next_of_rest_eq_nil hrest]
    refine ⟨hblanks, fun t ht => ?_⟩
    obtain rfl := Except.ok.inj ht
    exact ⟨hblanks, fun hk => absurd rfl hk⟩
  | cons head tail =>
    have hpos : 0 < (munch head tail).1.length := by
      have htext := congrArg List.length (munch_append head tail)
      have hle := length_munch_le head tail
      rw [List.length_append, List.length_cons] at htext
      omega
    have hbehind := Position.offset_afterAll c.skipBlanks.position (munch head tail).1
    rw [next_of_rest_eq_cons hrest]
    refine ⟨by dsimp only; omega, fun t ht => ?_⟩
    split at ht
    · cases ht
    · obtain rfl := Except.ok.inj ht
      refine ⟨hblanks, fun _ => ?_⟩
      simp only [Token.place]
      omega

/-- The tokens of a scan stand one behind the other, the end of input last. -/
lemma pairwise_scanWithin (n : Nat) (c : Cursor) :
    (tokensAmong (c.scanWithin n).1 ++ [(c.scanWithin n).2]).Pairwise (·.place < ·.place) ∧
      ∀ t ∈ tokensAmong (c.scanWithin n).1 ++ [(c.scanWithin n).2],
        c.position.offset ≤ t.place := by
  induction n generalizing c with
  | zero =>
    refine ⟨List.pairwise_singleton _ _, fun t ht => ?_⟩
    obtain rfl := List.mem_singleton.1 ht
    exact le_refl _
  | succ n ih =>
    obtain ⟨hle, hnext⟩ := c.next_place
    unfold scanWithin
    split
    · next e behind hc =>
      rw [hc] at hle
      obtain ⟨hpairwise, hplace⟩ := ih behind
      exact ⟨hpairwise, fun t ht => hle.trans (hplace t ht)⟩
    · next token behind hc =>
      rw [hc] at hle hnext
      obtain ⟨hge, hlt⟩ := hnext token rfl
      split
      · refine ⟨List.pairwise_singleton _ _, fun t ht => ?_⟩
        obtain rfl := List.mem_singleton.1 ht
        exact hge
      · next hk =>
        obtain ⟨hpairwise, hplace⟩ := ih behind
        refine ⟨List.Pairwise.cons (fun t ht => ?_) hpairwise, fun t ht => ?_⟩
        · exact lt_of_lt_of_le (hlt hk) (hplace t ht)
        · rcases List.mem_cons.1 ht with rfl | ht
          · exact hge
          · exact hle.trans (hplace t ht)

end Cursor

theorem Scan.pairwise_place (source : String) :
    (tokensAmong (ofText source).items ++ [(ofText source).last]).Pairwise
      (·.place < ·.place) :=
  ((Cursor.ofText source).pairwise_scanWithin (source.length + 1)).1

lemma tokensAmong_map_ok (ts : List Token) : tokensAmong (ts.map .ok) = ts := by
  induction ts with
  | nil => rfl
  | cons t ts ih => rw [List.map_cons, tokensAmong_ok, ih]

lemma pairwise_place {source : String} {tokens : List Token} (h : tokenize source = .ok tokens) :
    tokens.Pairwise (·.place < ·.place) := by
  obtain ⟨ts, hitems, rfl⟩ := tokenize_eq_ok.1 h
  have hplaces := Scan.pairwise_place source
  rwa [hitems, tokensAmong_map_ok] at hplaces

lemma eq_of_place_eq {source : String} {tokens : List Token} (h : tokenize source = .ok tokens)
    {t u : Token} (ht : t ∈ tokens) (hu : u ∈ tokens) (hplace : t.place = u.place) : t = u := by
  have hnodup : (tokens.map Token.place).Nodup :=
    List.pairwise_map.2 ((pairwise_place h).imp ne_of_lt)
  exact List.inj_on_of_nodup_map hnodup ht hu hplace

/-! ### States -/

abbrev Ascending (places : List Int) : Prop := places.Pairwise (· ≤ ·)

def places (ts : List Token) : List Int := ts.map Token.place

lemma ascending_repeat (pre : List Int) {a : Int} (h : Ascending (pre ++ [a])) :
    Ascending (pre ++ [a] ++ [a]) := by
  refine List.pairwise_append.2 ⟨h, List.pairwise_singleton _ _, fun x hx y hy => ?_⟩
  obtain rfl := List.mem_singleton.1 hy
  rcases List.mem_append.1 hx with hx | hx
  · exact (List.pairwise_append.1 h).2.2 x hx y hy
  · rw [List.mem_singleton.1 hx]

/-- Pulling a token leaves the tokens in their places; the end of input is put behind them again. -/
lemma ascending_pull (pre : List Int) {last t : Token} {items : List Scanned}
    (ht : (pull last items).token = .ok t)
    (h : Ascending (pre ++ places (tokensAmong items ++ [last]))) :
    Ascending (pre ++ places ((pull last items).illegal ++
      t :: (tokensAmong (pull last items).rest ++ [last]))) := by
  fun_induction pull last items generalizing pre with
  | case1 =>
    obtain rfl := Except.ok.inj ht
    have := ascending_repeat pre h
    rwa [List.append_assoc] at this
  | case2 => cases ht
  | case3 u rest _ pulled =>
    rename_i ih
    have := ih (pre ++ [u.place]) ht (by simpa [places] using h)
    simpa [places] using this
  | case4 u rest _ =>
    obtain rfl := Except.ok.inj ht
    exact h

/-- A place between the places in front of it and those behind it finds its place among places that
are not compared with it. -/
lemma ascending_insert {pre : List Int} (ks : List Int) {post : List Int} {a : Int}
    (h : Ascending (pre ++ (ks ++ post)))
    (hpre : ∀ x ∈ pre, x ≤ a) (hpost : ∀ x ∈ post, a ≤ x) :
    Ascending (pre ++ ks.filter (· < a) ++ [a] ++ (ks.filter (fun x => !(x < a)) ++ post)) := by
  simp only [Ascending, List.pairwise_append] at h ⊢
  obtain ⟨hpre', ⟨hks, hpost', hkspost⟩, hall⟩ := h
  have hfilter (p : Int → Bool) : (ks.filter p).Pairwise (· ≤ ·) := hks.sublist List.filter_sublist
  simp only [List.mem_append, List.mem_filter, List.mem_singleton] at *
  simp only [hpre', hpost', hfilter, List.pairwise_singleton, true_and]
  grind

namespace State

/-- The tokens behind the current one, illegal characters included, with the end of input at their
end. -/
def following (s : State) : List Token :=
  s.skipped ++ s.peek :: (tokensAmong s.upcoming ++ [s.last])

/-- What has been reported stands in front of what is still to be passed, in the order of the
source. -/
def InOrder (s : State) : Prop :=
  Ascending (s.diagnostics.map Diagnostic.place ++ places s.following)

/-- What has been reported stands in front of the current token, and this one in front of what is
still to be passed, in the order of the source. -/
def InOrderHere (s : State) : Prop :=
  Ascending (s.diagnostics.map Diagnostic.place ++ places (s.current :: s.following))

lemma InOrder.sorted {s : State} (h : s.InOrder) :
    s.diagnostics.Pairwise (·.place ≤ ·.place) :=
  List.pairwise_map.1 (List.pairwise_append.1 h).1

lemma InOrderHere.inOrder {s : State} (h : s.InOrderHere) : s.InOrder :=
  List.Pairwise.sublist ((List.sublist_cons_self _ _).append_left _) h

/-- To advance is to report what is passed, and nothing behind the new current token. -/
lemma InOrder.advance {s s' : State} (h : s.InOrder) (hrun : MonkeyFront.advance s = .ok () s') :
    s'.InOrderHere := by
  unfold MonkeyFront.advance at hrun
  cases ht : (pull s.last s.upcoming).token with
  | error e => simp [ht] at hrun
  | ok t =>
    simp only [ht, EStateM.Result.ok.injEq, true_and] at hrun
    subst hrun
    have := ascending_pull (s.diagnostics.map Diagnostic.place ++ places s.skipped ++
      [s.peek.place]) ht (by simpa [InOrder, following, places] using h)
    simpa [InOrderHere, following, places, Function.comp_def] using this

/-- Moves keep the order; the current token comes to stand in it with the first of them that
advances. -/
lemma Moves.inOrder {s s' : State} (h : s.Moves s') (hs : s.InOrder) :
    s'.InOrderHere ∨ ∃ n, s' = { s with depth := n } := by
  induction h with
  | refl => exact .inr ⟨s.depth, rfl⟩
  | advance _ hrun ih =>
    rcases ih with h | ⟨n, rfl⟩
    · exact .inl (h.inOrder.advance hrun)
    · exact .inl (InOrder.advance (s := { s with depth := n }) hs hrun)
  | count n _ ih =>
    rcases ih with h | ⟨m, rfl⟩
    · exact .inl h
    · exact .inr ⟨n, rfl⟩

lemma Moves.inOrderHere {s s' : State} (h : s.Moves s') (hs : s.InOrderHere) : s'.InOrderHere := by
  rcases h.inOrder hs.inOrder with h | ⟨n, rfl⟩
  · exact h
  · exact hs

/-- A complaint about the current token or the one behind it comes in order, between the illegal
characters in front of this token and those behind it. -/
lemma InOrderHere.report {s : State} (h : s.InOrderHere) (complaint : Complaint) {t : Token}
    (ht : t = s.current ∨ t = s.peek) : (s.report complaint t).InOrder := by
  have hbefore : ∀ x ∈ s.diagnostics.map Diagnostic.place, x ≤ t.place := by
    intro x hx
    refine (List.pairwise_append.1 h).2.2 x hx _ (List.mem_map_of_mem ?_)
    rcases ht with rfl | rfl
    · exact List.mem_cons_self
    · exact List.mem_cons_of_mem _ (List.mem_append_right _ List.mem_cons_self)
  have hbehind : ∀ x ∈ places (s.peek :: (tokensAmong s.upcoming ++ [s.last])), t.place ≤ x := by
    have hfrom := (List.pairwise_append.1 h).2.1
    simp only [following, places, List.map_cons, List.map_append, List.pairwise_cons] at hfrom
    rcases ht with rfl | rfl
    · intro x hx
      exact hfrom.1 x (List.mem_append_right _ (by simpa [places] using hx))
    · intro x hx
      rcases List.mem_cons.1 (show x ∈ s.peek.place :: _ from hx) with rfl | hx
      · exact le_rfl
      · exact (List.pairwise_cons.1 (List.pairwise_append.1 hfrom.2).2.1).1 x
          (by simpa using hx)
  have hinsert := ascending_insert (places s.skipped)
    (by simpa [InOrder, following, places] using h.inOrder) hbefore hbehind
  simp only [InOrder, following, places, State.report, List.map_append, List.map_cons, List.map_nil,
    List.map_map, List.filter_map, Function.comp_def, Diagnostic.place_ofIllegal] at hinsert ⊢
  exact hinsert

lemma InOrderHere.of_start {rules : Rules} {recover : Bool} {source : String} {s : State}
    (h : start rules recover (.ofText source) = .ok s) : s.InOrderHere := by
  obtain ⟨t, u, ht, hu, rfl⟩ := start_eq_ok.1 h
  have hscan : Ascending
      (places (tokensAmong (Scan.ofText source).items ++ [(Scan.ofText source).last])) :=
    List.pairwise_map.2 ((Scan.pairwise_place source).imp le_of_lt)
  have hfirst := ascending_pull [] ht hscan
  have hsecond := ascending_pull (places ((pull (Scan.ofText source).last
    (Scan.ofText source).items).illegal ++ [t])) hu (by simpa [places] using hfirst)
  simpa [InOrderHere, following, places, Function.comp_def] using hsecond

/-- A complaint that rejects a statement comes in order, unless the statement nests too deeply. -/
lemma Rejects.inOrder {s s' : State} {d : Diagnostic} (h : s.Rejects d s') (hs : s.InOrderHere)
    (hshallow : d.complaint ≠ .nestedTooDeeply) : s'.InOrder := by
  cases h with
  | current complaint _ h => exact (h.moves.inOrderHere hs).report complaint (.inl rfl)
  | peek complaint _ h => exact (h.moves.inOrderHere hs).report complaint (.inr rfl)
  | overrun => exact absurd rfl hshallow

/-- What is recorded when the stack runs out is in order up to the complaint about it. -/
lemma Overruns.exists_sorted {s s' : State} (h : s.Overruns s') (hs : s.InOrderHere)
    (complaint : Complaint) : ∃ ds, (s'.report complaint s'.current).diagnostics =
      ds ++ [⟨complaint, s'.current.span⟩] ∧ ds.Pairwise (·.place ≤ ·.place) := by
  have hsorted : Ascending (s.diagnostics.map Diagnostic.place ++ places s.skipped ++
      places (s.peek :: (tokensAmong s.upcoming ++ [s.last]))) := by
    have := hs.inOrder
    rwa [InOrder, following, places, List.map_append, ← List.append_assoc] at this
  have hbehind {t : Token} (ht : t ∈ s'.skipped) : s.peek.place ≤ t.place := by
    have htokens := List.pairwise_cons.1 (List.pairwise_append.1 hsorted).2.1
    refine htokens.1 _ (List.mem_map_of_mem (List.mem_append_left _ ?_))
    exact mem_tokensAmong.2 (h.of_mem_skipped ht).1
  have hnone : s'.skipped.filter (·.place < s'.current.place) = [] :=
    List.filter_eq_nil_iff.2 fun t ht => by simpa [h.current_eq] using hbehind ht
  refine ⟨s'.diagnostics, ?_, ?_⟩
  · unfold Token.place at hnone
    simp only [State.report, hnone, List.map_nil, List.append_nil]
  · rw [h.diagnostics_eq]
    refine List.pairwise_map.1 ?_
    rw [List.map_append, List.map_map]
    exact (List.pairwise_append.1 hsorted).1

/-- What is recorded in front of the complaint by which a statement is rejected is in order. -/
lemma Rejects.exists_sorted {s s' : State} {d : Diagnostic} (h : s.Rejects d s')
    (hs : s.InOrderHere) :
    ∃ ds, s'.diagnostics = ds ++ [d] ∧ ds.Pairwise (·.place ≤ ·.place) := by
  have front {s₁ : State} {complaint : Complaint} {t : Token}
      (horder : (s₁.report complaint t).InOrder) : ∃ ds, (s₁.report complaint t).diagnostics =
        ds ++ [⟨complaint, t.span⟩] ∧ ds.Pairwise (·.place ≤ ·.place) :=
    ⟨_, rfl, (List.pairwise_append.1 horder.sorted).1⟩
  cases h with
  | current complaint _ h => exact front ((h.moves.inOrderHere hs).report complaint (.inl rfl))
  | peek complaint _ h => exact front ((h.moves.inOrderHere hs).report complaint (.inr rfl))
  | overrun h ho => exact ho.exists_sorted (h.moves.inOrderHere hs) _

end State

namespace Engine

variable {engine : Engine} {s s' : State}

/-- An iteration keeps the order, or the complaint that a statement nests too deeply is recorded
behind diagnostics in order. The token at which an iteration ends may stand in front of a complaint
only if it is the end of input, since a parser that abandons a statement advances otherwise. -/
lemma HasIterated.inOrder_or_nested {r : Option (Stmt Token)} (h : engine.HasIterated s r s')
    (hs : s.InOrderHere) : (s'.InOrder ∧ (s'.current.kind ≠ .eof → s'.InOrderHere)) ∨
      ∃ ds d, ds ++ [d] <+: s'.diagnostics ∧ d.complaint = .nestedTooDeeply ∧
        ds.Pairwise (·.place ≤ ·.place) := by
  cases h with
  | read _ _ h =>
    have := h.moves.inOrderHere hs
    exact .inl ⟨this.inOrder, fun _ => this⟩
  | @abandoned d s₁ _ _ _ h follows _ ahead =>
    by_cases hd : d.complaint = .nestedTooDeeply
    · obtain ⟨ds, hds, hsorted⟩ := h.exists_sorted hs
      obtain ⟨es, hes, -⟩ := follows.illegal
      exact .inr ⟨ds, d, ⟨es, by rw [hes, hds]⟩, hd, hsorted⟩
    · left
      have horder := h.inOrder hs hd
      rcases follows.moves.inOrder horder with h' | ⟨n, rfl⟩
      · exact ⟨h'.inOrder, fun _ => h'⟩
      · refine ⟨horder, fun hc => ?_⟩
        have hnil : s₁.ahead = [] := by
          refine eq_nil_of_suffix_tail ?_
          have hsuffix := s₁.resumption_suffix
          rwa [← ahead] at hsuffix
        rw [State.ahead_cons (s := s₁) hc] at hnil
        cases hnil

/-- Iterations record diagnostics in order, up to the first complaint that a statement nests too
deeply. -/
lemma Iterations.sorted (hE : engine.Reads) {rs : List (Option (Stmt Token))}
    (h : engine.Iterations s rs s') (hs : s.Steady) (hd : s.depth = 0) (horder : s.InOrder)
    (hhere : s.current.kind ≠ .eof → s.InOrderHere) {ds : List Diagnostic}
    (hds : ds <+: s'.diagnostics) (hshallow : ∀ d ∈ ds, d.complaint ≠ .nestedTooDeeply) :
    ds.Pairwise (·.place ≤ ·.place) := by
  induction h with
  | nil => exact horder.sorted.sublist hds.sublist
  | cons hc ht hrs ih =>
    have h := (ends_iteration hE hs hd).of_ok ht
    rcases h.inOrder_or_nested (hhere hc) with ⟨horder₁, hhere₁⟩ | ⟨es, e, hes, he, hsorted⟩
    · exact ih h.steady (h.depth hd) horder₁ hhere₁ hds
    · -- the complaint is recorded behind the diagnostics in front of it
      have hlater := hes.trans (hrs.prefix_diagnostics hE h.steady (h.depth hd))
      rcases List.prefix_or_prefix_of_prefix hds hlater with hle | hle
      · rcases List.prefix_concat_iff.1 hle with rfl | hle
        · exact absurd he (hshallow e (by simp))
        · exact hsorted.sublist hle.sublist
      · exact absurd he (hshallow e (hle.subset (by simp)))

lemma Iterations.inOrder (hE : engine.Reads) {rs : List (Option (Stmt Token))}
    (h : engine.Iterations s rs s') (hs : s.Steady) (hd : s.depth = 0) (horder : s.InOrder)
    (hhere : s.current.kind ≠ .eof → s.InOrderHere)
    (hshallow : ∀ d ∈ s'.diagnostics, d.complaint ≠ .nestedTooDeeply) :
    s'.InOrder ∧ (s'.current.kind ≠ .eof → s'.InOrderHere) := by
  induction h with
  | nil => exact ⟨horder, hhere⟩
  | cons hc ht hrs ih =>
    have h := (ends_iteration hE hs hd).of_ok ht
    have hlater := hrs.prefix_diagnostics hE h.steady (h.depth hd)
    obtain ⟨horder₁, hhere₁⟩ := (h.inOrder_or_nested (hhere hc)).resolve_right
      fun ⟨es, e, hes, he, _⟩ => hshallow e ((hes.trans hlater).subset (by simp)) he
    exact ih h.steady (h.depth hd) horder₁ hhere₁ hshallow

end Engine

/-- The diagnostics of a text that has tokens, about illegal characters or not, are in the order of
the places that they are about, up to the first complaint that expressions nest too deeply. -/
theorem diagnostics_in_order (bound : Bound) (recover : Bool) {source : String}
    {tokens : List Token}
    (h : tokenize source = .ok tokens) : ∃ outcome,
      parseWithin bound recover source = .ok outcome ∧
      ∀ ds, ds <+: outcome.diagnostics → (∀ d ∈ ds, d.complaint ≠ .nestedTooDeeply) →
        ds.Pairwise fun d e => d.span.start.offset ≤ e.span.start.offset := by
  obtain ⟨s, rs, s', hstart, hrs, -, hparse⟩ := exists_iterations bound h
  have hs := (State.starts hstart).1
  have horder := State.InOrderHere.of_start hstart
  have hsorted {ds : List Diagnostic} (hds : ds <+: s'.diagnostics)
      (hshallow : ∀ d ∈ ds, d.complaint ≠ .nestedTooDeeply) : ds.Pairwise (·.place ≤ ·.place) :=
    hrs.sorted (Engine.reads_ofBound bound) hs.steady hs.depth horder.inOrder (fun _ => horder)
      hds hshallow
  obtain ⟨strict, recovering, hstrict, hrecovering, hcut⟩ := exists_outcomes bound h
  obtain rfl := Except.ok.inj (hparse.symm.trans hrecovering)
  cases recover with
  | true => exact ⟨_, hrecovering, fun ds => hsorted⟩
  | false => exact ⟨strict, hstrict, fun ds hds => hsorted (hds.trans hcut.le)⟩

/-- Illegal characters in front of complaints, between them and behind them. -/
theorem diagnostics_in_order_around_illegal : ∃ tokens outcome,
    tokenize "@ let $ 1 # ) ~ 2 ?" = .ok tokens ∧
      parseWithin 10 true "@ let $ 1 # ) ~ 2 ?" = .ok outcome ∧
      (∀ d ∈ outcome.diagnostics, d.complaint ≠ .nestedTooDeeply) ∧
      outcome.diagnostics.Pairwise fun d e => d.span.start.offset ≤ e.span.start.offset := by
  have hcomplaints : (parseWithin 10 true "@ let $ 1 # ) ~ 2 ?").map
      (·.diagnostics.all (·.complaint != .nestedTooDeeply)) = .ok true := by
    decide +kernel
  cases htokens : tokenize "@ let $ 1 # ) ~ 2 ?" with
  | error e => cases (show tokenize "@ let $ 1 # ) ~ 2 ?" = .ok _ from rfl).symm.trans htokens
  | ok tokens =>
    obtain ⟨outcome, hparse, hsorted⟩ := diagnostics_in_order 10 true htokens
    rw [hparse] at hcomplaints
    have hshallow : ∀ d ∈ outcome.diagnostics, d.complaint ≠ .nestedTooDeeply := by
      simpa using Except.ok.inj hcomplaints
    exact ⟨tokens, outcome, rfl, hparse, hshallow, hsorted _ List.prefix_rfl hshallow⟩

end MonkeyFront
