import MonkeyFront.Proofs.Reading

/-!
# Abandoned statements

How a statement outside blocks is rejected, and where a recovering parser goes on. The complaint is
recorded behind the illegal characters in front of it. `State.Rejects` says where the parser is
then: before the token that the complaint is about, or on the token in front of it.
-/

namespace MonkeyFront

/-! ### Rejection -/

namespace State

/-- A statement that begins at `s` is rejected by a complaint, and the parser is left in `s'`:
either before the token that the complaint is about, on the token in front of it, or where the stack
has run out. -/
inductive Rejects (s : State) : Diagnostic → State → Prop
  | current {xs s'} (complaint : Complaint) (structural : complaint.isStructural = true)
      (h : s.Stands xs s') :
      Rejects s ⟨complaint, s'.current.span⟩ (s'.report complaint s'.current)
  | peek {xs s'} (complaint : Complaint) (structural : complaint.isStructural = true)
      (h : s.Passes xs s') :
      Rejects s ⟨complaint, s'.peek.span⟩ (s'.report complaint s'.peek)
  | overrun {xs s₁ s'} (h : s.Passes xs s₁) (ho : s₁.Overruns s') :
      Rejects s ⟨.nestedTooDeeply, s'.current.span⟩ (s'.report .nestedTooDeeply s'.current)

lemma Steady.report {s : State} (h : s.Steady) (complaint : Complaint) (token : Token) :
    (s.report complaint token).Steady :=
  ⟨h.rules, h.upcoming, h.last, h.peek, h.current⟩

lemma isStructural_ofIllegal (ts : List Token) :
    ∀ d ∈ ts.map Diagnostic.ofIllegal, d.complaint.isStructural = false := by
  intro d hd
  obtain ⟨t, -, rfl⟩ := List.mem_map.1 hd
  rfl

lemma Follows.illegal {s s' : State} (h : s.Follows s') :
    ∃ ds, s'.diagnostics = s.diagnostics ++ ds ∧ ∀ d ∈ ds, d.complaint.isStructural = false := by
  obtain ⟨ts, -, hts⟩ := h.reported
  exact ⟨_, hts, isStructural_ofIllegal ts⟩

lemma report_diagnostics (s : State) (complaint : Complaint) (token : Token) :
    ∃ ds, (s.report complaint token).diagnostics =
      s.diagnostics ++ ds ++ [⟨complaint, token.span⟩] ∧
        ∀ d ∈ ds, d.complaint.isStructural = false :=
  ⟨_, rfl, isStructural_ofIllegal _⟩

namespace Rejects

variable {s s' : State} {d : Diagnostic} (h : s.Rejects d s')

include h

lemma steady : s'.Steady := by
  cases h with
  | current _ _ h => exact h.steady.report _ _
  | peek _ _ h => exact h.steady.report _ _
  | overrun h ho => exact (ho.steady h.steady).report _ _

lemma last : s'.last = s.last := by
  cases h with
  | current _ _ h => exact h.last
  | peek _ _ h => exact h.last
  | overrun h ho => exact ho.last_eq.trans h.last

lemma recover : s'.recover = s.recover := by
  cases h with
  | current _ _ h => exact h.recover
  | peek _ _ h => exact h.recover
  | overrun h ho => exact ho.recover_eq.trans h.recover

lemma upcoming : s'.upcoming <:+ s.upcoming := by
  cases h with
  | current _ _ h => exact h.upcoming
  | peek _ _ h => exact h.upcoming
  | overrun h ho => exact ho.upcoming_suffix.trans h.upcoming

lemma depth_eq : ∃ k : Nat, s'.depth = s.depth + k := by
  cases h with
  | current _ _ h =>
    obtain ⟨k, -, hd⟩ := h.opens
    exact ⟨k, hd⟩
  | peek _ _ h =>
    obtain ⟨k, -, hd⟩ := h.opens
    exact ⟨k, hd⟩
  | overrun h ho =>
    obtain ⟨k, -, hd⟩ := h.opens
    exact ⟨k, ho.depth_eq.trans hd⟩

/-- The complaint is the first that is not about an illegal character, and the last. -/
lemma reported : d.complaint.isStructural = true ∧
    ∃ ds, s'.diagnostics = s.diagnostics ++ ds ++ [d] ∧
      ∀ x ∈ ds, x.complaint.isStructural = false := by
  have later {s₁ : State} {ds : List Diagnostic} (hds : s₁.diagnostics = s.diagnostics ++ ds)
      (hs : ∀ x ∈ ds, x.complaint.isStructural = false) (complaint : Complaint) (token : Token) :
      ∃ ds, (s₁.report complaint token).diagnostics =
        s.diagnostics ++ ds ++ [⟨complaint, token.span⟩] ∧
          ∀ x ∈ ds, x.complaint.isStructural = false := by
    obtain ⟨es, hes, ht⟩ := s₁.report_diagnostics complaint token
    refine ⟨ds ++ es, by rw [hes, hds, List.append_assoc s.diagnostics], fun x hx => ?_⟩
    exact (List.mem_append.1 hx).elim (hs x) (ht x)
  cases h with
  | current _ hc h =>
    obtain ⟨ds, hds, hs⟩ := h.toFollows.illegal
    exact ⟨hc, later hds hs _ _⟩
  | peek _ hc h =>
    obtain ⟨ds, hds, hs⟩ := h.toFollows.illegal
    exact ⟨hc, later hds hs _ _⟩
  | @overrun xs s₁ s₂ h ho =>
    obtain ⟨ds, hds, hs⟩ := h.toFollows.illegal
    have hds₂ : s₂.diagnostics = s.diagnostics ++ (ds ++ s₁.skipped.map .ofIllegal) := by
      rw [ho.diagnostics_eq, hds, List.append_assoc]
    refine ⟨rfl, later hds₂ (fun x hx => ?_) _ _⟩
    exact (List.mem_append.1 hx).elim (hs x) (isStructural_ofIllegal _ x)

lemma mem_diagnostics {s'' : State} (hf : s'.Follows s'') : d ∈ s''.diagnostics := by
  obtain ⟨-, ds, hds, -⟩ := h.reported
  obtain ⟨es, hes, -⟩ := hf.illegal
  rw [hes, hds]
  exact List.mem_append_left _ (List.mem_append_right _ List.mem_cons_self)

lemma exists_token : ∃ t ∈ s.ahead ++ [s.last], d.span = t.span := by
  have ahead {xs ys : List Token} (h : s.ahead = xs ++ ys) :
      ys.headD s.last ∈ s.ahead ++ [s.last] := by
    rw [h]
    cases ys <;> simp
  cases h with
  | current _ _ h =>
    refine ⟨_, ahead h.ahead, ?_⟩
    rw [← h.last, ← h.steady.current_eq]
  | peek _ _ h =>
    refine ⟨_, ahead h.ahead, ?_⟩
    rw [← h.last, ← h.steady.peek_eq]
  | overrun h ho =>
    refine ⟨_, ahead h.ahead, ?_⟩
    rw [ho.current_eq, ← h.last, ← h.steady.peek_eq]

/-- The tokens are split by where the statement is rejected, unless it nests too deeply; the blocks
that those in front leave open have been counted. The parser stands before the rest or on the token
in front of it. -/
lemma split (hshallow : d.complaint ≠ .nestedTooDeeply) :
    ∃ passed rest k, s.ahead = passed ++ rest ∧ Opens passed k ∧
    s'.depth = s.depth + k ∧ d.span = (rest.headD s.last).span ∧
    (s'.ahead = rest ∨
      s'.behind = rest ∧ s'.current.kind ≠ .lbrace ∧ ∃ init, passed = init ++ [s'.current]) := by
  cases h with
  | @current xs s₁ complaint _ h =>
    obtain ⟨k, hk, hd⟩ := h.opens
    refine ⟨xs, s₁.ahead, k, h.ahead, hk, hd, ?_, .inl rfl⟩
    rw [← h.last, ← h.steady.current_eq]
  | @peek xs s₁ complaint _ h =>
    obtain ⟨k, hk, hd⟩ := h.opens
    refine ⟨xs, s₁.behind, k, h.ahead, hk, hd, ?_, .inr ⟨rfl, h.begun, h.stops⟩⟩
    rw [← h.last, ← h.steady.peek_eq]
  | overrun => exact absurd rfl hshallow

end Rejects

end State

/-- A statement outside blocks is read or rejected, unless the scan fails further on. -/
theorem Engine.ends_outerStatement {engine : Engine} (hE : engine.Reads) {s : State}
    (h : s.Steady) :
    Ends engine.outerStatement s (s.HasReadStmt []) (fun f s' =>
      (∃ d, f = .rejected d ∧ s.Rejects d s') ∨ ∃ e, f = .scan e ∧ .error e ∈ s.upcoming) := by
  unfold Engine.outerStatement
  rw [ends_tryCatch]
  refine (Engine.ends_statement hE .trivial (.refl h)).mono (fun _ _ h => h) fun f s' hf => ?_
  cases hf with
  | current complaint structural _ _ h => exact .inl ⟨_, rfl, .current complaint structural h⟩
  | peek complaint structural _ _ h => exact .inl ⟨_, rfl, .peek complaint structural h⟩
  | tooDeep h =>
    simp only [ends_bind, ends_get, ends_reject]
    exact .inl ⟨_, rfl, .current .nestedTooDeeply rfl h⟩
  | overrun h ho =>
    simp only [ends_bind, ends_get, ends_reject]
    exact .inl ⟨_, rfl, .overrun h ho⟩
  | scan he => exact .inr ⟨_, rfl, he⟩

/-! ### Going on -/

/-- What stands behind the first semicolon or closing brace. -/
def behindDelimiter : List Token → List Token
  | [] => []
  | t :: ts => if t.kind = .semicolon ∨ t.kind = .rbrace then ts else behindDelimiter ts

/-- The tokens without a semicolon in front of them. -/
def dropSemicolon : List Token → List Token
  | [] => []
  | t :: ts => if t.kind = .semicolon then ts else t :: ts

lemma behindDelimiter_suffix (ts : List Token) : behindDelimiter ts <:+ ts.tail := by
  induction ts with
  | nil => exact List.suffix_rfl
  | cons t ts ih =>
    simp only [behindDelimiter, List.tail_cons]
    split
    · exact List.suffix_rfl
    · exact ih.trans (List.tail_suffix ts)

lemma dropSemicolon_of_ne {ts : List Token} (h : headKind ts ≠ .semicolon) :
    dropSemicolon ts = ts := by
  cases ts with
  | nil => rfl
  | cons t ts => exact if_neg h

lemma dropSemicolon_suffix (ts : List Token) : dropSemicolon ts <:+ ts := by
  cases ts with
  | nil => exact List.suffix_rfl
  | cons t ts =>
    simp only [dropSemicolon]
    split
    · exact List.suffix_cons t ts
    · exact List.suffix_rfl

namespace State

/-- The tokens from which on a parser reads that abandons a statement. -/
def resumption (s : State) : List Token :=
  if s.depth = 0 then behindDelimiter s.ahead
  else dropSemicolon (behindClosing s.depth.toNat s.ahead)

lemma resumption_suffix (s : State) : s.resumption <:+ s.behind := by
  unfold resumption
  split
  · exact behindDelimiter_suffix s.ahead
  · exact (dropSemicolon_suffix _).trans (behindClosing_suffix _ s.ahead)

def BreaksOff (s : State) (f : Failure) : Prop := ∃ e, f = .scan e ∧ .error e ∈ s.upcoming

variable {s : State}

lemma ends_skipToDelimiter (h : s.Steady) (hd : s.depth = 0) :
    Ends (repeatWhile
      (fun s _ => s.current.kind != .semicolon && s.current.kind != .rbrace &&
        s.current.kind != .eof)
      (fun _ => advance) s.tokensLeft ()) s
      (fun _ s' => s.Follows s' ∧ s'.depth = 0 ∧ s'.behind = behindDelimiter s.ahead)
      (fun f _ => s.BreaksOff f) := by
  refine (ends_repeatWhile (fun s => s.ahead.length)
    (fun _ s' => s.Follows s' ∧ s'.depth = 0 ∧ behindDelimiter s'.ahead = behindDelimiter s.ahead)
    ?iteration _ () s ⟨.refl h, hd, rfl⟩ s.length_ahead_le).imp ?stop
  case iteration =>
    rintro - s' ⟨hf, hd', hb⟩ ht
    simp only [bne_iff_ne, ne_eq, Bool.and_eq_true] at ht
    have hs := ahead_cons ht.2
    refine ⟨by rw [hs]; exact Nat.succ_pos _, ?_⟩
    refine (ends_advance hf.steady).mono ?_ ?_
    · rintro - s'' ⟨hf', ha, -, hd''⟩
      refine ⟨⟨hf.trans hf', hd''.trans hd', ?_⟩, by rw [ha, hs]; exact Nat.lt_succ_self _⟩
      rw [← hb, hs, behindDelimiter, if_neg (not_or.2 ht.1), ha]
    · rintro f - ⟨e, rfl, he⟩
      exact ⟨e, rfl, hf.upcoming.subset he⟩
  case stop =>
    rintro - s' ⟨⟨hf, hd', hb⟩, ht⟩
    refine ⟨hf, hd', hb ▸ ?_⟩
    by_cases hc : s'.current.kind = .eof
    · rw [ahead_eq_nil hc, behind_eq_nil hc, behindDelimiter]
    · have hk : s'.current.kind = .semicolon ∨ s'.current.kind = .rbrace := by
        simpa [hc, ← not_and_or, not_and', or_iff_not_imp_left] using ht
      rw [ahead_cons hc, behindDelimiter, if_pos hk]

/-- Inside blocks a statement is skipped up to the brace that closes the outermost of them, which
the number of closing braces to come says. -/
lemma ends_skipBlocks {k : Nat} (h : s.Steady) (hd : s.depth = 0) (hk : 0 < k) :
    Ends (repeatWhile
      (fun s (nesting : Int) =>
        s.current.kind != .eof && !(s.current.kind = .rbrace && nesting = 1))
      (fun nesting => do
        let kind := (← get).current.kind
        advance
        return nesting + kind.nestingChange) s.tokensLeft k) s
      (fun _ s' => s.Follows s' ∧ s'.depth = 0 ∧ s'.behind = behindClosing k s.ahead ∧
        (s'.current.kind ≠ .eof → s'.current.kind = .rbrace))
      (fun f _ => s.BreaksOff f) := by
  refine (ends_repeatWhile (fun s => s.ahead.length)
    (fun (nesting : Int) s' => ∃ n : Nat, nesting = n ∧ 0 < n ∧ s.Follows s' ∧ s'.depth = 0 ∧
      behindClosing n s'.ahead = behindClosing k s.ahead)
    ?iteration _ (k : Int) s ⟨k, rfl, hk, .refl h, hd, rfl⟩ s.length_ahead_le).imp ?stop
  case iteration =>
    rintro - s' ⟨n, rfl, hn, hf, hd', hb⟩ ht
    simp only [bne_iff_ne, ne_eq, Bool.and_eq_true, Bool.not_eq_true', Bool.and_eq_false_iff,
      decide_eq_false_iff_not] at ht
    have hs := ahead_cons ht.1
    refine ⟨by rw [hs]; exact Nat.succ_pos _, ?_⟩
    simp only [ends_bind, ends_get, ends_pure]
    refine (ends_advance hf.steady).mono ?_ ?_
    · rintro - s'' ⟨hf', ha, -, hd''⟩
      refine ⟨?_, by rw [ha, hs]; exact Nat.lt_succ_self _⟩
      rw [hs, ← ha, behindClosing] at hb
      split_ifs at hb with hl hr h1
      · exact ⟨n + 1, by rw [hl]; rfl, Nat.succ_pos n, hf.trans hf', hd''.trans hd', hb⟩
      · exact absurd hr (ht.2.resolve_right (by omega))
      · refine ⟨n - 1, ?_, by omega, hf.trans hf', hd''.trans hd', hb⟩
        rw [hr, Kind.nestingChange]
        omega
      · refine ⟨n, ?_, hn, hf.trans hf', hd''.trans hd', hb⟩
        rw [Kind.nestingChange, Int.add_zero]
        · exact hl
        · exact hr
    · rintro f - ⟨e, rfl, he⟩
      exact ⟨e, rfl, hf.upcoming.subset he⟩
  case stop =>
    rintro - s' ⟨⟨n, rfl, hn, hf, hd', hb⟩, ht⟩
    refine ⟨hf, hd', hb ▸ ?_, fun hc => ?_⟩ <;>
      simp only [Bool.and_eq_false_iff, bne_eq_false_iff_eq, Bool.not_eq_false',
        Bool.and_eq_true, decide_eq_true_eq] at ht
    · by_cases hc : s'.current.kind = .eof
      · rw [ahead_eq_nil hc, behind_eq_nil hc, behindClosing]
      · obtain ⟨hr, h1⟩ := ht.resolve_left hc
        rw [ahead_cons hc, behindClosing, if_neg (by rw [hr]; decide), if_pos hr,
          if_pos (by omega)]
    · exact (ht.resolve_left hc).1

lemma ends_skipSemicolon (h : s.Steady) :
    Ends skipSemicolon s
      (fun _ s' => s.Follows s' ∧ s'.depth = s.depth ∧ s'.behind = dropSemicolon s.behind)
      (fun f _ => s.BreaksOff f) := by
  simp only [skipSemicolon, ends_bind, ends_get]
  refine ends_ite (fun hk => ?_) fun hk => ?_
  · refine (ends_advance h).imp ?_
    rintro _ s' ⟨hf, ha, _, hd⟩
    refine ⟨hf, hd, ?_⟩
    obtain ⟨t, rest, hb, ht⟩ := exists_cons_of_headKind (h.headKind_behind.trans hk) (by decide)
    rw [hb, dropSemicolon, if_pos ht, behind, ha, hb, List.tail_cons]
  · refine ⟨.refl h, rfl, ?_⟩
    rw [dropSemicolon_of_ne (by rwa [h.headKind_behind])]

/-- A parser that abandons a statement stands in front of the tokens from which on it reads, outside
all blocks. -/
theorem ends_synchronize (h : s.Steady) (hd : 0 ≤ s.depth) :
    Ends synchronize s (fun _ s' => s.Follows s' ∧ s'.depth = 0 ∧ s'.behind = s.resumption)
      (fun f _ => s.BreaksOff f) := by
  have h₁ := h.withDepth 0
  unfold synchronize resumption
  simp only [ends_bind, ends_get, ends_modify]
  refine ends_ite (fun h0 => ?_) fun h0 => ?_
  · rw [if_pos h0]
    refine (ends_skipToDelimiter h₁.steady rfl).mono ?_ fun _ _ hf => hf
    rintro _ s' ⟨hf, hd', hb⟩
    exact ⟨h₁.trans hf, hd', hb⟩
  · rw [if_neg h0]
    obtain ⟨k, hk⟩ := Int.eq_ofNat_of_zero_le hd
    have hpos : 0 < k := by omega
    simp only [hk, Int.toNat_natCast, ends_bind, ends_get]
    refine (ends_skipBlocks h₁.steady rfl hpos).mono ?_ fun _ _ hf => hf
    rintro - s' ⟨hf, hd', hb, hc⟩
    refine ends_ite (fun hr => ?_) fun hr => ?_
    · refine (ends_skipSemicolon hf.steady).mono ?_ ?_
      · rintro - s'' ⟨hf', hd'', hb'⟩
        exact ⟨h₁.trans (hf.trans hf'), hd''.trans hd', by rw [hb', hb]; rfl⟩
      · rintro f - ⟨e, rfl, he⟩
        exact ⟨e, rfl, hf.upcoming.subset he⟩
    · have he : s'.current.kind = .eof := by_contra fun he => hr (hc he)
      refine ⟨h₁.trans hf, hd', ?_⟩
      have hn : behindClosing k s.ahead = [] := hb.symm.trans (behind_eq_nil he)
      rw [behind_eq_nil he, hn, dropSemicolon]

end State

end MonkeyFront
