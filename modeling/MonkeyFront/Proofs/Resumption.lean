import MonkeyFront.Proofs.Iterations

namespace MonkeyFront

/-- Going on one block too early makes a difference, except at the end of input. -/
lemma dropSemicolon_behindClosing_eq_iff (ts : List Token) :
    dropSemicolon ts = dropSemicolon (behindClosing 1 ts) ↔ dropSemicolon ts = [] := by
  have hsuffix (us : List Token) : dropSemicolon (behindClosing 1 us) <:+ us.tail :=
    (dropSemicolon_suffix _).trans (behindClosing_suffix 1 us)
  cases ts with
  | nil => exact Iff.rfl
  | cons t ts =>
    by_cases ht : t.kind = .semicolon
    · rw [behindClosing_cons (by rw [ht]; rfl), dropSemicolon, if_pos ht]
      refine ⟨fun h => eq_nil_of_suffix_tail ?_, fun h => by rw [h]; rfl⟩
      have := hsuffix ts
      rwa [← h] at this
    · rw [dropSemicolon_of_ne (by rwa [headKind_cons])]
      refine iff_of_false (fun h => ?_) (List.cons_ne_nil t ts)
      have := hsuffix (t :: ts)
      rw [← h] at this
      cases eq_nil_of_suffix_tail this

/-- How a statement at `s` is rejected in blocks: the outermost of these is opened by a brace behind
which the parser has passed the tokens `inside`, and the complaint is about the first of the tokens
`rest`. The parser stands on this token or on the one in front of it. -/
structure State.RejectsInBlocks (s s₁ : State) (d : Diagnostic) (inside rest : List Token) :
    Prop where
  split : ∃ before brace, s.ahead = before ++ brace :: inside ++ rest ∧ Balanced before ∧
    brace.kind = .lbrace
  opens : ∃ k, Opens inside k ∧ s₁.depth = k + 1
  span : d.span = (rest.headD s.last).span
  stands : s₁.ahead = rest ∨ s₁.ahead = s₁.current :: rest ∧ s₁.current.kind ≠ .lbrace

/-- The parser stands on a closing brace in front of the tokens `rest`. -/
def State.StandsOnClosing (s : State) (rest : List Token) : Prop :=
  s.ahead = s.current :: rest ∧ s.current.kind = .rbrace

namespace State

variable {s s₁ : State} {d : Diagnostic}

/-- A statement that is rejected where blocks have been counted is rejected in blocks. -/
theorem Rejects.inBlocks (h : s.Rejects d s₁) (hshallow : d.complaint ≠ .nestedTooDeeply)
    (hd : s.depth = 0) (hopen : s₁.depth ≠ 0) :
    ∃ inside rest, s.RejectsInBlocks s₁ d inside rest := by
  obtain ⟨passed, rest, k, hahead, hk, hdepth, hspan, hstands⟩ := h.split hshallow
  rw [hd, Int.zero_add] at hdepth
  obtain ⟨k, rfl⟩ := Nat.exists_eq_succ_of_ne_zero (n := k) (by rintro rfl; exact hopen hdepth)
  obtain ⟨before, brace, inside, rfl, hbefore, hbrace, hinside⟩ := exists_outermost hk
  refine ⟨inside, rest, ⟨before, brace, hahead, hbefore, hbrace⟩, ⟨k, hinside, hdepth⟩, hspan, ?_⟩
  rcases hstands with ha | ⟨hb, hbegun, -⟩
  · exact .inl ha
  · by_cases hc : s₁.current.kind = .eof
    · exact .inl ((ahead_eq_nil hc).trans ((behind_eq_nil hc).symm.trans hb))
    · exact .inr ⟨hb ▸ ahead_cons hc, hbegun⟩

/-- A parser that abandons a statement in blocks goes on behind the brace that closes the outermost
of them, unless it stands on a closing brace that it has passed before the complaint. -/
theorem RejectsInBlocks.resumption_eq_iff {inside rest : List Token}
    (h : s.RejectsInBlocks s₁ d inside rest) :
    s₁.resumption = dropSemicolon (behindClosing 1 (inside ++ rest)) ↔
      ¬s₁.StandsOnClosing rest ∨ s₁.resumption = [] := by
  obtain ⟨k, hinside, hdepth⟩ := h.opens
  have hresumption : s₁.resumption = dropSemicolon (behindClosing (k + 1) s₁.ahead) := by
    rw [resumption, hdepth, if_neg (by omega)]
    rfl
  rw [hresumption, behindClosing_append hinside]
  rcases h.stands with ha | ⟨ha, hl⟩
  · refine iff_of_true (by rw [ha]) (.inl fun hs => ?_)
    exact List.cons_ne_self _ _ (hs.1.symm.trans ha)
  -- The current token has been passed, and it is counted once more.
  by_cases hr : s₁.current.kind = .rbrace
  · rw [or_iff_right (not_not_intro ⟨ha, hr⟩), ha, behindClosing_rbrace hr k rest]
    exact dropSemicolon_behindClosing_eq_iff _
  · have hbrace : s₁.current.kind.isBrace = false := by
      cases hk : s₁.current.kind <;> simp_all [Kind.isBrace]
    exact iff_of_true (by rw [ha, behindClosing_cons hbrace]) (.inl fun hs => hr hs.2)

end State

/-- Where a statement of a program is abandoned in blocks, other than for its nesting, reading goes
on behind the brace that closes the outermost of them and a semicolon, if and only if the parser
does not stand on a closing brace that it has passed before the complaint, or nothing is left to
read. No statement that is read later has a token in front of where reading goes on. -/
theorem resumes_iff_of_rejected_in_blocks (bound : Bound) {source : String} {s₀ s s₁ : State}
    {rs : List (Option (Stmt Token))} {d : Diagnostic}
    (hstart : State.start .standard true (.ofText source) = .ok s₀)
    (hrs : (Engine.ofBound bound).Iterations s₀ rs s)
    (hrun : (Engine.ofBound bound).outerStatement s = .error (.rejected d) s₁)
    (hshallow : d.complaint ≠ .nestedTooDeeply) (hopen : s₁.depth ≠ 0) :
    s.ahead.Sublist (tokensIn (Scan.ofText source).items) ∧
    ∃ inside rest after, s.RejectsInBlocks s₁ d inside rest ∧
      IsBehindBlock (inside ++ rest) after ∧
      Ends (Engine.ofBound bound).iteration s
        (fun r s₂ => r = none ∧
          (s₂.ahead = dropSemicolon after ↔ ¬s₁.StandsOnClosing rest ∨ s₂.ahead = []) ∧
          ∀ rs' s₃, (Engine.ofBound bound).Iterations s₂ rs' s₃ → s₃.ahead.Sublist s₂.ahead)
        (fun f _ => s.BreaksOff f) := by
  have hE := Engine.reads_ofBound bound
  obtain ⟨hstarts, hrecover⟩ := State.starts hstart
  obtain ⟨hs, hd, hr, -, hahead, -⟩ := hrs.keep hE hstarts.steady hstarts.depth
  refine ⟨hstarts.ahead ▸ hahead, ?_⟩
  have hrejects : s.Rejects d s₁ := by
    rcases (Engine.ends_outerStatement hE hs).of_error hrun with ⟨d', hd', h⟩ | ⟨e, he, -⟩
    · cases hd'
      exact h
    · cases he
  obtain ⟨inside, rest, h⟩ := hrejects.inBlocks hshallow hd hopen
  refine ⟨inside, rest, _, h, isBehindBlock_iff.2 rfl, (Engine.ends_iteration hE hs hd).mono ?_ ?_⟩
  · intro r s₂ hiterated
    have hlater : ∀ rs' s₃, (Engine.ofBound bound).Iterations s₂ rs' s₃ →
        s₃.ahead.Sublist s₂.ahead :=
      fun rs' s₃ h' => (h'.keep hE hiterated.steady (hiterated.depth hd)).2.2.2.2.1
    cases hiterated with
    | read run => cases run.symm.trans hrun
    | abandoned run _ _ _ _ ha =>
      cases run.symm.trans hrun
      rw [ha]
      exact ⟨rfl, h.resumption_eq_iff, ha ▸ hlater⟩
  · rintro f s' (⟨hstrict, -⟩ | hf)
    · rw [hr, hrecover] at hstrict
      cases hstrict
    · exact hf

lemma rejected_behind_closed_block :
    (match State.start .standard true (.ofText "fn() \x7b (fn() \x7b 1 \x7d 2 \x7d 3") with
    | .error _ => false
    | .ok s => match (Engine.ofBound 10).outerStatement s, (Engine.ofBound 10).iteration s with
      | .error (.rejected d) s₁, .ok none s₂ => s₁.depth != 0 && s₁.current.kind == .rbrace &&
        d.span != s₁.current.span && d.complaint != .nestedTooDeeply && !s₂.ahead.isEmpty
      | _, _ => false) = true := by
  decide +kernel

/-- Behind an inner block that is closed before the complaint, a statement is abandoned up to the
end of that block only. -/
theorem resumes_in_block_of_closed_block : ∃ s₀ s₁ s₂ d inside rest after,
    State.start .standard true (.ofText "fn() { (fn() { 1 } 2 } 3") = .ok s₀ ∧
      (Engine.ofBound 10).outerStatement s₀ = .error (.rejected d) s₁ ∧
      d.complaint ≠ .nestedTooDeeply ∧ s₁.depth ≠ 0 ∧
      s₀.RejectsInBlocks s₁ d inside rest ∧ IsBehindBlock (inside ++ rest) after ∧
      (Engine.ofBound 10).iteration s₀ = .ok none s₂ ∧ s₂.ahead ≠ dropSemicolon after := by
  have hrun := rejected_behind_closed_block
  cases hstart : State.start .standard true (.ofText "fn() { (fn() { 1 } 2 } 3") with
  | error e => simp only [hstart, Bool.false_eq_true] at hrun
  | ok s₀ =>
    simp only [hstart] at hrun
    split at hrun
    · next d s₁ s₂ houter hiter =>
      simp only [Bool.and_eq_true, bne_iff_ne, ne_eq, beq_iff_eq, Bool.not_eq_true',
        List.isEmpty_eq_false_iff] at hrun
      obtain ⟨⟨⟨⟨hopen, hr⟩, hspan⟩, hshallow⟩, hahead⟩ := hrun
      obtain ⟨-, inside, rest, after, h, hafter, hends⟩ :=
        resumes_iff_of_rejected_in_blocks 10 hstart (.nil s₀) houter hshallow hopen
      refine ⟨s₀, s₁, s₂, d, inside, rest, after, rfl, houter, hshallow, hopen, h, hafter, hiter,
        fun he => ?_⟩
      have hc : s₁.current.kind ≠ .eof := by rw [hr]; decide
      rcases h.stands with ha | ⟨ha, -⟩
      · rw [h.span, ← ha, State.ahead_cons hc] at hspan
        exact hspan rfl
      · rcases (hends.of_ok hiter).2.1.1 he with hn | hn
        · exact hn ⟨ha, hr⟩
        · exact hahead hn
    · cases hrun

end MonkeyFront
