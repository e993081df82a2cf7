import MonkeyFront.Proofs.Iterations

namespace MonkeyFront

namespace State

variable {s s' : State} {d : Diagnostic} {viable : List Token → Prop}

/-- What an operation leaves that is rejected when it has opened `opened` blocks and then passed
some of the tokens `ts`: the blocks that these leave open have been counted as well, and the
complaint is about the token behind them. The parser stands before that token or on the one in front
of it. -/
def LeavesOpen (s : State) (opened : Nat) (ts : List Token) (d : Diagnostic) (s' : State) : Prop :=
  ∃ passed rest k, ts = passed ++ rest ∧ Opens passed k ∧ s'.depth = s.depth + opened + k ∧
    d.span = (rest.headD s.last).span ∧
    (s'.ahead = rest ∨ s'.behind = rest ∧ ∃ init, passed = init ++ [s'.current])

lemma Rejects.leavesOpen (h : s.Rejects d s') (hshallow : d.complaint ≠ .nestedTooDeeply) :
    s.LeavesOpen 0 s.ahead d s' := by
  obtain ⟨passed, rest, k, hahead, hk, hdepth, hspan, hplace⟩ := h.split hshallow
  refine ⟨passed, rest, k, hahead, hk, by omega, hspan, ?_⟩
  exact hplace.imp_right fun h => ⟨h.1, h.2.2⟩

lemma Fails.leavesOpen (h : s.Fails viable (.rejected d) s') : s.LeavesOpen 0 s.ahead d s' := by
  cases h with
  | current complaint structural shallow _ h =>
    exact (Rejects.current complaint structural h).leavesOpen shallow
  | peek complaint structural shallow _ h =>
    exact (Rejects.peek complaint structural h).leavesOpen shallow

/-- A block that has been opened counts, also where the operation fails behind it. -/
lemma LeavesOpen.opened {s₁ : State} {opened : Nat} {ts : List Token}
    (h : s₁.LeavesOpen 0 ts d s') (hdepth : s₁.depth = s.depth + opened)
    (hlast : s₁.last = s.last) : s.LeavesOpen opened ts d s' := by
  obtain ⟨passed, rest, k, hts, hk, hcount, hspan, hplace⟩ := h
  exact ⟨passed, rest, k, hts, hk, by omega, hlast ▸ hspan, hplace⟩

lemma HasRead.depth {x : Phrase} (h : s.HasRead [] x s') : s'.depth = s.depth := by
  obtain ⟨ys, hpasses, hys⟩ := h
  obtain ⟨k, hk, hdepth⟩ := hpasses.opens
  obtain rfl : k = 0 := hk.unique hys.balanced
  simpa using hdepth

lemma HasReadStmt.depth {a : Stmt Token} (h : s.HasReadStmt [] a s') : s'.depth = s.depth := by
  obtain ⟨ys, close, hpasses, hys, hclose⟩ := h
  obtain ⟨k, hk, hdepth⟩ := hpasses.opens
  have hbalanced : Balanced close := by
    rcases hclose with ⟨rfl, -⟩ | ⟨t, rfl, ht⟩
    · exact Opens.nil
    · exact .singleton (by rw [ht]; rfl)
  obtain rfl : k = 0 := hk.unique (hys.balanced.append hbalanced)
  simpa using hdepth

end State

namespace Engine

variable {engine : Engine} {s : State}

/-- The block that begins at the current token, whatever that token is, is counted before anything
is read, and until its closing brace has been read. -/
lemma ends_block_depth (hE : engine.Reads) (h : s.Steady) :
    Ends engine.block s (fun _ s' => s'.depth = s.depth)
      (fun f s' => ∀ d, f = .rejected d → s.LeavesOpen 1 s.behind d s') := by
  unfold block
  simp only [ends_bind, ends_get, ends_addDepth]
  refine (ends_advance (h.withDepth _).steady).mono ?_ ?_
  case refine_2 =>
    rintro f s₁ ⟨e, rfl, -⟩ d hd
    cases hd
  rintro - s₁ ⟨hf, hahead, -, hdepth⟩
  have hlast : s₁.last = s.last := hf.last
  have hahead : s₁.ahead = s.behind := hahead
  have hdepth : s₁.depth = s.depth + (1 : Nat) := hdepth
  refine (ends_blockStatements hE .trivial (.refl hf.steady)).mono ?read ?fails
  case fails =>
    intro f s₂ hfails d hd
    subst hd
    rw [← hahead]
    exact hfails.leavesOpen.opened hdepth hlast
  case read =>
    rintro ss s₂ ⟨us, h₂, hus, -⟩
    obtain ⟨k, hk, hcount⟩ := h₂.opens
    obtain rfl : k = 0 := hk.unique hus.balanced
    refine ends_ite (fun hc => ?_) fun hc => ?_
    · rw [ends_reject]
      rintro d ⟨rfl⟩
      rw [← hahead]
      exact ((State.Rejects.current _ rfl h₂).leavesOpen (by simp)).opened hdepth hlast
    · simp only [ends_bind, ends_addDepth, ends_pure]
      omega

/-- The number of open blocks. An expression, a statement or a block that is read leaves it as it
was; where one is rejected, the blocks that it has opened and not closed have been added. Each
iteration of a program begins with none, whatever the iterations before have abandoned. -/
theorem depth_counts_blocks (bound : Bound) :
    (∀ s : State, s.Steady →
      (∀ p, Ends ((ofBound bound).expression p) s (fun _ s' => s'.depth = s.depth)
        (fun f s' => ∀ d, f = .rejected d → s.LeavesOpen 0 s.ahead d s')) ∧
      Ends (ofBound bound).statement s (fun _ s' => s'.depth = s.depth)
        (fun f s' => ∀ d, f = .rejected d → s.LeavesOpen 0 s.ahead d s') ∧
      Ends (ofBound bound).block s (fun _ s' => s'.depth = s.depth)
        (fun f s' => ∀ d, f = .rejected d → s.LeavesOpen 1 s.behind d s')) ∧
    ∀ source s, State.start .standard true (.ofText source) = .ok s →
      (∀ rs s', (ofBound bound).Iterations s rs s' → s'.depth = 0) ∧
      Ends (ofBound bound).program s
        (fun p s' => ∃ rs, (ofBound bound).Iterations s rs s' ∧ s'.current.kind = .eof ∧
          p = rs.filterMap id)
        (fun f s' => ∃ rs s₁, (ofBound bound).Iterations s rs s₁ ∧ s₁.current.kind ≠ .eof ∧
          (ofBound bound).iteration s₁ = .error f s') := by
  have hE := reads_ofBound bound
  constructor
  · intro s hs
    refine ⟨fun p => ?expression, ?statement, ends_block_depth hE hs⟩
    case expression =>
      apply (hE.expression _ p s [] s .trivial (.refl hs)).mono
      · exact fun e s' h => h.1.depth
      · rintro f s' h d rfl
        exact h.leavesOpen
    case statement =>
      apply (ends_statement hE .trivial (.refl hs)).mono
      · exact fun a s' h => h.depth
      · rintro f s' h d rfl
        exact h.leavesOpen
  · intro source s hstart
    have hstarts := (State.starts hstart).1
    constructor
    · intro rs s' hrs
      exact (hrs.keep hE hstarts.steady hstarts.depth).2.1
    · exact ends_program hE hstarts.steady hstarts.depth

lemma rejected_inside_blocks :
    (match State.start .standard true (.ofText "if (x) \x7b fn() \x7b let ) \x7d \x7d y") with
    | .error _ => false
    | .ok s => match (ofBound 9).statement s, (ofBound 9).iteration s with
      | .error (.rejected _) s₁, .ok none _ => s₁.depth == 2 && s.current.kind != .eof
      | _, _ => false) = true := by
  decide +kernel

/-- Two blocks are open where a statement is rejected, and none at the next iteration. -/
theorem depth_counts_blocks_in_function : ∃ s d s₁ s₂,
    State.start .standard true (.ofText "if (x) { fn() { let ) } } y") = .ok s ∧
      (ofBound 9).statement s = .error (.rejected d) s₁ ∧ s.LeavesOpen 0 s.ahead d s₁ ∧
      s₁.depth = 2 ∧ (ofBound 9).Iterations s [none] s₂ ∧ s₂.depth = 0 := by
  have hrun := rejected_inside_blocks
  cases hstart : State.start .standard true (.ofText "if (x) { fn() { let ) } } y") with
  | error e => simp only [hstart, Bool.false_eq_true] at hrun
  | ok s =>
    simp only [hstart] at hrun
    split at hrun
    · next d s₁ s₂ hstatement hiter =>
      simp only [Bool.and_eq_true, beq_iff_eq, bne_iff_ne, ne_eq] at hrun
      obtain ⟨hdepth, hc⟩ := hrun
      have hsteady := (State.starts hstart).1.steady
      obtain ⟨hcounts, hiters⟩ := depth_counts_blocks 9
      have hleft := (hcounts s hsteady).2.1.of_error hstatement d rfl
      have hrs : (ofBound 9).Iterations s [none] s₂ := .cons hc hiter (.nil s₂)
      exact ⟨s, d, s₁, s₂, rfl, hstatement, hleft, hdepth, hrs, (hiters _ s hstart).1 _ _ hrs⟩
    · cases hrun

end Engine

end MonkeyFront
