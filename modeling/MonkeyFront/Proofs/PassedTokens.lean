import MonkeyFront.Proofs.Ahead
import MonkeyFront.Proofs.Braces

/-!
# Passing tokens

How far a parser has come since a state `s`: `s.Stands xs s'` says that it has passed the tokens
`xs` and stands before the next one, `s.Passes xs s'` that it stands on the last of them. In both
cases the blocks that `xs` leaves open have been counted.
-/

namespace MonkeyFront

namespace State

/-- The parser has passed the tokens `xs` and stands before the next one. -/
structure Stands (s : State) (xs : List Token) (s' : State) : Prop extends s.Follows s' where
  ahead : s.ahead = xs ++ s'.ahead
  opens : ∃ k : Nat, Opens xs k ∧ s'.depth = s.depth + k

/-- The parser stands on the last of the tokens `xs`, which does not begin a block. -/
structure Passes (s : State) (xs : List Token) (s' : State) : Prop extends s.Follows s' where
  ahead : s.ahead = xs ++ s'.behind
  stops : ∃ init, xs = init ++ [s'.current]
  begun : s'.current.kind ≠ .lbrace
  opens : ∃ k : Nat, Opens xs k ∧ s'.depth = s.depth + k

/-- The ways in which reading fails: `complaint` is neither about an illegal character nor about
nesting, and the tokens in front of it are viable. -/
inductive Fails (s : State) (viable : List Token → Prop) : Failure → State → Prop
  | current {xs s'} (complaint : Complaint) (structural : complaint.isStructural = true)
      (shallow : complaint ≠ .nestedTooDeeply) (hv : viable xs) (h : s.Stands xs s') :
      Fails s viable (.rejected ⟨complaint, s'.current.span⟩) (s'.report complaint s'.current)
  | peek {xs s'} (complaint : Complaint) (structural : complaint.isStructural = true)
      (shallow : complaint ≠ .nestedTooDeeply) (hv : viable xs) (h : s.Passes xs s') :
      Fails s viable (.rejected ⟨complaint, s'.peek.span⟩) (s'.report complaint s'.peek)
  | tooDeep {xs s'} (h : s.Stands xs s') : Fails s viable .tooDeep s'
  | overrun {xs s₁ s'} (h : s.Passes xs s₁) (ho : s₁.Overruns s') : Fails s viable .tooDeep s'
  | scan {e s'} (h : .error e ∈ s.upcoming) : Fails s viable (.scan e) s'

variable {s s₁ : State} {xs : List Token} {viable : List Token → Prop}

lemma Stands.refl (h : s.Steady) : s.Stands [] s :=
  { Follows.refl h with ahead := rfl, opens := ⟨0, Opens.nil, by simp⟩ }

lemma Stands.pass (h : s.Stands xs s₁) (hb : s₁.current.kind.isBrace = false)
    (he : s₁.current.kind ≠ .eof) : s.Passes (xs ++ [s₁.current]) s₁ := by
  obtain ⟨k, hk, hd⟩ := h.opens
  refine { h.toFollows with ahead := ?_, stops := ⟨xs, rfl⟩, begun := ?_, opens := ⟨k, ?_, hd⟩ }
  · rw [h.ahead, ahead_cons he, List.append_assoc, List.singleton_append]
  · intro hl
    rw [hl] at hb
    cases hb
  · exact hk.append (Opens.singleton hb)

lemma Passes.length_eq (h : s.Passes xs s₁) : s.ahead.length = xs.length + s₁.behind.length := by
  rw [h.ahead, List.length_append]

lemma Stands.length_eq (h : s.Stands xs s₁) : s.ahead.length = xs.length + s₁.ahead.length := by
  rw [h.ahead, List.length_append]

lemma Stands.unique {ys : List Token} (hx : s.Stands xs s₁) (hy : s.Stands ys s₁) : xs = ys :=
  List.append_cancel_right (hx.ahead.symm.trans hy.ahead)

lemma Passes.unique {ys : List Token} (hx : s.Passes xs s₁) (hy : s.Passes ys s₁) : xs = ys :=
  List.append_cancel_right (hx.ahead.symm.trans hy.ahead)

namespace Passes

variable (h : s.Passes xs s₁)

include h

lemma advance :
    Ends advance s₁ (fun _ s₂ => s.Stands xs s₂ ∧ s₂.current = s₁.peek ∧ s₂.ahead = s₁.behind)
      (s.Fails viable) := by
  refine (ends_advance h.steady).mono ?_ ?_
  · rintro - s₂ ⟨hf, ha, hc, hd⟩
    obtain ⟨k, hk, hdepth⟩ := h.opens
    refine ⟨{ h.toFollows.trans hf with ahead := ?_, opens := ⟨k, hk, ?_⟩ }, hc, ha⟩
    · rw [ha, h.ahead]
    · rw [hd, hdepth]
  · rintro e s₂ ⟨x, rfl, hx⟩
    exact .scan (h.upcoming.subset hx)

lemma advanceWithin (reach : Reach) :
    Ends (advanceWithin reach) s₁
      (fun _ s₂ => s.Stands xs s₂ ∧ s₂.current = s₁.peek ∧ s₂.ahead = s₁.behind)
      (s.Fails viable) := by
  rcases s₁.advanceWithin_eq_or_overruns reach with hrun | ⟨s', hrun, ho⟩
  · have hends : Ends MonkeyFront.advance s₁ _ (s.Fails viable) := h.advance
    unfold Ends at hends ⊢
    rwa [hrun]
  · unfold Ends
    rw [hrun]
    exact .overrun h ho

lemma expect (hv : viable xs) (kind : Kind) :
    Ends (expect kind) s₁ (fun t s₂ => s.Stands xs s₂ ∧ s₂.current = t ∧ t.kind = kind)
      (s.Fails viable) := by
  simp only [MonkeyFront.expect, ends_bind, ends_get]
  refine ends_ite (fun hk => ?_) fun _ => ?_
  · simp only [ends_bind, ends_get, ends_pure]
    refine h.advance.imp ?_
    rintro _ s₂ ⟨hs, hc, -⟩
    exact ⟨hs, trivial, hc ▸ hk⟩
  · simp only [ends_reject]
    exact .peek _ rfl (by simp) hv h

lemma expect_pass {kind : Kind} (hv : viable xs) (hb : kind.isBrace = false)
    (he : kind ≠ .eof) :
    Ends (MonkeyFront.expect kind) s₁ (fun t s₂ => t.kind = kind ∧ s.Passes (xs ++ [t]) s₂)
      (s.Fails viable) := by
  refine (h.expect hv kind).imp ?_
  rintro t s₂ ⟨hs, rfl, rfl⟩
  exact ⟨rfl, hs.pass hb he⟩

lemma skipSemicolon :
    Ends skipSemicolon s₁
      (fun _ s₂ => (s.Passes xs s₂ ∧ s₂ = s₁ ∧ headKind s₁.behind ≠ .semicolon) ∨
        ∃ t : Token, t.kind = .semicolon ∧ s.Passes (xs ++ [t]) s₂)
      (s.Fails viable) := by
  simp only [MonkeyFront.skipSemicolon, ends_bind, ends_get]
  refine ends_ite (fun hk => ?_) fun hk => ?_
  · refine h.advance.imp ?_
    rintro _ s₂ ⟨hs, hc, -⟩
    refine .inr ⟨s₂.current, hc ▸ hk, hs.pass ?_ ?_⟩
    · rw [hc, hk]
      rfl
    · rw [hc, hk]
      decide
  · exact .inl ⟨h, rfl, by rwa [h.steady.headKind_behind]⟩

end Passes

end State

end MonkeyFront
