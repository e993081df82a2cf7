import MonkeyFront.Proofs.Recovering
import MonkeyFront.Proofs.Starting

/-!
# Iterations of a program

A program is read in iterations. In one iteration a statement is read with its semicolon, or it is
rejected and, where statements that fail are skipped, abandoned.
-/

namespace MonkeyFront

lemma suffix_tail_append {α : Type} {xs : List α} (h : xs ≠ []) (ys : List α) :
    ys <:+ (xs ++ ys).tail := by
  rw [List.tail_append_of_ne_nil h]
  exact List.suffix_append _ _

lemma eq_nil_of_suffix_tail {α : Type} {xs : List α} (h : xs <:+ xs.tail) : xs = [] := by
  cases xs with
  | nil => rfl
  | cons x xs => exact absurd h.length_le (Nat.not_succ_le_self _)

namespace State

variable {s s' : State} {xs : List Token} {d : Diagnostic}

lemma Stands.behind_suffix (h : s.Stands xs s') : s'.behind <:+ s.behind := by
  rw [behind, behind, h.ahead]
  cases xs with
  | nil => exact List.suffix_rfl
  | cons t xs => exact (List.tail_suffix _).trans (List.suffix_append _ _)

lemma Passes.behind_suffix (h : s.Passes xs s') : s'.behind <:+ s.behind := by
  obtain ⟨init, rfl⟩ := h.stops
  conv_rhs => rw [behind, h.ahead]
  exact suffix_tail_append (by simp) _

/-- A parser that rejects a statement stands on the token with which the statement begins or further
on. Where the stack has run out, a token may have been lost. -/
lemma Rejects.behind_sublist (h : s.Rejects d s') : s'.behind.Sublist s.behind := by
  cases h with
  | current _ _ h => exact h.behind_suffix.sublist
  | peek _ _ h => exact h.behind_suffix.sublist
  | overrun h ho => exact (ho.behind_sublist h.steady).trans h.behind_suffix.sublist

lemma Rejects.behind_suffix (h : s.Rejects d s') (hd : d.complaint ≠ .nestedTooDeeply) :
    s'.behind <:+ s.behind := by
  cases h with
  | current _ _ h => exact h.behind_suffix
  | peek _ _ h => exact h.behind_suffix
  | overrun => exact absurd rfl hd

end State

namespace Engine

/-- What an iteration from `s` does: a statement is read, with its semicolon or where nothing
follows that could belong to it, or it is abandoned. -/
inductive HasIterated (engine : Engine) (s : State) : Option (Stmt Token) → State → Prop
  | read {a s₁ ys close s'} (run : engine.outerStatement s = .ok a s₁)
      (ahead : s'.ahead = s₁.behind) (h : s.Stands (ys ++ close) s') (stmt : Spells (.stmt a) ys)
      (ended : close = [] ∧ (headKind s'.ahead).level ≤ 1 ∧ headKind s'.ahead ≠ .semicolon ∨
        ∃ t : Token, close = [t] ∧ t.kind = .semicolon) :
      HasIterated engine s (some a) s'
  | abandoned {d s₁ s'} (run : engine.outerStatement s = .error (.rejected d) s₁)
      (recover : s.recover = true) (h : s.Rejects d s₁) (follows : s₁.Follows s')
      (outside : s'.depth = 0) (ahead : s'.ahead = s₁.resumption) : HasIterated engine s none s'

variable {engine : Engine} {s : State}

namespace HasIterated

variable {s' : State} {r : Option (Stmt Token)} (h : engine.HasIterated s r s')

include h

lemma steady : s'.Steady := by
  cases h with
  | read _ _ h => exact h.steady
  | abandoned _ _ _ hf => exact hf.steady

lemma recover : s'.recover = s.recover := by
  cases h with
  | read _ _ h => exact h.recover
  | abandoned _ _ h hf => exact hf.recover.trans h.recover

lemma upcoming : s'.upcoming <:+ s.upcoming := by
  cases h with
  | read _ _ h => exact h.upcoming
  | abandoned _ _ h hf => exact hf.upcoming.trans h.upcoming

lemma depth (hd : s.depth = 0) : s'.depth = 0 := by
  cases h with
  | @read a s₁ ys close _ _ _ h hs ended =>
    obtain ⟨k, hk, hdepth⟩ := h.opens
    have hclose : Balanced close := by
      rcases ended with ⟨rfl, -⟩ | ⟨t, rfl, ht⟩
      · exact Opens.nil
      · exact .singleton (by rw [ht]; rfl)
    obtain rfl := hk.unique (hs.balanced.append hclose)
    simpa [hd] using hdepth
  | abandoned _ _ _ _ ho => exact ho

lemma ahead_sublist : s'.ahead.Sublist s.behind := by
  cases h with
  | @read a s₁ ys close _ _ _ h hs =>
    have hne : ys ++ close ≠ [] := List.append_ne_nil_of_left_ne_nil hs.ne_nil_of_stmt _
    rw [State.behind, h.ahead]
    exact (suffix_tail_append hne _).sublist
  | abandoned _ _ h _ _ ha =>
    rw [ha]
    exact (State.resumption_suffix _).sublist.trans h.behind_sublist

lemma last : s'.last = s.last := by
  cases h with
  | read _ _ h => exact h.last
  | abandoned _ _ h hf => exact hf.last.trans h.last

lemma prefix_diagnostics : s.diagnostics <+: s'.diagnostics := by
  cases h with
  | read _ _ h =>
    obtain ⟨ds, hds, -⟩ := h.illegal
    exact ⟨ds, hds.symm⟩
  | abandoned _ _ h hf =>
    obtain ⟨-, ds, hds, -⟩ := h.reported
    obtain ⟨es, hes, -⟩ := hf.illegal
    exact ⟨ds ++ [_] ++ es, by rw [hes, hds, List.append_assoc, List.append_assoc,
      List.append_assoc]⟩

end HasIterated

lemma ends_recoveringStatement {post : Option (Stmt Token) → State → Prop}
    {fail : Failure → State → Prop}
    (h : Ends engine.outerStatement s (fun a s' => post (some a) s') (fun f s' =>
      match f with
      | .rejected _ =>
        if s'.recover then Ends synchronize s' (fun _ s'' => post none s'') fail else fail f s'
      | _ => fail f s')) : Ends engine.recoveringStatement s post fail := by
  unfold recoveringStatement
  rw [ends_bind, ends_tryCatch, ends_bind]
  refine h.mono (fun _ _ h => h) fun f s' h => ?_
  cases f with
  | scan e => exact h
  | tooDeep => exact h
  | rejected d =>
    dsimp only at h ⊢
    rw [ends_bind, ends_get]
    split
    · next hr =>
      rw [if_pos hr] at h
      rw [ends_bind]
      exact h
    · next hr =>
      rw [if_neg hr] at h
      rw [ends_bind]
      exact h

variable (engine) in
/-- Reads or abandons a statement and moves on to the next one. -/
def iteration : Parse (Option (Stmt Token)) := do
  let s ← engine.recoveringStatement
  advance
  return s

/-- An iteration outside blocks reads a statement or abandons it; a strict parser is stopped
instead. -/
theorem ends_iteration (hE : engine.Reads) (h : s.Steady) (hd : s.depth = 0) :
    Ends engine.iteration s (engine.HasIterated s) (fun f s' =>
      (s.recover = false ∧ ∃ d, f = .rejected d ∧ s.Rejects d s') ∨ s.BreaksOff f) := by
  have next {r : Option (Stmt Token)} {s₁ : State} (h₁ : s₁.Steady)
      (hu : s₁.upcoming <:+ s.upcoming)
      (hn : ∀ s₂, s₁.Follows s₂ → s₂.depth = s₁.depth → s₂.ahead = s₁.behind →
        engine.HasIterated s r s₂) :
      Ends advance s₁ (fun _ s₂ => engine.HasIterated s r s₂) (fun f s' =>
        (s.recover = false ∧ ∃ d, f = .rejected d ∧ s.Rejects d s') ∨ s.BreaksOff f) := by
    refine (ends_advance h₁).mono ?_ ?_
    · rintro _ s₂ ⟨hf, ha, -, hd⟩
      exact hn s₂ hf hd ha
    · rintro f - ⟨e, rfl, he⟩
      exact .inr ⟨e, rfl, hu.subset he⟩
  unfold iteration
  simp only [ends_bind, ends_pure]
  refine ends_recoveringStatement (((ends_outerStatement hE h).and (ends_run _ s)).mono ?read
    ?rejected)
  case read =>
    rintro a s₁ ⟨⟨ys, close, h₁, hys, hclose⟩, run⟩
    refine next h₁.steady h₁.upcoming fun s₂ hf hd₂ ha => ?_
    obtain ⟨k, hk, hdepth⟩ := h₁.opens
    rw [← ha] at hclose
    refine .read run ha { h₁.toFollows.trans hf with ahead := ?_, opens := ⟨k, hk, ?_⟩ } hys hclose
    · rw [ha]
      exact h₁.ahead
    · rw [hd₂, hdepth]
  case rejected =>
    rintro f s₁ ⟨⟨d, rfl, h₁⟩ | ⟨e, rfl, he⟩, run⟩
    · obtain ⟨k, hdepth⟩ := h₁.depth_eq
      dsimp only
      split
      · next hr =>
        refine (State.ends_synchronize h₁.steady (by omega)).mono ?_ ?_
        · rintro - s₂ ⟨hf, hd₂, hb⟩
          refine next hf.steady (hf.upcoming.trans h₁.upcoming) fun s₃ hf' hd₃ ha => ?_
          exact .abandoned run (h₁.recover ▸ hr) h₁ (hf.trans hf') (hd₃.trans hd₂) (ha.trans hb)
        · rintro f - ⟨e, rfl, he⟩
          exact .inr ⟨e, rfl, h₁.upcoming.subset he⟩
      · next hr => exact .inl ⟨by rw [← h₁.recover]; exact Bool.eq_false_iff.2 hr, d, rfl, h₁⟩
    · exact .inr ⟨e, rfl, he⟩

/-- The iterations from one state to another, and what they yield. -/
inductive Iterations (engine : Engine) : State → List (Option (Stmt Token)) → State → Prop
  | nil (s : State) : Iterations engine s [] s
  | cons {s s₁ s' r rs} : s.current.kind ≠ .eof → engine.iteration s = .ok r s₁ →
      Iterations engine s₁ rs s' → Iterations engine s (r :: rs) s'

/-- What iterations keep: they go on outside blocks, behind what they take, and add to the
diagnostics. -/
theorem Iterations.keep (hE : engine.Reads) {s s' : State} {rs : List (Option (Stmt Token))}
    (h : engine.Iterations s rs s') (hs : s.Steady) (hd : s.depth = 0) :
    s'.Steady ∧ s'.depth = 0 ∧ s'.recover = s.recover ∧ s'.upcoming <:+ s.upcoming ∧
      s'.ahead.Sublist s.ahead ∧ s.diagnostics <+: s'.diagnostics := by
  induction h with
  | nil => exact ⟨hs, hd, rfl, List.suffix_rfl, List.Sublist.refl _, List.prefix_rfl⟩
  | cons _ ht _ ih =>
    have h := (ends_iteration hE hs hd).of_ok ht
    obtain ⟨hs', hd', hr, hu, ha, hg⟩ := ih h.steady (h.depth hd)
    exact ⟨hs', hd', hr.trans h.recover, hu.trans h.upcoming,
      ha.trans (h.ahead_sublist.trans (List.tail_sublist _)), h.prefix_diagnostics.trans hg⟩

lemma Iterations.ahead_sublist (hE : engine.Reads) {s s' : State} {rs : List (Option (Stmt Token))}
    (h : engine.Iterations s rs s') (hs : s.Steady) (hd : s.depth = 0) : s'.ahead.Sublist s.ahead :=
  (h.keep hE hs hd).2.2.2.2.1

lemma Iterations.prefix_diagnostics (hE : engine.Reads) {s s' : State}
    {rs : List (Option (Stmt Token))} (h : engine.Iterations s rs s') (hs : s.Steady)
    (hd : s.depth = 0) : s.diagnostics <+: s'.diagnostics :=
  (h.keep hE hs hd).2.2.2.2.2

lemma Iterations.last (hE : engine.Reads) {s s' : State} {rs : List (Option (Stmt Token))}
    (h : engine.Iterations s rs s') (hs : s.Steady) (hd : s.depth = 0) : s'.last = s.last := by
  induction h with
  | nil => rfl
  | cons _ ht _ ih =>
    have h := (ends_iteration hE hs hd).of_ok ht
    exact (ih h.steady (h.depth hd)).trans h.last

/-- A program is what iterations yield up to the end of input, unless one of them fails. -/
theorem ends_program (hE : engine.Reads) (h : s.Steady) (hd : s.depth = 0) :
    Ends engine.program s
      (fun p s' => ∃ rs, engine.Iterations s rs s' ∧ s'.current.kind = .eof ∧ p = rs.filterMap id)
      (fun f s' => ∃ rs s₁, engine.Iterations s rs s₁ ∧ s₁.current.kind ≠ .eof ∧
        engine.iteration s₁ = .error f s') := by
  unfold program
  simp only [ends_bind, ends_get, ends_pure]
  refine (ends_collectWhile (fun s => s.ahead.length) (fun s => s.Steady ∧ s.depth = 0)
    (fun s rs s' => engine.Iterations s rs s' ∧ s'.current.kind = .eof)
    (fun s f s' => ∃ rs s₁, engine.Iterations s rs s₁ ∧ s₁.current.kind ≠ .eof ∧
      engine.iteration s₁ = .error f s') ?stop ?iteration _ s ⟨h, hd⟩ s.length_ahead_le).imp
    fun rs s' h => ⟨rs, h.1, h.2, rfl⟩
  case stop =>
    rintro s - ht
    exact ⟨.nil s, by simpa using ht⟩
  case iteration =>
    rintro s ⟨hs, hd⟩ ht
    have hc : s.current.kind ≠ .eof := by simpa using ht
    refine ⟨by rw [State.ahead_cons hc]; exact Nat.succ_pos _, ?_⟩
    have hiter := (ends_iteration hE hs hd).and (ends_run engine.iteration s)
    refine Ends.mono (p := engine.iteration) hiter ?_ ?_
    · rintro r s' ⟨h, hrun⟩
      refine ⟨⟨h.steady, h.depth hd⟩, ?_, ?_, ?_⟩
      · rw [State.ahead_cons hc]
        exact Nat.lt_succ_of_le h.ahead_sublist.length_le
      · rintro rs s'' ⟨hrs, hs''⟩
        exact ⟨.cons hc hrun hrs, hs''⟩
      · rintro f s'' ⟨rs, s₁, hrs, hs₁, he⟩
        exact ⟨r :: rs, s₁, .cons hc hrun hrs, hs₁, he⟩
    · rintro f s' ⟨-, hrun⟩
      exact ⟨[], s, .nil s, hc, hrun⟩

/-- A program is rejected where a strict parser rejects a statement behind other iterations. -/
lemma exists_rejects (hE : engine.Reads) (h : s.Steady) (hd : s.depth = 0) {d : Diagnostic}
    {s' : State} (hrun : engine.program s = .error (.rejected d) s') :
    ∃ rs s₁, engine.Iterations s rs s₁ ∧ s₁.current.kind ≠ .eof ∧
      engine.iteration s₁ = .error (.rejected d) s' ∧ s₁.recover = false ∧ s₁.Rejects d s' := by
  obtain ⟨rs, s₁, hrs, hc, hiter⟩ := (ends_program hE h hd).of_error hrun
  obtain ⟨hs₁, hd₁, -⟩ := hrs.keep hE h hd
  rcases (ends_iteration hE hs₁ hd₁).of_error hiter with ⟨hstrict, _, ⟨rfl⟩, hrejects⟩ | ⟨e, he, -⟩
  · exact ⟨rs, s₁, hrs, hc, hiter, hstrict, hrejects⟩
  · cases he

end Engine

end MonkeyFront
