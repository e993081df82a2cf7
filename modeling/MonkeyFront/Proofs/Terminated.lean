import MonkeyFront.Proofs.SharedOperations
import MonkeyFront.Proofs.Strictness

/-!
# Terminated programs

What follows a program whose last token is a semicolon has no influence on how the program is read
(`Iterations.beside_terminated`).
-/

namespace MonkeyFront

/-! ### Semicolons at the end -/

/-- The tokens end with a semicolon, if there are any. -/
def AreEnded (ts : List Token) : Prop := ∀ t ∈ ts.getLast?, t.kind = .semicolon

namespace AreEnded

variable {t : Token} {xs ys : List Token}

lemma of_append (h : AreEnded (xs ++ ys)) : AreEnded ys := by
  intro t ht
  apply h
  rw [List.getLast?_append, Option.mem_def.1 ht]
  rfl

lemma of_suffix (h : AreEnded ys) (hxs : xs <:+ ys) : AreEnded xs := by
  obtain ⟨zs, rfl⟩ := hxs
  exact h.of_append

lemma of_cons (h : AreEnded (t :: xs)) : AreEnded xs := h.of_suffix (List.suffix_cons t xs)

end AreEnded

lemma areEnded_concat {t : Token} {xs : List Token} :
    AreEnded (xs ++ [t]) ↔ t.kind = .semicolon := by
  simp [AreEnded]

/-- The part of a tree is none that may be left out. -/
def Phrase.IsSingle : Phrase → Bool
  | .expr _ _ | .stmt _ | .block _ => true
  | .arguments _ | .moreArguments _ | .stmts _ => false

lemma Spells.not_areEnded {x : Phrase} {ts : List Token} (h : Spells x ts)
    (hx : x.IsSingle = true) : ¬AreEnded ts := by
  have alone {t : Token} (ht : t.kind ≠ .semicolon) : ¬AreEnded [t] := fun h => ht (h t rfl)
  have other {t : Token} {xs : List Token} (ht : t.kind ≠ .semicolon) : ¬AreEnded (xs ++ [t]) :=
    fun h => ht (areEnded_concat.1 h)
  induction h with
  | name h | integer h => exact alone (by rw [h]; decide)
  | boolean h => exact alone (by rcases h with h | h <;> rw [h] <;> decide)
  | grouped _ _ hr | call _ _ _ hr | block _ _ hr => exact other (by rw [hr]; decide)
  | conditional _ _ _ _ _ _ ih => exact fun h => ih rfl h.of_append.of_cons
  | alternative _ _ _ _ _ _ _ _ _ ih => exact fun h => ih rfl h.of_append.of_cons
  | function _ _ _ _ _ ih => exact fun h => ih rfl h.of_append.of_cons
  | applied _ ih | operand _ ih | chain _ ih | expression _ ih => exact ih rfl
  | unary _ _ ih | result _ _ ih => exact fun h => ih rfl h.of_cons
  | binary _ _ _ _ _ ih => exact fun h => ih rfl h.of_append.of_cons
  | binding _ _ _ _ ih => exact fun h => ih rfl h.of_cons.of_cons.of_cons
  | noArguments | arguments | noMoreArguments | moreArguments | noStmts | ended | unended =>
    cases hx

/-! ### Ends of statements -/

section Ends

open State (Beside Mates Unbroken)

variable {α β : Type} {parting : Parting} {k k₁ : Place} {s s' : State} {r : Option State}

/-- The texts part in front of the end `t` of the one of them; a mate may be left behind with one
shared token more to be looked at, as long as that is the next one. -/
def Parting.atEnd (t : Token) (v' : List Token) : Parting where
  rest := [t]
  rest' := v'
  Nests := True
  Leaves k ts := match k with
    | .before => ts.length ≤ 2
    | .on => ts.length ≤ 1
  leaves_rest := Nat.le_refl 1
  advance := (Nat.le_succ_of_le ·)
  pass := Nat.le_of_succ_le_succ
  stay _ := Nat.le_refl 1

/-- Two parsers have passed the same tokens, and share those up to where their texts part. -/
structure State.Level (parting : Parting) (s s' : State) : Prop where
  unbroken : s'.Unbroken
  depth : s'.depth = s.depth
  recover : s'.recover = s.recover
  complaints : s'.complaints = s.complaints
  shared : ∃ us, s.stream .on = us ++ parting.rest ∧ s'.stream .on = us ++ parting.rest'

lemma State.Mates.level_on (h : s.Mates parting .on s') : s.Level parting s' := by
  obtain ⟨us, -, hs, hs'⟩ := h.shared
  exact ⟨h.unbroken, h.depth, h.recover, h.complaints, us, hs, hs'⟩

lemma State.Mates.level_before (h : s.Mates parting .before s') (hc : s.current.kind ≠ .eof) :
    s.Level parting s' := by
  obtain ⟨us, hne, hs, hs'⟩ := h.shared
  obtain ⟨t, us, rfl⟩ := List.exists_cons_of_ne_nil hne
  rw [stream_before hc] at hs
  rw [stream_before (h.current ▸ hc)] at hs'
  exact ⟨h.unbroken, h.depth, h.recover, h.complaints, us, (List.cons.inj hs).2,
    (List.cons.inj hs').2⟩

/-- At the end of a statement the mate is left behind only if the text of the parser ends there
without a semicolon, or if expressions have been nested too deeply. -/
structure EndsLevel (parting : Parting) (s : State) (r : Option State) : Prop where
  unbroken : s.Unbroken
  level : ∀ s' ∈ r, s.Level parting s'
  alone : r = none → s.behind = [] ∧ s.current.kind ≠ .semicolon ∨ s.HasNested

def Closes (parting : Parting) (k : Place) (p : Parse α) : Prop :=
  ∀ s r, s.Beside parting k r → Along p p s r (fun _ s₁ r₁ => EndsLevel parting s₁ r₁)
    (fun _ _ _ => True)

lemma Closes.after {p : Parse β} {f : β → Parse α} (hp : InStep parting k k₁ p p)
    (hf : ∀ b, Closes parting k₁ (f b)) : Closes parting k (p >>= f) :=
  fun s r hs => along_bind ((hp s r hs).mono (fun b s₁ r₁ h₁ => hf b s₁ r₁ h₁)
    fun _ _ _ _ => trivial)

lemma along_skipSemicolon {t : Token} {v' : List Token} (hs : s.Beside (.atEnd t v') .on r)
    (hk : s.current.kind ≠ .semicolon) : Along skipSemicolon skipSemicolon s r
      (fun _ s₁ r₁ => EndsLevel (.atEnd t v') s₁ r₁) (fun _ _ _ => True) := by
  have hsteady := hs.unbroken.steady
  have alone (hnone : r = none) : s.behind = [] ∨ s.HasNested := by
    refine (hs.alone hnone).imp (fun hleaves => List.eq_nil_of_length_eq_zero ?_) And.right
    simpa [State.stream, Parting.atEnd] using hleaves
  refine along_get (fun s' hs' => by rw [(hs.mate s' hs').peek hsteady]) ?_
  split
  · next hp =>
    cases r with
    | none =>
      obtain ⟨s₁, hrun, hunbroken, -, -, -, -, -, hdiagnostics⟩ := hs.unbroken.advance
      refine along_of_ok hrun
        ⟨hunbroken, fun s' hs' => (Option.not_mem_none s' hs').elim, fun _ => .inr ?_⟩
      rcases alone rfl with hnil | hnested
      · have hlast := hsteady.peek_eq
        rw [hnil, List.headD_nil] at hlast
        have heof := hsteady.last
        rw [← hlast, hp] at heof
        cases heof
      · exact hnested.of_isPrefix hdiagnostics
    | some s' =>
      -- the semicolon is shared, so that the mate comes as far
      obtain ⟨s₁, s₁', hrun, hrun', hunbroken, -, hm⟩ := (hs.mate s' rfl).advance hs.unbroken
      have hc : s₁.current.kind ≠ .eof := by
        have hcurrent := ((ends_advance hsteady).of_ok hrun).2.2.1
        rw [hcurrent, hp]
        decide
      rw [Along, Ends, hrun]
      refine ⟨some s₁', ?_, hunbroken, ?_, fun hnone => (Option.some_ne_none _ hnone).elim⟩
      · rintro _ ⟨rfl⟩
        exact ⟨s', rfl, hrun'⟩
      · rintro _ ⟨rfl⟩
        exact hm.level_before hc
  · exact along_pure ⟨hs.unbroken, fun s' hs' => (hs.mate s' hs').level_on,
      fun hnone => (alone hnone).imp_left (⟨·, hk⟩)⟩

end Ends

namespace Engine

open State (Beside)

variable {engine : Engine} {t : Token} {v' : List Token} (hE : engine.Reads)
  (h : engine.StaysInStep engine (.atEnd t v'))

include hE in
lemma ends_lowest_current {s : State} (hs : s.Steady) : Ends (engine.expression .lowest) s
    (fun _ s₁ => s₁.current.kind ≠ .semicolon) (fun _ _ => True) := by
  refine (hE.lowest .trivial (.refl hs)).mono ?_ fun _ _ _ => trivial
  rintro e s₁ ⟨⟨ys, h₁, hys⟩, -⟩
  obtain ⟨init, hinit⟩ := h₁.stops
  rw [List.nil_append] at hinit
  intro hk
  exact hys.not_areEnded rfl (hinit ▸ areEnded_concat.2 hk)

include hE h

lemma closes_value (a : Expr Token → Stmt Token) : Closes (.atEnd t v') .before (do
    let value ← engine.expression .lowest
    skipSemicolon
    return a value) := by
  intro s r hs
  refine along_bind (((h.expression .lowest s r hs).and_ends
    (ends_lowest_current hE hs.unbroken.steady)).mono ?_ fun _ _ _ _ => trivial)
  rintro value s₁ r₁ ⟨h₁, hk⟩
  exact along_bind ((along_skipSemicolon h₁ hk).mono (fun _ _ _ h₂ => along_pure h₂)
    fun _ _ _ _ => trivial)

lemma closes_statement : Closes (.atEnd t v') .before engine.statement := by
  have value := closes_value hE h
  intro s r hs
  refine along_get (fun s' hs' => by rw [(hs.mate s' hs').current]) ?_
  split
  · exact Closes.after (InStep.expect .ident).pass (fun name =>
      .after (.expect .assign) fun _ => .after h.nextToken fun _ => value (.binding name)) s r hs
  · exact Closes.after h.nextToken.pass (fun _ => value .result) s r hs
  · refine along_get (fun s' hs' => by rw [(hs.mate s' hs').current]) ?_
    exact value (.expression s.current) s r hs

lemma closes_outerStatement : Closes (.atEnd t v') .before engine.outerStatement := by
  intro s r hs
  refine along_tryCatch ((closes_statement hE h s r hs).mono (fun _ _ _ h₁ => h₁)
    fun f s₁ r₁ _ => ?_)
  cases f with
  | tooDeep => exact along_of_error rfl trivial
  | scan e => exact along_throw trivial
  | rejected d => exact along_throw trivial

end Engine

/-! ### Iterations -/

namespace Engine

open State (Beside)

variable {bound : Bound} {v' : List Token} {s s₁ s' t : State} {a : Stmt Token}

/-- A statement of a terminated program is read in a longer text as well, and with its
semicolon. -/
lemma exists_level (hs : s.Beside (.atEnd s.last v') .before (some t)) (hended : AreEnded s.ahead)
    (hrun : (ofBound bound).outerStatement s = .ok a s₁) :
    s₁.Unbroken ∧ ((∀ d ∈ s₁.diagnostics, d.complaint ≠ .nestedTooDeeply) →
      ∃ t₁, (ofBound bound).outerStatement t = .ok a t₁ ∧ s₁.Level (.atEnd s.last v') t₁) := by
  have hE := reads_ofBound bound
  have hsteady := hs.unbroken.steady
  have hinStep : (ofBound bound).StaysInStep (ofBound bound) (.atEnd s.last v') :=
    (bounded_ofBound bound).staysInStep (.inr fun _ => Nat.le_refl 2)
  obtain ⟨r, hr, h⟩ := (closes_outerStatement hE hinStep s _ hs).of_ok hrun
  refine ⟨h.unbroken, fun hshallow => ?_⟩
  cases r with
  | some t₁ =>
    obtain ⟨_, ⟨rfl⟩, hrun'⟩ := hr t₁ rfl
    exact ⟨t₁, hrun', h.level t₁ rfl⟩
  | none =>
    obtain ⟨hbehind, hk⟩ := (h.alone rfl).resolve_right fun ⟨d, hd, hdeep⟩ => hshallow d hd hdeep
    obtain ⟨ys, close, h₁, -⟩ := (ends_outerStatement hE hsteady).of_ok hrun
    obtain ⟨init, hinit⟩ := h₁.stops
    rw [h₁.ahead, hbehind, List.append_nil, hinit] at hended
    exact absurd (areEnded_concat.1 hended) hk

/-- An iteration of a terminated program is taken in a longer text as well. -/
lemma exists_iteration_beside (hs : s.Beside (.atEnd s.last v') .before (some t)) (hd : s.depth = 0)
    (hended : AreEnded s.ahead) (hiter : (ofBound bound).iteration s = .ok (some a) s₁)
    (hshallow : ∀ d ∈ s₁.diagnostics, d.complaint ≠ .nestedTooDeeply) :
    ∃ t₁, (ofBound bound).iteration t = .ok (some a) t₁ ∧
      (s₁.ahead = [] ∧ t₁.stream .before = v' ∨
        s₁.Beside (.atEnd s₁.last v') .before (some t₁)) := by
  have hiterated := (ends_iteration (reads_ofBound bound) hs.unbroken.steady hd).of_ok hiter
  cases hiterated with
  | @read _ s₂ _ _ _ hrun _ h =>
    obtain ⟨hunbroken, hlevel⟩ := exists_level hs hended hrun
    obtain ⟨s₃, hs₃, hunbroken₃, hcurrent, hdepth, hrecover, hcomplaints, hstream, hdiagnostics⟩ :=
      hunbroken.advance
    cases (iteration_eq_ok hrun hs₃).symm.trans hiter
    obtain ⟨t₂, hrun', hlevel⟩ := hlevel fun d hd => hshallow d (hdiagnostics.subset hd)
    obtain ⟨t₃, ht₃, hunbroken', hcurrent', hdepth', hrecover', hcomplaints', hstream', -⟩ :=
      hlevel.unbroken.advance
    rw [← h.last] at hlevel
    refine ⟨t₃, iteration_eq_ok hrun' ht₃, ?_⟩
    obtain ⟨us, hus, hus'⟩ := hlevel.shared
    rw [← hstream] at hus
    rw [← hstream'] at hus'
    by_cases hne : us = []
    · rw [hne] at hus hus'
      exact .inl ⟨(List.append_inj' hus rfl).1, hus'⟩
    · exact .inr (hunbroken₃.beside hunbroken' (by rw [hdepth', hlevel.depth, hdepth])
        (by rw [hrecover', hlevel.recover, hrecover])
        (by rw [hcomplaints', hlevel.complaints, hcomplaints]) hne hus hus')

/-- Iterations of a terminated program are taken in a longer text as well, and up to where the
program ends. -/
theorem Iterations.beside_terminated {ss : List (Stmt Token)}
    (hrs : (ofBound bound).Iterations s (ss.map some) s') (hend : s'.current.kind = .eof)
    (hs : s.Beside (.atEnd s.last v') .before (some t)) (hd : s.depth = 0)
    (hended : AreEnded s.ahead) (hshallow : ∀ d ∈ s'.diagnostics, d.complaint ≠ .nestedTooDeeply) :
    ∃ t', (ofBound bound).Iterations t (ss.map some) t' ∧ t'.stream .before = v' := by
  induction ss generalizing s t with
  | nil =>
    cases hrs
    obtain ⟨us, hne, hus, -⟩ := (hs.mate t rfl).shared
    rw [State.stream, State.ahead_eq_nil hend] at hus
    exact absurd (List.append_inj' hus rfl).1.symm hne
  | cons a ss ih =>
    cases hrs with
    | @cons _ s₁ _ _ _ hc hiter hrs =>
      have h₁ := (ends_iteration (reads_ofBound bound) hs.unbroken.steady hd).of_ok hiter
      have hc' : t.current.kind ≠ .eof := (hs.mate t rfl).current ▸ hc
      have hlater := hrs.prefix_diagnostics (reads_ofBound bound) h₁.steady (h₁.depth hd)
      obtain ⟨t₁, hiter', ⟨hnil, hstream⟩ | hs₁⟩ := exists_iteration_beside hs hd hended hiter
        fun d hd => hshallow d (hlater.subset hd)
      · cases ss with
        | nil => exact ⟨t₁, .cons hc' hiter' (.nil t₁), hstream⟩
        | cons =>
          cases hrs with
          | cons hc₁ =>
            rw [State.ahead_cons hc₁] at hnil
            cases hnil
      · have hended₁ : AreEnded s₁.ahead := by
          cases h₁ with
          | read _ _ h => exact hended.of_suffix ⟨_, h.ahead.symm⟩
        obtain ⟨t', hrs', hstream⟩ := ih hrs hs₁ (h₁.depth hd) hended₁
        exact ⟨t', .cons hc' hiter' hrs', hstream⟩

end Engine

end MonkeyFront
