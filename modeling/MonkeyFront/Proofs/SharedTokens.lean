import MonkeyFront.Proofs.Segments

/-!
# Two parsers over shared tokens

Two parsers whose texts begin alike do the same until one of them looks at a token that is not
shared. `Along` follows a parser and its mate: the mate is there as long as the next token to be
looked at is shared, and it does what the parser does.
-/

namespace MonkeyFront

variable {α β : Type}

/-! ### Operations -/

/-- How the operation `p` ends from the state `s`, and `p'` from that of a mate: a mate that is
left has come to the same end. -/
def Along (p p' : Parse α) (s : State) (r : Option State)
    (post : α → State → Option State → Prop) (fail : Failure → State → Option State → Prop) :
    Prop :=
  Ends p s
    (fun a s₁ => ∃ r₁ : Option State, (∀ s₁' ∈ r₁, ∃ s' ∈ r, p' s' = .ok a s₁') ∧ post a s₁ r₁)
    (fun f s₁ => ∃ r₁ : Option State, (∀ s₁' ∈ r₁, ∃ s' ∈ r, p' s' = .error f s₁') ∧ fail f s₁ r₁)

section Rules

variable {p p' : Parse α} {s : State} {r : Option State}
  {post : α → State → Option State → Prop} {fail : Failure → State → Option State → Prop}

lemma Along.mono {post' : α → State → Option State → Prop}
    {fail' : Failure → State → Option State → Prop} (h : Along p p' s r post fail)
    (hpost : ∀ a s₁ r₁, post a s₁ r₁ → post' a s₁ r₁)
    (hfail : ∀ f s₁ r₁, fail f s₁ r₁ → fail' f s₁ r₁) : Along p p' s r post' fail' := by
  refine Ends.mono (p := p) h ?_ ?_
  · rintro a s₁ ⟨r₁, hr₁, h⟩
    exact ⟨r₁, hr₁, hpost a s₁ r₁ h⟩
  · rintro f s₁ ⟨r₁, hr₁, h⟩
    exact ⟨r₁, hr₁, hfail f s₁ r₁ h⟩

lemma Along.and_ends {post' : α → State → Prop} {fail' : Failure → State → Prop}
    (h : Along p p' s r post fail) (h' : Ends p s post' fail') :
    Along p p' s r (fun a s₁ r₁ => post a s₁ r₁ ∧ post' a s₁) fail := by
  refine Ends.mono (p := p) (Ends.and h h') ?_ ?_
  · rintro a s₁ ⟨⟨r₁, hr₁, h⟩, h'⟩
    exact ⟨r₁, hr₁, h, h'⟩
  · rintro f s₁ ⟨h, -⟩
    exact h

/-- The mate may have come to its state by a run from another one, and it may be left behind. -/
lemma Along.of_runs {r₁ : Option State} (h : Along p p' s r₁ post fail) (p'' : Parse α)
    (hr : ∀ s₁' ∈ r₁, ∃ s' ∈ r, p'' s' = p' s₁') : Along p p'' s r post fail := by
  refine Ends.mono (p := p) h ?_ ?_
  · rintro a s₂ ⟨r₂, hr₂, h⟩
    refine ⟨r₂, fun s₂' hs₂' => ?_, h⟩
    obtain ⟨s₁', hs₁', hrun⟩ := hr₂ s₂' hs₂'
    obtain ⟨s', hs', hsame⟩ := hr s₁' hs₁'
    exact ⟨s', hs', hsame.trans hrun⟩
  · rintro f s₂ ⟨r₂, hr₂, h⟩
    refine ⟨r₂, fun s₂' hs₂' => ?_, h⟩
    obtain ⟨s₁', hs₁', hrun⟩ := hr₂ s₂' hs₂'
    obtain ⟨s', hs', hsame⟩ := hr s₁' hs₁'
    exact ⟨s', hs', hsame.trans hrun⟩

lemma along_pure {a : α} (h : post a s r) : Along (pure a) (pure a) s r post fail :=
  ⟨r, fun s' hs' => ⟨s', hs', rfl⟩, h⟩

lemma along_throw {f : Failure} (h : fail f s r) : Along (throw f) (throw f) s r post fail :=
  ⟨r, fun s' hs' => ⟨s', hs', rfl⟩, h⟩

/-- The mate may be left behind where the parser comes to. -/
lemma along_of_ok {a : α} {s₁ : State} (hrun : p s = .ok a s₁) (h : post a s₁ none) :
    Along p p' s r post fail := by
  rw [Along, Ends, hrun]
  exact ⟨none, fun s' hs' => (Option.not_mem_none s' hs').elim, h⟩

lemma along_of_error {f : Failure} {s₁ : State} (hrun : p s = .error f s₁)
    (h : fail f s₁ none) : Along p p' s r post fail := by
  rw [Along, Ends, hrun]
  exact ⟨none, fun s' hs' => (Option.not_mem_none s' hs').elim, h⟩

lemma along_bind {q q' : Parse β} {f f' : β → Parse α}
    (h : Along q q' s r (fun b s₁ r₁ => Along (f b) (f' b) s₁ r₁ post fail) fail) :
    Along (q >>= f) (q' >>= f') s r post fail := by
  rw [Along, ends_bind]
  refine Ends.mono (p := q) h ?_ ?_
  · rintro b s₁ ⟨r₁, hr₁, h⟩
    refine h.of_runs _ fun s₁' hs₁' => ?_
    obtain ⟨s', hs', hrun⟩ := hr₁ s₁' hs₁'
    exact ⟨s', hs', by simp only [Bind.bind, EStateM.bind, hrun]⟩
  · rintro e s₁ ⟨r₁, hr₁, h⟩
    refine ⟨r₁, fun s₁' hs₁' => ?_, h⟩
    obtain ⟨s', hs', hrun⟩ := hr₁ s₁' hs₁'
    exact ⟨s', hs', by simp only [Bind.bind, EStateM.bind, hrun]⟩

lemma along_tryCatch {f : Failure → Parse α}
    (h : Along p p' s r post (fun e s₁ r₁ => Along (f e) (f e) s₁ r₁ post fail)) :
    Along (tryCatch p f) (tryCatch p' f) s r post fail := by
  rw [Along, ends_tryCatch]
  refine Ends.mono (p := p) h ?_ ?_
  · rintro a s₁ ⟨r₁, hr₁, h⟩
    refine ⟨r₁, fun s₁' hs₁' => ?_, h⟩
    obtain ⟨s', hs', hrun⟩ := hr₁ s₁' hs₁'
    refine ⟨s', hs', ?_⟩
    simp only [MonadExcept.tryCatch, tryCatchThe, MonadExceptOf.tryCatch, EStateM.tryCatch, hrun]
  · rintro e s₁ ⟨r₁, hr₁, h⟩
    refine h.of_runs _ fun s₁' hs₁' => ?_
    obtain ⟨s', hs', hrun⟩ := hr₁ s₁' hs₁'
    refine ⟨s', hs', ?_⟩
    simp only [MonadExcept.tryCatch, tryCatchThe, MonadExceptOf.tryCatch, EStateM.tryCatch, hrun]
    rfl

lemma along_get {f f' : State → Parse α} {q : Parse α} (hq : ∀ s' ∈ r, f' s' = q)
    (h : Along (f s) q s r post fail) : Along (get >>= f) (get >>= f') s r post fail := by
  rw [Along, ends_bind, ends_get]
  exact h.of_runs _ fun s' hs' => ⟨s', hs', congrFun (hq s' hs') s'⟩

end Rules

/-! ### States -/

/-- Where a parser stands: before the current token, or on it. -/
inductive Place where
  | before
  | on

/-- Where the texts of a parser and its mate part: `rest` and `rest'` stand behind the tokens that
they share, and `Leaves` says of the tokens that are still to be looked at that the mate may be left
behind in front of them. It may be left behind as well where a statement nests too deeply, if
`Nests` says so. -/
structure Parting where
  rest : List Token
  rest' : List Token
  Nests : Prop
  Leaves : Place → List Token → Prop
  leaves_rest : Leaves .on rest
  advance : ∀ {ts}, Leaves .on ts → Leaves .before ts
  pass : ∀ {t ts}, Leaves .before (t :: ts) → Leaves .on ts
  stay : ∀ {t}, Leaves .before [t] → Leaves .on [t]

/-- A mate is left behind in front of tokens only that are not shared. -/
def Parting.atRest (v v' : List Token) (nests : Prop) : Parting where
  rest := v
  rest' := v'
  Nests := nests
  Leaves _ ts := ts <:+ v
  leaves_rest := List.suffix_rfl
  advance := id
  pass := (List.suffix_cons ..).trans
  stay := id

namespace State

/-- The tokens that are still to be looked at, with the end of input at their end. -/
def stream (s : State) : Place → List Token
  | .before => s.ahead ++ [s.last]
  | .on => s.behind ++ [s.last]

/-- A state in front of a text that scans to its end. -/
structure Unbroken (s : State) : Prop where
  steady : s.Steady
  scans : ∀ e, .error e ∉ s.upcoming

lemma stream_before {s : State} (h : s.current.kind ≠ .eof) :
    s.stream .before = s.current :: s.stream .on := by
  simp only [stream, ahead_cons h, List.cons_append]

lemma stream_of_eof {s : State} (h : s.current.kind = .eof) : s.stream .before = s.stream .on := by
  simp only [stream, ahead_eq_nil h, behind_eq_nil h]

lemma Steady.head_stream_before {s : State} (h : s.Steady) :
    (s.stream .before).head? = some s.current := by
  rw [stream, List.head?_append, h.current_eq]
  cases s.ahead <;> rfl

lemma Steady.head_stream_on {s : State} (h : s.Steady) :
    (s.stream .on).head? = some s.peek := by
  rw [stream, List.head?_append, h.peek_eq]
  cases s.behind <;> rfl

/-- It has been recorded that expressions nest too deeply. -/
def HasNested (s : State) : Prop := ∃ d ∈ s.diagnostics, d.complaint = .nestedTooDeeply

lemma HasNested.of_isPrefix {s s' : State} (h : s.HasNested)
    (hle : s.diagnostics <+: s'.diagnostics) :
    s'.HasNested :=
  h.imp fun _ hd => ⟨hle.subset hd.1, hd.2⟩

/-- Two parsers at a place before tokens that they share. -/
structure Mates (parting : Parting) (k : Place) (s s' : State) : Prop where
  unbroken : s'.Unbroken
  current : s'.current = s.current
  depth : s'.depth = s.depth
  recover : s'.recover = s.recover
  complaints : s'.complaints = s.complaints
  shared : ∃ us, us ≠ [] ∧ s.stream k = us ++ parting.rest ∧ s'.stream k = us ++ parting.rest'

/-- A parser and its mate, which is left behind when the parser has come to where the texts part or
a statement nests too deeply. -/
structure Beside (parting : Parting) (k : Place) (s : State) (r : Option State) : Prop where
  unbroken : s.Unbroken
  mate : ∀ s' ∈ r, s.Mates parting k s'
  alone : r = none → parting.Leaves k (s.stream k) ∨ parting.Nests ∧ s.HasNested

variable {parting : Parting} {k : Place} {s s' : State} {r : Option State}

namespace Mates

lemma rules (h : s.Mates parting k s') : s'.rules = .standard := h.unbroken.steady.rules

lemma head_stream (h : s.Mates parting k s') : (s'.stream k).head? = (s.stream k).head? := by
  obtain ⟨us, hne, hs, hs'⟩ := h.shared
  rw [hs, hs', List.head?_append_of_ne_nil _ hne, List.head?_append_of_ne_nil _ hne]

lemma peek (h : s.Mates parting .on s') (hs : s.Steady) : s'.peek = s.peek := by
  have := h.head_stream
  rw [hs.head_stream_on, h.unbroken.steady.head_stream_on] at this
  exact Option.some.inj this

/-- What is behind the shared tokens makes the difference between the texts. -/
lemma length_ahead (h : s.Mates parting k s') :
    s.ahead.length + parting.rest'.length = s'.ahead.length + parting.rest.length := by
  obtain ⟨us, -, hs, hs'⟩ := h.shared
  have hs := congrArg List.length hs
  have hs' := congrArg List.length hs'
  cases k with
  | before =>
    simp only [stream, List.length_append, List.length_singleton] at hs hs'
    omega
  | on =>
    simp only [stream, List.length_append, List.length_singleton] at hs hs'
    by_cases hc : s.current.kind = .eof
    · rw [behind_eq_nil hc] at hs
      rw [behind_eq_nil (h.current ▸ hc)] at hs'
      rw [ahead_eq_nil hc, ahead_eq_nil (h.current ▸ hc)]
      simp only [List.length_nil] at hs hs' ⊢
      omega
    · rw [ahead_cons hc, ahead_cons (h.current ▸ hc), List.length_cons, List.length_cons]
      omega

end Mates

namespace Beside

variable (h : s.Beside parting k r)

include h

lemma map {s₁ : State} {f : State → State} (hunbroken : s₁.Unbroken)
    (hstream : s₁.stream k = s.stream k) (hdiagnostics : s.diagnostics <+: s₁.diagnostics)
    (hmate : ∀ s' ∈ r, s₁.Mates parting k (f s')) : s₁.Beside parting k (r.map f) := by
  refine ⟨hunbroken, fun s₁' hs₁' => ?_, fun hnone => ?_⟩
  · obtain ⟨s', hs', rfl⟩ := Option.map_eq_some_iff.1 hs₁'
    exact hmate s' hs'
  · rw [hstream]
    exact (h.alone (Option.map_eq_none_iff.1 hnone)).imp_right
      (.imp_right (.of_isPrefix · hdiagnostics))

lemma report (complaint : Complaint) (t : Token) :
    (s.report complaint t).Beside parting k (r.map (·.report complaint t)) := by
  refine h.map ⟨h.unbroken.steady.report complaint t, h.unbroken.scans⟩ (by cases k <;> rfl)
    ⟨_, (List.append_assoc ..).symm⟩ fun s' hs' => ?_
  have hm := h.mate s' hs'
  refine ⟨⟨hm.unbroken.steady.report complaint t, hm.unbroken.scans⟩, hm.current, hm.depth,
    hm.recover, ?_, hm.shared.imp fun us hus => ⟨hus.1, ?_⟩⟩
  · rw [report_complaints, report_complaints, hm.complaints]
  · cases k <;> exact hus.2

lemma setDepth (g : Int → Int) :
    Beside parting k { s with depth := g s.depth }
      (r.map fun s' => { s' with depth := g s'.depth }) := by
  refine h.map ⟨(h.unbroken.steady.withDepth _).steady, h.unbroken.scans⟩ (by cases k <;> rfl)
    List.prefix_rfl fun s' hs' => ?_
  have hm := h.mate s' hs'
  refine ⟨⟨(hm.unbroken.steady.withDepth _).steady, hm.unbroken.scans⟩, hm.current,
    congrArg g hm.depth, hm.recover, hm.complaints, hm.shared.imp fun us hus => ⟨hus.1, ?_⟩⟩
  cases k <;> exact hus.2

end Beside

lemma Beside.of_alone (hs : s.Unbroken)
    (h : parting.Leaves k (s.stream k) ∨ parting.Nests ∧ s.HasNested) :
    s.Beside parting k none :=
  ⟨hs, fun s' hs' => (Option.not_mem_none s' hs').elim, fun _ => h⟩

/-- To pass the current token is to leave a mate behind for which this is the last shared token. -/
lemma Beside.pass (h : s.Beside parting .before r) :
    ∃ r₁, (∀ s' ∈ r₁, s' ∈ r) ∧ s.Beside parting .on r₁ := by
  by_cases hc : s.current.kind = .eof
  · refine ⟨r, fun _ hs' => hs', h.unbroken, fun s' hs' => ?_, fun hn => ?_⟩
    · have hm := h.mate s' hs'
      obtain ⟨us, hne, hs, hs''⟩ := hm.shared
      rw [stream_of_eof hc] at hs
      rw [stream_of_eof (hm.current ▸ hc)] at hs''
      exact { hm with shared := ⟨us, hne, hs, hs''⟩ }
    · refine (h.alone hn).imp_left fun hleaves => ?_
      simp only [stream, ahead_eq_nil hc, behind_eq_nil hc, List.nil_append] at hleaves ⊢
      exact parting.stay hleaves
  · have hstream := stream_before hc
    cases r with
    | none =>
      refine ⟨none, fun _ hs' => hs', .of_alone h.unbroken ?_⟩
      exact (h.alone rfl).imp_left fun hleaves => parting.pass (hstream ▸ hleaves)
    | some s' =>
      have hm := h.mate s' rfl
      obtain ⟨us, hne, hs, hs'⟩ := hm.shared
      rw [hstream] at hs
      rw [stream_before (hm.current ▸ hc)] at hs'
      obtain ⟨t, us, rfl⟩ := List.exists_cons_of_ne_nil hne
      have hs := (List.cons.inj hs).2
      have hs' := (List.cons.inj hs').2
      by_cases hus : us = []
      · refine ⟨none, fun s' hs' => (Option.not_mem_none s' hs').elim, .of_alone h.unbroken ?_⟩
        rw [hs, hus]
        exact .inl parting.leaves_rest
      · refine ⟨some s', fun _ hs' => hs', h.unbroken, ?_, fun hn => by cases hn⟩
        rintro _ ⟨rfl⟩
        exact { hm with shared := ⟨us, hus, hs, hs'⟩ }

end State

/-! ### Keeping in step -/

/-- How a failure leaves a parser and its mate: a complaint is about the next token. -/
def Stops (parting : Parting) : Failure → State → Option State → Prop
  | .scan _, _, _ => False
  | .rejected d, s, r => ∃ k t, s.Beside parting k r ∧ (s.stream k).head? = some t ∧ d.span = t.span
  | .tooDeep, s, _ => s.Unbroken

/-- The operations bring a parser and its mate from the place `k` to the place `k'`. -/
def InStep (parting : Parting) (k k' : Place) (p p' : Parse α) : Prop :=
  ∀ s r, s.Beside parting k r → Along p p' s r (fun _ s₁ r₁ => s₁.Beside parting k' r₁)
    (Stops parting)

variable {parting : Parting} {k k' k₁ : Place} {s : State} {r : Option State}

open State

lemma State.Beside.reject (h : s.Beside parting k r) {t : Token} (ht : (s.stream k).head? = some t)
    (complaint : Complaint) (post : α → State → Option State → Prop) :
    Along (reject complaint t) (reject complaint t) s r post (Stops parting) := by
  refine ⟨r.map (·.report complaint t), fun s₁' hs₁' => ?_, k, t, h.report complaint t, ?_, rfl⟩
  · obtain ⟨s', hs', rfl⟩ := Option.map_eq_some_iff.1 hs₁'
    exact ⟨s', hs', rfl⟩
  · cases k <;> exact ht

lemma State.Unbroken.advance (h : s.Unbroken) : ∃ s₁, MonkeyFront.advance s = .ok () s₁ ∧
    s₁.Unbroken ∧ s₁.current = s.peek ∧ s₁.depth = s.depth ∧ s₁.recover = s.recover ∧
      s₁.complaints = s.complaints ∧ s₁.stream .before = s.stream .on ∧
      s.diagnostics <+: s₁.diagnostics := by
  cases hrun : MonkeyFront.advance s with
  | error f s₁ =>
    obtain ⟨e, -, he⟩ := (ends_advance h.steady).of_error hrun
    exact absurd he (h.scans e)
  | ok _ s₁ =>
    obtain ⟨hf, ha, hc, hd⟩ := (ends_advance h.steady).of_ok hrun
    refine ⟨s₁, rfl, ⟨hf.steady, fun e he => h.scans e (hf.upcoming.subset he)⟩, hc, hd, hf.recover,
      hf.complaints_eq, ?_, ?_⟩
    · rw [stream, stream, ha, hf.last]
    · obtain ⟨ds, hds, -⟩ := hf.illegal
      exact ⟨ds, hds.symm⟩

lemma State.Mates.advance {s' : State} (hs : s.Unbroken) (h : s.Mates parting .on s') :
    ∃ s₁ s₁', MonkeyFront.advance s = .ok () s₁ ∧ MonkeyFront.advance s' = .ok () s₁' ∧
      s₁.Unbroken ∧ s₁.stream .before = s.stream .on ∧ s₁.Mates parting .before s₁' := by
  obtain ⟨s₁, hrun, hunbroken, hcurrent, hdepth, hrecover, hcomplaints, hstream, -⟩ := hs.advance
  obtain ⟨s₁', hrun', hunbroken', hcurrent', hdepth', hrecover', hcomplaints', hstream', -⟩ :=
    h.unbroken.advance
  refine ⟨s₁, s₁', hrun, hrun', hunbroken, hstream, hunbroken', ?_, ?_, ?_, ?_, ?_⟩
  · rw [hcurrent, hcurrent', h.peek hs.steady]
  · rw [hdepth, hdepth', h.depth]
  · rw [hrecover, hrecover', h.recover]
  · rw [hcomplaints, hcomplaints', h.complaints]
  · rw [hstream, hstream']
    exact h.shared

namespace InStep

lemma pure (a : α) : InStep parting k k (pure a) (pure a) := fun _ _ h => along_pure h

lemma bind {p p' : Parse β} {f f' : β → Parse α} (hp : InStep parting k k₁ p p')
    (hf : ∀ a, InStep parting k₁ k' (f a) (f' a)) : InStep parting k k' (p >>= f) (p' >>= f') :=
  fun s r h => along_bind ((hp s r h).mono (fun a s₁ r₁ h => hf a s₁ r₁ h) fun _ _ _ h => h)

lemma get {f f' : State → Parse α}
    (hf : ∀ s s', s.Unbroken → s.Mates parting k s' → f' s' = f' s)
    (h : ∀ s r, s.Beside parting k r →
      Along (f s) (f' s) s r (fun _ s₁ r₁ => s₁.Beside parting k' r₁) (Stops parting)) :
    InStep parting k k' (get >>= f) (get >>= f') :=
  fun s r hs => along_get (fun s' hs' => hf s s' hs.unbroken (hs.mate s' hs')) (h s r hs)

lemma get_bind {g g' : State → Parse β} {f f' : β → Parse α}
    (hg : InStep parting k k₁ (MonadState.get >>= g) (MonadState.get >>= g'))
    (hf : ∀ b, InStep parting k₁ k' (f b) (f' b)) :
    InStep parting k k' (MonadState.get >>= fun s => g s >>= f)
      (MonadState.get >>= fun s => g' s >>= f') :=
  hg.bind hf

lemma ite {c : Prop} [Decidable c] {p p' q q' : Parse α} (hp : InStep parting k k' p p')
    (hq : InStep parting k k' q q') :
    InStep parting k k' (if c then p else q) (if c then p' else q') := by
  split
  · exact hp
  · exact hq

lemma pass {p p' : Parse α} (hp : InStep parting .on k' p p') : InStep parting .before k' p p' := by
  intro s r h
  obtain ⟨r₁, hr₁, h₁⟩ := h.pass
  exact (hp s r₁ h₁).of_runs _ fun s' hs' => ⟨s', hr₁ s' hs', rfl⟩

/-- Behind what has been read the parser stands on the current token as well as before it. -/
lemma passed {p p' : Parse α} (hp : InStep parting k .before p p') : InStep parting k .on p p' := by
  intro s r h
  refine Ends.imp (p := p) (hp s r h) ?_
  rintro a s₁ ⟨r₁, hr₁, h₁⟩
  obtain ⟨r₂, hr₂, h₂⟩ := h₁.pass
  exact ⟨r₂, fun s₁' hs₁' => hr₁ s₁' (hr₂ s₁' hs₁'), h₂⟩

lemma setDepth (g : Int → Int) :
    InStep parting k k (modify fun s => { s with depth := g s.depth })
      (modify fun s => { s with depth := g s.depth }) := by
  intro s r h
  refine ⟨_, fun s₁' hs₁' => ?_, h.setDepth g⟩
  obtain ⟨s', hs', rfl⟩ := Option.map_eq_some_iff.1 hs₁'
  exact ⟨s', hs', rfl⟩

lemma addDepth (n : Int) : InStep parting k k (addDepth n) (addDepth n) := setDepth (· + n)

lemma advance : InStep parting .on .before advance advance := by
  intro s r h
  cases r with
  | none =>
    obtain ⟨s₁, hrun, hunbroken, -, -, -, -, hstream, hdiagnostics⟩ := h.unbroken.advance
    refine along_of_ok hrun (.of_alone hunbroken ?_)
    rw [hstream]
    exact (h.alone rfl).imp parting.advance (.imp_right (.of_isPrefix · hdiagnostics))
  | some s' =>
    obtain ⟨s₁, s₁', hrun, hrun', hunbroken, -, hm⟩ := (h.mate s' rfl).advance h.unbroken
    rw [Along, Ends, hrun]
    refine ⟨some s₁', ?_, hunbroken, ?_, fun hn => by cases hn⟩
    · rintro _ ⟨rfl⟩
      exact ⟨s', rfl, hrun'⟩
    · rintro _ ⟨rfl⟩
      exact hm

lemma expect (kind : Kind) : InStep parting .on .on (expect kind) (expect kind) := by
  refine get (fun s s' hs hm => by rw [hm.peek hs.steady]) fun s r h => ?_
  split
  · refine bind advance (fun _ => pass (get (fun s s' _ hm => ?_) fun s => pure _ s)) s r h
    rw [hm.current]
  · exact h.reject h.unbroken.steady.head_stream_on _ _

lemma skipSemicolon : InStep parting .on .on skipSemicolon skipSemicolon := by
  refine get (fun s s' hs hm => by rw [hm.peek hs.steady]) fun s r h => ?_
  split
  · exact advance.passed s r h
  · exact pure _ s r h

end InStep

/-! ### Loops -/

/-- The bounds of a loop are large enough for a parser and its mate. -/
def Suffice (parting : Parting) (s : State) (n m : Nat) : Prop :=
  s.ahead.length ≤ n ∧ s.ahead.length + parting.rest'.length ≤ m + parting.rest.length

lemma State.Beside.suffice (h : s.Beside parting k r) :
    ∃ m, Suffice parting s s.tokensLeft m ∧ ∀ s' ∈ r, s'.tokensLeft = m := by
  cases r with
  | none =>
    refine ⟨s.ahead.length + parting.rest'.length, ⟨s.length_ahead_le, by omega⟩, fun s' hs' => ?_⟩
    exact (Option.not_mem_none s' hs').elim
  | some s' =>
    have := (h.mate s' rfl).length_ahead
    have := s'.length_ahead_le
    refine ⟨s'.tokensLeft, ⟨s.length_ahead_le, by omega⟩, ?_⟩
    rintro _ ⟨rfl⟩
    rfl

/-- Where an iteration is taken the bounds allow for it, and for what is left behind it. -/
lemma Suffice.iteration {n m : Nat} (h : Suffice parting s n m) (hb : s.Beside parting k r)
    (hc : s.current.kind ≠ .eof) : 0 < n ∧ (∀ s' ∈ r, 0 < m) ∧
      ∀ s₁ : State, s₁.ahead.length < s.ahead.length → Suffice parting s₁ (n - 1) (m - 1) := by
  obtain ⟨hn, hm⟩ := h
  have pos {u : State} (hu : u.current.kind ≠ .eof) : 0 < u.ahead.length := by
    rw [ahead_cons hu]
    exact Nat.succ_pos _
  have := pos hc
  refine ⟨by omega, fun s' hs' => ?_, fun s₁ hs₁ => ⟨by omega, by omega⟩⟩
  have hmate := hb.mate s' hs'
  have := hmate.length_ahead
  have := pos (hmate.current ▸ hc)
  omega

section Loop

variable {inv : State → Option State → Prop} (beside : ∀ s r, inv s r → s.Beside parting k r)

include beside

/-- A loop keeps what its iterations keep, each of which leaves fewer tokens ahead. The bounds of
the parser and its mate need not be the same. -/
theorem along_loop (loop loop' : Nat → β → Parse α) (test : State → β → Bool) (done : β → α)
    (body body' : (β → Parse α) → β → Parse α)
    (zero : ∀ b, loop 0 b = pure (done b) ∧ loop' 0 b = pure (done b))
    (succ : ∀ n b, loop (n + 1) b =
      (MonadState.get >>= fun s => if test s b then body (loop n) b else pure (done b)) ∧
      loop' (n + 1) b =
        (MonadState.get >>= fun s => if test s b then body' (loop' n) b else pure (done b)))
    (htest : ∀ s s' b, s.Unbroken → s.Mates parting k s' → test s' b = test s b)
    (hlive : ∀ s b, s.Unbroken → test s b = true → s.current.kind ≠ .eof)
    (hbody : ∀ s r b (q q' : β → Parse α), inv s r → test s b = true →
      (∀ b' s₁ r₁, inv s₁ r₁ → s₁.ahead.length < s.ahead.length →
        Along (q b') (q' b') s₁ r₁ (fun _ => inv) (Stops parting)) →
      Along (body q b) (body' q' b) s r (fun _ => inv) (Stops parting))
    (n m : Nat) (b : β) (h : inv s r) (hnm : Suffice parting s n m) :
    Along (loop n b) (loop' m b) s r (fun _ => inv) (Stops parting) := by
  have stop {l : Nat → β → Parse α} {body : (β → Parse α) → β → Parse α}
      (zero : ∀ b, l 0 b = pure (done b))
      (succ : ∀ n b, l (n + 1) b =
        (MonadState.get >>= fun s => if test s b then body (l n) b else pure (done b)))
      (n : Nat) (b : β) (s : State) (ht : test s b = false) : l n b s = .ok (done b) s := by
    cases n with
    | zero => rw [zero]; rfl
    | succ n =>
      rw [succ]
      show (if test s b = true then body (l n) b else pure (done b)) s = _
      rw [if_neg (by rw [ht]; decide)]
      rfl
  have iteration {l : Nat → β → Parse α} {body : (β → Parse α) → β → Parse α}
      (succ : ∀ n b, l (n + 1) b =
        (MonadState.get >>= fun s => if test s b then body (l n) b else pure (done b)))
      (n : Nat) (b : β) (s : State) (hn : 0 < n) (ht : test s b = true) :
      l n b s = body (l (n - 1)) b s := by
    obtain ⟨n, rfl⟩ := Nat.exists_eq_succ_of_ne_zero hn.ne'
    rw [succ]
    show (if test s b = true then body (l n) b else pure (done b)) s = _
    rw [if_pos ht]
    rfl
  obtain ⟨zero, zero'⟩ := forall_and.1 zero
  obtain ⟨succ, succ'⟩ : (∀ n b, _) ∧ ∀ n b, _ :=
    ⟨fun n b => (succ n b).1, fun n b => (succ n b).2⟩
  induction n using Nat.strongRecOn generalizing m b s r with
  | ind n ih =>
    have hb := beside s r h
    have htest' : ∀ s' ∈ r, test s' b = test s b :=
      fun s' hs' => htest s s' b hb.unbroken (hb.mate s' hs')
    cases ht : test s b with
    | false =>
      rw [Along, Ends, stop zero succ n b s ht]
      exact ⟨r, fun s' hs' => ⟨s', hs', stop zero' succ' m b s' (by rw [htest' s' hs', ht])⟩, h⟩
    | true =>
      obtain ⟨hn, hm, hless⟩ := hnm.iteration hb (hlive s b hb.unbroken ht)
      have hrun := (hbody s r b (loop (n - 1)) (loop' (m - 1)) h ht
        fun b' s₁ r₁ h₁ hs₁ => ih (n - 1) (by omega) (m - 1) b' h₁ (hless s₁ hs₁)).of_runs
        (loop' m b) fun s' hs' =>
          ⟨s', hs', iteration succ' m b s' (hm s' hs') (by rw [htest' s' hs', ht])⟩
      rwa [Along, Ends, ← iteration succ n b s hn ht] at hrun

lemma along_collectWhile {test : State → Bool} {step step' : Parse α}
    (htest : ∀ s s', s.Unbroken → s.Mates parting k s' → test s' = test s)
    (hlive : ∀ s, s.Unbroken → test s = true → s.current.kind ≠ .eof)
    (hstep : ∀ s r, inv s r → test s = true → Along step step' s r
      (fun _ s₁ r₁ => inv s₁ r₁ ∧ s₁.ahead.length < s.ahead.length) (Stops parting)) (h : inv s r) :
    Along (get >>= fun s => collectWhile test step s.tokensLeft)
      (get >>= fun s => collectWhile test step' s.tokensLeft) s r (fun _ => inv)
        (Stops parting) := by
  obtain ⟨m, hnm, hm⟩ := (beside s r h).suffice
  refine along_get (q := collectWhile test step' m) (fun s' hs' => by rw [hm s' hs']) ?_
  refine along_loop beside (fun n (_ : Unit) => collectWhile test step n)
    (fun n (_ : Unit) => collectWhile test step' n) (fun s _ => test s) (fun _ => [])
    (fun q _ => do
      let a ← step
      return a :: (← q ()))
    (fun q _ => do
      let a ← step'
      return a :: (← q ()))
    (fun _ => ⟨rfl, rfl⟩) (fun _ _ => ⟨rfl, rfl⟩) (fun s s' _ => htest s s')
    (fun s _ => hlive s) ?_ _ m () h hnm
  intro s r _ q q' h ht hq
  refine along_bind ((hstep s r h ht).mono ?_ fun _ _ _ h => h)
  rintro a s₁ r₁ ⟨h₁, hs₁⟩
  exact along_bind ((hq () s₁ r₁ h₁ hs₁).mono (fun as s₂ r₂ h₂ => along_pure h₂) fun _ _ _ h => h)

lemma along_repeatWhile {test : State → α → Bool} {step step' : α → Parse α}
    (htest : ∀ s s' a, s.Unbroken → s.Mates parting k s' → test s' a = test s a)
    (hlive : ∀ s a, s.Unbroken → test s a = true → s.current.kind ≠ .eof)
    (hstep : ∀ s r a, inv s r → test s a = true → Along (step a) (step' a) s r
      (fun _ s₁ r₁ => inv s₁ r₁ ∧ s₁.ahead.length < s.ahead.length) (Stops parting)) (a : α)
    (h : inv s r) :
    Along (get >>= fun s => repeatWhile test step s.tokensLeft a)
      (get >>= fun s => repeatWhile test step' s.tokensLeft a) s r (fun _ => inv)
        (Stops parting) := by
  obtain ⟨m, hnm, hm⟩ := (beside s r h).suffice
  refine along_get (q := repeatWhile test step' m a) (fun s' hs' => by rw [hm s' hs']) ?_
  refine along_loop beside (repeatWhile test step) (repeatWhile test step') test id
    (fun q a => step a >>= q) (fun q a => step' a >>= q)
    (fun _ => ⟨rfl, rfl⟩) (fun _ _ => ⟨rfl, rfl⟩) htest hlive ?_ _ m a h hnm
  intro s r a q q' h ht hq
  refine along_bind ((hstep s r a h ht).mono ?_ fun _ _ _ h => h)
  rintro a' s₁ r₁ ⟨h₁, hs₁⟩
  exact hq a' s₁ r₁ h₁ hs₁

end Loop

/-- An iteration is taken before the end of input only, and leaves fewer tokens ahead. -/
def Shortens (test : State → Bool) (step : Parse α) : Prop :=
  ∀ s : State, s.Unbroken → test s = true → s.current.kind ≠ .eof ∧
    Ends step s (fun _ s₁ => s₁.ahead.length < s.ahead.length) (fun _ _ => True)

namespace InStep

lemma collectWhile {test : State → Bool} {step step' : Parse α}
    (htest : ∀ s s', s.Unbroken → s.Mates parting k s' → test s' = test s)
    (hless : Shortens test step) (hstep : InStep parting k k step step') :
    InStep parting k k
      (MonadState.get >>= fun s => MonkeyFront.collectWhile test step s.tokensLeft)
      (MonadState.get >>= fun s => MonkeyFront.collectWhile test step' s.tokensLeft) :=
  fun _ _ h => along_collectWhile (fun _ _ h => h) htest (fun s hs ht => (hless s hs ht).1)
    (fun s r h ht => (hstep s r h).and_ends (hless s h.unbroken ht).2) h

lemma repeatWhile {test : State → α → Bool} {step step' : α → Parse α}
    (htest : ∀ s s' a, s.Unbroken → s.Mates parting k s' → test s' a = test s a)
    (hless : ∀ a, Shortens (test · a) (step a)) (hstep : ∀ a, InStep parting k k (step a) (step' a))
    (a : α) : InStep parting k k
      (MonadState.get >>= fun s => MonkeyFront.repeatWhile test step s.tokensLeft a)
      (MonadState.get >>= fun s => MonkeyFront.repeatWhile test step' s.tokensLeft a) :=
  fun _ _ h => along_repeatWhile (fun _ _ h => h) htest (fun s a hs ht => (hless a s hs ht).1)
    (fun s r a h ht => (hstep a s r h).and_ends (hless a s h.unbroken ht).2) a h

end InStep

end MonkeyFront
