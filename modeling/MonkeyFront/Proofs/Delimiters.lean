import MonkeyFront.Proofs.Order
import MonkeyFront.Proofs.Resumption

namespace MonkeyFront

/-! ### Delimiters -/

/-- The tokens `after` stand behind the first semicolon or closing brace among the tokens `ts`; if
there is none, `after` is empty. -/
def IsBehindDelimiter (ts after : List Token) : Prop :=
  (∃ skipped delimiter, ts = skipped ++ delimiter :: after ∧
    (∀ t ∈ skipped, ¬(t.kind = .semicolon ∨ t.kind = .rbrace)) ∧
    (delimiter.kind = .semicolon ∨ delimiter.kind = .rbrace)) ∨
  after = [] ∧ ∀ t ∈ ts, ¬(t.kind = .semicolon ∨ t.kind = .rbrace)

lemma behindDelimiter_append {xs : List Token}
    (h : ∀ t ∈ xs, ¬(t.kind = .semicolon ∨ t.kind = .rbrace)) (ys : List Token) :
    behindDelimiter (xs ++ ys) = behindDelimiter ys := by
  induction xs with
  | nil => rfl
  | cons t xs ih =>
    obtain ⟨ht, hxs⟩ := List.forall_mem_cons.1 h
    rw [List.cons_append, behindDelimiter, if_neg ht, ih hxs]

lemma isBehindDelimiter_behindDelimiter (ts : List Token) :
    IsBehindDelimiter ts (behindDelimiter ts) := by
  induction ts with
  | nil => exact .inr ⟨rfl, by simp⟩
  | cons t ts ih =>
    by_cases ht : t.kind = .semicolon ∨ t.kind = .rbrace
    · exact .inl ⟨[], t, by rw [behindDelimiter, if_pos ht]; rfl, by simp, ht⟩
    rw [behindDelimiter, if_neg ht]
    rcases ih with ⟨skipped, delimiter, hts, hskipped, hdelimiter⟩ | ⟨hnil, hts⟩
    · exact .inl ⟨t :: skipped, delimiter, by rw [List.cons_append, ← hts],
        List.forall_mem_cons.2 ⟨ht, hskipped⟩, hdelimiter⟩
    · exact .inr ⟨hnil, List.forall_mem_cons.2 ⟨ht, hts⟩⟩

theorem isBehindDelimiter_iff {ts after : List Token} :
    IsBehindDelimiter ts after ↔ after = behindDelimiter ts := by
  constructor
  · rintro (⟨skipped, delimiter, rfl, hskipped, hdelimiter⟩ | ⟨rfl, hts⟩)
    · rw [behindDelimiter_append hskipped, behindDelimiter, if_pos hdelimiter]
    · have := behindDelimiter_append hts []
      rw [List.append_nil] at this
      exact this.symm
  · rintro rfl
    exact isBehindDelimiter_behindDelimiter ts

/-! ### Semicolons in blocks -/

/-- The kinds that neither end a statement nor begin or end a block. -/
def Kind.isInline : Kind → Bool
  | .semicolon | .lbrace | .rbrace => false
  | _ => true

lemma Kind.isBrace_isInline {k : Kind} (h : k.isInline = true) : k.isBrace = false := by
  revert h
  cases k <;> decide

lemma Kind.isInline_isUnary {k : Kind} (h : k.isUnary = true) : k.isInline = true := by
  revert h
  cases k <;> decide

lemma Kind.isInline_isBinary {k : Kind} (h : k.isBinary = true) : k.isInline = true := by
  revert h
  cases k <;> decide

lemma Opens.of_append_singleton {ts : List Token} {t : Token} {k : Nat}
    (h : Opens (ts ++ [t]) k) (ht : t.kind.isBrace = false) : Opens ts k := by
  rw [Opens, openBlocks_append] at h
  obtain ⟨m, hm, h⟩ := Option.bind_eq_some_iff.1 h
  rw [(singleton ht).openBlocks_eq m, Nat.add_zero] at h
  rwa [h] at hm

lemma Opens.of_inline {ts : List Token} (h : ∀ t ∈ ts, t.kind.isInline = true) : Balanced ts := by
  induction ts with
  | nil => exact .nil
  | cons t ts ih =>
    exact .cons (Kind.isBrace_isInline (h t List.mem_cons_self)) (ih fun u hu => h u (.tail t hu))

/-- In front of each semicolon a block is open that the tokens open. -/
def ShieldsSemicolons (ts : List Token) : Prop :=
  ∀ init t rest, ts = init ++ t :: rest → t.kind = .semicolon → ¬Balanced init

namespace ShieldsSemicolons

variable {t l r : Token} {xs ys : List Token}

lemma nil : ShieldsSemicolons [] := fun init t rest h => by simp at h

lemma of_append (h : ShieldsSemicolons (xs ++ ys)) : ShieldsSemicolons xs := by
  rintro init t rest rfl
  exact h init t (rest ++ ys) (by simp)

lemma append (hx : ShieldsSemicolons xs) (hbalanced : Balanced xs) (hy : ShieldsSemicolons ys) :
    ShieldsSemicolons (xs ++ ys) := by
  intro init t rest h ht hinit
  rcases List.append_eq_append_iff.1 h with ⟨us, rfl, hys⟩ | ⟨us, hxs, hrest⟩
  · refine hy us t rest hys ht ?_
    rwa [Balanced, Opens, openBlocks_append, hbalanced] at hinit
  · cases us with
    | nil => exact hy [] t rest hrest.symm ht Opens.nil
    | cons u us =>
      obtain ⟨rfl, -⟩ := List.cons.inj hrest
      exact hx init t us hxs ht hinit

lemma singleton (ht : t.kind.isInline = true) : ShieldsSemicolons [t] := by
  intro init u rest h hu
  have hmem : u ∈ [t] := by rw [h]; simp
  rw [List.mem_singleton.1 hmem] at hu
  rw [hu] at ht
  cases ht

lemma cons (ht : t.kind.isInline = true) (h : ShieldsSemicolons xs) :
    ShieldsSemicolons (t :: xs) :=
  (singleton ht).append (.singleton (Kind.isBrace_isInline ht)) h

lemma between (hx : ShieldsSemicolons xs) (hbalanced : Balanced xs) (ht : t.kind.isInline = true)
    (hy : ShieldsSemicolons ys) : ShieldsSemicolons (xs ++ t :: ys) :=
  hx.append hbalanced (.cons ht hy)

lemma of_inline (h : ∀ t ∈ xs, t.kind.isInline = true) : ShieldsSemicolons xs := by
  induction xs with
  | nil => exact .nil
  | cons t xs ih => exact .cons (h t List.mem_cons_self) (ih fun u hu => h u (.tail t hu))

lemma braces (hl : l.kind = .lbrace) (h : Balanced xs) (hr : r.kind = .rbrace) :
    ShieldsSemicolons (l :: xs ++ [r]) := by
  intro init t rest heq ht hinit
  cases init with
  | nil =>
    obtain ⟨rfl, -⟩ := List.cons.inj heq
    cases hl.symm.trans ht
  | cons u init =>
    obtain ⟨rfl, htail⟩ : l = u ∧ xs ++ [r] = init ++ t :: rest := List.cons.inj heq
    have hextends : init ++ [t] <+: xs ++ [r] := ⟨rest, by rw [htail]; simp⟩
    rcases List.prefix_concat_iff.1 hextends with hlast | ⟨us, rfl⟩
    · obtain ⟨-, hr'⟩ := List.append_inj' hlast rfl
      obtain ⟨rfl, -⟩ := List.cons.inj hr'
      cases hr.symm.trans ht
    · -- what closes blocks that are not open within closes the block as well
      rw [Balanced, Opens, List.append_assoc, openBlocks_append] at h
      obtain ⟨k, hk, -⟩ := Option.bind_eq_some_iff.1 h
      have hopen := (Opens.openingBrace hl).append (show Opens init k from hk)
      have := hopen.unique hinit
      omega

end ShieldsSemicolons

lemma SpellsMoreNames.shieldsSemicolons {names ts : List Token} (h : SpellsMoreNames names ts) :
    ShieldsSemicolons ts := by
  induction h with
  | nil => exact .nil
  | cons hc hn _ ih => exact .cons (by rw [hc]; rfl) (.cons (by rw [hn]; rfl) ih)

lemma SpellsNames.shieldsSemicolons {names ts : List Token} (h : SpellsNames names ts) :
    ShieldsSemicolons ts := by
  cases h with
  | nil => exact .nil
  | cons hn h => exact .cons (by rw [hn]; rfl) h.shieldsSemicolons

theorem Spells.shieldsSemicolons {x : Phrase} {ts : List Token} (h : Spells x ts)
    (hx : ∀ ss, x ≠ .stmts ss) : ShieldsSemicolons ts := by
  induction h with
  | name h | integer h => exact .singleton (by rw [h]; rfl)
  | boolean h => exact .singleton (by rcases h with h | h <;> rw [h] <;> rfl)
  | grouped hl h hr ih =>
    exact .cons (by rw [hl]; rfl) (.between (ih nofun) h.balanced (by rw [hr]; rfl) .nil)
  | conditional ht hl hc hr _ ihc ihb =>
    refine .cons (by rw [ht]; rfl) (.cons (by rw [hl]; rfl) ?_)
    exact .between (ihc nofun) hc.balanced (by rw [hr]; rfl) (ihb nofun)
  | alternative ht hl hc hr hb ho _ ihc ihb ihd =>
    refine .cons (by rw [ht]; rfl) (.cons (by rw [hl]; rfl) ?_)
    refine .between (.between (ihc nofun) hc.balanced (by rw [hr]; rfl) (ihb nofun)) ?_
      (by rw [ho]; rfl) (ihd nofun)
    exact hc.balanced.between (by rw [hr]; rfl) hb.balanced
  | function ht hl hn hr _ ih =>
    refine .cons (by rw [ht]; rfl) (.cons (by rw [hl]; rfl) ?_)
    exact .between hn.shieldsSemicolons hn.balanced (by rw [hr]; rfl) (ih nofun)
  | applied _ ih | operand _ ih | chain _ ih | expression _ ih => exact ih nofun
  | call h hl hes hr ih ihs =>
    refine .between (.between (ih nofun) h.balanced (by rw [hl]; rfl) (ihs nofun)) ?_
      (by rw [hr]; rfl) .nil
    exact h.balanced.between (by rw [hl]; rfl) hes.balanced
  | unary ht _ ih => exact .cons (Kind.isInline_isUnary ht) (ih nofun)
  | binary ht _ h _ ihx ihy =>
    exact .between (ihx nofun) h.balanced (Kind.isInline_isBinary ht) (ihy nofun)
  | noArguments | noMoreArguments => exact .nil
  | arguments h _ ihx ihy => exact .append (ihx nofun) h.balanced (ihy nofun)
  | moreArguments hc h _ ihx ihy =>
    exact .cons (by rw [hc]; rfl) (.append (ihx nofun) h.balanced (ihy nofun))
  | binding ht hn ha _ ih =>
    exact .cons (by rw [ht]; rfl) (.cons (by rw [hn]; rfl) (.cons (by rw [ha]; rfl) (ih nofun)))
  | result ht _ ih => exact .cons (by rw [ht]; rfl) (ih nofun)
  | noStmts | ended | unended => exact absurd rfl (hx _)
  | block hl h hr => exact .braces hl h.balanced hr

lemma exists_kinds (ks : List Kind) : ∃ ts, kinds ts = ks := by
  refine ⟨ks.map fun k => ⟨⟨k, ""⟩, ⟨⟨1, 1, 0⟩, ⟨1, 1, 0⟩⟩⟩, ?_⟩
  rw [kinds, List.map_map]
  exact List.map_id ks

lemma Begins.shieldsSemicolons {ys : List Token} (h : Begins .expression (kinds ys)) :
    ShieldsSemicolons ys := by
  obtain ⟨ks, h⟩ := h
  obtain ⟨zs, rfl⟩ := exists_kinds ks
  obtain ⟨e, he⟩ := h.spelled (kinds_append ys zs)
  exact (he.shieldsSemicolons nofun).of_append

/-! ### Rejection outside blocks -/

/-- How a statement at `s` is rejected outside blocks: behind the tokens `passed`, by a complaint
about the first of the tokens `rest`. The parser stands on this token or on the one in front of it,
which is no semicolon. -/
structure State.RejectsOutside (s s₁ : State) (d : Diagnostic) (passed rest : List Token) :
    Prop where
  split : s.ahead = passed ++ rest
  balanced : Balanced passed
  span : d.span = (rest.headD s.last).span
  stands : s₁.ahead = rest ∨ s₁.ahead = s₁.current :: rest ∧ s₁.current.kind ≠ .semicolon

namespace Engine

variable {engine : Engine} {s s₁ : State} {d : Diagnostic}

section Statements

variable (hE : engine.Reads)

include hE

lemma ends_value_shielded {a : Expr Token → Stmt Token} {ys : List Token}
    (hys : ∀ t ∈ ys, t.kind.isInline = true) (h : s.Stands ys s₁) :
    Ends (do
      let value ← engine.expression .lowest
      skipSemicolon
      return a value) s₁ (fun _ _ => True) (s.Fails ShieldsSemicolons) := by
  have hv : Admits ShieldsSemicolons ys .expression := fun zs hzs =>
    (ShieldsSemicolons.of_inline hys).append (.of_inline hys) hzs.shieldsSemicolons
  simp only [ends_bind, ends_pure]
  refine (hE.lowest hv h).imp ?_
  rintro e s₂ ⟨⟨us, h₂, -⟩, -⟩
  exact h₂.skipSemicolon.imp fun _ _ _ => trivial

lemma ends_bindingStatement_shielded (h : s.Stands [] s₁) (hk : s₁.current.kind = .kwLet) :
    Ends engine.bindingStatement s₁ (fun _ _ => True) (s.Fails ShieldsSemicolons) := by
  have h := h.pass (by rw [hk]; rfl) (by rw [hk]; decide)
  unfold bindingStatement
  rw [ends_bind]
  refine (h.expect_pass (.of_inline (by simp [hk, Kind.isInline])) rfl (by decide)).imp ?_
  rintro name s₂ ⟨hname, h₂⟩
  rw [ends_bind]
  refine (h₂.expect_pass (.of_inline (by simp [hk, hname, Kind.isInline])) rfl
    (by decide)).imp ?_
  rintro b s₃ ⟨hb, h₃⟩
  rw [ends_bind]
  refine (hE.advance h₃).imp ?_
  rintro _ s₄ ⟨h₄, -⟩
  exact ends_value_shielded hE (by simp [hk, hname, hb, Kind.isInline]) h₄

/-- Where a statement fails, the semicolons that have been passed stand in blocks. -/
lemma ends_statement_shielded (h : s.Stands [] s₁) :
    Ends engine.statement s₁ (fun _ _ => True) (s.Fails ShieldsSemicolons) := by
  unfold statement
  rw [ends_bind, ends_get]
  split
  · exact ends_bindingStatement_shielded hE h ‹_›
  · next hk =>
    unfold resultStatement
    rw [ends_bind]
    refine (hE.advance (h.pass (by rw [hk]; rfl) (by rw [hk]; decide))).imp ?_
    rintro _ s₂ ⟨h₂, -⟩
    exact ends_value_shielded hE (by simp [hk, Kind.isInline]) h₂
  · unfold expressionStatement
    rw [ends_bind, ends_get]
    exact ends_value_shielded hE (by simp) h

end Statements

/-- A statement that is rejected where no block is open is rejected outside blocks, unless it nests
too deeply. -/
theorem exists_rejectsOutside (hE : engine.Reads) (hs : s.Steady) (hd : s.depth = 0)
    (hrun : engine.outerStatement s = .error (.rejected d) s₁)
    (hshallow : d.complaint ≠ .nestedTooDeeply) (hclosed : s₁.depth = 0) :
    ∃ passed rest, s.RejectsOutside s₁ d passed rest := by
  have balanced {xs : List Token} {s' : State}
      (h : ∃ k : Nat, Opens xs k ∧ s'.depth = s.depth + k) (h0 : s'.depth = 0) : Balanced xs := by
    obtain ⟨k, hk, hdepth⟩ := h
    obtain rfl : k = 0 := by omega
    exact hk
  have current {xs : List Token} {s' : State} (complaint : Complaint) (h : s.Stands xs s')
      (h0 : s'.depth = 0) : s.RejectsOutside (s'.report complaint s'.current)
        ⟨complaint, s'.current.span⟩ xs s'.ahead :=
    ⟨h.ahead, balanced h.opens h0, by rw [← h.last, ← h.steady.current_eq], .inl rfl⟩
  have hends : Ends engine.outerStatement s (fun _ _ => True) fun f s' =>
      ∀ d, f = .rejected d → d.complaint ≠ .nestedTooDeeply → s'.depth = 0 → ∃ passed rest,
        s.RejectsOutside s' d passed rest := by
    unfold outerStatement
    rw [ends_tryCatch]
    refine (ends_statement_shielded hE (.refl hs)).mono (fun _ _ _ => trivial) fun f s' hf => ?_
    cases hf with
    | scan => exact fun _ h => nomatch h
    | tooDeep | overrun =>
      simp only [ends_bind, ends_get, ends_reject]
      rintro _ ⟨rfl⟩ hshallow
      exact absurd rfl hshallow
    | current complaint _ _ _ h =>
      rintro _ ⟨rfl⟩ - h0
      exact ⟨_, _, current complaint h h0⟩
    | @peek xs s' complaint _ _ hv h =>
      rintro _ ⟨rfl⟩ - h0
      have hbalanced := balanced h.opens h0
      refine ⟨xs, s'.behind, h.ahead, hbalanced, by rw [← h.last, ← h.steady.peek_eq], ?_⟩
      by_cases hc : s'.current.kind = .eof
      · exact .inl ((State.ahead_eq_nil (s := s') hc).trans (State.behind_eq_nil hc).symm)
      refine .inr ⟨State.ahead_cons (s := s') hc, fun (hk : s'.current.kind = .semicolon) => ?_⟩
      obtain ⟨init, rfl⟩ := h.stops
      exact hv init _ [] rfl hk (hbalanced.of_append_singleton (by rw [hk]; rfl))
  exact hends.of_error hrun d rfl hshallow hclosed

end Engine

namespace State.RejectsOutside

variable {s s₁ : State} {d : Diagnostic} {passed rest : List Token}
  (h : s.RejectsOutside s₁ d passed rest) (hclosed : s₁.depth = 0)

include hclosed

lemma resumption_of_closing (hs : s₁.StandsOnClosing rest) : s₁.resumption = rest := by
  rw [resumption, if_pos hclosed, hs.1, behindDelimiter, if_pos (.inr hs.2)]

include h

lemma resumption_of_not_closing (hs : ¬s₁.StandsOnClosing rest) :
    s₁.resumption = behindDelimiter rest := by
  rw [resumption, if_pos hclosed]
  rcases h.stands with ha | ⟨ha, hk⟩
  · rw [ha]
  · rw [ha, behindDelimiter, if_neg (not_or.2 ⟨hk, fun hr => hs ⟨ha, hr⟩⟩)]

/-- A parser that abandons a statement outside blocks goes on behind the next delimiter, unless it
stands on a closing brace that it has passed before the complaint. -/
theorem resumption_eq_iff :
    s₁.resumption = behindDelimiter rest ↔ ¬s₁.StandsOnClosing rest ∨ rest = [] := by
  by_cases hs : s₁.StandsOnClosing rest
  · rw [resumption_of_closing hclosed hs, or_iff_right (not_not_intro hs)]
    refine ⟨fun heq => eq_nil_of_suffix_tail ?_, fun hnil => by rw [hnil]; rfl⟩
    have := behindDelimiter_suffix rest
    rwa [← heq] at this
  · exact iff_of_true (h.resumption_of_not_closing hclosed hs) (.inl hs)

end State.RejectsOutside

/-! ### Places -/

lemma tokensIn_sublist (items : List Scanned) :
    (tokensIn items).Sublist (tokensAmong items) := by
  fun_induction tokensIn items with
  | case1 => exact List.Sublist.slnil
  | case2 => exact List.nil_sublist _
  | case3 t rest _ ih => exact ih.cons t
  | case4 t rest _ ih => exact ih.cons_cons t

/-- What a statement that is rejected outside blocks is complained about stands in front of where
every statement behind it begins, and of what that statement may be complained about. -/
lemma State.RejectsOutside.place_lt {engine : Engine} (hE : engine.Reads) {s s₁ s₂ : State}
    {d : Diagnostic} {passed rest : List Token} (h : s.RejectsOutside s₁ d passed rest)
    (hplaces : (s.ahead ++ [s.last]).Pairwise (·.place < ·.place)) (hs : s₂.Steady)
    (hlast : s₂.last = s.last) (hahead : s₂.ahead.Sublist rest.tail) (hc : s₂.current.kind ≠ .eof) :
    d.place < s₂.current.place ∧
      ∀ d' s', engine.outerStatement s₂ = .error (.rejected d') s' → d.place < d'.place := by
  cases rest with
  | nil =>
    have := List.sublist_nil.1 hahead
    rw [State.ahead_cons hc] at this
    cases this
  | cons t rest =>
    have hlt : ∀ u ∈ rest ++ [s.last], d.place < u.place := by
      have hsplit := h.split ▸ hplaces
      rw [List.append_assoc] at hsplit
      rw [Diagnostic.place, h.span]
      exact (List.pairwise_cons.1 (List.pairwise_append.1 hsplit).2.1).1
    refine ⟨hlt _ (List.mem_append_left _ (hahead.subset ?_)), fun d' s' hrun => ?_⟩
    · rw [State.ahead_cons hc]
      exact List.mem_cons_self
    · rcases (Engine.ends_outerStatement hE hs).of_error hrun with ⟨_, ⟨rfl⟩, hr⟩ | ⟨e, he, -⟩
      · obtain ⟨u, hu, hspan⟩ := hr.exists_token
        rw [Diagnostic.place.eq_1 d', hspan]
        rw [hlast] at hu
        exact hlt u ((hahead.append_right _).subset hu)
      · cases he

/-! ### Iterations -/

/-- Where a statement of a program is abandoned outside blocks, other than for its nesting, reading
goes on behind the first delimiter from the token on that is complained about, if and only if the
parser does not stand on a closing brace that it has passed before the complaint, or nothing is left
to read; else it goes on at this token. Where it goes on behind the delimiter, no later statement
begins in front of it, and none is complained about at the same token. -/
theorem resumes_iff_of_rejected_outside_blocks (bound : Bound) {source : String} {s₀ s s₁ : State}
    {rs : List (Option (Stmt Token))} {d : Diagnostic}
    (hstart : State.start .standard true (.ofText source) = .ok s₀)
    (hrs : (Engine.ofBound bound).Iterations s₀ rs s)
    (hrun : (Engine.ofBound bound).outerStatement s = .error (.rejected d) s₁)
    (hshallow : d.complaint ≠ .nestedTooDeeply) (hclosed : s₁.depth = 0) :
    s.ahead.Sublist (tokensIn (Scan.ofText source).items) ∧
    ∃ passed rest after, s.RejectsOutside s₁ d passed rest ∧ IsBehindDelimiter rest after ∧
      Ends (Engine.ofBound bound).iteration s
        (fun r s₂ => r = none ∧
          (s₂.ahead = after ↔ ¬s₁.StandsOnClosing rest ∨ rest = []) ∧
          (s₁.StandsOnClosing rest → s₂.ahead = rest) ∧
          (¬s₁.StandsOnClosing rest → ∀ rs' s₃, (Engine.ofBound bound).Iterations s₂ rs' s₃ →
            s₃.ahead.Sublist after ∧ (s₃.current.kind ≠ .eof → d.place < s₃.current.place ∧
              ∀ d' s₄, (Engine.ofBound bound).outerStatement s₃ = .error (.rejected d') s₄ →
                d.place < d'.place)))
        (fun f _ => s.BreaksOff f) := by
  have hE := Engine.reads_ofBound bound
  obtain ⟨hstarts, hrecover⟩ := State.starts hstart
  obtain ⟨hs, hd, hr, -, hahead, -⟩ := hrs.keep hE hstarts.steady hstarts.depth
  rw [hstarts.ahead] at hahead
  have hplaces : (s.ahead ++ [s.last]).Pairwise (·.place < ·.place) := by
    rw [hrs.last hE hstarts.steady hstarts.depth, hstarts.last]
    refine (Scan.pairwise_place source).sublist ?_
    exact (hahead.trans (tokensIn_sublist _)).append_right _
  refine ⟨hahead, ?_⟩
  obtain ⟨passed, rest, h⟩ := Engine.exists_rejectsOutside hE hs hd hrun hshallow hclosed
  refine ⟨passed, rest, _, h, isBehindDelimiter_iff.2 rfl,
    (Engine.ends_iteration hE hs hd).mono ?_ ?_⟩
  · intro r s₂ hiterated
    have hsteady := hiterated.steady
    have hlast := hiterated.last
    have hdepth := hiterated.depth hd
    cases hiterated with
    | read run => cases run.symm.trans hrun
    | abandoned run _ _ _ _ ha =>
      cases run.symm.trans hrun
      rw [ha]
      refine ⟨rfl, h.resumption_eq_iff hclosed,
        State.RejectsOutside.resumption_of_closing hclosed, fun hn rs' s₃ hlater => ?_⟩
      obtain ⟨hs₃, -, -, -, hahead₃, -⟩ := hlater.keep hE hsteady hdepth
      rw [ha, h.resumption_of_not_closing hclosed hn] at hahead₃
      refine ⟨hahead₃, h.place_lt hE hplaces hs₃ ?_
        (hahead₃.trans (behindDelimiter_suffix rest).sublist)⟩
      exact (hlater.last hE hsteady hdepth).trans hlast
  · rintro f s' (⟨hstrict, -⟩ | hf)
    · rw [hr, hrecover] at hstrict
      cases hstrict
    · exact hf

lemma rejected_behind_closed_function :
    (match State.start .standard true (.ofText "(fn() \x7b 1 \x7d 2; 3") with
    | .error _ => false
    | .ok s => match (Engine.ofBound 10).outerStatement s, (Engine.ofBound 10).iteration s with
      | .error (.rejected d) s₁, .ok none _ => s₁.depth == 0 && s₁.current.kind == .rbrace &&
        d.span != s₁.current.span && d.span != s.last.span &&
        d.complaint != .nestedTooDeeply
      | _, _ => false) = true := by
  decide +kernel

/-- Behind a function that is closed before the complaint, reading goes on at the token that is
complained about. -/
theorem resumes_at_complaint_behind_closed_function : ∃ s₀ s₁ s₂ d passed rest after,
    State.start .standard true (.ofText "(fn() { 1 } 2; 3") = .ok s₀ ∧
      (Engine.ofBound 10).outerStatement s₀ = .error (.rejected d) s₁ ∧
      d.complaint ≠ .nestedTooDeeply ∧ s₁.depth = 0 ∧
      s₀.RejectsOutside s₁ d passed rest ∧ IsBehindDelimiter rest after ∧
      (Engine.ofBound 10).iteration s₀ = .ok none s₂ ∧ s₂.ahead = rest ∧ s₂.ahead ≠ after := by
  have hrun := rejected_behind_closed_function
  cases hstart : State.start .standard true (.ofText "(fn() { 1 } 2; 3") with
  | error e => simp only [hstart, Bool.false_eq_true] at hrun
  | ok s₀ =>
    simp only [hstart] at hrun
    split at hrun
    · next d s₁ s₂ houter hiter =>
      simp only [Bool.and_eq_true, bne_iff_ne, ne_eq, beq_iff_eq] at hrun
      obtain ⟨⟨⟨⟨hclosed, hr⟩, hspan⟩, hlast⟩, hshallow⟩ := hrun
      obtain ⟨-, passed, rest, after, h, hafter, hends⟩ :=
        resumes_iff_of_rejected_outside_blocks 10 hstart (.nil s₀) houter hshallow hclosed
      obtain ⟨-, hiff, hrest, -⟩ := hends.of_ok hiter
      have hstands : s₁.StandsOnClosing rest := by
        rcases h.stands with ha | ⟨ha, -⟩
        · rw [h.span, ← ha, State.ahead_cons (by rw [hr]; decide)] at hspan
          exact absurd rfl hspan
        · exact ⟨ha, hr⟩
      refine ⟨s₀, s₁, s₂, d, passed, rest, after, rfl, houter, hshallow, hclosed, h, hafter, hiter,
        hrest hstands, fun he => ?_⟩
      rcases hiff.1 he with hn | rfl
      · exact hn hstands
      · exact hlast h.span
    · cases hrun

end MonkeyFront
