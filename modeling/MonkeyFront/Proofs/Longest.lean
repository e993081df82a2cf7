import MonkeyFront.Proofs.SharedOperations
import MonkeyFront.Proofs.Bounds

/-!
# The longest expression

By a precedence a parser reads the longest expression in front of it whose operators and calls at
the top all bind more tightly (`State.HasReadLongest`).
-/

namespace MonkeyFront

/-! ### The operators at the top of an expression -/

/-- The sequence of kinds `ks` is derived from a symbol, and `ops` are the operators and calls in it
that stand outside of parentheses, arguments, blocks and operands of prefix operators. A call is
named by its opening parenthesis. -/
inductive DerivesWith : Symbol → List Kind → List Kind → Prop
  | operand {ops xs} : DerivesWith .unary ops xs → DerivesWith .expression ops xs
  | operator {ops ops' xs op ys} : DerivesWith .expression ops xs → op.isBinary = true →
      DerivesWith .unary ops' ys → DerivesWith .expression (ops ++ op :: ops') (xs ++ op :: ys)
  | unary {op xs} : op.isUnary = true → Derives .unary xs → DerivesWith .unary [] (op :: xs)
  | unaryApplied {ops xs} : DerivesWith .applied ops xs → DerivesWith .unary ops xs
  | appliedPrimary {xs} : Derives .primary xs → DerivesWith .applied [] xs
  | call {ops xs ys} : DerivesWith .applied ops xs → Derives .arguments ys →
      DerivesWith .applied (ops ++ [.lparen]) (xs ++ .lparen :: ys ++ [.rparen])

namespace DerivesWith

lemma derives {sym : Symbol} {ops ks : List Kind} (h : DerivesWith sym ops ks) :
    Derives sym ks := by
  induction h with
  | operand _ ih => exact .operand ih
  | operator _ hop _ ihx ihy => exact .operator ihx hop ihy
  | unary hop h => exact .unary hop h
  | unaryApplied _ ih => exact .unaryApplied ih
  | appliedPrimary h => exact .appliedPrimary h
  | call _ hs ih => exact .call ih hs

lemma operators {ops ops' xs ys : List Kind} {op : Kind} (hx : DerivesWith .expression ops xs)
    (hop : op.isBinary = true) (hy : DerivesWith .expression ops' ys) :
    DerivesWith .expression (ops ++ op :: ops') (xs ++ op :: ys) := by
  generalize hsym : Symbol.expression = sym at hy
  induction hy with
  | operand hy => exact .operator hx hop hy
  | operator _ hop' hz ih _ =>
    have h := DerivesWith.operator (ih hsym) hop' hz
    simpa only [List.append_assoc, List.cons_append] using h
  | _ => cases hsym

end DerivesWith

/-! ### From spellings -/

lemma SpellsFirst.derivesWith {form : Form} {e : Expr Token} {ts : List Token}
    (h : SpellsFirst form e ts) : DerivesWith .expression [] (kinds ts) := by
  cases h with
  | primary h => exact .operand (.unaryApplied (.appliedPrimary h.derived))
  | unary ht h => exact .operand (.unary ht h.derived)

namespace Spells

lemma exists_calls {e : Expr Token} {ts : List Token} (h : Spells (.expr .applied e) ts) :
    ∃ ops, DerivesWith .applied ops (kinds ts) ∧ ∀ op ∈ ops, op = .lparen := by
  generalize hx : Phrase.expr .applied e = x at h
  induction h generalizing e with
  | applied h => exact ⟨[], .appliedPrimary h.derived, by simp⟩
  | call _ ht hs hr ih _ =>
    obtain ⟨ops, h, hops⟩ := ih rfl
    refine ⟨ops ++ [.lparen], by simpa [ht, hr] using h.call hs.derived, ?_⟩
    rw [List.forall_mem_append, List.forall_mem_singleton]
    exact ⟨hops, rfl⟩
  | _ => cases hx

lemma exists_calls_of_operand {e : Expr Token} {ts : List Token}
    (h : Spells (.expr .operand e) ts) :
    ∃ ops, DerivesWith .unary ops (kinds ts) ∧ ∀ op ∈ ops, op = .lparen := by
  cases h with
  | operand h =>
    obtain ⟨ops, h, hops⟩ := h.exists_calls
    exact ⟨ops, .unaryApplied h, hops⟩
  | unary ht h => exact ⟨[], .unary ht h.derived, by simp⟩

/-- The operators at the top of a chain bind more tightly than its level. -/
lemma exists_derivesWith {n : Nat} {e : Expr Token} {ts : List Token}
    (h : Spells (.expr (.chain n) e) ts) (hn : n ≤ 6) :
    ∃ ops, DerivesWith .expression ops (kinds ts) ∧ ∀ op ∈ ops, n < op.level := by
  generalize hx : Phrase.expr (.chain n) e = x at h
  induction h generalizing n e with
  | chain h =>
    cases hx
    obtain ⟨ops, h, hops⟩ := h.exists_calls_of_operand
    refine ⟨ops, .operand h, fun op hop => ?_⟩
    rw [hops op hop]
    exact Nat.lt_succ_of_le hn
  | @binary _ t _ _ _ _ ht hlevel _ _ ihx ihy =>
    cases hx
    have hbound := Kind.level_isBinary ht
    obtain ⟨ops, hx, hops⟩ := ihx (by omega) rfl
    obtain ⟨ops', hy, hops'⟩ := ihy (by omega) rfl
    refine ⟨ops ++ t.kind :: ops', ?_, ?_⟩
    · rw [kinds_append, kinds_cons]
      exact hx.operators ht hy
    · rw [List.forall_mem_append, List.forall_mem_cons]
      refine ⟨fun op hop => ?_, hlevel, fun op hop => hlevel.trans (hops' op hop)⟩
      have := hops op hop
      omega
  | _ => cases hx

end Spells

/-! ### To spellings -/

namespace DerivesWith

lemma exists_chain {n : Nat} {ops : List Kind} {ts : List Token}
    (h : DerivesWith .expression ops (kinds ts)) (hops : ∀ op ∈ ops, n < op.level) :
    ∃ e, Spells (.expr (.chain n) e) ts := by
  generalize hsym : Symbol.expression = sym at h
  generalize hks : kinds ts = ks at h
  induction h generalizing ts with
  | operand h =>
    obtain ⟨e, he⟩ := h.derives.spelled hks
    exact ⟨e, .chain he⟩
  | operator _ hop hy ih _ =>
    obtain ⟨xs, us, rfl, hxs, hus⟩ := kinds_eq_append hks
    obtain ⟨t, ys, rfl, rfl, hys⟩ := kinds_eq_cons hus
    obtain ⟨e, he⟩ := ih (fun op h => hops op (List.mem_append_left _ h)) hsym hxs
    obtain ⟨u, hu⟩ := hy.derives.spelled hys
    exact he.exists_operator hop (hops _ (by simp)) hu
  | _ => cases hsym

lemma exists_prefixFn {ts : List Token} (h : DerivesWith .expression [] (kinds ts)) :
    ∃ form e, SpellsFirst form e ts := by
  generalize hops : ([] : List Kind) = ops at h
  generalize hks : kinds ts = ks at h
  cases h with
  | operator => simp at hops
  | operand h =>
    cases h with
    | unary hop h =>
      obtain ⟨t, us, rfl, rfl, hus⟩ := kinds_eq_cons hks
      obtain ⟨e, he⟩ := h.spelled hus
      exact ⟨_, _, .unary hop he⟩
    | unaryApplied h =>
      cases h with
      | appliedPrimary h =>
        obtain ⟨e, he⟩ := h.spelled hks
        exact ⟨_, e, .primary he⟩
      | call => simp at hops

end DerivesWith

/-! ### Layers -/

/-- Only calls bind more tightly than the operators in front of an operand. -/
lemma Precedence.eq_call {p : Precedence} (h : ¬p.rank ≤ 6) : p = .call := by
  cases p <;> first | rfl | exact absurd (by decide) h

namespace Engine

variable {engines : Site → Engine} {bound : Bound} {p q : Precedence} {e : Expr Token}
variable {s s' : State}

/-- A layer reads the beginning of an expression by a prefix function and goes on from there. -/
lemma ends_layer_goOn (engines : Site → Engine) (p : Precedence) (s : State) :
    Ends (layer engines p) s
      (fun e s' => ∃ rule left s₁, s.rules.prefixFn s.current.kind = some rule ∧
        applyPrefixFn engines rule s = .ok left s₁ ∧
        goOn engines p s₁.tokensLeft left s₁ = .ok e s')
      (fun _ _ => True) := by
  unfold layer
  rw [ends_bind, ends_get]
  split
  · trivial
  · next rule hrule =>
    rw [ends_bind]
    refine .of_run fun left s₁ hprefixFn => ?_
    rw [ends_bind, ends_get]
    exact .of_run fun e s' hloop => ⟨rule, left, s₁, hrule, hprefixFn, hloop⟩

lemma goOn_call (n : Nat) (e : Expr Token) (s : State) : goOn engines .call n e s = .ok e s := by
  have hp : ¬Precedence.call < s.peekPrecedence := by
    cases s.peekPrecedence <;> decide
  cases n with
  | zero => rfl
  | succ n => rw [goOn, repeatWhile_succ, if_neg (by simp [hp])]

lemma frames_pos_of_ok (h : (ofBound bound).expression p s = .ok e s') : 0 < bound.frames := by
  obtain ⟨frames, extra⟩ := bound
  cases frames with
  | zero => cases h
  | succ frames => exact Nat.succ_pos _

/-- An expression is read whose operators at the top bind more tightly than the precedence, up to a
token that does not. -/
theorem exists_operators_of_ok (hs : s.Steady) (h : (ofBound bound).expression p s = .ok e s') :
    ∃ ts ops, s.Passes ts s' ∧ Spells (.expr (.chain p.rank) e) ts ∧
      DerivesWith .expression ops (kinds ts) ∧ (∀ op ∈ ops, p.rank < op.level) ∧
      s'.peek.kind.level ≤ p.rank := by
  obtain ⟨⟨ts, hpasses, hspells⟩, hpeek⟩ :=
    ((reads_ofBound bound).expression _ p _ _ _ .trivial (.refl hs)).of_ok h
  rw [hpasses.steady.headKind_behind] at hpeek
  by_cases hp : p.rank ≤ 6
  · obtain ⟨ops, hderives, hops⟩ := hspells.exists_derivesWith hp
    exact ⟨ts, ops, hpasses, hspells, hderives, hops, hpeek⟩
  obtain rfl := Precedence.eq_call hp
  obtain ⟨engines, hengines, hlayer⟩ := exists_layer (frames_pos_of_ok h)
  rw [hlayer] at h
  obtain ⟨rule, left, s₁, hrule, hprefixFn, hloop⟩ := (ends_layer_goOn _ _ _).of_ok h
  obtain ⟨rfl, rfl⟩ := EStateM.Result.ok.inj ((goOn_call _ _ _).symm.trans hloop)
  rw [hs.rules] at hrule
  obtain ⟨form, ys, hpasses', hled, -⟩ :=
    (ends_applyPrefixFn (fun site => (hengines site).reads) .trivial (.refl hs) hrule).of_ok
    hprefixFn
  obtain rfl := hpasses.unique hpasses'
  exact ⟨ts, [], hpasses, hspells, hled.derivesWith, by simp, hpeek⟩

/-- The tokens of an expression whose operators at the top bind more tightly than the precedence are
all read. -/
theorem exists_yields_of_derivesWith {ops : List Kind} {ts : List Token}
    (h : DerivesWith .expression ops (kinds ts)) (hops : ∀ op ∈ ops, p.rank < op.level) :
    ∃ e, ∀ bound s, s.IsAt ts → Yields ((ofBound bound).expression p) s e [] := by
  by_cases hp : p.rank ≤ 6
  · obtain ⟨e, he⟩ := h.exists_chain hops
    refine ⟨e, fun bound s hs => ?_⟩
    have hlow : 1 ≤ p.rank := by cases p <;> decide
    exact he.isRead.yields (bounded_ofBound bound) hp ⟨le_rfl, Nat.le_succ_of_le hlow, by decide⟩
      hlow (by decide)
      (by rwa [List.append_nil])
  obtain rfl := Precedence.eq_call hp
  obtain rfl : ops = [] := List.eq_nil_iff_forall_not_mem.2 fun op hop =>
    absurd (hops op hop) (by cases op <;> decide)
  obtain ⟨form, e, he⟩ := h.exists_prefixFn
  obtain ⟨rule, hrule, hreads⟩ := he.isLed
  refine ⟨e, fun bound s hs => ?_⟩
  have hbounded := bounded_ofBound bound
  generalize ofBound bound = engine at hbounded
  cases hbounded with
  | empty => trivial
  | @layer _ engines hengines =>
    have hadmits : form.Admits .unary .eof := by
      cases he with
      | primary => trivial
      | unary => exact show Kind.eof.level ≤ 6 by decide
    refine ends_layer hs.steady (by rwa [hs.kind])
      (hreads engines [] s hengines hadmits (by decide) ?_) fun s₁ n h₁ _ =>
        goOn_stop h₁ (by decide) n
    rwa [List.append_nil]

end Engine

/-! ### Nothing longer is read -/

namespace State

variable {s s' : State}

/-- A parser in front of two tokens or more has a mate in front of these tokens and no others. -/
lemma Unbroken.exists_beside (hs : s.Unbroken) {zs us : List Token} (h : s.ahead = zs ++ us)
    (hlength : 2 ≤ zs.length) (hproper : ∀ k ∈ kinds zs, k.isProper = true) :
    ∃ m : State, m.IsAt zs ∧
      s.Beside (.atRest (us ++ [s.last]) [s.last] False) .before (some m) := by
  obtain ⟨c, d, ws, rfl⟩ : ∃ c d ws, zs = c :: d :: ws := by
    match zs, hlength with
    | c :: d :: ws, _ => exact ⟨c, d, ws, rfl⟩
  have proper {t : Token} (ht : t ∈ c :: d :: ws) : t.kind ≠ .eof ∧ t.kind ≠ .illegal := by
    have hk := hproper _ (List.mem_map_of_mem ht)
    constructor <;> intro he <;> rw [he] at hk <;> cases hk
  have hc : s.current = c := by rw [hs.steady.current_eq, h]; rfl
  have hd : s.peek = d := by rw [hs.steady.peek_eq, behind, h]; rfl
  have hlegal : ws.filter (·.kind ≠ .illegal) = ws := List.filter_eq_self.2 fun t ht =>
    decide_eq_true (proper (List.mem_cons_of_mem _ (List.mem_cons_of_mem _ ht))).2
  let m : State := { s with upcoming := ws.map .ok }
  have hm : m.ahead = c :: d :: ws := by
    have hall : (c :: d :: ws).takeWhile (·.kind ≠ .eof) = c :: d :: ws :=
      List.takeWhile_eq_self_iff.2 fun t ht => decide_eq_true (proper ht).1
    simp only [m, ahead, hc, hd, tokensIn_map_ok, hlegal, hall]
  have hunbroken : m.Unbroken := by
    refine ⟨⟨hs.steady.rules, fun t ht => ?_, hs.steady.last, fun hp => ?_, fun hp => ?_⟩, ?_⟩
    · obtain ⟨u, hu, hut⟩ := List.mem_map.1 ht
      cases hut
      exact (proper (List.mem_cons_of_mem _ (List.mem_cons_of_mem _ hu))).1
    · exact absurd hp (hd ▸ (proper (by simp)).1)
    · exact absurd hp (hc ▸ (proper (by simp)).1)
    · simp [m]
  have hstream : s.stream .before = c :: d :: ws ++ (us ++ [s.last]) := by
    rw [stream, h, List.append_assoc]
  have hstream' : m.stream .before = c :: d :: ws ++ [s.last] := by rw [stream, hm]
  exact ⟨m, ⟨hunbroken.steady, hm⟩,
    hs.beside hunbroken rfl rfl rfl (List.cons_ne_nil c _) hstream hstream'⟩

end State

namespace Engine

variable {bound : Bound} {p : Precedence} {e : Expr Token} {s s' : State}

/-- What could have been read, with operators at the top that all bind more tightly than the
precedence, is no longer than what has been read. -/
theorem isPrefix_of_derivesWith (hs : s.Unbroken) (h : (ofBound bound).expression p s = .ok e s')
    {ts zs : List Token} (hpasses : s.Passes ts s') (hz : zs <+: s.ahead) {ops : List Kind}
    (hderives : DerivesWith .expression ops (kinds zs)) (hops : ∀ op ∈ ops, p.rank < op.level) :
    zs <+: ts := by
  obtain hle | ⟨_ | ⟨t, ws⟩, rfl⟩ := List.prefix_or_prefix_of_prefix hz ⟨_, hpasses.ahead.symm⟩
  · exact hle
  · rw [List.append_nil]
  -- The mate has no more than the longer expression in front of it, and would read all of it.
  exfalso
  obtain ⟨us, hus⟩ := hz
  obtain ⟨init, hinit⟩ := hpasses.stops
  have hlength : 2 ≤ (ts ++ t :: ws).length := by
    rw [hinit]
    simp only [List.length_append, List.length_cons]
    omega
  obtain ⟨m, hm, hbeside⟩ :=
    hs.exists_beside hus.symm hlength fun k hk => hderives.derives.isProper k hk
  obtain ⟨e', hyields⟩ := exists_yields_of_derivesWith hderives hops
  obtain ⟨r, hr, hbeside'⟩ := ((staysInStep_succ bound).expression p s _ hbeside).of_ok h
  cases r with
  | none =>
    have hbehind : s'.behind = t :: ws ++ us := by
      have hahead := hus.trans hpasses.ahead
      rw [List.append_assoc] at hahead
      exact (List.append_cancel_left hahead).symm
    have hle := ((hbeside'.alone rfl).resolve_right And.left).length_le
    rw [State.stream, hbehind] at hle
    simp only [List.length_append, List.length_cons, List.length_nil] at hle
    omega
  | some m' =>
    obtain ⟨_, ⟨rfl⟩, hrun⟩ := hr m' rfl
    obtain ⟨-, hend⟩ := (hyields bound.succ m hm).of_ok hrun
    obtain ⟨us', hne, -, hshared⟩ := (hbeside'.mate m' rfl).shared
    have hle := congrArg List.length hshared
    rw [State.stream, hend.behind] at hle
    simp only [Parting.atRest, List.length_append, List.length_cons, List.length_nil] at hle
    exact hne (List.length_eq_zero_iff.1 (by omega))

end Engine

/-! ### Left spines -/

/-- An expression stands on the left spine of another one: it is this one itself, or it is met on
the way down by left operands and callees. -/
inductive Expr.OnLeftSpine {τ : Type} (d : Expr τ) : Expr τ → Prop
  | refl : OnLeftSpine d d
  | binary {t left right} : OnLeftSpine d left → OnLeftSpine d (.binary t left right)
  | call {t callee arguments} : OnLeftSpine d callee → OnLeftSpine d (.call t callee arguments)

lemma Expr.OnLeftSpine.trans {τ : Type} {c d e : Expr τ} (h : c.OnLeftSpine d)
    (h' : d.OnLeftSpine e) : c.OnLeftSpine e := by
  induction h' with
  | refl => exact h
  | binary _ ih => exact .binary ih
  | call _ ih => exact .call ih

namespace Engine

variable {engines : Site → Engine} {bound bound' : Bound} {n : Nat} {p q : Precedence}
    {e e' left : Expr Token} {s s' s'' : State}

lemma ends_extend_onLeftSpine (engines : Site → Engine) (left : Expr Token)
    (hr : s.rules = .standard) :
    Ends (extend engines left) s (fun d _ => left.OnLeftSpine d) (fun _ _ => True) := by
  unfold extend
  rw [ends_bind, ends_get, hr]
  split
  · exact .refl
  · next rule hrule =>
    rw [ends_bind]
    refine .of_run fun _ s₁ _ => ?_
    cases rule with
    | binary =>
      simp only [applyInfixFn, binaryExpression, ends_bind, ends_get, ends_pure]
      exact .of_run fun _ s₂ _ => .of_run fun right s₃ _ => .binary .refl
    | call =>
      simp only [applyInfixFn, callExpression, ends_bind, ends_get, ends_pure]
      exact .of_run fun es s₂ _ => .call .refl
    | script => exact (Rules.fits_infixFn hrule).elim

section Loop

variable (hE : ∀ site, (engines site).Bounded)

include hE

lemma ends_extend_standard (left : Expr Token) (hr : s.rules = .standard) :
    Ends (extend engines left) s (fun _ s₁ => s₁.rules = .standard) (fun _ _ => True) := by
  have hmirrors (site : Site) : (engines site).Mirrors IsSame (fun _ => False) (engines site) :=
    (hE site).mirrors isLockstep_isSame
  refine (mirrors_extend hmirrors isLockstep_isSame left s s ⟨hr, rfl⟩).mono ?_ fun _ _ _ => trivial
  rintro d s₁ ⟨_, -, hr₁, -⟩
  exact hr₁

lemma ends_goOn_onLeftSpine (hr : s.rules = .standard) :
    Ends (goOn engines p n left) s (fun e _ => left.OnLeftSpine e) (fun _ _ => True) := by
  induction n generalizing left s with
  | zero => exact .refl
  | succ n ih =>
    unfold goOn
    simp only [repeatWhile, ends_bind, ends_get]
    refine ends_ite (fun _ => ?_) fun _ => .refl
    rw [ends_bind]
    have hextend := (ends_extend_onLeftSpine engines left hr).and
      (ends_extend_standard hE left hr)
    refine hextend.mono ?_ fun _ _ _ => trivial
    rintro d s₁ ⟨hd, hr₁⟩
    exact (ih hr₁).imp fun e s₂ he => hd.trans he

/-- The loop of a tighter precedence is a beginning of the loop of a looser one. -/
lemma onLeftSpine_of_goOn (hpq : p < q) (hr : s.rules = .standard)
    (hp : goOn engines p n left s = .ok e s') (hq : goOn engines q n left s = .ok e' s'') :
    e'.OnLeftSpine e := by
  induction n generalizing left s with
  | zero =>
    obtain ⟨rfl, -⟩ := EStateM.Result.ok.inj hp
    obtain ⟨rfl, -⟩ := EStateM.Result.ok.inj hq
    exact .refl
  | succ n ih =>
    have hloop : left.OnLeftSpine e := (ends_goOn_onLeftSpine hE hr).of_ok hp
    rw [goOn, repeatWhile_succ] at hq
    split at hq
    · next htest =>
      simp only [Bool.and_eq_true, decide_eq_true_eq] at htest
      have hlt : p < s.peekPrecedence := Nat.lt_trans hpq htest.1
      rw [goOn, repeatWhile_succ, if_pos (by simp [hlt, htest.2])] at hp
      cases hstep : extend engines left s with
      | error f s₁ =>
        rw [hstep] at hp
        cases hp
      | ok d s₁ =>
        rw [hstep] at hp hq
        exact ih ((ends_extend_standard hE left hr).of_ok hstep) hp hq
    · obtain ⟨rfl, -⟩ := EStateM.Result.ok.inj hq
      exact hloop

end Loop

theorem onLeftSpine_of_lt (hpq : p < q) (hr : s.rules = .standard)
    (hextra : bound'.extra = bound.extra) (hp : (ofBound bound).expression p s = .ok e s')
    (hq : (ofBound bound').expression q s = .ok e' s'') : e'.OnLeftSpine e := by
  -- Where both bounds suffice, they may be taken to be the same.
  let m : Bound := ⟨max bound.frames bound'.frames, bound.extra⟩
  have hbound : bound ≤ m := ⟨Nat.le_max_left _ _, rfl⟩
  have hbound' : bound' ≤ m := ⟨Nat.le_max_right _ _, hextra⟩
  have hp := (((mirrors_of_le hbound).expression p).ends_of_isSame hr).of_ok hp
  have hq := (((mirrors_of_le hbound').expression q).ends_of_isSame hr).of_ok hq
  obtain ⟨engines, hengines, hlayer⟩ := exists_layer (frames_pos_of_ok hp)
  rw [hlayer] at hp hq
  obtain ⟨rule, left, s₁, hrule, hprefixFn, hp⟩ := (ends_layer_goOn _ _ _).of_ok hp
  obtain ⟨rule', left', s₁', hrule', hprefixFn', hq⟩ := (ends_layer_goOn _ _ _).of_ok hq
  obtain rfl := Option.some.inj (hrule.symm.trans hrule')
  obtain ⟨rfl, rfl⟩ := EStateM.Result.ok.inj (hprefixFn.symm.trans hprefixFn')
  rw [hr] at hrule
  have hmirrors (site : Site) : (engines site).Mirrors IsSame (fun _ => False) (engines site) :=
    (hengines site).mirrors isLockstep_isSame
  have hsame := mirrors_applyPrefixFn hmirrors isLockstep_isSame hrule s s ⟨hr, rfl⟩
  obtain ⟨-, -, hr₁, -⟩ := hsame.of_ok hprefixFn
  exact onLeftSpine_of_goOn hengines hpq hr₁ hp hq

end Engine

/-! ### Parsers over a text -/

/-- Between `s` and `s'` a parser has read `e` from the tokens `ts`, the longest expression whose
operators and calls at the top all bind more tightly than the precedence. -/
structure State.HasReadLongest (s : State) (p : Precedence) (e : Expr Token) (ts : List Token)
    (s' : State) : Prop where
  ahead : s.ahead = ts ++ s'.behind
  first : ts.head? = some s.current
  last : ts.getLast? = some s'.current
  spells : Spells (.expr (.chain p.rank) e) ts
  tighter : ∃ ops, DerivesWith .expression ops (kinds ts) ∧
    ∀ op ∈ ops, p < Rules.standard.precedence op
  peek : ¬p < Rules.standard.precedence s'.peek.kind
  longest : ∀ zs ops, zs <+: s.ahead → DerivesWith .expression ops (kinds zs) →
    (∀ op ∈ ops, p < Rules.standard.precedence op) → zs <+: ts

lemma State.Reaches.unbroken {s s' : State} (h : s.Reaches s') (hs : s.Unbroken)
    (hr : s'.rules = .standard) : s'.Unbroken := by
  refine ⟨h.steady hs.steady hr, ?_⟩
  rw [← firstError?_eq_none, h.firstError?_eq]
  exact firstError?_eq_none.2 hs.scans

/-- An expression that is read by the standard rules, wherever a parser stands in a text that has
tokens, is the longest one in front of it whose operators and calls at the top bind more tightly
than the precedence. If a tighter precedence reads one as well, that one is a node on the left spine
of it. -/
theorem longest_expression_is_read {source : String} {tokens : List Token} {recover : Bool}
    {s₀ s : State} (htokens : tokenize source = .ok tokens)
    (hstart : State.start .standard recover (.ofText source) = .ok s₀) (hs : s₀.Reaches s)
    (hr : s.rules = .standard) (bound : Bound) (p : Precedence) {e : Expr Token} {s' : State}
    (hrun : (Engine.ofBound bound).expression p s = .ok e s') :
    (∃ ts, s.HasReadLongest p e ts s') ∧
      ∀ (bound' : Bound) q e' s'', bound'.extra = bound.extra → p < q →
        (Engine.ofBound bound').expression q s = .ok e' s'' → e'.OnLeftSpine e := by
  have hunbroken := hs.unbroken ((State.starts hstart).1.stream_ofText htokens).1 hr
  obtain ⟨ts, ops, hpasses, hspells, hderives, hops, hpeek⟩ :=
    Engine.exists_operators_of_ok hunbroken.steady hrun
  refine ⟨⟨ts, hpasses.ahead, ?first, ?last, hspells, ⟨ops, hderives, hops⟩, Nat.not_lt.2 hpeek,
    fun zs ops' hz hzs hops' => ?longest⟩, fun bound' q e' s'' hextra hpq hq => ?spine⟩
  case first =>
    have hhead := hunbroken.steady.head_stream_before
    rwa [State.stream, hpasses.ahead, List.append_assoc,
      List.head?_append_of_ne_nil _ hspells.ne_nil_of_expr] at hhead
  case last =>
    obtain ⟨init, rfl⟩ := hpasses.stops
    rw [List.getLast?_append_of_ne_nil _ (List.cons_ne_nil _ _), List.getLast?_singleton]
  case longest => exact Engine.isPrefix_of_derivesWith hunbroken hrun hpasses hz hzs hops'
  case spine => exact Engine.onLeftSpine_of_lt hpq hr hextra hrun hq

lemma reads_sum_and_product :
    (match State.start .standard true (.ofText "a * -b(c) + d") with
    | .error _ => false
    | .ok s =>
      match (Engine.ofBound 9).expression .equals s, (Engine.ofBound 9).expression .sum s with
      | .ok _ s', .ok _ s'' => s'.peek.kind == .eof && s''.peek.kind == .plus
      | _, _ => false) = true := by
  decide +kernel

/-- The product is read in front of the plus sign, or the whole sum, on the left spine of which it
stands. -/
theorem longest_expression_is_read_in_sum : ∃ s e s' e' s'',
    State.start .standard true (.ofText "a * -b(c) + d") = .ok s ∧
      (Engine.ofBound 9).expression .equals s = .ok e s' ∧ s'.peek.kind = .eof ∧
      (Engine.ofBound 9).expression .sum s = .ok e' s'' ∧ s''.peek.kind = .plus ∧
      (∃ ts, s.HasReadLongest .equals e ts s') ∧ (∃ ts, s.HasReadLongest .sum e' ts s'') ∧
      e'.OnLeftSpine e := by
  have hrun := reads_sum_and_product
  cases htokens : tokenize "a * -b(c) + d" with
  | error x => cases (show tokenize "a * -b(c) + d" = .ok _ from rfl).symm.trans htokens
  | ok tokens =>
    split at hrun
    · cases hrun
    · next s hstart =>
      split at hrun
      · next e s' e' s'' hequals hsum =>
        simp only [Bool.and_eq_true, beq_iff_eq] at hrun
        have hr := (State.starts hstart).1.steady.rules
        obtain ⟨hread, hspine⟩ :=
          longest_expression_is_read htokens hstart .refl hr 9 .equals hequals
        obtain ⟨hread', -⟩ :=
          longest_expression_is_read htokens hstart .refl hr 9 .sum hsum
        exact ⟨s, e, s', e', s'', hstart, hequals, hrun.1, hsum, hrun.2, hread, hread',
          hspine 9 .sum e' s'' rfl (by decide) hsum⟩
      · cases hrun

end MonkeyFront
