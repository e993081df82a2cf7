import MonkeyFront.Proofs.Spelling

/-!
# Derivations and spellings

A sequence of tokens is derived from the grammar if and only if it spells a tree
(`derives_program_iff`). From a spelling to a derivation precedence is forgotten.
-/

namespace MonkeyFront

def kinds (ts : List Token) : List Kind := ts.map (·.kind)

@[simp] lemma kinds_nil : kinds [] = [] := rfl

@[simp] lemma kinds_cons (t : Token) (ts : List Token) : kinds (t :: ts) = t.kind :: kinds ts := rfl

@[simp] lemma kinds_append (xs ys : List Token) : kinds (xs ++ ys) = kinds xs ++ kinds ys :=
  List.map_append

/-! ### From spellings to derivations -/

lemma Derives.operators {xs ys : List Kind} {op : Kind} (hx : Derives .expression xs)
    (hop : op.isBinary = true) (hy : Derives .expression ys) :
    Derives .expression (xs ++ op :: ys) := by
  generalize hsym : Symbol.expression = sym at hy
  induction hy with
  | operand hy => exact .operator hx hop hy
  | @operator ys op' zs _ hop' hz ih _ =>
    have := Derives.operator (ih hsym) hop' hz
    rwa [List.append_assoc, List.cons_append] at this
  | _ => cases hsym

/-- What the tokens of a part of a tree are derived from. -/
def Phrase.Derived : Phrase → List Kind → Prop
  | .expr .primary _, ks => Derives .primary ks
  | .expr .applied _, ks => Derives .applied ks
  | .expr .operand _, ks => Derives .unary ks
  | .expr (.chain _) _, ks => Derives .expression ks
  | .arguments _, ks => Derives .arguments ks
  | .moreArguments _, ks => Derives .moreArguments ks
  | .stmt _, ks =>
    ∀ close, close = [] ∨ close = [.semicolon] → Derives .statement (ks ++ close)
  | .stmts _, ks => Derives .program ks
  | .block _, ks => Derives .block ks

lemma SpellsMoreNames.derives {names ts : List Token} (h : SpellsMoreNames names ts) :
    Derives .moreParameters (kinds ts) := by
  induction h with
  | nil => exact .moreParametersNil
  | cons hc hn _ ih =>
    simp only [kinds_cons, hc, hn]
    exact .moreParametersCons ih

lemma SpellsNames.derives {names ts : List Token} (h : SpellsNames names ts) :
    Derives .parameters (kinds ts) := by
  cases h with
  | nil => exact .parametersNil
  | cons hn h =>
    simp only [kinds_cons, hn]
    exact .parametersCons h.derives

theorem Spells.derived {x : Phrase} {ts : List Token} (h : Spells x ts) : x.Derived (kinds ts) := by
  induction h with
  | name h => simpa only [kinds_cons, kinds_nil, h] using .ident
  | integer h => simpa only [kinds_cons, kinds_nil, h] using .int
  | boolean h =>
    rcases h with h | h
    · simpa only [kinds_cons, kinds_nil, h] using .kwTrue
    · simpa only [kinds_cons, kinds_nil, h] using .kwFalse
  | grouped hl _ hr ih => simpa [Phrase.Derived, hl, hr] using Derives.grouped ih
  | conditional ht hl _ hr _ ihc ihb =>
    simpa [Phrase.Derived, ht, hl, hr] using Derives.conditional ihc ihb
  | alternative ht hl _ hr _ ho _ ihc ihb ihd =>
    simpa [Phrase.Derived, ht, hl, hr, ho] using Derives.alternative ihc ihb ihd
  | function ht hl hn hr _ ih =>
    simpa [Phrase.Derived, ht, hl, hr] using Derives.function hn.derives ih
  | applied _ ih => exact .appliedPrimary ih
  | call _ ht _ hr ih ihs => simpa [Phrase.Derived, ht, hr] using Derives.call ih ihs
  | operand _ ih => exact .unaryApplied ih
  | unary ht _ ih => exact .unary ht ih
  | chain _ ih => exact .operand ih
  | binary ht _ _ _ ihx ihy =>
    rw [kinds_append, kinds_cons]
    exact Derives.operators ihx ht ihy
  | noArguments => exact .argumentsNil
  | arguments _ _ ihx ihy =>
    rw [kinds_append]
    exact .argumentsCons ihx ihy
  | noMoreArguments => exact .moreArgumentsNil
  | moreArguments hc _ _ ihx ihy =>
    simpa [Phrase.Derived, hc] using Derives.moreArgumentsCons ihx ihy
  | binding ht hn ha _ ih =>
    intro close hclose
    simpa [ht, hn, ha] using Derives.binding ih hclose
  | result ht _ ih =>
    intro close hclose
    simpa [ht] using Derives.result ih hclose
  | expression _ ih =>
    intro close hclose
    exact .value ih hclose
  | noStmts => exact .programNil
  | ended _ ht _ ihx ihy =>
    simpa [Phrase.Derived, ht] using Derives.programCons (ihx _ (.inr rfl)) ihy
  | unended _ _ _ _ ihx ihy =>
    simpa [Phrase.Derived] using Derives.programCons (ihx _ (.inl rfl)) ihy
  | block hl _ hr ih => simpa [Phrase.Derived, hl, hr] using Derives.block ih

lemma Spells.derives_statement {s : Stmt Token} {ts close : List Token} (h : Spells (.stmt s) ts)
    (hclose : close = [] ∨ ∃ t : Token, close = [t] ∧ t.kind = .semicolon) :
    Derives .statement (kinds (ts ++ close)) := by
  rw [kinds_append]
  refine h.derived _ (hclose.imp (fun h => by rw [h, kinds_nil]) ?_)
  rintro ⟨t, rfl, ht⟩
  rw [kinds_cons, ht, kinds_nil]

/-! ### From derivations to spellings -/

namespace Spells

lemma exists_operator {n : Nat} {e u : Expr Token} {xs ys : List Token} {t : Token}
    (h : Spells (.expr (.chain n) e) xs) (ht : t.kind.isBinary = true) (hn : n < t.kind.level)
    (hu : Spells (.expr .operand u) ys) :
    ∃ e', Spells (.expr (.chain n) e') (xs ++ t :: ys) := by
  generalize hx : Phrase.expr (.chain n) e = x at h
  induction h generalizing n e with
  | chain h =>
    cases hx
    exact ⟨_, .binary ht hn (.chain h) (.chain hu)⟩
  | @binary _ t' e xs d zs ht' hn' h h' _ ih =>
    cases hx
    by_cases hl : t.kind.level ≤ t'.kind.level
    · have := t.kind.level_isBinary ht
      exact ⟨_, .binary ht hn (.binary ht' (by omega) h h') (.chain hu)⟩
    · obtain ⟨d', hd⟩ := ih (by omega) rfl
      refine ⟨.binary t' e d', ?_⟩
      rw [List.append_assoc, List.cons_append]
      exact .binary ht' hn' h hd
  | _ => cases hx

lemma exists_operators {n m : Nat} {e d : Expr Token} {xs ys : List Token} {t : Token}
    (h : Spells (.expr (.chain n) e) xs) (ht : t.kind.isBinary = true) (hn : n < t.kind.level)
    (hd : Spells (.expr (.chain m) d) ys) (hm : n ≤ m) :
    ∃ e', Spells (.expr (.chain n) e') (xs ++ t :: ys) := by
  generalize hx : Phrase.expr (.chain m) d = x at hd
  induction hd generalizing m d e xs t with
  | chain hu => exact h.exists_operator ht hn hu
  | @binary _ t' d₁ ys d₂ zs ht' hn' _ _ ih ih' =>
    cases hx
    obtain ⟨e₁, h₁⟩ := ih h ht hn (by omega) rfl
    obtain ⟨e₂, h₂⟩ := ih' h₁ ht' (by omega) (by omega) rfl
    refine ⟨e₂, ?_⟩
    rwa [List.append_assoc, List.cons_append] at h₂
  | _ => cases hx

lemma exists_call {form : Form} {e : Expr Token} {es : List (Expr Token)} {xs ys : List Token}
    {l r : Token} (h : Spells (.expr form e) xs) (hform : form ≠ .primary) (hl : l.kind = .lparen)
    (hes : Spells (.arguments es) ys) (hr : r.kind = .rparen) :
    ∃ e', Spells (.expr form e') (xs ++ l :: ys ++ [r]) := by
  generalize hx : Phrase.expr form e = x at h
  induction h generalizing form e with
  | applied h =>
    cases hx
    exact ⟨_, .call (.applied h) hl hes hr⟩
  | call h ht hes' hr' =>
    cases hx
    exact ⟨_, .call (.call h ht hes' hr') hl hes hr⟩
  | operand _ ih =>
    cases hx
    obtain ⟨e', h'⟩ := ih (by simp) rfl
    exact ⟨e', .operand h'⟩
  | unary ht _ ih =>
    cases hx
    obtain ⟨e', h'⟩ := ih (by simp) rfl
    exact ⟨_, .unary ht h'⟩
  | chain _ ih =>
    cases hx
    obtain ⟨e', h'⟩ := ih (by simp) rfl
    exact ⟨e', .chain h'⟩
  | @binary _ t e xs d zs ht hn h _ _ ih =>
    cases hx
    obtain ⟨d', h'⟩ := ih (by simp) rfl
    refine ⟨.binary t e d', ?_⟩
    rw [List.append_assoc, List.append_assoc, List.cons_append, ← List.append_assoc]
    exact .binary ht hn h h'
  | name | integer | boolean | grouped | conditional | alternative | function =>
    cases hx
    exact absurd rfl hform
  | _ => cases hx

/-- An expression that begins with a minus or a parenthesis goes on with the one before it. -/
lemma exists_merged {form : Form} {e d : Expr Token} {xs ys : List Token}
    (h : Spells (.expr (.chain 1) e) xs) (hd : Spells (.expr form d) ys)
    (hy : headKind ys = .minus ∨ headKind ys = .lparen) :
    ∃ e', Spells (.expr (.chain 1) e') (xs ++ ys) := by
  have notEof : headKind ys ≠ .eof := by rcases hy with hy | hy <;> rw [hy] <;> decide
  -- Along the left side of the second expression, down to its first token.
  generalize hx : Phrase.expr form d = x at hd
  induction hd generalizing form d with
  | name ht | integer ht => rcases hy with hy | hy <;> cases ht.symm.trans hy
  | boolean ht => rcases hy with hy | hy <;> rcases ht with ht | ht <;> cases ht.symm.trans hy
  | conditional ht | alternative ht | function ht =>
    rcases hy with hy | hy <;> cases ht.symm.trans hy
  | @grouped d' l zs r hl hd hr =>
    cases hx
    have hes : Spells (.arguments [d']) zs := by
      simpa using Spells.arguments hd .noMoreArguments
    obtain ⟨e', h'⟩ := h.exists_call (by simp) hl hes hr
    refine ⟨e', ?_⟩
    rwa [List.append_assoc] at h'
  | applied _ ih => exact ih hy notEof rfl
  | operand _ ih => exact ih hy notEof rfl
  | chain _ ih => exact ih hy notEof rfl
  | @call t d zs es us r hd ht hes hr ih =>
    have hz : headKind zs ≠ .eof := Kind.ne_eof_of_prefixFns hd.mayBegin
    rw [List.append_assoc, headKind_append hz] at hy
    obtain ⟨e', h'⟩ := ih hy hz rfl
    obtain ⟨e'', h''⟩ := h'.exists_call (by simp) ht hes hr
    refine ⟨e'', ?_⟩
    simpa only [List.append_assoc] using h''
  | unary ht hd =>
    rw [headKind_cons] at hy
    rcases hy with hy | hy
    · exact h.exists_operator (by rw [hy]; rfl) (by rw [hy]; decide) hd
    · rw [hy] at ht
      cases ht
  | @binary n t d₁ zs d₂ us ht hn hd _ ih =>
    have hz : headKind zs ≠ .eof := Kind.ne_eof_of_prefixFns hd.mayBegin
    rw [headKind_append hz] at hy
    obtain ⟨e', h'⟩ := ih hy hz rfl
    have hl := t.kind.level_isBinary ht
    obtain ⟨e'', h''⟩ := h'.exists_operators ht hl.1 ‹Spells (.expr (.chain t.kind.level) d₂) us›
      (by omega)
    refine ⟨e'', ?_⟩
    rwa [List.append_assoc] at h''
  | _ => cases hx

lemma exists_expr {s : Stmt Token} {ts : List Token} (h : Spells (.stmt s) ts)
    (ht : headKind ts = .minus ∨ headKind ts = .lparen) :
    ∃ e, Spells (.expr (.chain 1) e) ts := by
  cases h with
  | binding hlet | result hlet => rcases ht with ht | ht <;> cases hlet.symm.trans ht
  | expression h => exact ⟨_, h⟩

lemma exists_mergedStmt {s : Stmt Token} {d : Expr Token} {xs ys : List Token}
    (h : Spells (.stmt s) xs) (hd : Spells (.expr (.chain 1) d) ys)
    (hy : headKind ys = .minus ∨ headKind ys = .lparen) :
    ∃ s', Spells (.stmt s') (xs ++ ys) := by
  cases h with
  | binding ht hn ha h =>
    obtain ⟨e', h'⟩ := h.exists_merged hd hy
    exact ⟨_, .binding ht hn ha h'⟩
  | result ht h =>
    obtain ⟨e', h'⟩ := h.exists_merged hd hy
    exact ⟨_, .result ht h'⟩
  | expression h =>
    obtain ⟨e', h'⟩ := h.exists_merged hd hy
    exact ⟨_, .expression h'⟩

/-- A statement, with its semicolon or without, may stand before other statements. -/
lemma exists_stmts {s : Stmt Token} {ss : List (Stmt Token)} {xs close ys : List Token}
    (h : Spells (.stmt s) xs) (hclose : close = [] ∨ ∃ t : Token, close = [t] ∧ t.kind = .semicolon)
    (hs : Spells (.stmts ss) ys) : ∃ ss', Spells (.stmts ss') (xs ++ close ++ ys) := by
  rcases hclose with rfl | ⟨t, rfl, ht⟩
  · rw [List.append_nil]
    cases ss with
    | nil =>
      cases hs
      exact ⟨_, .unended h (Nat.le_refl 1) (by simp) .noStmts⟩
    | cons s' ss =>
      have hbegins : (headKind ys).begins = true := hs.mayBegin
      -- If the second statement could go on with the first, the two are spelled as one.
      by_cases hl : (headKind ys).level ≤ 1
      · exact ⟨_, .unended h hl (by rintro hk; rw [hk] at hbegins; cases hbegins) hs⟩
      · have hy := Kind.begins_of_level hbegins (Nat.lt_of_not_le hl)
        have head {zs : List Token} (hz : Spells (.stmt s') zs) (us : List Token) :
            headKind (zs ++ us) = headKind zs :=
          headKind_append (Kind.ne_eof_of_begins hz.mayBegin) us
        cases hs with
        | ended h' ht hs =>
          rw [head h'] at hy
          obtain ⟨d, hd⟩ := h'.exists_expr hy
          obtain ⟨s'', h''⟩ := h.exists_mergedStmt hd hy
          exact ⟨_, by simpa using Spells.ended h'' ht hs⟩
        | unended h' hl' hk' hs =>
          rw [head h'] at hy
          obtain ⟨d, hd⟩ := h'.exists_expr hy
          obtain ⟨s'', h''⟩ := h.exists_mergedStmt hd hy
          exact ⟨_, by simpa using Spells.unended h'' hl' hk' hs⟩
  · exact ⟨_, by simpa using Spells.ended h ht hs⟩

end Spells

/-- What tokens spell whose kinds are derived from a symbol. -/
def Symbol.Spelled : Symbol → List Token → Prop
  | .program, ts => ∃ ss, Spells (.stmts ss) ts
  | .statement, ts => ∃ s xs close, ts = xs ++ close ∧ Spells (.stmt s) xs ∧
      (close = [] ∨ ∃ t : Token, close = [t] ∧ t.kind = .semicolon)
  | .block, ts => ∃ b, Spells (.block b) ts
  | .expression, ts => ∃ e, Spells (.expr (.chain 1) e) ts
  | .unary, ts => ∃ e, Spells (.expr .operand e) ts
  | .applied, ts => ∃ e, Spells (.expr .applied e) ts
  | .primary, ts => ∃ e, Spells (.expr .primary e) ts
  | .arguments, ts => ∃ es, Spells (.arguments es) ts
  | .moreArguments, ts => ∃ es, Spells (.moreArguments es) ts
  | .parameters, ts => ∃ names, SpellsNames names ts
  | .moreParameters, ts => ∃ names, SpellsMoreNames names ts

lemma kinds_eq_nil {ts : List Token} (h : kinds ts = []) : ts = [] := List.map_eq_nil_iff.1 h

lemma kinds_eq_cons {ts : List Token} {k : Kind} {ks : List Kind} (h : kinds ts = k :: ks) :
    ∃ t us, ts = t :: us ∧ t.kind = k ∧ kinds us = ks := by
  obtain ⟨t, us, rfl, hk, hks⟩ := List.map_eq_cons_iff.1 h
  exact ⟨t, us, rfl, hk, hks⟩

lemma kinds_eq_append {ts : List Token} {ks ls : List Kind} (h : kinds ts = ks ++ ls) :
    ∃ us vs, ts = us ++ vs ∧ kinds us = ks ∧ kinds vs = ls :=
  List.map_eq_append_iff.1 h

lemma kinds_eq_close {ts : List Token} {close : List Kind} (h : kinds ts = close)
    (hclose : close = [] ∨ close = [.semicolon]) :
    ts = [] ∨ ∃ t : Token, ts = [t] ∧ t.kind = .semicolon := by
  rcases hclose with rfl | rfl
  · exact .inl (kinds_eq_nil h)
  · obtain ⟨t, us, rfl, ht, hus⟩ := kinds_eq_cons h
    exact .inr ⟨t, by rw [kinds_eq_nil hus], ht⟩

theorem Derives.spelled {sym : Symbol} {ks : List Kind} (h : Derives sym ks) {ts : List Token}
    (hts : kinds ts = ks) : sym.Spelled ts := by
  induction h generalizing ts with
  | programNil =>
    rw [kinds_eq_nil hts]
    exact ⟨_, .noStmts⟩
  | programCons _ _ ihx ihy =>
    obtain ⟨xs, ys, rfl, hx, hy⟩ := kinds_eq_append hts
    obtain ⟨s, xs, close, rfl, hs, hclose⟩ := ihx hx
    obtain ⟨ss, hss⟩ := ihy hy
    exact hs.exists_stmts hclose hss
  | binding _ hclose ih =>
    obtain ⟨t, us, rfl, ht, hus⟩ := kinds_eq_cons hts
    obtain ⟨name, us, rfl, hname, hus⟩ := kinds_eq_cons hus
    obtain ⟨a, us, rfl, ha, hus⟩ := kinds_eq_cons hus
    obtain ⟨xs, close, rfl, hx, hclose'⟩ := kinds_eq_append hus
    obtain ⟨e, he⟩ := ih hx
    exact ⟨_, t :: name :: a :: xs, close, by simp, .binding ht hname ha he,
      kinds_eq_close hclose' hclose⟩
  | result _ hclose ih =>
    obtain ⟨t, us, rfl, ht, hus⟩ := kinds_eq_cons hts
    obtain ⟨xs, close, rfl, hx, hclose'⟩ := kinds_eq_append hus
    obtain ⟨e, he⟩ := ih hx
    exact ⟨_, t :: xs, close, by simp, .result ht he, kinds_eq_close hclose' hclose⟩
  | value _ hclose ih =>
    obtain ⟨xs, close, rfl, hx, hclose'⟩ := kinds_eq_append hts
    obtain ⟨e, he⟩ := ih hx
    cases xs with
    | nil => cases he.mayBegin
    | cons t xs =>
      exact ⟨_, t :: xs, close, rfl, .expression he, kinds_eq_close hclose' hclose⟩
  | block _ ih =>
    obtain ⟨l, us, rfl, hl, hus⟩ := kinds_eq_cons hts
    obtain ⟨xs, close, rfl, hx, hclose⟩ := kinds_eq_append hus
    obtain ⟨r, vs, rfl, hr, hvs⟩ := kinds_eq_cons hclose
    obtain ⟨ss, hss⟩ := ih hx
    rw [kinds_eq_nil hvs]
    exact ⟨_, .block hl hss hr⟩
  | operand _ ih =>
    obtain ⟨e, he⟩ := ih hts
    exact ⟨e, .chain he⟩
  | operator _ hop _ ihx ihy =>
    obtain ⟨xs, us, rfl, hx, hus⟩ := kinds_eq_append hts
    obtain ⟨t, ys, rfl, rfl, hy⟩ := kinds_eq_cons hus
    obtain ⟨e, he⟩ := ihx hx
    obtain ⟨u, hu⟩ := ihy hy
    exact he.exists_operator hop (Kind.level_isBinary hop).1 hu
  | unary hop _ ih =>
    obtain ⟨t, us, rfl, rfl, hus⟩ := kinds_eq_cons hts
    obtain ⟨e, he⟩ := ih hus
    exact ⟨_, .unary hop he⟩
  | unaryApplied _ ih =>
    obtain ⟨e, he⟩ := ih hts
    exact ⟨e, .operand he⟩
  | appliedPrimary _ ih =>
    obtain ⟨e, he⟩ := ih hts
    exact ⟨e, .applied he⟩
  | call _ _ ihx ihy =>
    obtain ⟨us, close, rfl, hus, hclose⟩ := kinds_eq_append hts
    obtain ⟨xs, vs, rfl, hx, hvs⟩ := kinds_eq_append hus
    obtain ⟨t, ys, rfl, ht, hy⟩ := kinds_eq_cons hvs
    obtain ⟨r, vs, rfl, hr, hvs⟩ := kinds_eq_cons hclose
    obtain ⟨e, he⟩ := ihx hx
    obtain ⟨es, hes⟩ := ihy hy
    rw [kinds_eq_nil hvs]
    exact ⟨_, .call he ht hes hr⟩
  | ident =>
    obtain ⟨t, us, rfl, ht, hus⟩ := kinds_eq_cons hts
    rw [kinds_eq_nil hus]
    exact ⟨_, .name ht⟩
  | int =>
    obtain ⟨t, us, rfl, ht, hus⟩ := kinds_eq_cons hts
    rw [kinds_eq_nil hus]
    exact ⟨_, .integer ht⟩
  | kwTrue =>
    obtain ⟨t, us, rfl, ht, hus⟩ := kinds_eq_cons hts
    rw [kinds_eq_nil hus]
    exact ⟨_, .boolean (.inl ht)⟩
  | kwFalse =>
    obtain ⟨t, us, rfl, ht, hus⟩ := kinds_eq_cons hts
    rw [kinds_eq_nil hus]
    exact ⟨_, .boolean (.inr ht)⟩
  | grouped _ ih =>
    obtain ⟨l, us, rfl, hl, hus⟩ := kinds_eq_cons hts
    obtain ⟨xs, close, rfl, hx, hclose⟩ := kinds_eq_append hus
    obtain ⟨r, vs, rfl, hr, hvs⟩ := kinds_eq_cons hclose
    obtain ⟨e, he⟩ := ih hx
    rw [kinds_eq_nil hvs]
    exact ⟨_, .grouped hl he hr⟩
  | conditional _ _ ihc ihb =>
    obtain ⟨t, us, rfl, ht, hus⟩ := kinds_eq_cons hts
    obtain ⟨l, us, rfl, hl, hus⟩ := kinds_eq_cons hus
    obtain ⟨xs, us, rfl, hx, hus⟩ := kinds_eq_append hus
    obtain ⟨r, ys, rfl, hr, hy⟩ := kinds_eq_cons hus
    obtain ⟨c, hc⟩ := ihc hx
    obtain ⟨b, hb⟩ := ihb hy
    exact ⟨_, .conditional ht hl hc hr hb⟩
  | alternative _ _ _ ihc ihb ihd =>
    obtain ⟨us, vs, rfl, hus, hvs⟩ := kinds_eq_append hts
    obtain ⟨o, zs, rfl, ho, hz⟩ := kinds_eq_cons hvs
    obtain ⟨t, us, rfl, ht, hus⟩ := kinds_eq_cons hus
    obtain ⟨l, us, rfl, hl, hus⟩ := kinds_eq_cons hus
    obtain ⟨xs, us, rfl, hx, hus⟩ := kinds_eq_append hus
    obtain ⟨r, ys, rfl, hr, hy⟩ := kinds_eq_cons hus
    obtain ⟨c, hc⟩ := ihc hx
    obtain ⟨b, hb⟩ := ihb hy
    obtain ⟨d, hd⟩ := ihd hz
    exact ⟨_, .alternative ht hl hc hr hb ho hd⟩
  | function _ _ ihn ihb =>
    obtain ⟨t, us, rfl, ht, hus⟩ := kinds_eq_cons hts
    obtain ⟨l, us, rfl, hl, hus⟩ := kinds_eq_cons hus
    obtain ⟨xs, us, rfl, hx, hus⟩ := kinds_eq_append hus
    obtain ⟨r, ys, rfl, hr, hy⟩ := kinds_eq_cons hus
    obtain ⟨names, hnames⟩ := ihn hx
    obtain ⟨b, hb⟩ := ihb hy
    exact ⟨_, .function ht hl hnames hr hb⟩
  | argumentsNil =>
    rw [kinds_eq_nil hts]
    exact ⟨_, .noArguments⟩
  | argumentsCons _ _ ihx ihy =>
    obtain ⟨xs, ys, rfl, hx, hy⟩ := kinds_eq_append hts
    obtain ⟨e, he⟩ := ihx hx
    obtain ⟨es, hes⟩ := ihy hy
    exact ⟨_, .arguments he hes⟩
  | moreArgumentsNil =>
    rw [kinds_eq_nil hts]
    exact ⟨_, .noMoreArguments⟩
  | moreArgumentsCons _ _ ihx ihy =>
    obtain ⟨comma, us, rfl, hcomma, hus⟩ := kinds_eq_cons hts
    obtain ⟨xs, ys, rfl, hx, hy⟩ := kinds_eq_append hus
    obtain ⟨e, he⟩ := ihx hx
    obtain ⟨es, hes⟩ := ihy hy
    exact ⟨_, .moreArguments hcomma he hes⟩
  | parametersNil =>
    rw [kinds_eq_nil hts]
    exact ⟨_, .nil⟩
  | parametersCons _ ih =>
    obtain ⟨name, us, rfl, hname, hus⟩ := kinds_eq_cons hts
    obtain ⟨names, hnames⟩ := ih hus
    exact ⟨_, .cons hname hnames⟩
  | moreParametersNil =>
    rw [kinds_eq_nil hts]
    exact ⟨_, .nil⟩
  | moreParametersCons _ ih =>
    obtain ⟨comma, us, rfl, hcomma, hus⟩ := kinds_eq_cons hts
    obtain ⟨name, us, rfl, hname, hus⟩ := kinds_eq_cons hus
    obtain ⟨names, hnames⟩ := ih hus
    exact ⟨_, .cons hcomma hname hnames⟩

/-- A sequence of tokens is derived from the grammar exactly if it spells a program. -/
theorem derives_program_iff {ts : List Token} :
    Derives .program (kinds ts) ↔ ∃ ss, Spells (.stmts ss) ts :=
  ⟨fun h => h.spelled rfl, fun ⟨_, h⟩ => h.derived⟩

end MonkeyFront
