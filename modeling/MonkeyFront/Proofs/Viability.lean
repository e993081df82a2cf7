import MonkeyFront.Proofs.Derivation

/-!
# Beginnings of derivations

`Begins sym ks` says that the kinds `ks` can be gone on with to a sequence that is derived from the
symbol. For each place in a production there is a lemma: what begins the symbol at that place,
behind what is derived from the symbols in front of it, begins the whole.
-/

namespace MonkeyFront

/-- The kinds begin a sequence that is derived from the symbol. -/
def Begins (sym : Symbol) (ks : List Kind) : Prop := ∃ zs, Derives sym (ks ++ zs)

namespace Derives

lemma of_primary {xs : List Kind} (h : Derives .primary xs) : Derives .expression xs :=
  .operand (.unaryApplied (.appliedPrimary h))

lemma unary_expression {op : Kind} {xs : List Kind} (hop : op.isUnary = true)
    (h : Derives .expression xs) : Derives .expression (op :: xs) := by
  generalize hsym : Symbol.expression = sym at h
  induction h with
  | operand h => exact .operand (.unary hop h)
  | operator _ hop' hy ih _ => exact .operator (ih hsym) hop' hy
  | _ => cases hsym

lemma call_unary {xs ys : List Kind} (h : Derives .unary xs) (hy : Derives .arguments ys) :
    Derives .unary (xs ++ .lparen :: ys ++ [.rparen]) := by
  generalize hsym : Symbol.unary = sym at h
  induction h with
  | unary hop _ ih => exact .unary hop (ih hsym)
  | unaryApplied h => exact .unaryApplied (.call h hy)
  | _ => cases hsym

lemma call_expression {xs ys : List Kind} (h : Derives .expression xs)
    (hy : Derives .arguments ys) : Derives .expression (xs ++ .lparen :: ys ++ [.rparen]) := by
  cases h with
  | operand h => exact .operand (h.call_unary hy)
  | @operator xs op zs hx hop hz =>
    have := Derives.operator hx hop (hz.call_unary hy)
    simpa only [List.append_assoc, List.cons_append] using this

lemma program_append {xs ys : List Kind} (hx : Derives .program xs) (hy : Derives .program ys) :
    Derives .program (xs ++ ys) := by
  generalize hsym : Symbol.program = sym at hx
  induction hx with
  | programNil => exact hy
  | programCons h _ _ ih =>
    rw [List.append_assoc]
    exact .programCons h (ih hsym)
  | _ => cases hsym

lemma program_statement {xs ys : List Kind} (hx : Derives .program xs)
    (hy : Derives .statement ys) : Derives .program (xs ++ ys) := by
  have := hx.program_append (.programCons hy .programNil)
  rwa [List.append_nil] at this

lemma moreArguments_append {xs ys : List Kind} (hx : Derives .moreArguments xs)
    (hy : Derives .expression ys) : Derives .moreArguments (xs ++ .comma :: ys) := by
  generalize hsym : Symbol.moreArguments = sym at hx
  induction hx with
  | moreArgumentsNil =>
    have := Derives.moreArgumentsCons hy .moreArgumentsNil
    rwa [List.append_nil] at this
  | moreArgumentsCons h _ _ ih =>
    rw [List.append_assoc]
    exact .moreArgumentsCons h (ih hsym)
  | _ => cases hsym

lemma moreParameters_append {xs : List Kind} (hx : Derives .moreParameters xs) :
    Derives .moreParameters (xs ++ [.comma, .ident]) := by
  generalize hsym : Symbol.moreParameters = sym at hx
  induction hx with
  | moreParametersNil => exact .moreParametersCons .moreParametersNil
  | moreParametersCons _ ih => exact .moreParametersCons (ih hsym)
  | _ => cases hsym

end Derives

namespace Begins

variable {sym : Symbol} {ks xs ys : List Kind}

lemma of_derives (h : Derives sym ks) : Begins sym ks := ⟨[], by rwa [List.append_nil]⟩

lemma of_append (ys : List Kind) (h : Begins sym (xs ++ ys)) : Begins sym xs := by
  obtain ⟨zs, h⟩ := h
  exact ⟨ys ++ zs, by rwa [← List.append_assoc]⟩

lemma nil_expression : Begins .expression [] := ⟨[.ident], .of_primary .ident⟩

lemma nil_block : Begins .block [] := ⟨[.lbrace, .rbrace], .block .programNil⟩

lemma nil_parameters : Begins .parameters [] := of_derives .parametersNil

/-! ### Statements -/

lemma binding (h : Begins .expression ks) :
    Begins .statement (.kwLet :: .ident :: .assign :: ks) := by
  obtain ⟨zs, h⟩ := h
  exact ⟨zs, by simpa using Derives.binding h (.inl rfl)⟩

lemma binding_name : Begins .statement [.kwLet, .ident] :=
  of_append [.assign] (binding nil_expression)

lemma binding_keyword : Begins .statement [.kwLet] := of_append [.ident] binding_name

lemma result (h : Begins .expression ks) : Begins .statement (.kwReturn :: ks) := by
  obtain ⟨zs, h⟩ := h
  exact ⟨zs, by simpa using Derives.result h (.inl rfl)⟩

lemma value (h : Begins .expression ks) : Begins .statement ks := by
  obtain ⟨zs, h⟩ := h
  exact ⟨zs, by simpa using Derives.value h (.inl rfl)⟩

lemma program (hx : Derives .program xs) (h : Begins .statement ks) :
    Begins .program (xs ++ ks) := by
  obtain ⟨zs, h⟩ := h
  exact ⟨zs, by simpa using hx.program_statement h⟩

lemma block (h : Begins .program ks) : Begins .block (.lbrace :: ks) := by
  obtain ⟨zs, h⟩ := h
  exact ⟨zs ++ [.rbrace], by simpa using Derives.block h⟩

/-! ### Expressions -/

lemma unary {op : Kind} (hop : op.isUnary = true) (h : Begins .expression ks) :
    Begins .expression (op :: ks) := by
  obtain ⟨zs, h⟩ := h
  exact ⟨zs, h.unary_expression hop⟩

lemma operator {op : Kind} (hx : Derives .expression xs) (hop : op.isBinary = true)
    (h : Begins .expression ks) : Begins .expression (xs ++ op :: ks) := by
  obtain ⟨zs, h⟩ := h
  exact ⟨zs, by simpa using hx.operators hop h⟩

lemma call (hx : Derives .expression xs) (h : Begins .arguments ks) :
    Begins .expression (xs ++ .lparen :: ks) := by
  obtain ⟨zs, h⟩ := h
  exact ⟨zs ++ [.rparen], by simpa using hx.call_expression h⟩

lemma grouped (h : Begins .expression ks) : Begins .expression (.lparen :: ks) := by
  obtain ⟨zs, h⟩ := h
  exact ⟨zs ++ [.rparen], by simpa using Derives.of_primary (.grouped h)⟩

lemma consequence (hx : Derives .expression xs) (h : Begins .block ks) :
    Begins .expression (.kwIf :: .lparen :: xs ++ .rparen :: ks) := by
  obtain ⟨zs, h⟩ := h
  exact ⟨zs, by simpa using Derives.of_primary (.conditional hx h)⟩

lemma conditional (h : Begins .expression ks) : Begins .expression (.kwIf :: .lparen :: ks) := by
  obtain ⟨zs, h⟩ := h
  refine of_append (zs ++ [.rparen]) ?_
  simpa using consequence h nil_block

lemma conditional_keyword : Begins .expression [.kwIf] :=
  of_append [.lparen] (conditional nil_expression)

lemma alternative (hx : Derives .expression xs) (hy : Derives .block ys) (h : Begins .block ks) :
    Begins .expression (.kwIf :: .lparen :: xs ++ .rparen :: ys ++ .kwElse :: ks) := by
  obtain ⟨zs, h⟩ := h
  exact ⟨zs, by simpa using Derives.of_primary (.alternative hx hy h)⟩

lemma body (hx : Derives .parameters xs) (h : Begins .block ks) :
    Begins .expression (.kwFunction :: .lparen :: xs ++ .rparen :: ks) := by
  obtain ⟨zs, h⟩ := h
  exact ⟨zs, by simpa using Derives.of_primary (.function hx h)⟩

lemma function (h : Begins .parameters ks) :
    Begins .expression (.kwFunction :: .lparen :: ks) := by
  obtain ⟨zs, h⟩ := h
  refine of_append (zs ++ [.rparen]) ?_
  simpa using body h nil_block

lemma function_keyword : Begins .expression [.kwFunction] :=
  of_append [.lparen] (function nil_parameters)

/-! ### Lists -/

lemma argument (h : Begins .expression ks) : Begins .arguments ks := by
  obtain ⟨zs, h⟩ := h
  exact ⟨zs, by simpa using Derives.argumentsCons h .moreArgumentsNil⟩

lemma moreArguments (hx : Derives .expression xs) (hy : Derives .moreArguments ys)
    (h : Begins .expression ks) : Begins .arguments (xs ++ (ys ++ .comma :: ks)) := by
  obtain ⟨zs, h⟩ := h
  exact ⟨zs, by simpa using Derives.argumentsCons hx (hy.moreArguments_append h)⟩

lemma moreParameters (hx : Derives .moreParameters xs) :
    Begins .parameters (.ident :: xs ++ [.comma]) :=
  ⟨[.ident], by simpa using Derives.parametersCons hx.moreParameters_append⟩

end Begins

/-- The tokens remain viable with whatever begins the symbol behind them. -/
def Admits (viable : List Token → Prop) (xs : List Token) (sym : Symbol) : Prop :=
  ∀ ys, Begins sym (kinds ys) → viable (xs ++ ys)

namespace Admits

variable {viable : List Token → Prop} {xs : List Token} {sym : Symbol}

lemma trivial : Admits (fun _ => True) xs sym := fun _ _ => True.intro

lemma here (h : Admits viable xs sym) (hb : Begins sym []) : viable xs := by
  simpa using h [] hb

/-- A symbol may stand behind further tokens if with them it begins the one that may stand
here. -/
lemma behind {sym' : Symbol} (h : Admits viable xs sym) (ys : List Token)
    (hb : ∀ ks, Begins sym' ks → Begins sym (kinds ys ++ ks)) : Admits viable (xs ++ ys) sym' := by
  intro zs hzs
  rw [List.append_assoc]
  refine h _ ?_
  rw [kinds_append]
  exact hb _ hzs

end Admits

/-! ### Viable prefixes -/

/-- The kinds of the tokens that the grammar puts together. -/
def Kind.isProper : Kind → Bool
  | .eof | .illegal => false
  | _ => true

lemma Kind.isProper_isBinary {k : Kind} (h : k.isBinary = true) : k.isProper = true := by
  cases k <;> first | rfl | cases h

lemma Kind.isProper_isUnary {k : Kind} (h : k.isUnary = true) : k.isProper = true := by
  cases k <;> first | rfl | cases h

/-- Neither the end of input nor an illegal character is derived from a symbol. -/
lemma Derives.isProper {sym : Symbol} {ks : List Kind} (h : Derives sym ks) :
    ∀ k ∈ ks, k.isProper = true := by
  have close {close : List Kind} (h : close = [] ∨ close = [.semicolon]) :
      ∀ k ∈ close, k.isProper = true := by
    rcases h with rfl | rfl <;> decide
  rw [← List.all_eq_true]
  induction h with
  | binding _ hclose ih | result _ hclose ih | value _ hclose ih =>
    simpa [ih, Kind.isProper] using close hclose
  | operator _ hop _ ihx ihy => simp_all [Kind.isProper_isBinary hop]
  | unary hop _ ih => simp_all [Kind.isProper_isUnary hop]
  | _ => simp_all [Kind.isProper]

/-- The kinds with which a sentence begins, the end of input behind it included. -/
def Viable (ks : List Kind) : Prop := ∃ ws, Derives .program ws ∧ ks <+: ws ++ [.eof]

lemma Begins.viable {ks : List Kind} (h : Begins .program ks) : Viable ks := by
  obtain ⟨zs, h⟩ := h
  exact ⟨_, h, zs ++ [.eof], by simp⟩

lemma Viable.of_isPrefix {ks ls : List Kind} (h : Viable ls) (hp : ks <+: ls) : Viable ks := by
  obtain ⟨ws, hws, hle⟩ := h
  exact ⟨ws, hws, hp.trans hle⟩

/-- The end of input is viable behind a sentence only, and another kind where a sentence goes on
with it. -/
lemma viable_append_singleton {ks : List Kind} {k : Kind} : Viable (ks ++ [k]) ↔
    if k = .eof then Derives .program ks else Begins .program (ks ++ [k]) := by
  split
  · next hk =>
    subst hk
    refine ⟨?_, fun h => ⟨ks, h, List.prefix_rfl⟩⟩
    rintro ⟨ws, hws, hle⟩
    rcases List.prefix_concat_iff.1 hle with heq | hle
    · rwa [(List.append_inj' heq rfl).1]
    · exact absurd (hws.isProper .eof (hle.subset (by simp))) (by decide)
  · next hk =>
    refine ⟨?_, Begins.viable⟩
    rintro ⟨ws, hws, hle⟩
    rcases List.prefix_concat_iff.1 hle with heq | ⟨zs, rfl⟩
    · exact absurd (List.cons.inj (List.append_inj' heq rfl).2).1 hk
    · exact ⟨zs, hws⟩

end MonkeyFront
