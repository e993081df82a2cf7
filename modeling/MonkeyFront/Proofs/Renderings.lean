import MonkeyFront.Proofs.Joining
import MonkeyFront.Proofs.Provenance
import MonkeyFront.Proofs.CallChains
import MonkeyFront.Tree.Text

/-!
# Texts of trees parse back

The text of a tree can be read again as long as it holds neither conditionals nor functions, whose
blocks it shows without braces: an expression as a statement of its own, and a program of bindings
and results as this program (`parse_rendering`).
-/

namespace MonkeyFront

mutual

/-- The expression holds neither a conditional nor a function. -/
def Expr.isPlain : Expr Lexeme → Bool
  | .name _ => true
  | .integer _ => true
  | .boolean _ => true
  | .unary _ right => right.isPlain
  | .binary _ left right => left.isPlain && right.isPlain
  | .conditional _ _ _ _ => false
  | .function _ _ _ => false
  | .call _ callee arguments => callee.isPlain && Expr.arePlain arguments
termination_by structural e => e

/-- The expressions hold neither conditionals nor functions. -/
def Expr.arePlain : List (Expr Lexeme) → Bool
  | [] => true
  | e :: es => e.isPlain && Expr.arePlain es
termination_by structural es => es

end

/-- The statement binds or returns a plain expression. -/
def Stmt.isPlain : Stmt Lexeme → Bool
  | .binding _ value => value.isPlain
  | .result value => value.isPlain
  | _ => false

/-! ### Texts of expressions -/

/-- A lexeme that is scanned as itself is all that its literal consists of. -/
lemma Lexeme.Scans.consists {x : Lexeme} (h : x.Scans) : Consists x.literal [x] := by
  obtain ⟨ts, hitems, hts⟩ := items_joined (List.forall_mem_singleton.2 h)
  have hjoined : joined [x] = x.literal := by simp [joined]
  rw [hjoined] at hitems
  exact ⟨ts, hitems, hts⟩

namespace Consists

variable {text : String} {xs : List Lexeme}

lemma sign {sign : String} {c : Char} (hsign : Consists sign [.ofText sign])
    (hlast : sign.toList.getLast? = some c) (hletter : isLetter c = false)
    (hdigit : isDigit c = false) (h : Consists text xs)
    (hequals : c = '=' ∨ c = '!' → text.toList.head? ≠ some '=') :
    Consists (sign ++ text) (.ofText sign :: xs) :=
  hsign.append h (.of_last hlast hletter hdigit hequals)

lemma delimiter {sign : String} {c : Char} (h : Consists text xs)
    (hsign : Consists sign [.ofText sign]) (hhead : sign.toList.head? = some c)
    (hletter : isLetter c = false) (hdigit : isDigit c = false) (hne : c ≠ '=') :
    Consists (text ++ sign) (xs ++ [.ofText sign]) :=
  h.append hsign (.of_head hhead hletter hdigit hne _)

lemma enclosed (h : Consists text xs) :
    Consists ("(" ++ text ++ ")") (.ofText "(" :: xs ++ [.ofText ")"]) := by
  have hopening : Consists "(" [.ofText "("] := (Lexeme.scans_operator (by decide)).consists
  have hclosing : Consists ")" [.ofText ")"] := (Lexeme.scans_operator (by decide)).consists
  have hopened : Consists ("(" ++ text) (.ofText "(" :: xs) :=
    hopening.sign (c := '(') rfl (by decide) (by decide) h fun he => absurd he (by decide)
  exact hopened.delimiter (c := ')') hclosing rfl (by decide) (by decide) (by decide)

end Consists

/-- The text of the expression is a print of it: what has an operator is enclosed. -/
structure Expr.IsShown (e : Expr Lexeme) (enclosed : Bool) (xs : List Lexeme) : Prop where
  prints : Prints true (.expr enclosed e) xs
  consists : Consists e.text xs
  enclosed : enclosed = true ∨ e.hasOperator (fun _ => true) = false ∧ e.isUnary = false
  head : e.text.toList.head? ≠ some '='

namespace Expr.IsShown

variable {e d : Expr Lexeme} {a b : Bool} {xs ys : List Lexeme} {x : Lexeme}

lemma hasOperator_eq_false (h : e.hasOperator (fun _ => true) = false) (p : Kind → Bool) :
    e.hasOperator p = false := by
  cases e with
  | binary => cases h
  | _ => rfl

lemma literal (htext : e.text = x.literal) (hprints : Prints true (.expr false e) [x])
    (hx : x.Scans) (hplain : e.hasOperator (fun _ => true) = false ∧ e.isUnary = false)
    (hhead : ∀ c ∈ x.literal.toList, c ≠ '=') : e.IsShown false [x] where
  prints := hprints
  consists := htext ▸ hx.consists
  enclosed := .inr hplain
  head := fun he => hhead '=' (List.mem_of_mem_head? (htext ▸ he)) rfl

lemma unary (h : e.IsShown a xs) (hx : x.IsUnary) :
    (Expr.unary x e).IsShown true (.ofText "(" :: (x :: xs) ++ [.ofText ")"]) := by
  have hoperand : Consists (x.literal ++ e.text) (x :: xs) := by
    have hliteral := hx.scans.consists
    rcases hx with rfl | rfl
    · exact hliteral.sign (c := '!') rfl (by decide) (by decide) h.consists fun _ => h.head
    · exact hliteral.sign (c := '-') rfl (by decide) (by decide) h.consists fun _ => h.head
  have htext : (Expr.unary x e).text = "(" ++ (x.literal ++ e.text) ++ ")" := by
    simp only [Expr.text, String.append_assoc]
  refine ⟨.enclosed (.unary h.prints (h.enclosed.imp_right And.left)), htext ▸ hoperand.enclosed,
    .inl rfl, ?_⟩
  rw [htext]
  simp

lemma binary (h : e.IsShown a xs) (h' : d.IsShown b ys) (hx : x.IsBinary) :
    (Expr.binary x e d).IsShown true (.ofText "(" :: (xs ++ x :: ys) ++ [.ofText ")"]) := by
  have hblank : IsBlankText " " := by decide
  have hchain : Consists (e.text ++ " " ++ (x.literal ++ " " ++ d.text)) (xs ++ x :: ys) :=
    h.consists.append_spaced (hx.scans.consists.append_spaced h'.consists hblank) hblank
  have htext : (Expr.binary x e d).text =
      "(" ++ (e.text ++ " " ++ (x.literal ++ " " ++ d.text)) ++ ")" := by
    simp only [Expr.text, String.append_assoc]
  have hleft := h.enclosed.imp_right fun h => hasOperator_eq_false h.1 (·.level < x.kind.level)
  have hright := h'.enclosed.imp_right fun h => hasOperator_eq_false h.1 (·.level ≤ x.kind.level)
  refine ⟨.enclosed (.binary h.prints hleft h'.prints hright), htext ▸ hchain.enclosed, .inl rfl,
    ?_⟩
  rw [htext]
  simp

lemma call {es : List (Expr Lexeme)} (h : e.IsShown a xs) (hprints : Prints true (.arguments es) ys)
    (hconsists : Consists (commaSeparated (Expr.texts es)) ys) :
    (Expr.call (.ofText "(") e es).IsShown false
      (xs ++ .ofText "(" :: ys ++ [.ofText ")"]) := by
  have htext : (Expr.call (.ofText "(") e es).text =
      e.text ++ ("(" ++ commaSeparated (Expr.texts es) ++ ")") := by
    simp only [Expr.text, String.append_assoc]
  have hseam : Seam e.text.toList ("(" ++ commaSeparated (Expr.texts es) ++ ")").toList :=
    .of_head (c := '(') (by simp) (by decide) (by decide) (by decide) _
  refine ⟨.call h.prints h.enclosed hprints, ?_, .inr ⟨rfl, rfl⟩, ?_⟩
  · rw [htext, List.append_assoc]
    exact h.consists.append hconsists.enclosed hseam
  · rw [htext, String.toList_append, List.head?_append]
    cases hc : e.text.toList.head? with
    | none => simp
    | some c =>
      rintro ⟨⟩
      exact h.head hc

end Expr.IsShown

/-! ### Arguments -/

def commaLed (texts : List String) : String := String.join (texts.map (", " ++ ·))

lemma commaLed_cons (text : String) (texts : List String) :
    commaLed (text :: texts) = ", " ++ text ++ commaLed texts := String.join_cons

lemma commaSeparated_cons (text : String) (texts : List String) :
    commaSeparated (text :: texts) = text ++ commaLed texts := by
  induction texts generalizing text with
  | nil => simp [commaSeparated, commaLed]
  | cons next texts ih =>
    have hnext : commaSeparated (text :: next :: texts) =
        text ++ ", " ++ commaSeparated (next :: texts) := by
      rw [commaSeparated, String.intercalate_cons_cons]
      rfl
    rw [hnext, ih, commaLed_cons]
    simp only [String.append_assoc]

lemma seam_commaLed (text : List Char) (texts : List String) :
    Seam text (commaLed texts).toList := by
  cases texts with
  | nil => exact .nil text
  | cons next texts =>
    have hhead : (commaLed (next :: texts)).toList.head? = some ',' := by simp [commaLed_cons]
    exact .of_head hhead (by decide) (by decide) (by decide) text

/-- A keyword, an operator or a delimiter stands in front of a text, and a blank between them. -/
lemma Consists.spaced_sign {sign text : String} {xs : List Lexeme}
    (hsign : (Lexeme.ofText sign).Scans) (h : Consists text xs) :
    Consists (sign ++ " " ++ text) (.ofText sign :: xs) :=
  hsign.consists.append_spaced h (by decide)

mutual

/-- A plain expression with the tokens that a parser stores is shown by its text. -/
theorem Expr.exists_isShown : ∀ e : Expr Lexeme, e.WellFormed → e.isPlain = true →
    ∃ a xs, e.IsShown a xs
  | .name x, h, _ =>
    ⟨_, _, .literal rfl .name (Lexeme.IsName.scans h) ⟨rfl, rfl⟩ fun c hc he => by
      exact absurd (he ▸ h.2.2.1 c hc) (by decide)⟩
  | .integer x, h, _ =>
    ⟨_, _, .literal rfl .integer (Lexeme.IsNumber.scans h) ⟨rfl, rfl⟩ fun c hc he => by
      exact absurd (he ▸ h.2.1 c hc) (by decide)⟩
  | .boolean x, h, _ =>
    ⟨_, _, .literal rfl .boolean (Lexeme.IsTruth.scans h) ⟨rfl, rfl⟩ fun c hc he => by
      rcases h with rfl | rfl <;> revert hc <;> rw [he] <;> decide⟩
  | .unary x e, h, hplain => by
    obtain ⟨a, xs, he⟩ := Expr.exists_isShown e h.2 hplain
    exact ⟨_, _, he.unary h.1⟩
  | .binary x e d, h, hplain => by
    rw [Expr.isPlain, Bool.and_eq_true] at hplain
    obtain ⟨a, xs, he⟩ := Expr.exists_isShown e h.2.1 hplain.1
    obtain ⟨b, ys, hd⟩ := Expr.exists_isShown d h.2.2 hplain.2
    exact ⟨_, _, he.binary hd h.1⟩
  | .conditional .., _, hplain => by cases hplain
  | .function .., _, hplain => by cases hplain
  | .call x e [], h, hplain => by
    rw [Expr.isPlain, Bool.and_eq_true] at hplain
    obtain ⟨a, xs, he⟩ := Expr.exists_isShown e h.2.1 hplain.1
    obtain ⟨rfl, -⟩ := h
    exact ⟨_, _, he.call .noArguments consists_empty⟩
  | .call x e (d :: es), h, hplain => by
    rw [Expr.isPlain, Expr.arePlain, Bool.and_eq_true, Bool.and_eq_true] at hplain
    obtain ⟨a, xs, he⟩ := Expr.exists_isShown e h.2.1 hplain.1
    obtain ⟨b, ys, hd⟩ := Expr.exists_isShown d h.2.2.1 hplain.2.1
    obtain ⟨zs, hprints, hzs⟩ := Expr.exists_areShown es h.2.2.2 hplain.2.2
    obtain ⟨rfl, -⟩ := h
    refine ⟨_, _, he.call (.arguments hd.prints hprints) ?_⟩
    rw [Expr.texts, commaSeparated_cons]
    exact hd.consists.append hzs (seam_commaLed _ _)

/-- Plain arguments are shown behind another one with commas in front of them. -/
theorem Expr.exists_areShown : ∀ es : List (Expr Lexeme), Expr.AllWellFormed es →
    Expr.arePlain es = true → ∃ xs, Prints true (.moreArguments es) xs ∧
      Consists (commaLed (Expr.texts es)) xs
  | [], _, _ => ⟨_, .noMoreArguments, consists_empty⟩
  | e :: es, h, hplain => by
    rw [Expr.arePlain, Bool.and_eq_true] at hplain
    obtain ⟨a, xs, he⟩ := Expr.exists_isShown e h.1 hplain.1
    obtain ⟨ys, hprints, hys⟩ := Expr.exists_areShown es h.2 hplain.2
    have hcomma : Consists ("," ++ " " ++ (e.text ++ commaLed (Expr.texts es)))
        (.ofText "," :: (xs ++ ys)) :=
      (he.consists.append hys (seam_commaLed _ _)).spaced_sign (Lexeme.scans_operator (by decide))
    refine ⟨_, .moreArguments he.prints hprints, ?_⟩
    rw [Expr.texts, commaLed_cons, String.append_assoc]
    exact hcomma

end

/-! ### Texts of statements -/

lemma Expr.IsShown.ended {e : Expr Lexeme} {a : Bool} {xs : List Lexeme} (h : e.IsShown a xs) :
    Consists (e.text ++ ";") (xs ++ [.ofText ";"]) :=
  h.consists.delimiter (c := ';') (Lexeme.scans_operator (by decide)).consists rfl (by decide)
    (by decide) (by decide)

lemma getLast?_ended (text : String) : (text ++ ";").toList.getLast? = some ';' := by
  rw [String.toList_append]
  exact List.getLast?_concat

/-- A plain statement with the tokens that a parser stores is printed by its text, which ends with a
semicolon. -/
lemma Stmt.exists_prints {s : Stmt Lexeme} (h : s.WellFormed) (hplain : s.isPlain = true) :
    ∃ xs, Prints true (.stmt s) xs ∧ Consists s.text xs ∧ s.text.toList.getLast? = some ';' := by
  cases s with
  | binding name e =>
    obtain ⟨a, xs, he⟩ := e.exists_isShown h.2 hplain
    have hvalue : Consists ("=" ++ " " ++ (e.text ++ ";")) (.ofText "=" :: (xs ++ [.ofText ";"])) :=
      he.ended.spaced_sign (Lexeme.scans_operator (by decide))
    have hnamed : Consists (name.literal ++ " " ++ ("=" ++ " " ++ (e.text ++ ";")))
        (name :: .ofText "=" :: (xs ++ [.ofText ";"])) :=
      h.1.scans.consists.append_spaced hvalue (by decide)
    have hkeyword : (Lexeme.ofText "let").Scans := Lexeme.scans_keyword (by decide)
    have hall := hnamed.spaced_sign hkeyword
    have htext : (Stmt.binding name e).text =
        "let" ++ " " ++ (name.literal ++ " " ++ ("=" ++ " " ++ (e.text ++ ";"))) := by
      have hlet : "let " = "let" ++ " " := rfl
      have hequals : " = " = " " ++ ("=" ++ " ") := rfl
      rw [Stmt.text, hlet, hequals]
      simp only [String.append_assoc]
    exact ⟨_, .binding he.prints, htext ▸ hall, getLast?_ended _⟩
  | result e =>
    obtain ⟨a, xs, he⟩ := e.exists_isShown h hplain
    have hkeyword : (Lexeme.ofText "return").Scans := Lexeme.scans_keyword (by decide)
    have hall := he.ended.spaced_sign hkeyword
    have htext : (Stmt.result e).text = "return" ++ " " ++ (e.text ++ ";") := by
      have hreturn : "return " = "return" ++ " " := rfl
      rw [Stmt.text, hreturn]
      simp only [String.append_assoc]
    exact ⟨_, .result he.prints, htext ▸ hall, getLast?_ended _⟩
  | expression | block => cases hplain

lemma Stmt.exists_printsAll {ss : List (Stmt Lexeme)} (h : Stmt.AllWellFormed ss)
    (hplain : ∀ s ∈ ss, s.isPlain = true) :
    ∃ xs, Prints true (.stmts ss) xs ∧ Consists (Stmt.textAll ss) xs := by
  induction ss with
  | nil => exact ⟨_, .noStmts, consists_empty⟩
  | cons s ss ih =>
    obtain ⟨hs, hss⟩ := List.forall_mem_cons.1 hplain
    obtain ⟨xs, hprints, hxs, hlast⟩ := Stmt.exists_prints h.1 hs
    obtain ⟨ys, hprints', hys⟩ := ih h.2 hss
    have hseam : Seam s.text.toList (Stmt.textAll ss).toList :=
      .of_last hlast (by decide) (by decide) fun he => absurd he (by decide)
    exact ⟨_, .stmts hprints hprints', hxs.append hys hseam⟩

/-! ### Parses of texts -/

/-- A text that consists of lexemes is parsed as what its tokens spell, unless expressions nest too
deeply. -/
lemma exists_parse_of_consists (bound : Bound) {text : String} {xs : List Lexeme}
    (htext : Consists text xs) (hscans : ∀ x ∈ xs, x.Scans) : ∃ ts : List Token,
      ts.map Token.toLexeme = xs ∧ ∀ p : Program Token, Spells (.stmts p) ts →
        ∃ outcome, parseWithin bound true text = .ok outcome ∧
          ((∀ d ∈ outcome.diagnostics, d.complaint ≠ .nestedTooDeeply) →
            outcome = ⟨.ok p, []⟩) := by
  obtain ⟨ts, hitems, rfl⟩ := htext
  have htokens := tokenize_eq_ok.2 ⟨ts, hitems, rfl⟩
  have hlegal : ∀ t ∈ ts ++ [(Scan.ofText text).last], t.kind ≠ .illegal :=
    Scan.kind_ne_illegal_of_append_last (kind_ne_illegal_of_scans hscans)
  refine ⟨ts, rfl, fun p hp => ?_⟩
  exact parse_spelled bound htokens hlegal (by rwa [List.dropLast_concat])

/-- The text of a plain expression parses to a statement that consists of this expression. -/
lemma exists_parse_expr (bound : Bound) {e : Expr Lexeme} (h : e.WellFormed)
    (hplain : e.isPlain = true) : ∃ outcome, parseWithin bound true e.text = .ok outcome ∧
      ((∀ d ∈ outcome.diagnostics, d.complaint ≠ .nestedTooDeeply) →
        outcome.diagnostics = [] ∧ ∃ t e', outcome.program = .ok [.expression t e'] ∧
          e'.erase = e) := by
  obtain ⟨a, xs, he⟩ := e.exists_isShown h hplain
  obtain ⟨ts, hts, hparse⟩ := exists_parse_of_consists bound he.consists (he.prints.scans h)
  obtain ⟨e', hspells, -, herase⟩ := he.prints.isSpelled h hts
  have hchain := hspells.lowest_of_form h
  obtain ⟨t, us, rfl⟩ := List.exists_cons_of_ne_nil hchain.ne_nil_of_expr
  have hstmts : Spells (.stmts [.expression t e']) (t :: us ++ []) :=
    .unended (.expression hchain) (by decide) (by decide) .noStmts
  rw [List.append_nil] at hstmts
  obtain ⟨outcome, houtcome, hout⟩ := hparse _ hstmts
  refine ⟨outcome, houtcome, fun hshallow => ?_⟩
  rw [hout hshallow]
  exact ⟨rfl, t, e', rfl, herase rfl⟩

/-- The text of a program of plain bindings and results parses to this program. -/
lemma exists_parse_program (bound : Bound) {p : Program Lexeme} (h : Stmt.AllWellFormed p)
    (hplain : ∀ s ∈ p, s.isPlain = true) : ∃ outcome, parseWithin bound true p.text = .ok outcome ∧
      ((∀ d ∈ outcome.diagnostics, d.complaint ≠ .nestedTooDeeply) →
        outcome.diagnostics = [] ∧ ∃ q : Program Token, outcome.program = .ok q ∧
          q.erase = p) := by
  obtain ⟨xs, hprints, hconsists⟩ := Stmt.exists_printsAll h hplain
  obtain ⟨ts, hts, hparse⟩ := exists_parse_of_consists bound hconsists (hprints.scans h)
  obtain ⟨q, hspells, -, herase⟩ := hprints.isSpelled h hts
  obtain ⟨outcome, houtcome, hout⟩ := hparse q hspells
  refine ⟨outcome, houtcome, fun hshallow => ?_⟩
  rw [hout hshallow]
  exact ⟨rfl, q, rfl, herase rfl⟩

/-- The text of an expression without conditionals and functions, wherever it stands in what a
parser yields by the standard rules, parses to a statement that consists of this expression; and so
does the text of a program of bindings and results of such expressions parse to this program. In
both cases nothing is reported, unless expressions nest too deeply. -/
theorem parse_rendering (bound bound' : Bound) :
    (∀ (answer : Answer) (e : Expr Lexeme), IsAnswer bound answer → Occurs e answer.part →
      e.isPlain = true → ∃ outcome, parseWithin bound' true e.text = .ok outcome ∧
        ((∀ d ∈ outcome.diagnostics, d.complaint ≠ .nestedTooDeeply) →
          outcome.diagnostics = [] ∧ ∃ t e', outcome.program = .ok [.expression t e'] ∧
            e'.erase = e)) ∧
    ∀ p : Program Token, IsAnswer bound (.program p) →
      (∀ s ∈ Program.erase p, s.isPlain = true) →
      ∃ outcome, parseWithin bound' true (Program.erase p).text = .ok outcome ∧
        ((∀ d ∈ outcome.diagnostics, d.complaint ≠ .nestedTooDeeply) →
          outcome.diagnostics = [] ∧ ∃ q : Program Token, outcome.program = .ok q ∧
            q.erase = Program.erase p) :=
  ⟨fun _ _ hanswer he hplain => exists_parse_expr bound' (he.wellFormed hanswer.wellFormed) hplain,
    fun _ hanswer hplain => exists_parse_program bound' hanswer.wellFormed hplain⟩

/-- A call of a call whose arguments have operators. -/
def calledTwice : Expr Lexeme :=
  .call (.ofText "(")
    (.call (.ofText "(") (.name (.ofText "f"))
      [.unary (.ofText "-") (.name (.ofText "x")),
        .unary (.ofText "!") (.binary (.ofText "<") (.integer (.ofText "1"))
          (.unary (.ofText "-") (.integer (.ofText "2"))))])
    [.boolean (.ofText "true")]

lemma wellFormed_calledTwice : calledTwice.WellFormed := by
  have hf : (Lexeme.ofText "f").IsName :=
    ⟨rfl, List.cons_ne_nil _ _, List.all_eq_true.1 rfl, rfl⟩
  have hx : (Lexeme.ofText "x").IsName :=
    ⟨rfl, List.cons_ne_nil _ _, List.all_eq_true.1 rfl, rfl⟩
  have hone : (Lexeme.ofText "1").IsNumber := ⟨rfl, List.all_eq_true.1 rfl, rfl⟩
  have htwo : (Lexeme.ofText "2").IsNumber := ⟨rfl, List.all_eq_true.1 rfl, rfl⟩
  have hless : (Lexeme.ofText "<").IsBinary := ⟨"<", by decide, rfl⟩
  have hnegation : (Expr.unary (.ofText "!") (.binary (.ofText "<") (.integer (.ofText "1"))
      (.unary (.ofText "-") (.integer (.ofText "2"))))).WellFormed :=
    ⟨.inl rfl, hless, hone, .inr rfl, htwo⟩
  exact ⟨rfl, ⟨rfl, hf, ⟨.inr rfl, hx⟩, hnegation, trivial⟩, .inl rfl, trivial⟩

/-- The value of a binding, and the program that consists of this binding and a result. -/
theorem parse_rendering_calledTwice : ∃ (p : Program Token) (outcome outcome' : Outcome),
    IsAnswer 20 (.program p) ∧
    Program.erase p = [.binding (.ofText "y") calledTwice, .result (.name (.ofText "y"))] ∧
    calledTwice.text = "f((-x), (!(1 < (-2))))(true)" ∧
    parseWithin 20 true "f((-x), (!(1 < (-2))))(true)" = .ok outcome ∧
    outcome.diagnostics = [] ∧
    (∃ t e', outcome.program = .ok [.expression t e'] ∧ e'.erase = calledTwice) ∧
    (Program.erase p).text = "let y = f((-x), (!(1 < (-2))))(true);return y;" ∧
    parseWithin 20 true "let y = f((-x), (!(1 < (-2))))(true);return y;" = .ok outcome' ∧
    outcome'.diagnostics = [] ∧
    ∃ q : Program Token, outcome'.program = .ok q ∧ q.erase = Program.erase p := by
  have hclean : (parseWithin 20 true "f((-x), (!(1 < (-2))))(true)").map (·.diagnostics) =
      .ok [] := by
    decide +kernel
  have hclean' : (parseWithin 20 true "let y = f((-x), (!(1 < (-2))))(true);return y;").map
      (·.diagnostics) = .ok [] := by
    decide +kernel
  have hy : (Lexeme.ofText "y").IsName :=
    ⟨rfl, List.cons_ne_nil _ _, List.all_eq_true.1 rfl, rfl⟩
  have hwell : Stmt.AllWellFormed [.binding (.ofText "y") calledTwice,
      .result (.name (.ofText "y"))] := ⟨⟨hy, wellFormed_calledTwice⟩, hy, trivial⟩
  have hplain : ∀ s ∈ [Stmt.binding (.ofText "y") calledTwice, .result (.name (.ofText "y"))],
      s.isPlain = true := by
    simp [Stmt.isPlain, calledTwice, Expr.isPlain, Expr.arePlain]
  have htext : calledTwice.text = "f((-x), (!(1 < (-2))))(true)" := rfl
  obtain ⟨first, hfirst, h⟩ := exists_parse_program 20 hwell hplain
  have hfirst' : parseWithin 20 true "let y = f((-x), (!(1 < (-2))))(true);return y;" =
    .ok first := hfirst
  have hnone : first.diagnostics = [] := Except.ok.inj (hfirst' ▸ hclean')
  obtain ⟨-, p, hp, herase⟩ := h (by simp [hnone])
  have hanswer := isAnswer_of_parseWithin hfirst hp
  have hshown : (Program.erase p).text = "let y = f((-x), (!(1 < (-2))))(true);return y;" := by
    rw [herase]
    rfl
  have hoccurs : Occurs calledTwice (Answer.program p).part := by
    rw [Answer.part, herase]
    exact .head (.binding .here)
  obtain ⟨outcome, hparse, hout⟩ := (parse_rendering 20 20).1 _ _ hanswer hoccurs rfl
  obtain ⟨outcome', hparse', hout'⟩ := (parse_rendering 20 20).2 p hanswer (herase ▸ hplain)
  rw [htext] at hparse
  rw [hshown] at hparse'
  have hnil : outcome.diagnostics = [] := Except.ok.inj (hparse ▸ hclean)
  have hnil' : outcome'.diagnostics = [] := Except.ok.inj (hparse' ▸ hclean')
  exact ⟨p, outcome, outcome', hanswer, herase, htext, hparse, hnil, (hout (by simp [hnil])).2,
    hshown, hparse', hnil', (hout' (by simp [hnil'])).2⟩

/-! ### Texts that are not shown -/

/-- A name that is called `n` times over, without arguments. -/
def calledName : Nat → Expr Lexeme
  | 0 => .name ⟨.ident, "f"⟩
  | n + 1 => .call (.ofText "(") (calledName n) []

lemma wellFormed_calledName (n : Nat) : (calledName n).WellFormed := by
  induction n with
  | zero => exact ⟨rfl, List.cons_ne_nil _ _, List.all_eq_true.1 rfl, rfl⟩
  | succ n ih => exact ⟨rfl, ih, trivial⟩

lemma isPlain_calledName (n : Nat) : (calledName n).isPlain = true := by
  induction n with
  | zero => rfl
  | succ n ih => simp [calledName, Expr.isPlain, Expr.arePlain, ih]

lemma le_frames_calledName (costs : FrameCosts) (n : Nat) :
    n * costs.callee ≤ (calledName n).frames costs := by
  induction n with
  | zero => simp
  | succ n ih =>
    simp only [calledName, Expr.frames, Nat.add_mul, Nat.one_mul]
    omega

/-- The text of a name that is called over and over has the lexemes of a chain of calls. -/
lemma isShown_calledName (n : Nat) : (calledName n).IsShown false (callChainLexemes n) := by
  induction n with
  | zero =>
    have hname : (⟨.ident, "f"⟩ : Lexeme).IsName := wellFormed_calledName 0
    refine .literal rfl .name hname.scans ⟨rfl, rfl⟩ fun c hc he => ?_
    exact absurd (he ▸ hname.2.2.1 c hc) (by decide)
  | succ n ih =>
    have hlexemes : callChainLexemes (n + 1) =
        callChainLexemes n ++ .ofText "(" :: [] ++ [.ofText ")"] := by
      rw [callChainLexemes, List.replicate_succ', List.flatten_append, ← List.cons_append,
        List.append_assoc]
      rfl
    rw [hlexemes]
    exact ih.call .noArguments consists_empty

/-- A name that is called over and over is parsed without diagnostics as long as the stack has any
frames at all. -/
lemma exists_parse_calledName [limits : Limits] (hnesting : 0 < limits.nesting.frames) (n : Nat) :
    ∃ (t : Token) (e : Expr Token),
      parse true (calledName n).text = .ok ⟨.ok [.expression t e], []⟩ ∧
        e.erase = calledName n := by
  obtain ⟨ts, hitems, hlexemes⟩ := (isShown_calledName n).consists
  obtain ⟨p, hparse, -⟩ := parse_of_callChainLexemes hnesting hitems hlexemes
  obtain ⟨outcome, hparse', hout⟩ :=
    exists_parse_expr limits.nesting (wellFormed_calledName n) (isPlain_calledName n)
  obtain rfl := Except.ok.inj (hparse.symm.trans hparse')
  obtain ⟨-, t, e, hp, he⟩ := hout (List.forall_mem_nil _)
  obtain rfl := Except.ok.inj hp
  exact ⟨t, e, hparse, he⟩

/-- The text of an expression, if the stack has frames enough for showing it. -/
def Expr.shown? [Limits] (e : Expr Lexeme) : Option String :=
  if e.isShowable then some e.text else none

/-- With too many calls the tree takes more frames than there are for showing it. -/
theorem calledName_notShown [limits : Limits] (hnesting : 0 < limits.nesting.frames) {n : Nat}
    (hn : limits.showingFrames < n * limits.showing.callee) : ∃ (t : Token) (e : Expr Token),
    parse true (calledName n).text = .ok ⟨.ok [.expression t e], []⟩ ∧ e.erase = calledName n ∧
      IsAnswer limits.nesting (.program [.expression t e]) ∧ (calledName n).isPlain = true ∧
      (calledName n).shown? = none := by
  obtain ⟨t, e, hparse, he⟩ := exists_parse_calledName hnesting n
  refine ⟨t, e, hparse, he, isAnswer_of_parseWithin hparse rfl, isPlain_calledName n, ?_⟩
  have hframes := hn.trans_le (le_frames_calledName limits.showing n)
  simp only [Expr.shown?, Expr.isShowable, decide_eq_true_eq, if_neg hframes.not_ge]

theorem calledName_notShown_twoThousand : ∃ (t : Token) (e : Expr Token),
    parse true (calledName 2000).text = .ok ⟨.ok [.expression t e], []⟩ ∧
      e.erase = calledName 2000 ∧ IsAnswer Limits.standard.nesting (.program [.expression t e]) ∧
      (calledName 2000).isPlain = true ∧ (calledName 2000).shown? = none :=
  calledName_notShown (by decide) (by decide)

end MonkeyFront
