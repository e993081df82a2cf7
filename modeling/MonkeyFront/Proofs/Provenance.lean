import MonkeyFront.Proofs.DigitRuns
import MonkeyFront.Proofs.Driving
import MonkeyFront.Proofs.Lockstep
import MonkeyFront.Proofs.Roundtrip

/-!
# The trees that a parser yields

A parser stores in its trees tokens of its text and no others, each of them in a place where tokens
of its kind may stand. So the trees that it yields by the standard rules are well formed, however it
is driven and also behind operations that failed (`IsAnswer.wellFormed`), and so is every expression
in them.
-/

namespace MonkeyFront

/-! ### Scanned lexemes -/

namespace Kind

/-- The text of a keyword, an operator or a delimiter. -/
def text? : Kind → Option String
  | illegal | eof | ident | int => none
  | assign => "=" | plus => "+" | minus => "-" | bang => "!" | asterisk => "*" | slash => "/"
  | lt => "<" | gt => ">" | eq => "==" | notEq => "!=" | comma => "," | semicolon => ";"
  | lparen => "(" | rparen => ")" | lbrace => "\x7b" | rbrace => "\x7d"
  | kwFunction => "fn" | kwLet => "let" | kwTrue => "true" | kwFalse => "false" | kwIf => "if"
  | kwElse => "else" | kwReturn => "return"

lemma text?_of_keyword? {text : List Char} {kind : Kind} (h : keyword? text = some kind) :
    kind.text? = some (String.ofList text) := by
  unfold keyword? at h
  split at h <;> cases h <;> rfl

lemma text?_of_sign? {c : Char} {kind : Kind} (h : sign? c = some kind) :
    kind.text? = some (String.ofList [c]) := by
  unfold sign? at h
  split at h <;> cases h <;> rfl

lemma text?_of_operator? {text : List Char} {kind : Kind} (h : operator? text = some kind) :
    kind.text? = some (String.ofList text) := by
  unfold operator? at h
  split at h
  · exact text?_of_sign? h
  · split_ifs at h with heq hne
    · cases h
      rw [heq]
      rfl
    · cases h
      rw [hne]
      rfl
  · cases h

lemma eq_of_text? {text : List Char} {known : String} (h : (ofText text).text? = some known) :
    String.ofList text = known := by
  unfold ofText at h
  split at h
  · next hk => exact Option.some.inj ((text?_of_keyword? hk).symm.trans h)
  · next hk => exact Option.some.inj ((text?_of_operator? hk).symm.trans h)
  · split_ifs at h <;> cases h

end Kind

/-- The lexeme is a name, a number or the text of its kind, if it is of a kind to which this
applies. -/
structure Lexeme.IsProper (x : Lexeme) : Prop where
  name : x.kind = .ident → x.IsName
  number : x.kind = .int → x.IsNumber
  known : ∀ text, x.kind.text? = some text → x = .ofText text

lemma Lexeme.isProper_of_unread {x : Lexeme} (h : x.kind = .illegal ∨ x.kind = .eof) :
    x.IsProper := by
  constructor
  · intro hk
    rcases h with h | h <;> cases h.symm.trans hk
  · intro hk
    rcases h with h | h <;> cases h.symm.trans hk
  · intro text hk
    rcases h with h | h <;> rw [h] at hk <;> cases hk

lemma Token.Stands.isProper {t : Token} {before behind : List Char} (h : t.Stands before behind) :
    t.toLexeme.IsProper := by
  by_cases hillegal : t.kind = .illegal
  · exact Lexeme.isProper_of_unread (.inl hillegal)
  obtain ⟨htext, hkind⟩ := h.isLexeme hillegal
  constructor
  · intro hk
    obtain ⟨hletters, hkeyword⟩ := htext.letters_of_ident (hkind.trans hk)
    exact ⟨hk, htext.ne_nil, hletters, hkeyword⟩
  · intro hk
    exact ⟨hk, htext.number_of_int (hkind.trans hk)⟩
  · intro text hk
    have hliteral : String.ofList t.literal.toList = text := Kind.eq_of_text? (by rwa [hkind])
    rw [String.ofList_toList] at hliteral
    rw [← hliteral, Lexeme.ofText, hkind]

namespace Scan

variable {source : String}

/-- All tokens of a text are proper, also where runs of digits fail to be scanned. -/
lemma isProper_of_mem {t : Token} (h : .ok t ∈ (ofText source).items) : t.toLexeme.IsProper := by
  have hspaced := congrArg Scan.items (Scan.ofText_spacedText source)
  obtain ⟨before, behind, hstands⟩ := stands_of_mem hspaced (mem_tokensAmong.2 h)
  exact hstands.isProper

lemma isProper_last (source : String) : (ofText source).last.toLexeme.IsProper :=
  Lexeme.isProper_of_unread (.inr (kind_last source))

end Scan

/-! ### Trees over proper tokens -/

def Phrase.erase : Phrase → Part
  | .expr _ e => .expr false e.erase
  | .arguments es => .arguments (Expr.mapAll Token.toLexeme es)
  | .moreArguments es => .moreArguments (Expr.mapAll Token.toLexeme es)
  | .stmt s => .stmt s.erase
  | .stmts ss => .stmts (Program.erase ss)
  | .block b => .block (b.map Token.toLexeme)

def AreProper (ts : List Token) : Prop := ∀ t ∈ ts, t.toLexeme.IsProper

@[simp] lemma areProper_cons (t : Token) (ts : List Token) :
    AreProper (t :: ts) ↔ t.toLexeme.IsProper ∧ AreProper ts := List.forall_mem_cons

@[simp] lemma areProper_append (xs ys : List Token) :
    AreProper (xs ++ ys) ↔ AreProper xs ∧ AreProper ys := List.forall_mem_append

namespace Lexeme.IsProper

variable {x : Lexeme} (h : x.IsProper)

include h

lemma isTruth (hk : x.kind = .kwTrue ∨ x.kind = .kwFalse) : x.IsTruth :=
  hk.imp (fun hk => h.known _ (by rw [hk]; rfl)) fun hk => h.known _ (by rw [hk]; rfl)

lemma isUnary (hk : x.kind.isUnary = true) : x.IsUnary := by
  have hkind : x.kind = .bang ∨ x.kind = .minus := by
    revert hk
    cases x.kind <;> decide
  exact hkind.imp (fun hk => h.known _ (by rw [hk]; rfl)) fun hk => h.known _ (by rw [hk]; rfl)

lemma isBinary (hk : x.kind.isBinary = true) : x.IsBinary := by
  have htext : ∃ text ∈ ["==", "!=", "<", ">", "+", "-", "*", "/"], x.kind.text? = some text := by
    revert hk
    cases x.kind <;> decide
  obtain ⟨text, hmem, htext⟩ := htext
  exact ⟨text, hmem, h.known text htext⟩

end Lexeme.IsProper

lemma SpellsMoreNames.areNames {names ts : List Token} (h : SpellsMoreNames names ts)
    (hts : AreProper ts) : ∀ name ∈ names.map Token.toLexeme, name.IsName := by
  induction h with
  | nil => exact List.forall_mem_nil _
  | cons _ hname _ ih =>
    simp only [areProper_cons] at hts
    exact List.forall_mem_cons.2 ⟨hts.2.1.name hname, ih hts.2.2⟩

lemma SpellsNames.areNames {names ts : List Token} (h : SpellsNames names ts)
    (hts : AreProper ts) : ∀ name ∈ names.map Token.toLexeme, name.IsName := by
  cases h with
  | nil => exact List.forall_mem_nil _
  | cons hname hnames =>
    simp only [areProper_cons] at hts
    exact List.forall_mem_cons.2 ⟨hts.1.name hname, hnames.areNames hts.2⟩

theorem Spells.wellFormed {x : Phrase} {ts : List Token} (h : Spells x ts) (hts : AreProper ts) :
    x.erase.WellFormed := by
  induction h with
  | name hk => exact (hts _ List.mem_cons_self).name hk
  | integer hk => exact (hts _ List.mem_cons_self).number hk
  | boolean hk => exact (hts _ List.mem_cons_self).isTruth hk
  | grouped _ _ _ ih =>
    simp only [List.cons_append, areProper_cons, areProper_append] at hts
    exact ih hts.2.1
  | conditional hk _ _ _ _ ihc ihb =>
    simp only [List.cons_append, areProper_cons, areProper_append] at hts
    obtain ⟨ht, -, hc, -, hb⟩ := hts
    exact ⟨ht.known _ (by rw [hk]; rfl), ihc hc, ihb hb⟩
  | alternative hk _ _ _ _ _ _ ihc ihb ihd =>
    simp only [List.cons_append, areProper_cons, areProper_append] at hts
    obtain ⟨ht, -, ⟨hc, -, hb⟩, -, hd⟩ := hts
    exact ⟨ht.known _ (by rw [hk]; rfl), ihc hc, ihb hb, ihd hd⟩
  | function hk _ hnames _ _ ih =>
    simp only [List.cons_append, areProper_cons, areProper_append] at hts
    obtain ⟨ht, -, hxs, -, hb⟩ := hts
    exact ⟨ht.known _ (by rw [hk]; rfl), hnames.areNames hxs, ih hb⟩
  | applied _ ih | operand _ ih | chain _ ih => exact ih hts
  | call _ hk _ _ ih ihs =>
    simp only [List.append_assoc, List.cons_append, areProper_cons, areProper_append] at hts
    obtain ⟨he, ht, hes, -⟩ := hts
    exact ⟨ht.known _ (by rw [hk]; rfl), ih he, ihs hes⟩
  | unary hk _ ih =>
    simp only [areProper_cons] at hts
    exact ⟨hts.1.isUnary hk, ih hts.2⟩
  | binary hk _ _ _ ihx ihy =>
    simp only [areProper_append, areProper_cons] at hts
    obtain ⟨he, ht, hd⟩ := hts
    exact ⟨ht.isBinary hk, ihx he, ihy hd⟩
  | noArguments | noMoreArguments | noStmts => exact True.intro
  | arguments _ _ ihx ihy =>
    rw [areProper_append] at hts
    exact ⟨ihx hts.1, ihy hts.2⟩
  | moreArguments _ _ _ ihx ihy =>
    simp only [List.cons_append, areProper_cons, areProper_append] at hts
    exact ⟨ihx hts.2.1, ihy hts.2.2⟩
  | binding _ hname _ _ ih =>
    simp only [areProper_cons] at hts
    exact ⟨hts.2.1.name hname, ih hts.2.2.2⟩
  | result _ _ ih =>
    rw [areProper_cons] at hts
    exact ih hts.2
  | expression _ ih => exact ih hts
  | ended _ _ _ ihx ihy =>
    simp only [areProper_append, areProper_cons] at hts
    exact ⟨ihx hts.1, ihy hts.2.2⟩
  | unended _ _ _ _ ihx ihy =>
    rw [areProper_append] at hts
    exact ⟨ihx hts.1, ihy hts.2⟩
  | block hk _ _ ih =>
    simp only [List.cons_append, areProper_cons, areProper_append] at hts
    exact ⟨hts.1.known _ (by rw [hk]; rfl), ih hts.2.1⟩

/-! ### Parsers over proper tokens -/

/-- The state is over proper tokens, and nothing comes behind the end of input. -/
structure State.IsProper (s : State) : Prop where
  upcoming : ∀ t, .ok t ∈ s.upcoming → t.toLexeme.IsProper ∧ t.kind ≠ .eof
  last : s.last.toLexeme.IsProper ∧ s.last.kind = .eof
  peek : s.peek.toLexeme.IsProper
  peek_last : s.peek.kind = .eof → s.peek = s.last ∧ s.upcoming = []
  current : s.current.toLexeme.IsProper
  current_last : s.current.kind = .eof → s.current = s.last ∧ s.peek = s.last

/-- The state is over proper tokens, and the standard rules are in force. -/
structure State.Works (s : State) : Prop extends s.IsProper where
  rules : s.rules = .standard

namespace State.IsProper

variable {s s' : State}

lemma areProper_tokensIn {items : List Scanned} (h : ∀ t, .ok t ∈ items → t.toLexeme.IsProper) :
    AreProper (tokensIn items) := by
  induction items with
  | nil => exact List.forall_mem_nil _
  | cons x items ih =>
    have hitems := ih fun t ht => h t (List.mem_cons_of_mem _ ht)
    cases x with
    | error e => exact List.forall_mem_nil _
    | ok t =>
      rw [tokensIn]
      split
      · exact hitems
      · exact (areProper_cons _ _).2 ⟨h t List.mem_cons_self, hitems⟩

lemma ahead (h : s.IsProper) : AreProper s.ahead := by
  have hall : AreProper (s.current :: s.peek :: tokensIn s.upcoming) := by
    simp only [areProper_cons]
    exact ⟨h.current, h.peek, areProper_tokensIn fun t ht => (h.upcoming t ht).1⟩
  exact fun t ht => hall t ((List.takeWhile_prefix _).subset ht)

/-- The parser stays over proper tokens when it advances, also where the scan fails. -/
lemma ends_advance (h : s.IsProper) :
    Ends advance s (fun _ s' => s'.IsProper) (fun _ s' => s'.IsProper) := by
  have hrest := pull_rest_suffix s.last s.upcoming
  have hupcoming : ∀ t, .ok t ∈ (pull s.last s.upcoming).rest →
      t.toLexeme.IsProper ∧ t.kind ≠ .eof := fun t ht => h.upcoming t (hrest.subset ht)
  simp only [Ends, advance]
  cases htoken : (pull s.last s.upcoming).token with
  | ok t =>
    have hpeek : t.toLexeme.IsProper ∧
        (t.kind = .eof → t = s.last ∧ (pull s.last s.upcoming).rest = []) := by
      rcases pull_ok htoken with ⟨rfl, -, hnil⟩ | ⟨hmem, -⟩
      · exact ⟨h.last.1, fun _ => ⟨rfl, hnil⟩⟩
      · exact ⟨(h.upcoming t hmem).1, fun he => absurd he (h.upcoming t hmem).2⟩
    refine ⟨hupcoming, h.last, hpeek.1, hpeek.2, h.peek, fun hc => ?_⟩
    obtain ⟨hlast, hnil⟩ := h.peek_last hc
    rw [hnil, pull] at htoken
    exact ⟨hlast, (Except.ok.inj htoken).symm⟩
  | error e =>
    have hpeek : s.peek.kind ≠ .eof := by
      intro hc
      rw [(h.peek_last hc).2, pull] at htoken
      cases htoken
    exact ⟨hupcoming, h.last, h.peek, fun he => absurd he hpeek, h.peek, fun he => absurd he hpeek⟩

lemma of_overruns (h : s.IsProper) (ho : s.Overruns s') : s'.IsProper := by
  have hend (hk : s.peek.kind = .eof) : s'.peek = s'.last ∧ s'.upcoming = [] := by
    obtain ⟨hlast, hnil⟩ := h.peek_last hk
    exact ⟨by rw [ho.peek_eq, ho.last_eq, hlast], List.suffix_nil.1 (hnil ▸ ho.upcoming_suffix)⟩
  exact {
    upcoming := fun t ht => h.upcoming t (ho.upcoming_suffix.subset ht)
    last := by rw [ho.last_eq]; exact h.last
    peek := by rw [ho.peek_eq]; exact h.peek
    peek_last := fun hk => hend (ho.peek_eq ▸ hk)
    current := by rw [ho.current_eq]; exact h.peek
    current_last := fun hk => by
      rw [ho.current_eq] at hk ⊢
      exact ⟨ho.peek_eq ▸ (hend hk).1, (hend hk).1⟩ }

lemma of_reaches (h : s.IsProper) (hs : s.Reaches s') : s'.IsProper := by
  induction hs with
  | refl => exact h
  | advance _ hrun ih => exact ih.ends_advance.of_ok hrun
  | overrun _ ho ih =>
    have h₂ := ih.of_overruns ho
    exact ⟨h₂.upcoming, h₂.last, h₂.peek, h₂.peek_last, h₂.current, h₂.current_last⟩
  | report _ _ ih | count _ _ ih | rule _ _ ih =>
    exact ⟨ih.upcoming, ih.last, ih.peek, ih.peek_last, ih.current, ih.current_last⟩

lemma of_failsAfter (h : s.IsProper) {f : Failure} (hs : s.FailsAfter f s') : s'.IsProper := by
  cases f with
  | scan e =>
    obtain ⟨s₁, hs₁, hrun⟩ := hs
    exact (h.of_reaches hs₁).ends_advance.of_error hrun
  | rejected d => exact h.of_reaches hs
  | tooDeep =>
    rcases hs with hs | ⟨s₁, hs₁, ho⟩
    · exact h.of_reaches hs
    · exact (h.of_reaches hs₁).of_overruns ho

end State.IsProper

namespace State.Works

variable {s s' : State}

lemma steady (h : s.Works) : s.Steady :=
  ⟨h.rules, fun t ht => (h.upcoming t ht).2, h.last.2, h.peek_last, h.current_last⟩

lemma wellFormed (h : s.Works) {x : Phrase} (hx : s.HasRead [] x s') : x.erase.WellFormed := by
  obtain ⟨ys, hys, hspells⟩ := hx
  apply hspells.wellFormed
  intro t ht
  apply h.ahead
  rw [hys.ahead]
  exact List.mem_append_left _ ht

lemma of_start {source : String} {recover : Bool}
    (h : start .standard recover (.ofText source) = .ok s) : s.Works := by
  have hs := (starts h).1.steady
  have hitems (t : Token) : .ok t ∈ (Scan.ofText source).items → t.toLexeme.IsProper :=
    Scan.isProper_of_mem
  have hlast : (Scan.ofText source).last.toLexeme.IsProper := Scan.isProper_last source
  obtain ⟨t, u, ht, hu, rfl⟩ := start_eq_ok.1 h
  have hrest := pull_rest_suffix (Scan.ofText source).last (Scan.ofText source).items
  have hrest' := pull_rest_suffix (Scan.ofText source).last
    (pull (Scan.ofText source).last (Scan.ofText source).items).rest
  have hpulled {items : List Scanned} {t : Token} (hi : items <:+ (Scan.ofText source).items)
      (ht : (pull (Scan.ofText source).last items).token = .ok t) : t.toLexeme.IsProper := by
    rcases pull_ok ht with ⟨rfl, -⟩ | ⟨hmem, -⟩
    · exact hlast
    · exact hitems t (hi.subset hmem)
  exact ⟨⟨fun v hv => ⟨hitems v ((hrest'.trans hrest).subset hv), hs.upcoming v hv⟩,
    ⟨hlast, hs.last⟩, hpulled hrest hu, hs.peek, hpulled List.suffix_rfl ht, hs.current⟩, rfl⟩

end State.Works

/-! ### What operations yield -/

/-- Over proper tokens and by the standard rules the operation yields what `post` says, and it keeps
the tokens proper and the rules in force, also where it fails. -/
def Builds {α : Type} (p : Parse α) (post : α → Prop) : Prop :=
  ∀ s : State, s.Works → Ends p s (fun a s' => s'.Works ∧ post a) (fun _ s' => s'.Works)

namespace Builds

variable {α β : Type} {p : Parse α} {post : α → Prop}

lemma pure {a : α} (h : post a) : Builds (pure a) post := fun _ hs => ⟨hs, h⟩

lemma bind {f : α → Parse β} {post' : β → Prop} (hp : Builds p post)
    (hf : ∀ a, post a → Builds (f a) post') : Builds (p >>= f) post' := by
  intro s hs
  rw [ends_bind]
  exact (hp s hs).imp fun a s' h => hf a h.2 s' h.1

lemma get {f : State → Parse α} (hf : ∀ s, Builds (f s) post) : Builds (get >>= f) post := by
  intro s hs
  rw [ends_bind, ends_get]
  exact hf s s hs

lemma tryCatch {f : Failure → Parse α} (hp : Builds p post) (hf : ∀ e, Builds (f e) post) :
    Builds (tryCatch p f) post := by
  intro s hs
  rw [ends_tryCatch]
  exact (hp s hs).mono (fun _ _ h => h) fun e s' h => hf e s' h

lemma throw (f : Failure) : Builds (throw f : Parse α) post := fun _ hs => hs

lemma reject (complaint : Complaint) (t : Token) :
    Builds (reject complaint t : Parse α) post :=
  fun _ hs => ⟨⟨hs.upcoming, hs.last, hs.peek, hs.peek_last, hs.current, hs.current_last⟩, hs.rules⟩

lemma collectWhile {test : State → Bool} (h : Builds p post) (n : Nat) :
    Builds (collectWhile test p n) (fun as => ∀ a ∈ as, post a) := by
  induction n with
  | zero => exact pure (List.forall_mem_nil _)
  | succ n ih =>
    refine get fun s => ?_
    split
    · exact h.bind fun a ha => ih.bind fun as has => pure (List.forall_mem_cons.2 ⟨ha, has⟩)
    · exact pure (List.forall_mem_nil _)

/-- An operation that goes by steps and leaves the standard rules alone keeps the tokens proper. -/
lemma of_steps (hsteps : TakesSteps p) (hrules : Impartial p)
    (hpost : ∀ s : State, s.Works → Ends p s (fun a _ => post a) (fun _ _ => True)) :
    Builds p post := by
  intro s hs
  have hends := ((hsteps s).and (hrules s true hs.rules)).and (hpost s hs)
  refine hends.mono ?_ ?_
  · rintro a s' ⟨⟨hreaches, hr, -⟩, ha⟩
    exact ⟨⟨hs.toIsProper.of_reaches hreaches, hr⟩, ha⟩
  · rintro f s' ⟨⟨hfails, hr, -⟩, -⟩
    exact ⟨hs.toIsProper.of_failsAfter hfails, hr⟩

lemma of_keeping (hsteps : TakesSteps p) (hrules : Impartial p) : Builds p (fun _ => True) := by
  refine of_steps hsteps hrules fun s _ => ?_
  unfold Ends
  cases p s <;> trivial

end Builds

namespace Engine

theorem builds_ofBound (bound : Bound) (p : Precedence) :
    Builds ((ofBound bound).expression p) (fun e => e.erase.WellFormed) := by
  have hsteps := (takesSteps_ofBound bound).expression p
  refine .of_steps hsteps (impartial_ofBound bound p) fun s hs => ?_
  have hread := (reads_ofBound bound).expression (fun _ => True) p s [] s .trivial (.refl hs.steady)
  exact hread.mono (fun e s' h => hs.wellFormed h.1) fun _ _ _ => True.intro

lemma builds_statement (bound : Bound) :
    Builds (ofBound bound).statement (fun a => a.erase.WellFormed) := by
  have hsteps := (takesSteps_ofBound bound).statement
  refine .of_steps hsteps (impartial_statement bound) fun s hs => ?_
  have hstands := State.Stands.refl hs.steady
  have hread := ends_statement (reads_ofBound bound) Admits.trivial hstands
  refine hread.mono ?_ fun _ _ _ => True.intro
  rintro a s' ⟨ys, close, hpasses, hspells, -⟩
  have htokens : AreProper ys := by
    intro t ht
    apply hs.toIsProper.ahead
    rw [hpasses.ahead]
    simp [ht]
  exact hspells.wellFormed htokens

lemma builds_recoveringStatement (bound : Bound) :
    Builds (ofBound bound).recoveringStatement (fun r => ∀ a ∈ r, a.erase.WellFormed) := by
  have houter : Builds (ofBound bound).outerStatement (fun a => a.erase.WellFormed) := by
    refine .tryCatch (builds_statement bound) fun e => ?_
    cases e with
    | tooDeep => exact .get fun s => .reject _ _
    | scan e => exact .throw _
    | rejected d => exact .throw _
  have hskip : Builds synchronize (fun _ => True) :=
    .of_keeping .synchronize .synchronize
  have hthrow (f : Failure) (post : Except (Option (Stmt Token)) (Option (Stmt Token)) → Prop) :
      Builds (throw f >>= fun r => pure (.ok r)) post := by
    have hfails : Builds (throw f) (fun _ : Option (Stmt Token) => False) := .throw f
    exact hfails.bind fun _ h => h.elim
  refine .bind (show Builds _ (fun r => ∀ a : Stmt Token, r = .error (some a) ∨
      r = .ok (some a) → a.erase.WellFormed) from
    .tryCatch (houter.bind fun a ha => .pure ?read) fun e => ?handled) fun r hr => ?yielded
  case read =>
    rintro _ (⟨⟨⟩⟩ | ⟨⟨⟩⟩)
    exact ha
  case handled =>
    cases e with
    | rejected d =>
      refine .get fun s => ?_
      split
      · exact hskip.bind fun _ _ => .pure (by simp)
      · exact hthrow _ _
    | scan e => exact hthrow _ _
    | tooDeep => exact hthrow _ _
  case yielded =>
    cases r with
    | error r => exact .pure fun a ha => hr a (.inl (congrArg _ ha))
    | ok r => exact .pure fun a ha => hr a (.inr (congrArg _ ha))

lemma allWellFormed_of_forall {p : Program Token} (h : ∀ a ∈ p, a.erase.WellFormed) :
    Stmt.AllWellFormed (Program.erase p) := by
  induction p with
  | nil => exact True.intro
  | cons a p ih =>
    obtain ⟨ha, hp⟩ := List.forall_mem_cons.1 h
    exact ⟨ha, ih hp⟩

theorem builds_program (bound : Bound) :
    Builds (ofBound bound).program (fun p => Stmt.AllWellFormed (Program.erase p)) := by
  have hadvance : Builds advance (fun _ => True) := .of_keeping .advance .advance
  have hiter := (builds_recoveringStatement bound).bind fun r hr =>
    hadvance.bind fun _ _ =>
      show Builds (pure r) (fun r : Option (Stmt Token) => ∀ a ∈ r, a.erase.WellFormed) from
        .pure hr
  refine .get fun s => (hiter.collectWhile s.tokensLeft).bind fun rs hrs => .pure ?_
  apply allWellFormed_of_forall
  intro a ha
  obtain ⟨r, hr, hra⟩ := List.mem_filterMap.1 ha
  exact hrs r hr a hra

end Engine

/-! ### Driven parsers -/

def Command.keepsRules : Command → Bool
  | .setPrefixFn _ _ | .setInfixFn _ _ _ => false
  | _ => true

/-- What an operation yields, as a part of a tree over lexemes; a token, or nothing, is no tree. -/
def Answer.part : Answer → Part
  | .nothing | .token _ => .stmts []
  | .statement s => .stmt s.erase
  | .expression e => .expr false e.erase
  | .program p => .stmts (Program.erase p)

/-- A parser of a source text that is driven by the standard rules, through operations of which some
may fail, yields the answer. -/
def IsAnswer (bound : Bound) (answer : Answer) : Prop :=
  ∃ (source : String) (recover : Bool) (s : State) (commands : List Command) (command : Command)
    (s' : State), State.start .standard recover (.ofText source) = .ok s ∧
      (∀ c ∈ commands, c.keepsRules = true) ∧ command.keepsRules = true ∧
      command.runWithin bound (drive bound commands s) = .ok answer s'

/-- An operation that leaves the standard rules alone yields well-formed trees. -/
lemma Command.builds (bound : Bound) {command : Command} (h : command.keepsRules = true) :
    Builds (command.runWithin bound) (fun answer => answer.part.WellFormed) := by
  cases command with
  | advance =>
    have hadvance : Builds MonkeyFront.advance (fun _ => True) := .of_keeping .advance .advance
    exact hadvance.bind fun _ _ => .pure True.intro
  | expect kind =>
    have hexpect : Builds (MonkeyFront.expect kind) (fun _ => True) :=
      .of_keeping (.expect kind) (.expect kind)
    exact hexpect.bind fun _ _ => .pure True.intro
  | statement => exact (Engine.builds_statement bound).bind fun _ ha => .pure ha
  | expression p => exact (Engine.builds_ofBound bound p).bind fun _ he => .pure he
  | program => exact (Engine.builds_program bound).bind fun _ hp => .pure hp
  | setPrefixFn | setInfixFn => cases h

/-- Operations that leave the standard rules alone leave a parser that works by them. -/
lemma State.Works.drive {bound : Bound} {commands : List Command} {s : State} (hs : s.Works)
    (h : ∀ c ∈ commands, c.keepsRules = true) : (drive bound commands s).Works := by
  induction commands generalizing s with
  | nil => exact hs
  | cons command commands ih =>
    obtain ⟨hcommand, hcommands⟩ := List.forall_mem_cons.1 h
    have hends := Command.builds bound hcommand s hs
    have hnext : (command.after bound s).Works := by
      unfold Command.after
      cases hrun : command.runWithin bound s with
      | ok answer s' => exact (hends.of_ok hrun).1
      | error f s' => exact hends.of_error hrun
    exact ih hnext hcommands

theorem IsAnswer.wellFormed {bound : Bound} {answer : Answer} (h : IsAnswer bound answer) :
    answer.part.WellFormed := by
  obtain ⟨source, recover, s, commands, command, s', hstart, hcommands, hcommand, hrun⟩ := h
  have hs : (drive bound commands s).Works := (State.Works.of_start hstart).drive hcommands
  exact ((Command.builds bound hcommand _ hs).of_ok hrun).2

lemma isAnswer_of_parseWithin {bound : Bound} {recover : Bool} {source : String} {outcome : Outcome}
    {p : Program Token} (h : parseWithin bound recover source = .ok outcome)
    (hp : outcome.program = .ok p) : IsAnswer bound (.program p) := by
  obtain ⟨s, s', hstart, -, ⟨q, hrun, hq⟩ | ⟨-, d, -, -, hd⟩⟩ := parseWithin_eq_ok h
  · obtain rfl := Except.ok.inj (hq.symm.trans hp)
    refine ⟨source, recover, s, [], .program, s', hstart, List.forall_mem_nil _, rfl, ?_⟩
    simp only [Command.runWithin, drive, List.foldl_nil, bind, EStateM.bind, hrun]
    rfl
  · cases hd.symm.trans hp

/-! ### Expressions in trees -/

/-- The expression is, or stands somewhere in, the part of a tree. -/
inductive Occurs (e : Expr Lexeme) : Part → Prop
  | here : Occurs e (.expr false e)
  | unary {x d} : Occurs e (.expr false d) → Occurs e (.expr false (.unary x d))
  | left {x c d} : Occurs e (.expr false c) → Occurs e (.expr false (.binary x c d))
  | right {x c d} : Occurs e (.expr false d) → Occurs e (.expr false (.binary x c d))
  | condition {x c b d} : Occurs e (.expr false c) → Occurs e (.expr false (.conditional x c b d))
  | consequence {x c b d} : Occurs e (.block b) → Occurs e (.expr false (.conditional x c b d))
  | alternative {x c b d} : Occurs e (.block d) →
      Occurs e (.expr false (.conditional x c b (some d)))
  | body {x names b} : Occurs e (.block b) → Occurs e (.expr false (.function x names b))
  | callee {x d es} : Occurs e (.expr false d) → Occurs e (.expr false (.call x d es))
  | argument {x d es} : Occurs e (.arguments es) → Occurs e (.expr false (.call x d es))
  | first {d es} : Occurs e (.expr false d) → Occurs e (.arguments (d :: es))
  | others {d es} : Occurs e (.arguments es) → Occurs e (.arguments (d :: es))
  | binding {name d} : Occurs e (.expr false d) → Occurs e (.stmt (.binding name d))
  | result {d} : Occurs e (.expr false d) → Occurs e (.stmt (.result d))
  | expression {x d} : Occurs e (.expr false d) → Occurs e (.stmt (.expression x d))
  | head {s ss} : Occurs e (.stmt s) → Occurs e (.stmts (s :: ss))
  | tail {s ss} : Occurs e (.stmts ss) → Occurs e (.stmts (s :: ss))
  | block {x ss} : Occurs e (.stmts ss) → Occurs e (.block (.mk x ss))

lemma Occurs.wellFormed {e : Expr Lexeme} {x : Part} (h : Occurs e x) (hx : x.WellFormed) :
    e.WellFormed := by
  induction h with
  | here => exact hx
  | unary _ ih | block _ ih | binding _ ih => exact ih hx.2
  | left _ ih | callee _ ih => exact ih hx.2.1
  | right _ ih | argument _ ih => exact ih hx.2.2
  | @condition _ _ _ d _ ih =>
    cases d with
    | none => exact ih hx.2.1
    | some d => exact ih hx.2.1
  | @consequence _ _ _ d _ ih =>
    cases d with
    | none => exact ih hx.2.2
    | some d => exact ih hx.2.2.1
  | alternative _ ih => exact ih hx.2.2.2
  | body _ ih => exact ih hx.2.2
  | first _ ih | head _ ih => exact ih hx.1
  | others _ ih | tail _ ih => exact ih hx.2
  | result _ ih | expression _ ih => exact ih hx

end MonkeyFront
