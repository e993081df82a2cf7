import MonkeyFront.Proofs.Accepting
import MonkeyFront.Proofs.Chains
import MonkeyFront.Proofs.Driving
import MonkeyFront.Proofs.Spacing

/-!
# Chains are grouped by precedence

A parser that knows a table of operators, those of the language and any that have been registered,
reads a chain of single operands as the tree that it is grouped as, if the stack has frames enough
for right operands that nest as deeply as in that tree (`parse_chain`).
-/

namespace MonkeyFront

/-! ### Runs -/

section Runs

variable {α β : Type} {p : Parse α} {f : α → Parse β} {s s' : State}

lemma run_get (f : State → Parse β) (s : State) : (get >>= f) s = f s s := rfl

lemma run_bind_ok {a : α} (h : p s = .ok a s') : (p >>= f) s = f a s' := by
  simp only [bind, EStateM.bind, h]

lemma run_bind_error {e : Failure} (h : p s = .error e s') : (p >>= f) s = .error e s' := by
  simp only [bind, EStateM.bind, h]

end Runs

/-! ### Tables -/

/-- By the rules, operators are what the table says. -/
structure Rules.Knows (rules : Rules) (table : Kind → Option Operator) : Prop where
  prefixFn : rules.prefixFn = Rules.standard.prefixFn
  last : rules.precedence .eof = .lowest
  int : table .int = none
  operator : ∀ kind o, table kind = some o → rules.precedence kind = o.precedence ∧
    ∃ rule, rules.infixFn kind = some rule ∧
      (rule = .binary ∧ o.operand = o.precedence ∨ rule = .script o.script)

/-- The rules after operators have been registered. -/
def Rules.register (rules : Rules) (os : List Operator) : Rules :=
  os.foldl (fun rules o => rules.setInfixFn o.kind o.precedence (some (.script o.script))) rules

lemma Rules.knows_standard : Rules.standard.Knows Operator.standard? := by
  refine ⟨rfl, rfl, rfl, fun kind o h => ?_⟩
  unfold Operator.standard? at h
  split_ifs at h with hbinary
  cases h
  exact ⟨rfl, .binary, Kind.infixFn_isBinary hbinary, .inl ⟨rfl, rfl⟩⟩

lemma Rules.Knows.register {rules : Rules} {table : Kind → Option Operator} (h : rules.Knows table)
    {os : List Operator} (hos : ∀ o ∈ os, o.kind ≠ .int ∧ o.kind ≠ .eof) :
    (rules.register os).Knows fun kind =>
      os.foldl (fun found o => if kind = o.kind then some o else found) (table kind) := by
  induction os generalizing rules table with
  | nil => exact h
  | cons o os ih =>
    obtain ⟨ho, hos⟩ := List.forall_mem_cons.1 hos
    have hnext : (rules.setInfixFn o.kind o.precedence (some (.script o.script))).Knows
        fun kind => if kind = o.kind then some o else table kind := by
      refine ⟨h.prefixFn, (if_neg ho.2.symm).trans h.last, (if_neg ho.1.symm).trans h.int,
        fun kind o' hkind => ?_⟩
      simp only [Rules.setInfixFn]
      split_ifs at hkind ⊢ with hk
      · cases hkind
        exact ⟨rfl, _, rfl, .inr rfl⟩
      · exact h.operator kind o' hkind
    exact ih hnext hos

lemma drive_command (bound : Bound) (os : List Operator) (s : State) :
    drive bound (os.map Operator.command) s = { s with rules := s.rules.register os } := by
  induction os generalizing s with
  | nil => rfl
  | cons o os ih => exact ih _

/-! ### Positions in a chain -/

/-- The parser works by the rules and stands on an operand of a chain, with some links behind it and
the end of input behind these. -/
structure State.IsOn (rules : Rules) (scan : Scan) (s : State) (a : Token) (ls : List Link) :
    Prop where
  rules : s.rules = rules
  pulled : ∃ n, s.HasPulled scan n ∧ (tokensIn scan.items).drop n = chainTokens a ls

section Chains

variable {table : Kind → Option Operator} {rules : Rules} {scan : Scan} {ts : List Token}
  {s : State} {a : Token} {l : Link} {ls : List Link}

/-- The links are made of the operators of the table, all of which bind. -/
def AreOf (table : Kind → Option Operator) (ls : List Link) : Prop :=
  ∀ l ∈ ls, table l.token.kind = some l.operator ∧ .lowest < l.operator.precedence

namespace State.IsOn

lemma current (hitems : scan.items = ts.map .ok) (h : s.IsOn rules scan a ls) : s.current = a := by
  obtain ⟨n, hpulled, htokens⟩ := h.pulled
  have hcurrent := hpulled.current.symm.trans (Scan.pulled_eq hitems n).2
  rw [← List.head?_drop, htokens, chainTokens, List.head?_cons, Option.getD_some] at hcurrent
  exact Except.ok.inj hcurrent

lemma peek (hitems : scan.items = ts.map .ok) (h : s.IsOn rules scan a ls) :
    s.peek = (ls.head?.map Link.token).getD scan.last := by
  obtain ⟨n, hpulled, htokens⟩ := h.pulled
  have hpeek := hpulled.peek.symm.trans (Scan.pulled_eq hitems (n + 1)).2
  rw [← List.head?_drop, ← List.tail_drop, htokens, chainTokens, List.tail_cons] at hpeek
  rw [Except.ok.inj hpeek]
  cases ls with
  | nil => rfl
  | cons l ls => rfl

/-- The bound of a layer on its iterations does not fall short of the links ahead. -/
lemma length_le (hitems : scan.items = ts.map .ok) (h : s.IsOn rules scan a ls) :
    ls.length ≤ s.tokensLeft := by
  obtain ⟨n, hpulled, htokens⟩ := h.pulled
  have hlength := congrArg List.length htokens
  have hleft := length_tokensIn_le (scan.left (n + 2))
  rw [(Scan.pulled_eq hitems (n + 2)).1, List.length_drop, ← hpulled.upcoming] at hleft
  have hlinks : (ls.flatMap fun l => [l.token, l.operand]).length = 2 * ls.length := by
    simp [List.length_flatMap, Nat.mul_comm]
  rw [chainTokens, List.length_cons, hlinks, List.length_drop] at hlength
  rw [State.tokensLeft]
  omega

lemma advance (hitems : scan.items = ts.map .ok) (h : s.IsOn rules scan a (l :: ls)) :
    ∃ s₁ s₂, MonkeyFront.advance s = .ok () s₁ ∧ s₁.current = l.token ∧ s₁.rules = rules ∧
      MonkeyFront.advance s₁ = .ok () s₂ ∧ s₂.IsOn rules scan l.operand ls := by
  have hkeeps {s s' : State} (hrun : MonkeyFront.advance s = .ok () s') :
      s'.rules = s.rules ∧ s'.current = s.peek := by
    simp only [MonkeyFront.advance] at hrun
    split at hrun
    · obtain ⟨-, rfl⟩ := EStateM.Result.ok.inj hrun
      exact ⟨rfl, rfl⟩
    · cases hrun
  have hpeek := h.peek hitems
  obtain ⟨n, hpulled, htokens⟩ := h.pulled
  obtain ⟨s₁, hs₁⟩ := (hpulled.scans hitems).exists_advance
  have hpulled₁ := (hpulled.advance hs₁).toHasPulled
  obtain ⟨s₂, hs₂⟩ := (hpulled₁.scans hitems).exists_advance
  have hpulled₂ := (hpulled₁.advance hs₂).toHasPulled
  refine ⟨s₁, s₂, hs₁, (hkeeps hs₁).2.trans hpeek, (hkeeps hs₁).1.trans h.rules, hs₂, ?_, n + 2,
    hpulled₂, ?_⟩
  · rw [(hkeeps hs₂).1, (hkeeps hs₁).1, h.rules]
  · rw [← List.tail_drop, ← List.tail_drop, htokens]
    rfl

lemma peekPrecedence (hrules : rules.Knows table) (hitems : scan.items = ts.map .ok)
    (hlast : scan.last.kind = .eof) (hls : AreOf table ls) (h : s.IsOn rules scan a ls) :
    s.peekPrecedence = precedenceAhead ls := by
  rw [State.peekPrecedence, h.rules, h.peek hitems]
  cases ls with
  | nil => exact (congrArg _ hlast).trans hrules.last
  | cons l ls => exact (hrules.operator _ _ (hls l List.mem_cons_self).1).1

lemma kind_peek_ne_int (hrules : rules.Knows table) (hitems : scan.items = ts.map .ok)
    (hlast : scan.last.kind = .eof) (hls : AreOf table ls) (h : s.IsOn rules scan a ls) :
    s.peek.kind ≠ .int := by
  rw [h.peek hitems]
  cases ls with
  | nil =>
    rw [List.head?_nil, Option.map_none, Option.getD_none, hlast]
    decide
  | cons l ls =>
    intro hint
    have htable := (hls l List.mem_cons_self).1
    rw [show l.token.kind = .int from hint, hrules.int] at htable
    cases htable

end State.IsOn

/-! ### Layers -/

namespace Engine

variable (engines : Site → Engine) {p : Precedence} (left : Expr Token)

/-- Moves on to the operand behind an operator and reads it. -/
def operand (p : Precedence) : Parse (Expr Token) := do
  (engines .operand).nextToken
  (engines .operand).expression p

/-- At an operator its right operand is read, and both operands are put together. -/
lemma applyInfixFn_eq (hrules : rules.Knows table) (hs : s.rules = rules) {o : Operator}
    (ho : table s.current.kind = some o) : ∃ rule, rules.infixFn s.current.kind = some rule ∧
      applyInfixFn engines left rule s = (operand engines o.operand >>= fun right =>
        pure (.binary s.current left right)) s := by
  obtain ⟨hprecedence, rule, hrule, hreads⟩ := hrules.operator _ o ho
  refine ⟨rule, hrule, ?_⟩
  rcases hreads with ⟨rfl, hoperand⟩ | rfl
  · simp only [applyInfixFn, binaryExpression, operand, run_get, hoperand, ← hprecedence, ← hs,
      bind_assoc]
  · simp only [applyInfixFn, Operator.script, runScript, operand, run_get, bind_assoc]

lemma goOn_cons (hrules : rules.Knows table) (hitems : scan.items = ts.map .ok)
    (hlast : scan.last.kind = .eof) (hls : AreOf table (l :: ls))
    (h : s.IsOn rules scan a (l :: ls)) (hp : p < l.operator.precedence) (n : Nat) :
    ∃ s₁ s₂, MonkeyFront.advance s₁ = .ok () s₂ ∧ s₂.IsOn rules scan l.operand ls ∧
      goOn engines p (n + 1) left s = (operand engines l.operator.operand >>= fun right =>
        goOn engines p n (.binary l.token left right)) s₁ := by
  obtain ⟨s₁, s₂, hs₁, hcurrent, hr₁, hs₂, h₂⟩ := h.advance hitems
  have htable := (hls l List.mem_cons_self).1
  have hbinds : p < s.peekPrecedence := by
    rwa [h.peekPrecedence hrules hitems hlast hls]
  have hpeek : s.peek = l.token := h.peek hitems
  obtain ⟨rule, hrule, happly⟩ := applyInfixFn_eq engines left hrules hr₁ (hcurrent ▸ htable)
  rw [hcurrent] at hrule happly
  have hextend : extend engines left s = (operand engines l.operator.operand >>= fun right =>
      pure (.binary l.token left right)) s₁ := by
    unfold extend
    simp only [run_get, h.rules, hpeek, hrule]
    rw [run_bind_ok hs₁, happly]
  refine ⟨s₁, s₂, hs₂, h₂, ?_⟩
  unfold goOn
  simp only [repeatWhile, run_get]
  rw [if_pos (by simp [hbinds, h.rules, hpeek, hrule])]
  cases hright : operand engines l.operator.operand s₁ with
  | ok right s₃ =>
    rw [run_bind_ok hright] at hextend ⊢
    exact run_bind_ok hextend
  | error e s₃ =>
    rw [run_bind_error hright] at hextend ⊢
    exact run_bind_error hextend

variable {engines left}

lemma goOn_end (hrules : rules.Knows table) (hitems : scan.items = ts.map .ok)
    (hlast : scan.last.kind = .eof) (hls : AreOf table ls) (h : s.IsOn rules scan a ls)
    (hp : ¬p < precedenceAhead ls) (n : Nat) :
    goOn engines p n left s = .ok left s := by
  cases n with
  | zero => rfl
  | succ n =>
    have hends : ¬p < s.peekPrecedence := by
      rwa [h.peekPrecedence hrules hitems hlast hls]
    unfold goOn
    simp only [repeatWhile, run_get]
    rw [if_neg (by simp [hends])]
    rfl

lemma layer_operand (hrules : rules.Knows table) (hitems : scan.items = ts.map .ok)
    (h : s.IsOn rules scan a ls) {e : Expr Token} (he : a.operand? = some e) :
    layer engines p s = goOn engines p s.tokensLeft e s := by
  have hcurrent := h.current hitems
  obtain ⟨rule, hrule, happly⟩ : ∃ rule, Rules.standard.prefixFn a.kind = some rule ∧
      applyPrefixFn engines rule s = .ok e s := by
    unfold Token.operand? at he
    split at he
    all_goals
      cases he
    all_goals
      next hk => exact ⟨_, by rw [hk]; rfl, by rw [← hcurrent]; rfl⟩
  unfold layer
  simp only [run_get, h.rules, hrules.prefixFn, hcurrent, hrule]
  rw [run_bind_ok happly]
  rfl

variable {extra : Site → Nat} {frames : Nat} {s₁ s₂ : State}

/-- An operand is read by a layer of its own if there are frames left on the way to it. No number
stands behind it, which would take a frame more to be scanned. -/
lemma operand_eq (hdue : extra .operand < frames) (hrun : MonkeyFront.advance s₁ = .ok () s₂)
    (hpeek : s₂.peek.kind ≠ .int) :
    operand (fun site => within extra frames (extra site)) p s₁ =
      layer (fun site => within extra (frames - (extra .operand + 1)) (extra site)) p s₂ := by
  have htoken : (pull s₁.last s₁.upcoming).token = .ok s₂.peek := by
    simp only [MonkeyFront.advance] at hrun
    split at hrun
    · next t ht =>
      obtain ⟨-, rfl⟩ := EStateM.Result.ok.inj hrun
      exact ht
    · cases hrun
  obtain ⟨k, hk⟩ : ∃ k, frames - extra .operand = k + 1 := ⟨frames - extra .operand - 1, by omega⟩
  have hk' : frames - (extra .operand + 1) = k := by omega
  have hnext : (within extra (k + 1) 0).nextToken s₁ = .ok () s₂ := by
    have hnone : s₁.overrun? (if k = 0 then .storedUnlessNumber else .stored) = none := by
      split
      · simp only [State.overrun?, htoken, if_neg hpeek]
      · rfl
    simp only [within, advanceWithin, hnone, hrun]
  unfold operand
  simp only [within_eq extra frames (extra .operand), if_pos hdue, hk, hk']
  exact run_bind_ok hnext

lemma operand_tooDeep (hdue : frames ≤ extra .operand)
    (hrun : MonkeyFront.advance s₁ = .ok () s₂) :
    ∃ s', operand (fun site => within extra frames (extra site)) p s₁ = .error .tooDeep s' := by
  unfold operand
  simp only [within_eq extra frames (extra .operand), if_neg (Nat.not_lt.2 hdue)]
  rcases s₁.advanceWithin_eq_or_overruns
    (if extra .operand = frames then .read else .entered) with hnext | ⟨s', hnext, -⟩
  · exact ⟨s₂, run_bind_ok (hnext.trans hrun)⟩
  · exact ⟨s', run_bind_error hnext⟩

end Engine

/-- What a layer makes of the chain that is grouped as a tree: it reads the tree and goes on behind
it, or right operands nest too deeply. -/
theorem Groups.ends_layer (hrules : rules.Knows table) (hitems : scan.items = ts.map .ok)
    (hlast : scan.last.kind = .eof) {e : Expr Token} (h : Groups e a ls) (hls : AreOf table ls)
    (hsides : HaveSides ls) (extra : Site → Nat) (frames : Nat) {p : Precedence}
    {rest : List Link} (hrest : AreOf table rest) (hs : s.IsOn rules scan a (ls ++ rest))
    (hp : ∀ m ∈ ls, p < m.operator.precedence)
    (hends : ∀ m ∈ ls, ¬m.operator.operand < precedenceAhead rest) :
    let engines := fun site => Engine.within extra frames (extra site)
    (e.operandDepth * (extra .operand + 1) ≤ frames → ∃ s' n,
      s'.IsOn rules scan (lastOperand a ls) rest ∧ rest.length ≤ n ∧
      Engine.layer engines p s = Engine.goOn engines p n e s') ∧
    (frames < e.operandDepth * (extra .operand + 1) → ∃ s',
      Engine.layer engines p s = .error .tooDeep s') := by
  induction h generalizing frames p s rest with
  | @operand first e he =>
    rw [Token.operandDepth_of_operand? he, Nat.zero_mul]
    refine ⟨fun _ => ?_, fun hdeep => absurd hdeep (Nat.not_lt_zero _)⟩
    exact ⟨s, s.tokensLeft, hs, hs.length_le hitems, Engine.layer_operand hrules hitems hs he⟩
  | @root l first before behind left right hroot _ _ ihl ihr =>
    intro engines
    rw [AreOf, List.forall_mem_append, List.forall_mem_cons] at hls
    obtain ⟨hbefore, hl, hbehind⟩ := hls
    rw [List.forall_mem_append, List.forall_mem_cons] at hp hends
    obtain ⟨hpbefore, hpl, -⟩ := hp
    obtain ⟨-, hendsl, hendsbehind⟩ := hends
    rw [List.append_assoc, List.cons_append] at hs
    have hrest' : AreOf table (behind ++ rest) := List.forall_mem_append.2 ⟨hbehind, hrest⟩
    have hnext : AreOf table (l :: (behind ++ rest)) := List.forall_mem_cons.2 ⟨hl, hrest'⟩
    have hsidesleft := hsides.mono (List.subset_append_left _ _)
    have hsidesright : HaveSides behind := hsides.mono fun m hm => by simp [hm]
    have hleft := ihl hbefore hsidesleft frames hnext hs hpbefore
      (hroot.not_operand_lt hsides fun m hm => (hbefore m hm).2)
    -- behind the left operand the layer goes on with the root, and reads its right operand
    have hiter (hdepth : left.operandDepth * (extra .operand + 1) ≤ frames) : ∃ s₁ s₂ n,
        MonkeyFront.advance s₁ = .ok () s₂ ∧ s₂.IsOn rules scan l.operand (behind ++ rest) ∧
        rest.length ≤ n ∧ Engine.layer engines p s =
          (Engine.operand engines l.operator.operand >>= fun right =>
            Engine.goOn engines p n (.binary l.token left right)) s₁ := by
      obtain ⟨s₀, n, hs₀, hn, hrun⟩ := hleft.1 hdepth
      rw [List.length_cons, List.length_append] at hn
      obtain ⟨n, rfl⟩ : ∃ n', n = n' + 1 := ⟨n - 1, by omega⟩
      obtain ⟨s₁, s₂, hs₂, hon, hgo⟩ :=
        Engine.goOn_cons engines left hrules hitems hlast hnext hs₀ hpl n
      exact ⟨s₁, s₂, n, hs₂, hon, by omega, hrun.trans hgo⟩
    have hnested {s₂ : State} (hon : s₂.IsOn rules scan l.operand (behind ++ rest)) :=
      ihr hbehind hsidesright (frames - (extra .operand + 1)) hrest hon (hroot.operand_lt hl.2)
        hendsbehind
    rw [Expr.operandDepth_binary, ← Nat.mul_max_mul_right, Nat.add_mul, Nat.one_mul, max_le_iff,
      lt_max_iff]
    refine ⟨fun hshallow => ?_, fun hdeep => ?_⟩
    · obtain ⟨s₁, s₂, n, hs₂, hon, hn, hrun⟩ := hiter hshallow.1
      obtain ⟨s₃, k, hs₃, -, hread⟩ := (hnested hon).1 (by omega)
      rw [Engine.goOn_end hrules hitems hlast hrest hs₃ hendsl] at hread
      have hpeek := hon.kind_peek_ne_int hrules hitems hlast hrest'
      have hoperand := (Engine.operand_eq (by omega) hs₂ hpeek).trans hread
      exact ⟨s₃, n, by rwa [lastOperand_append], hn, hrun.trans (run_bind_ok hoperand)⟩
    · by_cases hleftdeep : frames < left.operandDepth * (extra .operand + 1)
      · exact hleft.2 hleftdeep
      · obtain ⟨s₁, s₂, n, hs₂, hon, -, hrun⟩ := hiter (by omega)
        have hfails : ∃ s', Engine.operand engines l.operator.operand s₁ = .error .tooDeep s' := by
          by_cases hdue : extra .operand < frames
          · rw [Engine.operand_eq hdue hs₂ (hon.kind_peek_ne_int hrules hitems hlast hrest')]
            exact (hnested hon).2 (by omega)
          · exact Engine.operand_tooDeep (Nat.not_lt.1 hdue) hs₂
        obtain ⟨s', hfails⟩ := hfails
        exact ⟨s', hrun.trans (run_bind_error hfails)⟩

/-- What is made of a chain up to the end of input: its tree, if there are frames enough for right
operands that nest as deeply as they do. -/
theorem Groups.runWithin_expression (hrules : rules.Knows table) (hitems : scan.items = ts.map .ok)
    (hlast : scan.last.kind = .eof) {e : Expr Token} (h : Groups e a ls) (hls : AreOf table ls)
    (hsides : HaveSides ls) (hs : s.IsOn rules scan a ls) (bound : Bound) :
    (e.operandDepth * (bound.extra .operand + 1) < bound.frames → ∃ s',
      (Command.expression .lowest).runWithin bound s = .ok (.expression e) s' ∧
        s'.current = lastOperand a ls ∧ s'.peek.kind = .eof) ∧
    (bound.frames ≤ e.operandDepth * (bound.extra .operand + 1) → ∃ s',
      (Command.expression .lowest).runWithin bound s = .error .tooDeep s') := by
  obtain ⟨frames, extra⟩ := bound
  cases frames with
  | zero => exact ⟨fun hdepth => absurd hdepth (Nat.not_lt_zero _), fun _ => ⟨s, rfl⟩⟩
  | succ frames =>
    have hnone : AreOf table [] := List.forall_mem_nil _
    have hlayer := h.ends_layer (p := .lowest) hrules hitems hlast hls hsides extra frames hnone
      (by rwa [List.append_nil]) (fun m hm => (hls m hm).2)
      (fun m _ => Precedence.not_lt_lowest _)
    refine ⟨fun hdepth => ?_, fun hdepth => ?_⟩
    · obtain ⟨s', n, hs', -, hrun⟩ := hlayer.1 (Nat.le_of_lt_succ hdepth)
      rw [Engine.goOn_end hrules hitems hlast hnone hs' (Precedence.not_lt_lowest _)] at hrun
      refine ⟨s', run_bind_ok hrun, hs'.current hitems, ?_⟩
      rw [hs'.peek hitems]
      exact hlast
    · obtain ⟨s', hrun⟩ := hlayer.2 hdepth
      exact ⟨s', run_bind_error hrun⟩

end Chains

/-! ### A parser in front of a chain -/

/-- A parser starts on the first operand of a chain, and stands there still when it has learnt some
operators. -/
lemma State.exists_start_isOn {source : String} {tokens : List Token}
    (htokens : tokenize source = .ok tokens) {first : Token} {ls : List Link}
    (hchain : legalAmong tokens.dropLast = chainTokens first ls) (os : List Operator)
    (recover : Bool) : ∃ s, State.start .standard recover (.ofText source) = .ok s ∧
      ∀ bound, (drive bound (os.map Operator.command) s).IsOn (Rules.standard.register os)
        (.ofText source) first ls := by
  obtain ⟨s, hs⟩ := State.exists_start htokens .standard recover
  have hpulled := (HasJustPulled.of_start hs).toHasPulled
  have hrules : s.rules = .standard := by
    obtain ⟨t, u, -, -, rfl⟩ := start_eq_ok.1 hs
    rfl
  refine ⟨s, hs, fun bound => ?_⟩
  rw [drive_command, hrules]
  refine ⟨rfl, 0, ⟨hpulled.last, hpulled.current, hpulled.peek, hpulled.upcoming, hpulled.illegal⟩,
    ?_⟩
  obtain ⟨ts, hitems, rfl⟩ := tokenize_eq_ok.1 htokens
  rw [List.drop_zero, hitems, tokensIn_map_ok, ← hchain, List.dropLast_concat]
  rfl

/-- The operators of a chain bind, and those of a precedence group to the same side. -/
lemma IsOperatorTable.areOf {os : List Operator} (hos : IsOperatorTable os) {ls : List Link}
    (hls : ∀ l ∈ ls, Operator.lookup os l.token.kind = some l.operator) :
    AreOf (Operator.lookup os) ls ∧ HaveSides ls := by
  have hbinds (kind : Kind) (o : Operator) (h : Operator.lookup os kind = some o) :
      .lowest < o.precedence := by
    rcases Operator.mem_of_lookup h with ho | ho
    · exact hos.binds o ho
    · exact Operator.lowest_lt_of_standard? ho
  exact ⟨fun l hl => ⟨hls l hl, hbinds _ _ (hls l hl)⟩,
    fun l hl m hm => hos.sides _ _ _ _ (hls l hl) (hls m hm)⟩

/-- The rules know the operators of the language and those that have been registered. -/
lemma IsOperatorTable.knows {os : List Operator} (hos : IsOperatorTable os) :
    (Rules.standard.register os).Knows (Operator.lookup os) :=
  Rules.knows_standard.register fun o ho =>
    ⟨fun hint => hos.kinds o ho (by simp [hint]), fun heof => hos.kinds o ho (by simp [heof])⟩

/-- A chain of single operands up to the end of input is read as the tree that it is grouped as, by
its operators of the language and those that have been registered, and the parser comes to a halt on
its last operand. Only where right operands nest more deeply than the frames of the stack suffice
for, one frame for each of them besides those on the way to it, the parser fails. -/
theorem parse_chain {os : List Operator} (hos : IsOperatorTable os) {source : String}
    {tokens : List Token} (htokens : tokenize source = .ok tokens) {first : Token} {ls : List Link}
    (hchain : legalAmong tokens.dropLast = chainTokens first ls)
    (hfirst : first.operand?.isSome = true)
    (hls : ∀ l ∈ ls, Operator.lookup os l.token.kind = some l.operator ∧
      l.operand.operand?.isSome = true) (recover : Bool) :
    ∃ s e, State.start .standard recover (.ofText source) = .ok s ∧ Groups e first ls ∧
      ∀ bound,
        (e.operandDepth * (bound.extra .operand + 1) < bound.frames → ∃ s',
          (Command.expression .lowest).runWithin bound
            (drive bound (os.map Operator.command) s) = .ok (.expression e) s' ∧
          s'.current = lastOperand first ls ∧ s'.peek.kind = .eof) ∧
        (bound.frames ≤ e.operandDepth * (bound.extra .operand + 1) → ∃ s',
          (Command.expression .lowest).runWithin bound
            (drive bound (os.map Operator.command) s) = .error .tooDeep s') := by
  obtain ⟨hof, hsides⟩ := hos.areOf fun l hl => (hls l hl).1
  obtain ⟨s, hs, hon⟩ := State.exists_start_isOn htokens hchain os recover
  obtain ⟨e, he⟩ := exists_groups hfirst (fun l hl => (hls l hl).2) hsides
  obtain ⟨ts, hitems, -⟩ := tokenize_eq_ok.1 htokens
  exact ⟨s, e, hs, he, fun bound =>
    he.runWithin_expression hos.knows hitems (Scan.kind_last source) hof hsides (hon bound) bound⟩

/-- The comma, as an operator that binds more tightly than those of the language. -/
def comma : Operator := ⟨.comma, .unary, true⟩

lemma isOperatorTable_comma : IsOperatorTable [comma] := by
  have hside (kind : Kind) (o : Operator) (h : Operator.lookup [comma] kind = some o) :
      o.toRight = decide (o.precedence = .unary) := by
    cases kind <;> cases h <;> decide
  refine ⟨by decide, by decide, fun kind kind' o o' h h' hprecedence => ?_⟩
  rw [hside kind o h, hside kind' o' h', hprecedence]

def tokenAt (kind : Kind) (literal : String) (column : Int) : Token :=
  ⟨⟨kind, literal⟩, ⟨⟨1, column, column - 1⟩, ⟨1, column + 1, column⟩⟩⟩

/-- Operators of three precedences, one of them registered. -/
theorem parse_chain_mixed : ∃ s e s',
    State.start .standard true (.ofText "a + b, c, 1 - d < e") = .ok s ∧
    Groups e (tokenAt .ident "a" 1) [
      ⟨⟨.plus, .sum, false⟩, tokenAt .plus "+" 3, tokenAt .ident "b" 5⟩,
      ⟨comma, tokenAt .comma "," 6, tokenAt .ident "c" 8⟩,
      ⟨comma, tokenAt .comma "," 9, tokenAt .int "1" 11⟩,
      ⟨⟨.minus, .sum, false⟩, tokenAt .minus "-" 13, tokenAt .ident "d" 15⟩,
      ⟨⟨.lt, .lessGreater, false⟩, tokenAt .lt "<" 17, tokenAt .ident "e" 19⟩] ∧
    (Command.expression .lowest).run (drive Limits.standard.nesting [comma.command] s) =
      .ok (.expression e) s' ∧ s'.peek.kind = .eof := by
  have htokens : tokenize "a + b, c, 1 - d < e" = .ok [tokenAt .ident "a" 1, tokenAt .plus "+" 3,
    tokenAt .ident "b" 5, tokenAt .comma "," 6, tokenAt .ident "c" 8, tokenAt .comma "," 9,
    tokenAt .int "1" 11, tokenAt .minus "-" 13, tokenAt .ident "d" 15, tokenAt .lt "<" 17,
    tokenAt .ident "e" 19, .endOfInput ⟨1, 20, 19⟩] := rfl
  have hchain : legalAmong [tokenAt .ident "a" 1, tokenAt .plus "+" 3, tokenAt .ident "b" 5,
      tokenAt .comma "," 6, tokenAt .ident "c" 8, tokenAt .comma "," 9, tokenAt .int "1" 11,
      tokenAt .minus "-" 13, tokenAt .ident "d" 15, tokenAt .lt "<" 17, tokenAt .ident "e" 19] =
    chainTokens (tokenAt .ident "a" 1) [
      ⟨⟨.plus, .sum, false⟩, tokenAt .plus "+" 3, tokenAt .ident "b" 5⟩,
      ⟨comma, tokenAt .comma "," 6, tokenAt .ident "c" 8⟩,
      ⟨comma, tokenAt .comma "," 9, tokenAt .int "1" 11⟩,
      ⟨⟨.minus, .sum, false⟩, tokenAt .minus "-" 13, tokenAt .ident "d" 15⟩,
      ⟨⟨.lt, .lessGreater, false⟩, tokenAt .lt "<" 17, tokenAt .ident "e" 19⟩] := rfl
  obtain ⟨s, e, hs, he, hruns⟩ :=
    parse_chain isOperatorTable_comma htokens hchain rfl (by simp; decide) true
  have hdepth : e.operandDepth ≤ 5 := he.operandDepth_le
  obtain ⟨s', hrun, -, hend⟩ := (hruns Limits.standard.nesting).1
    (lt_of_le_of_lt (Nat.mul_le_mul_right _ hdepth) (by decide))
  exact ⟨s, e, s', hs, he, hrun, hend⟩

/-! ### Right operands that nest too deeply -/

def namesLexemes (n : Nat) : List Lexeme :=
  ⟨.ident, "x"⟩ :: (List.replicate n [⟨.comma, ","⟩, ⟨.ident, "x"⟩]).flatten

/-- The text of names with `n` commas between them. -/
def names (n : Nat) : String := joined (namesLexemes n)

lemma scans_namesLexemes (n : Nat) : ∀ x ∈ namesLexemes n, x.Scans := by
  have hname : Lexeme.Scans ⟨.ident, "x"⟩ :=
    Lexeme.scans_word (List.cons_ne_nil _ _) (List.all_eq_true.1 rfl) rfl (by decide) (by decide)
  have hcomma : Lexeme.Scans ⟨.comma, ","⟩ := Lexeme.scans_operator (by decide)
  exact scans_repeated hname (by simp [hcomma, hname]) n

lemma exists_links {ts : List Token} {n : Nat}
    (h : ts.map Token.toLexeme = (List.replicate n [⟨.comma, ","⟩, ⟨.ident, "x"⟩]).flatten) :
    ∃ ls : List Link, ts = ls.flatMap (fun l => [l.token, l.operand]) ∧ ls.length = n ∧
      ∀ l ∈ ls, l.operator = comma ∧ l.token.kind = .comma ∧ l.operand.kind = .ident := by
  induction n generalizing ts with
  | zero =>
    obtain rfl : ts = [] := List.map_eq_nil_iff.1 h
    exact ⟨[], rfl, rfl, List.forall_mem_nil _⟩
  | succ n ih =>
    simp only [List.replicate_succ, List.flatten_cons, List.cons_append, List.nil_append,
      List.map_eq_cons_iff] at h
    obtain ⟨t, _, rfl, ht, a, ts, rfl, ha, hts⟩ := h
    obtain ⟨ls, rfl, rfl, hls⟩ := ih hts
    exact ⟨⟨comma, t, a⟩ :: ls, rfl, rfl, List.forall_mem_cons.2
      ⟨⟨rfl, congrArg Lexeme.kind ht, congrArg Lexeme.kind ha⟩, hls⟩⟩

/-- Names with commas between them are a chain of operators that group to the right. -/
lemma tokenize_names (n : Nat) : ∃ first ls, tokenize (names n) =
      .ok (chainTokens first ls ++ [(Scan.ofText (names n)).last]) ∧
    legalAmong (chainTokens first ls) = chainTokens first ls ∧ first.operand?.isSome = true ∧
    ls.length = n ∧ ∀ l ∈ ls, l.operator = comma ∧
      Operator.lookup [comma] l.token.kind = some l.operator ∧
      l.operand.operand?.isSome = true := by
  have hscans := scans_namesLexemes n
  obtain ⟨us, hitems, hlexemes⟩ := items_joined hscans
  have hlegal : legalAmong us = us := List.filter_eq_self.2 fun t ht =>
    decide_eq_true (kind_ne_illegal_of_scans (hlexemes ▸ hscans) t ht)
  obtain ⟨first, ts, rfl, hfirst, hts⟩ := List.map_eq_cons_iff.1 hlexemes
  obtain ⟨ls, rfl, hlength, hls⟩ := exists_links hts
  have hname {t : Token} (ht : t.kind = .ident) : t.operand?.isSome = true := by
    rw [Token.operand?, ht]
    rfl
  refine ⟨first, ls, tokenize_eq_ok.2 ⟨_, hitems, rfl⟩, hlegal, hname (congrArg Lexeme.kind hfirst),
    hlength, fun l hl => ?_⟩
  obtain ⟨hcomma, htoken, hoperand⟩ := hls l hl
  refine ⟨hcomma, ?_, hname hoperand⟩
  rw [htoken, hcomma]
  rfl

/-- Commas that group to the right nest too deeply if there are too many of them. -/
theorem names_tooDeep {bound : Bound} {n : Nat} (h : bound.frames ≤ n) :
    ∃ first ls s s', tokenize (names n) =
      .ok (chainTokens first ls ++ [(Scan.ofText (names n)).last]) ∧
    first.operand?.isSome = true ∧
    (∀ l ∈ ls, Operator.lookup [comma] l.token.kind = some l.operator ∧
      l.operand.operand?.isSome = true) ∧
    State.start .standard true (.ofText (names n)) = .ok s ∧
    (Command.expression .lowest).runWithin bound (drive bound [comma.command] s) =
      .error .tooDeep s' := by
  obtain ⟨first, ls, htokens, hlegal, hfirst, rfl, hls⟩ := tokenize_names n
  have htable := isOperatorTable_comma
  obtain ⟨hof, hsides⟩ := htable.areOf fun l hl => (hls l hl).2.1
  obtain ⟨s, hs, hon⟩ := State.exists_start_isOn htokens
    (by rwa [List.dropLast_concat]) [comma] true
  obtain ⟨e, he⟩ := exists_groups hfirst (fun l hl => (hls l hl).2.2) hsides
  obtain ⟨ts, hitems, -⟩ := tokenize_eq_ok.1 htokens
  have hdepth := he.operandDepth_eq rfl fun l hl => (hls l hl).1
  obtain ⟨s', hrun⟩ := (he.runWithin_expression htable.knows hitems (Scan.kind_last _) hof hsides
    (hon bound) bound).2 (h.trans (hdepth ▸ Nat.le_mul_of_pos_right _ (Nat.succ_pos _)))
  exact ⟨first, ls, s, s', htokens, hfirst, fun l hl => (hls l hl).2, hs, hrun⟩

/-- Two thousand operators that group to the right are too many. -/
theorem names_tooDeep_twoThousand : IsOperatorTable [comma] ∧ ∃ first ls s s',
    tokenize (names 2000) = .ok (chainTokens first ls ++ [(Scan.ofText (names 2000)).last]) ∧
    first.operand?.isSome = true ∧
    (∀ l ∈ ls, Operator.lookup [comma] l.token.kind = some l.operator ∧
      l.operand.operand?.isSome = true) ∧
    State.start .standard true (.ofText (names 2000)) = .ok s ∧
    (Command.expression .lowest).run (drive Limits.standard.nesting [comma.command] s) =
      .error .tooDeep s' :=
  ⟨isOperatorTable_comma, names_tooDeep (by decide)⟩

end MonkeyFront
