import Mathlib.Data.List.TakeWhile
import MonkeyFront.Proofs.Overruns

/-!
# The tokens ahead of a parser

A parser that works by the standard rules sees a text as the list of the tokens from the current one
on, without illegal characters and up to the end of input: the current token is the first of
`State.ahead`, the next one the second, and to advance is to drop the first.
-/

namespace MonkeyFront

/-- The kind of the first of some tokens, which the end of input follows. -/
def headKind : List Token → Kind
  | [] => .eof
  | t :: _ => t.kind

@[simp] lemma headKind_nil : headKind [] = .eof := rfl

@[simp] lemma headKind_cons (t : Token) (ts : List Token) : headKind (t :: ts) = t.kind := rfl

lemma exists_cons_of_headKind {ts : List Token} {kind : Kind} (h : headKind ts = kind)
    (hk : kind ≠ .eof) : ∃ t rest, ts = t :: rest ∧ t.kind = kind := by
  cases ts with
  | nil => exact absurd h.symm hk
  | cons t rest => exact ⟨t, rest, rfl, h⟩

/-- The tokens among outcomes before the first scan error, without illegal characters. -/
def tokensIn : List Scanned → List Token
  | [] => []
  | .error _ :: _ => []
  | .ok t :: rest => if t.kind = .illegal then tokensIn rest else t :: tokensIn rest

def illegalIn (items : List Scanned) : List Token :=
  items.filterMap fun
    | .ok t => if t.kind = .illegal then some t else none
    | .error _ => none

lemma length_tokensIn_le (items : List Scanned) : (tokensIn items).length ≤ items.length := by
  fun_induction tokensIn items with
  | case1 => exact Nat.le_refl _
  | case2 => exact Nat.zero_le _
  | case3 t rest _ ih => exact Nat.le_succ_of_le ih
  | case4 t rest _ ih => exact Nat.succ_le_succ ih

lemma illegalIn_eq_pull (last : Token) (items : List Scanned) :
    illegalIn items = (pull last items).illegal ++ illegalIn (pull last items).rest := by
  fun_induction pull last items with
  | case1 => rfl
  | case2 => rfl
  | case3 t rest h _ ih => simpa [illegalIn, h] using ih
  | case4 t rest h => simp [illegalIn, h]

lemma ok_mem_of_mem_illegalIn {t : Token} {items : List Scanned} (h : t ∈ illegalIn items) :
    .ok t ∈ items ∧ t.kind = .illegal := by
  obtain ⟨x, hx, htoken⟩ := List.mem_filterMap.1 h
  cases x with
  | error e => cases htoken
  | ok u =>
    by_cases hu : u.kind = .illegal
    · obtain rfl : u = t := by simpa [hu] using htoken
      exact ⟨hx, hu⟩
    · simp [hu] at htoken

lemma of_mem_pull_illegal {last t : Token} {items : List Scanned}
    (h : t ∈ (pull last items).illegal) :
    .ok t ∈ items ∧ t.kind = .illegal := by
  apply ok_mem_of_mem_illegalIn
  rw [illegalIn_eq_pull last]
  exact List.mem_append_left _ h

/-- What is pulled is the first token; where there is none, the end of input is pulled and nothing
is left. -/
lemma pull_ok {last t : Token} {items : List Scanned} (h : (pull last items).token = .ok t) :
    (t = last ∧ tokensIn items = [] ∧ (pull last items).rest = []) ∨
      (.ok t ∈ items ∧ tokensIn items = t :: tokensIn (pull last items).rest) := by
  fun_induction pull last items with
  | case1 =>
    left
    exact ⟨(Except.ok.inj h).symm, rfl, rfl⟩
  | case2 => cases h
  | case3 u rest hu _ ih =>
    simp only [tokensIn, hu, if_true, List.mem_cons]
    refine (ih h).imp_right ?_
    rintro ⟨hmem, htokens⟩
    exact ⟨.inr hmem, htokens⟩
  | case4 u rest hu =>
    obtain rfl : u = t := Except.ok.inj h
    right
    simp only [tokensIn, hu, if_false, List.mem_cons, true_or, and_self]

lemma pull_error {last : Token} {items : List Scanned} {e : ScanError}
    (h : (pull last items).token = .error e) : .error e ∈ items := by
  fun_induction pull last items with
  | case1 => cases h
  | case2 e' rest =>
    obtain rfl : e' = e := Except.error.inj h
    exact List.mem_cons_self
  | case3 t rest ht _ ih => exact List.mem_cons_of_mem _ (ih h)
  | case4 t rest ht => cases h

lemma mem_of_mem_tokensIn {t : Token} {items : List Scanned} (h : t ∈ tokensIn items) :
    .ok t ∈ items := by
  fun_induction tokensIn items with
  | case1 | case2 => cases h
  | case3 u rest _ ih => exact List.mem_cons_of_mem _ (ih h)
  | case4 u rest _ ih =>
    rcases List.mem_cons.1 h with rfl | h
    · exact List.mem_cons_self
    · exact List.mem_cons_of_mem _ (ih h)

namespace State

/-- The tokens from the current one on, up to the end of input or a scan error. -/
def ahead (s : State) : List Token :=
  (s.current :: s.peek :: tokensIn s.upcoming).takeWhile (·.kind ≠ .eof)

def behind (s : State) : List Token := s.ahead.tail

/-- The illegal characters that are still to be reported. -/
def pending (s : State) : List Token := s.skipped ++ illegalIn s.upcoming

/-- A state over a text with the standard rules in force. Only the end of input is of that kind, and
nothing comes behind it. -/
structure Steady (s : State) : Prop where
  rules : s.rules = .standard
  upcoming : ∀ t, .ok t ∈ s.upcoming → t.kind ≠ .eof
  last : s.last.kind = .eof
  peek : s.peek.kind = .eof → s.peek = s.last ∧ s.upcoming = []
  current : s.current.kind = .eof → s.current = s.last ∧ s.peek = s.last

lemma ahead_cons {s : State} (h : s.current.kind ≠ .eof) : s.ahead = s.current :: s.behind := by
  simp [behind, ahead, h]

lemma ahead_eq_nil {s : State} (h : s.current.kind = .eof) : s.ahead = [] := by
  simp [ahead, h]

lemma behind_eq_nil {s : State} (h : s.current.kind = .eof) : s.behind = [] := by
  rw [behind, ahead_eq_nil h, List.tail_nil]

lemma headKind_ahead (s : State) : headKind s.ahead = s.current.kind := by
  by_cases h : s.current.kind = .eof
  · rw [ahead_eq_nil h, headKind_nil, h]
  · rw [ahead_cons h, headKind_cons]

lemma length_ahead_le (s : State) : s.ahead.length ≤ s.tokensLeft := by
  refine (List.takeWhile_prefix _).length_le.trans ?_
  simp only [List.length_cons, tokensLeft]
  exact Nat.add_le_add_right (length_tokensIn_le _) 2

lemma length_behind_le (s : State) : s.behind.length ≤ s.tokensLeft := by
  refine le_trans ?_ s.length_ahead_le
  rw [behind, List.length_tail]
  exact Nat.sub_le _ _

namespace Steady

variable {s : State} (h : s.Steady)

include h

lemma headKind_behind : headKind s.behind = s.peek.kind := by
  by_cases hc : s.current.kind = .eof
  · rw [behind_eq_nil hc, headKind_nil, (h.current hc).2, h.last]
  · by_cases hp : s.peek.kind = .eof
    · simp [behind, ahead, hc, hp]
    · simp [behind, ahead, hc, hp]

lemma current_eq : s.current = s.ahead.headD s.last := by
  by_cases hc : s.current.kind = .eof
  · rw [ahead_eq_nil hc, (h.current hc).1, List.headD_nil]
  · rw [ahead_cons hc, List.headD_cons]

lemma peek_eq : s.peek = s.behind.headD s.last := by
  by_cases hc : s.current.kind = .eof
  · rw [behind_eq_nil hc, (h.current hc).2, List.headD_nil]
  · by_cases hp : s.peek.kind = .eof
    · simpa [behind, ahead, hc, hp] using (h.peek hp).1
    · simp [behind, ahead, hc, hp]

end Steady

/-! ### Where the stack runs out -/

lemma Steady.takeWhile_tokensIn {s : State} (h : s.Steady) :
    (tokensIn s.upcoming).takeWhile (·.kind ≠ .eof) = tokensIn s.upcoming :=
  List.takeWhile_eq_self_iff.2 fun t ht => by simpa using h.upcoming t (mem_of_mem_tokensIn ht)

namespace Overruns

variable {s s' : State} (h : s.Overruns s') (hs : s.Steady)

include h

lemma tokensIn_eq : tokensIn s'.upcoming = tokensIn s.upcoming ∨
    tokensIn s'.upcoming = (tokensIn s.upcoming).tail := by
  cases h with
  | pulled htoken =>
    right
    rcases pull_ok htoken with ⟨-, hnil, hrest⟩ | ⟨-, hcons⟩
    · simp [overrun, hnil, hrest, tokensIn]
    · rw [hcons, List.tail_cons]
      rfl
  | @taken token rest htaken =>
    simp only [overrun, htaken, tokensIn]
    split
    · exact .inl rfl
    · exact .inr rfl
  | entered => exact .inl rfl

/-- The illegal characters in front of a number that is lost are among those to come. -/
lemma of_mem_skipped {t : Token} (ht : t ∈ s'.skipped) :
    .ok t ∈ s.upcoming ∧ t.kind = .illegal := by
  cases h with
  | pulled => exact of_mem_pull_illegal ht
  | taken => cases ht
  | entered => cases ht

include hs

lemma steady : s'.Steady where
  rules := h.rules_eq.trans hs.rules
  upcoming t ht := hs.upcoming t (h.upcoming_suffix.subset ht)
  last := h.last_eq ▸ hs.last
  peek hp := by
    obtain ⟨hpeek, hnil⟩ := hs.peek (h.peek_eq ▸ hp)
    exact ⟨by rw [h.peek_eq, h.last_eq, hpeek], List.suffix_nil.1 (hnil ▸ h.upcoming_suffix)⟩
  current hc := by
    have hpeek := (hs.peek (h.current_eq ▸ hc)).1
    exact ⟨by rw [h.current_eq, h.last_eq, hpeek], by rw [h.peek_eq, h.last_eq, hpeek]⟩

/-- The parser stands before the token behind which it stood, which is the next one as well; the
one behind it may be lost. -/
lemma behind_sublist : s'.behind.Sublist s.behind := by
  by_cases hp : s.peek.kind = .eof
  · rw [behind_eq_nil (h.current_eq ▸ hp)]
    exact List.nil_sublist _
  · have hc : s.current.kind ≠ .eof := fun hc => hp ((hs.current hc).2 ▸ hs.last)
    have hbehind {u : State} (hu : u.Steady) (hcu : u.current.kind ≠ .eof)
        (hpu : u.peek.kind ≠ .eof) : u.behind = u.peek :: tokensIn u.upcoming := by
      have htokens := hu.takeWhile_tokensIn
      simp [behind, ahead, hcu, hpu] at htokens ⊢
      exact htokens
    rw [hbehind hs hc hp, hbehind (h.steady hs) (h.current_eq ▸ hp) (h.peek_eq ▸ hp), h.peek_eq]
    refine List.Sublist.cons_cons _ ?_
    rcases h.tokensIn_eq with he | he
    · exact he ▸ List.Sublist.refl _
    · exact he ▸ List.tail_sublist _

end Overruns

/-- The state `s'` is reached from `s` by advancing and by counting blocks. -/
inductive Moves (s : State) : State → Prop
  | refl : Moves s s
  | advance {s₁ s₂} : Moves s s₁ → MonkeyFront.advance s₁ = .ok () s₂ → Moves s s₂
  | count {s₁} (n : Int) : Moves s s₁ → Moves s { s₁ with depth := n }

lemma Moves.trans {s₁ s₂ s₃ : State} (h₁ : s₁.Moves s₂) (h₂ : s₂.Moves s₃) : s₁.Moves s₃ := by
  induction h₂ with
  | refl => exact h₁
  | advance _ ha ih => exact ih.advance ha
  | count n _ ih => exact ih.count n

/-- The state `s'` is reached from `s` by moves that do not fail: what is left to read is a rest of
what was left, and the illegal characters in between are reported. -/
structure Follows (s s' : State) : Prop where
  moves : s.Moves s'
  steady : s'.Steady
  last : s'.last = s.last
  recover : s'.recover = s.recover
  upcoming : s'.upcoming <:+ s.upcoming
  reported : ∃ ts, s.pending = ts ++ s'.pending ∧
    s'.diagnostics = s.diagnostics ++ ts.map .ofIllegal

namespace Follows

lemma refl {s : State} (h : s.Steady) : s.Follows s :=
  ⟨.refl, h, rfl, rfl, List.suffix_rfl, [], rfl, by simp⟩

lemma trans {s₁ s₂ s₃ : State} (h₁ : s₁.Follows s₂) (h₂ : s₂.Follows s₃) : s₁.Follows s₃ := by
  obtain ⟨ts, hpending, hdiagnostics⟩ := h₁.reported
  obtain ⟨us, hpending', hdiagnostics'⟩ := h₂.reported
  refine ⟨h₁.moves.trans h₂.moves, h₂.steady, h₂.last.trans h₁.last, h₂.recover.trans h₁.recover,
    h₂.upcoming.trans h₁.upcoming, ts ++ us, ?_, ?_⟩
  · rw [hpending, hpending', List.append_assoc]
  · rw [hdiagnostics', hdiagnostics, List.map_append, List.append_assoc]

end Follows

/-- The number of open blocks matters neither to the tokens nor to the diagnostics. -/
lemma Steady.withDepth {s : State} (h : s.Steady) (n : Int) :
    s.Follows { s with depth := n } :=
  ⟨.count n .refl, ⟨h.rules, h.upcoming, h.last, h.peek, h.current⟩, rfl, rfl, List.suffix_rfl, [],
    rfl, by simp⟩

end State

theorem ends_advance {s : State} (h : s.Steady) :
    Ends advance s
      (fun _ s' => s.Follows s' ∧ s'.ahead = s.behind ∧ s'.current = s.peek ∧ s'.depth = s.depth)
      (fun e _ => ∃ x, e = .scan x ∧ .error x ∈ s.upcoming) := by
  have hrun : ∀ s', advance s = .ok () s' → s.Moves s' := fun _ => State.Moves.refl.advance
  simp only [Ends, advance] at hrun ⊢
  cases hp : (pull s.last s.upcoming).token with
  | error e => exact ⟨e, rfl, pull_error hp⟩
  | ok t =>
    rw [hp] at hrun
    have hrest := pull_rest_suffix s.last s.upcoming
    have hpulled := pull_ok hp
    refine ⟨⟨hrun _ rfl, ⟨h.rules, fun u hu => h.upcoming u (hrest.subset hu), h.last, fun ht => ?_,
      fun hc => ?_⟩, rfl, rfl, hrest, s.skipped, ?_, rfl⟩, ?_, rfl, rfl⟩
    · rcases hpulled with ⟨hlast, -, hnil⟩ | ⟨hmem, -⟩
      · exact ⟨hlast, hnil⟩
      · exact absurd ht (h.upcoming t hmem)
    · obtain ⟨hpeek, hnil⟩ := h.peek hc
      rw [hnil, pull] at hp
      exact ⟨hpeek, (Except.ok.inj hp).symm⟩
    · simp only [State.pending]
      rw [illegalIn_eq_pull s.last]
    · simp only [State.behind, State.ahead]
      by_cases hpe : s.peek.kind = .eof
      · by_cases hc : s.current.kind = .eof <;> simp [hc, hpe]
      · have hc : s.current.kind ≠ .eof := fun hc => hpe ((h.current hc).2 ▸ h.last)
        rcases hpulled with ⟨rfl, hnil, -⟩ | ⟨-, hcons⟩
        · simp [hpe, hc, hnil, h.last]
        · simp [hpe, hc, hcons]

end MonkeyFront
