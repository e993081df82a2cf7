import Mathlib.Data.List.TakeWhile
import MonkeyFront.Proofs.Ahead

namespace MonkeyFront

lemma Cursor.kind_scanWithin (n : Nat) (c : Cursor) :
    (∀ t, .ok t ∈ (c.scanWithin n).1 → t.kind ≠ .eof) ∧ (c.scanWithin n).2.kind = .eof := by
  induction n generalizing c with
  | zero => exact ⟨fun _ ht => absurd ht List.not_mem_nil, rfl⟩
  | succ n ih =>
    unfold scanWithin
    split
    · next e behind _ =>
      refine ⟨fun t ht => (ih behind).1 t ?_, (ih behind).2⟩
      simpa only [List.mem_cons, reduceCtorEq, false_or] using ht
    · next token behind _ =>
      split_ifs with hk
      · exact ⟨fun _ ht => absurd ht List.not_mem_nil, hk⟩
      · refine ⟨fun t ht => ?_, (ih behind).2⟩
        rcases List.mem_cons.1 ht with ht | ht
        · rw [Except.ok.inj ht]
          exact hk
        · exact (ih behind).1 t ht

namespace Scan

lemma kind_items (source : String) {t : Token} (h : .ok t ∈ (ofText source).items) :
    t.kind ≠ .eof :=
  (Cursor.kind_scanWithin (source.length + 1) (.ofText source)).1 t h

lemma kind_last (source : String) : (ofText source).last.kind = .eof :=
  (Cursor.kind_scanWithin (source.length + 1) (.ofText source)).2

lemma kind_ne_illegal_of_append_last {source : String} {ts : List Token}
    (h : ∀ t ∈ ts, t.kind ≠ .illegal) :
    ∀ t ∈ ts ++ [(ofText source).last], t.kind ≠ .illegal := by
  refine List.forall_mem_append.2 ⟨h, List.forall_mem_singleton.2 ?_⟩
  rw [kind_last]
  decide

end Scan

theorem tokenize_eq_ok {source : String} {tokens : List Token} :
    tokenize source = .ok tokens ↔ ∃ ts, (Scan.ofText source).items = ts.map .ok ∧
      tokens = ts ++ [(Scan.ofText source).last] := by
  have collect (items : List Scanned) (ts : List Token) :
      items.mapM id = .ok ts ↔ items = ts.map .ok := by
    induction items generalizing ts with
    | nil => cases ts <;> simp [pure, Except.pure]
    | cons x items ih =>
      cases x with
      | error e => cases ts <;> simp [bind, Except.bind]
      | ok t =>
        cases hm : items.mapM id with
        | error e => cases ts <;> simp [bind, Except.bind, hm, ← ih]
        | ok us => cases ts <;> simp [bind, Except.bind, pure, Except.pure, hm, ← ih]
  unfold tokenize
  cases hm : (Scan.ofText source).items.mapM id with
  | error e => simp [bind, Except.bind, hm, ← collect]
  | ok us => simp [bind, Except.bind, pure, Except.pure, hm, ← collect, eq_comm]

lemma tokensIn_map_ok (ts : List Token) :
    tokensIn (ts.map .ok) = ts.filter (·.kind ≠ .illegal) := by
  induction ts with
  | nil => rfl
  | cons t ts ih =>
    by_cases h : t.kind = .illegal <;> simp [tokensIn, h, ih]

lemma illegalIn_map_ok (ts : List Token) :
    illegalIn (ts.map .ok) = ts.filter (·.kind = .illegal) := by
  induction ts with
  | nil => rfl
  | cons t ts ih =>
    simp only [illegalIn, List.map_cons] at ih ⊢
    by_cases h : t.kind = .illegal <;> simp [h, ih]

namespace State

structure Starts (scan : Scan) (s : State) : Prop where
  steady : s.Steady
  last : s.last = scan.last
  depth : s.depth = 0
  upcoming : s.upcoming <:+ scan.items
  ahead : s.ahead = tokensIn scan.items
  reported : ∃ ts, illegalIn scan.items = ts ++ s.pending ∧ s.diagnostics = ts.map .ofIllegal

lemma start_eq_ok {rules : Rules} {recover : Bool} {scan : Scan} {s : State} :
    start rules recover scan = .ok s ↔ ∃ t u,
      (pull scan.last scan.items).token = .ok t ∧
      (pull scan.last (pull scan.last scan.items).rest).token = .ok u ∧
      s = {
        upcoming := (pull scan.last (pull scan.last scan.items).rest).rest
        last := scan.last
        current := t
        peek := u
        skipped := (pull scan.last (pull scan.last scan.items).rest).illegal
        depth := 0
        diagnostics := (pull scan.last scan.items).illegal.map .ofIllegal
        recover := recover
        rules := rules } := by
  unfold start
  cases ht : (pull scan.last scan.items).token with
  | error e => simp [bind, Except.bind, ht]
  | ok t =>
    cases hu : (pull scan.last (pull scan.last scan.items).rest).token with
    | error e => simp [bind, Except.bind, ht, hu]
    | ok u => simp [bind, Except.bind, pure, Except.pure, ht, hu, eq_comm]

lemma exists_start_of_items {scan : Scan} {ts : List Token} (h : scan.items = ts.map .ok)
    (rules : Rules) (recover : Bool) : ∃ s, start rules recover scan = .ok s := by
  have pulls {items : List Scanned} (hi : items <:+ scan.items) (last : Token) :
      ∃ t, (pull last items).token = .ok t := by
    cases hp : (pull last items).token with
    | ok t => exact ⟨t, rfl⟩
    | error e =>
      have := hi.subset (pull_error hp)
      simp [h] at this
  obtain ⟨t, ht⟩ := pulls List.suffix_rfl _
  obtain ⟨u, hu⟩ := pulls (pull_rest_suffix _ _) _
  exact ⟨_, start_eq_ok.2 ⟨t, u, ht, hu, rfl⟩⟩

theorem exists_start {source : String} {tokens : List Token} (h : tokenize source = .ok tokens)
    (rules : Rules) (recover : Bool) :
    ∃ s, start rules recover (.ofText source) = .ok s := by
  obtain ⟨ts, hts, -⟩ := tokenize_eq_ok.1 h
  exact exists_start_of_items hts rules recover

lemma starts_of_kinds {scan : Scan} (hlast : scan.last.kind = .eof)
    (hitems : ∀ t, .ok t ∈ scan.items → t.kind ≠ .eof) {recover : Bool} {s : State}
    (h : start .standard recover scan = .ok s) : s.Starts scan ∧ s.recover = recover := by
  obtain ⟨t, u, ht, hu, rfl⟩ := start_eq_ok.1 h
  have hrest := pull_rest_suffix scan.last scan.items
  have hrest' := (pull_rest_suffix scan.last _).trans hrest
  refine ⟨⟨⟨rfl, fun v hv => hitems v (hrest'.subset hv), hlast, fun he => ?peek,
    fun he => ?current⟩, rfl, rfl, hrest', ?ahead, _, ?illegal, rfl⟩, rfl⟩
  case peek =>
    rcases pull_ok hu with ⟨hl, -, hn⟩ | ⟨hm, -⟩
    · exact ⟨hl, hn⟩
    · exact absurd he (hitems u (hrest.subset hm))
  case current =>
    rcases pull_ok ht with ⟨hl, -, hn⟩ | ⟨hm, -⟩
    · rw [hn, pull] at hu
      exact ⟨hl, (Except.ok.inj hu).symm⟩
    · exact absurd he (hitems t hm)
  case ahead =>
    have hall : (tokensIn scan.items).takeWhile (·.kind ≠ .eof) = tokensIn scan.items :=
      List.takeWhile_eq_self_iff.2 fun v hv => by simpa using hitems v (mem_of_mem_tokensIn hv)
    rcases pull_ok ht with ⟨rfl, hn, -⟩ | ⟨-, hc⟩
    · simp [State.ahead, hlast, hn]
    rcases pull_ok hu with ⟨rfl, hn, -⟩ | ⟨-, hc'⟩
    · rw [hc, hn] at hall ⊢
      simpa [State.ahead, hlast, List.takeWhile_cons] using hall
    · rw [hc, hc'] at hall ⊢
      exact hall
  case illegal => rw [State.pending, illegalIn_eq_pull _ scan.items, illegalIn_eq_pull]

theorem starts {source : String} {recover : Bool} {s : State}
    (h : start .standard recover (.ofText source) = .ok s) :
    s.Starts (.ofText source) ∧ s.recover = recover :=
  starts_of_kinds (Scan.kind_last source) (fun _ => Scan.kind_items source) h

/-- In front of a text that has tokens stand these tokens without the illegal characters. -/
lemma Starts.ahead_last {source : String} {s : State} (hs : s.Starts (.ofText source))
    {tokens : List Token} (h : tokenize source = .ok tokens) :
    s.ahead ++ [s.last] = tokens.filter (·.kind ≠ .illegal) := by
  obtain ⟨ts, hitems, rfl⟩ := tokenize_eq_ok.1 h
  rw [hs.ahead, hs.last, hitems, tokensIn_map_ok, List.filter_append,
    List.filter_cons_of_pos (by simp [Scan.kind_last]), List.filter_nil]

end State

end MonkeyFront
