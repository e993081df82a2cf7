import MonkeyFront.Proofs.Layout
import MonkeyFront.Proofs.Steps
import MonkeyFront.Proofs.IllegalCharacters

/-!
# What a parser has pulled

A parser takes its tokens from a scan one pull after the other, each over the illegal characters in
front of a token. It looks at the tokens of two pulls in a row and has reported the illegal
characters of all pulls up to the first of them.
-/

namespace MonkeyFront

/-! ### Single pulls -/

/-- A pull takes illegal characters and the token behind them, unless the outcomes end there. -/
lemma eq_pull (last : Token) (items : List Scanned) :
    (items = (pull last items).illegal.map .ok ++ (pull last items).token ::
      (pull last items).rest) ∨
    items = (pull last items).illegal.map .ok ∧ (pull last items).token = .ok last ∧
      (pull last items).rest = [] := by
  fun_induction pull last items with
  | case1 => exact .inr ⟨rfl, rfl, rfl⟩
  | case2 | case4 => exact .inl rfl
  | case3 t rest _ pulled ih =>
    simp only [List.map_cons, List.cons_append, List.cons.injEq, true_and]
    exact ih

lemma illegalIn_append (xs ys : List Scanned) :
    illegalIn (xs ++ ys) = illegalIn xs ++ illegalIn ys :=
  List.filterMap_append

/-- What a pull takes has the illegal characters that it passes, and no others. -/
lemma exists_taken (last : Token) (items : List Scanned) :
    ∃ taken, items = taken ++ (pull last items).rest ∧
      illegalIn taken = (pull last items).illegal := by
  obtain ⟨taken, htaken⟩ := pull_rest_suffix last items
  refine ⟨taken, htaken.symm, ?_⟩
  have hsplit := illegalIn_eq_pull last items
  rw [← htaken, illegalIn_append, htaken] at hsplit
  exact List.append_cancel_right hsplit

/-! ### Pulls in a row -/

namespace Scan

variable (scan : Scan)

/-- The outcomes that are left behind the first `n` pulls. -/
def left : Nat → List Scanned
  | 0 => scan.items
  | n + 1 => (pull scan.last (left n)).rest

def pulled (n : Nat) : Pulled := pull scan.last (scan.left n)

/-- The illegal characters that the first `n` pulls pass. -/
def passed : Nat → List Token
  | 0 => []
  | n + 1 => passed n ++ (scan.pulled n).illegal

lemma exists_before (n : Nat) :
    ∃ before, scan.items = before ++ scan.left n ∧ illegalIn before = scan.passed n := by
  induction n with
  | zero => exact ⟨[], rfl, rfl⟩
  | succ n ih =>
    obtain ⟨before, hitems, hbefore⟩ := ih
    obtain ⟨taken, hleft, htaken⟩ := exists_taken scan.last (scan.left n)
    refine ⟨before ++ taken, ?_, ?_⟩
    · rw [hitems, List.append_assoc]
      exact congrArg _ hleft
    · rw [illegalIn_append, hbefore, htaken]
      rfl

lemma left_suffix (n : Nat) : scan.left n <:+ scan.items := by
  obtain ⟨before, hitems, -⟩ := scan.exists_before n
  exact ⟨before, hitems.symm⟩

lemma illegalIn_items (n : Nat) :
    illegalIn scan.items = scan.passed n ++ illegalIn (scan.left n) := by
  obtain ⟨before, hitems, hbefore⟩ := scan.exists_before n
  rw [hitems, illegalIn_append, hbefore]

variable {scan}

lemma exists_token {ts : List Token} (h : scan.items = ts.map .ok) (n : Nat) :
    ∃ t, (scan.pulled n).token = .ok t := by
  cases hn : (scan.pulled n).token with
  | ok t => exact ⟨t, rfl⟩
  | error e =>
    have := (scan.left_suffix n).subset (pull_error hn)
    simp [h] at this

/-- The tokens that are pulled are those of the scan, one after the other, and then the end of input
for ever. -/
lemma pulled_eq {ts : List Token} (h : scan.items = ts.map .ok) (n : Nat) :
    tokensIn (scan.left n) = (tokensIn scan.items).drop n ∧
      (scan.pulled n).token = .ok ((tokensIn scan.items)[n]?.getD scan.last) := by
  have first (n : Nat) (hn : tokensIn (scan.left n) = (tokensIn scan.items).drop n) :
      (scan.pulled n).token = .ok ((tokensIn scan.items)[n]?.getD scan.last) ∧
        tokensIn (scan.left (n + 1)) = (tokensIn scan.items).drop (n + 1) := by
    obtain ⟨t, ht⟩ := exists_token h n
    rw [ht, ← List.head?_drop, ← List.tail_drop, ← hn]
    rcases pull_ok ht with ⟨rfl, hnil, hrest⟩ | ⟨-, hcons⟩
    · rw [hnil, left, hrest]
      exact ⟨rfl, rfl⟩
    · rw [hcons]
      exact ⟨rfl, rfl⟩
  have hleft : tokensIn (scan.left n) = (tokensIn scan.items).drop n := by
    induction n with
    | zero => rfl
    | succ n ih => exact (first n ih).2
  exact ⟨hleft, (first n hleft).1⟩

/-- The tokens of the scan stand one behind the other. -/
def Ordered (scan : Scan) : Prop :=
  (tokensAmong scan.items ++ [scan.last]).Pairwise (·.place < ·.place)

namespace Ordered

variable (h : scan.Ordered) {n : Nat} {t : Token}

include h

lemma left (n : Nat) :
    (tokensAmong (scan.left n) ++ [scan.last]).Pairwise (·.place < ·.place) := by
  obtain ⟨before, hitems, -⟩ := scan.exists_before n
  rw [Ordered, hitems, tokensAmong_append, List.append_assoc] at h
  exact (List.pairwise_append.1 h).2.1

/-- A token that is pulled stands behind the illegal characters of its pull, and in front of what is
left. -/
lemma pulled (ht : (scan.pulled n).token = .ok t) :
    (∀ x ∈ (scan.pulled n).illegal, x.place < t.place) ∧
      (∀ x ∈ tokensAmong (scan.left (n + 1)) ++ [scan.last], t.place ≤ x.place) ∧
      ∀ x ∈ t :: (scan.pulled n).illegal, x ∈ tokensAmong (scan.left n) ++ [scan.last] := by
  obtain ⟨hillegal, hbehind, -, hmem⟩ := places_pull ht (h.left n)
  exact ⟨hillegal, hbehind, hmem⟩

lemma place_le (ht : (scan.pulled n).token = .ok t) :
    ∀ x ∈ (scan.pulled (n + 1)).illegal, t.place ≤ x.place := by
  intro x hx
  apply (h.pulled ht).2.1
  apply List.mem_append_left
  apply (illegalIn_sublist _).subset
  rw [illegalIn_eq_pull scan.last]
  exact List.mem_append_left _ hx

/-- The illegal characters of all pulls up to that of a token stand in front of it. -/
lemma place_lt_of_mem_passed (ht : (scan.pulled n).token = .ok t) :
    ∀ x ∈ scan.passed (n + 1), x.place < t.place := by
  intro x hx
  rcases List.mem_append.1 hx with hx | hx
  · obtain ⟨before, hitems, hbefore⟩ := scan.exists_before n
    have horder := h
    rw [Ordered, hitems, tokensAmong_append, List.append_assoc] at horder
    apply (List.pairwise_append.1 horder).2.2
    · exact (illegalIn_sublist before).subset (hbefore ▸ hx)
    · exact (h.pulled ht).2.2 t List.mem_cons_self
  · exact (h.pulled ht).1 x hx

end Ordered

lemma ordered (source : String) : (ofText source).Ordered := pairwise_place source

end Scan

/-! ### States -/

namespace State

/-- What is still to come scans to its end. -/
def Scans (s : State) : Prop := ∀ e, .error e ∉ s.upcoming

lemma Reaches.scans {s s' : State} (hs : s.Reaches s') (h : s.Scans) : s'.Scans :=
  fun e he => h e (hs.upcoming_suffix.subset he)

lemma Scans.exists_advance {s : State} (h : s.Scans) : ∃ s', MonkeyFront.advance s = .ok () s' := by
  cases htoken : (pull s.last s.upcoming).token with
  | error e => exact absurd (pull_error htoken) (h e)
  | ok t =>
    simp only [MonkeyFront.advance, htoken]
    exact ⟨_, rfl⟩

/-- What has been reported about illegal characters. -/
def illegal (s : State) : List Diagnostic := s.diagnostics.filter (!·.complaint.isStructural)

lemma illegal_append (ds : List Diagnostic) (ts : List Token) :
    (ds ++ ts.map Diagnostic.ofIllegal).filter (!·.complaint.isStructural) =
      ds.filter (!·.complaint.isStructural) ++ ts.map .ofIllegal := by
  rw [List.filter_append, filter_ofIllegal]

lemma illegal_append_structural (ds : List Diagnostic) {d : Diagnostic}
    (hd : d.complaint.isStructural = true) :
    (ds ++ [d]).filter (!·.complaint.isStructural) = ds.filter (!·.complaint.isStructural) := by
  rw [List.filter_append, List.filter_cons_of_neg (by simp [hd]), List.filter_nil, List.append_nil]

lemma Blames.at_current_or_peek {s : State} {c : Complaint} {t : Token} (h : s.Blames c t) :
    c.isStructural = true ∧ (t = s.current ∨ t = s.peek) := by
  cases h with
  | unexpected kind => exact ⟨rfl, .inr rfl⟩
  | unclosed | noExpression | nestedTooDeeply => exact ⟨rfl, .inl rfl⟩

/-- The parser looks at what is pulled behind the first `n` pulls and at what is pulled next. It has
reported the illegal characters up to the current token; those behind it are pending, or all of them
have been reported. -/
structure HasPulled (scan : Scan) (n : Nat) (s : State) : Prop where
  last : s.last = scan.last
  current : (scan.pulled n).token = .ok s.current
  peek : (scan.pulled (n + 1)).token = .ok s.peek
  upcoming : s.upcoming = scan.left (n + 2)
  illegal : s.skipped = (scan.pulled (n + 1)).illegal ∧
      s.illegal = (scan.passed (n + 1)).map .ofIllegal ∨
    s.skipped = [] ∧ s.illegal = (scan.passed (n + 2)).map .ofIllegal

/-- The parser has just pulled, so that the illegal characters behind the current token are
pending. -/
structure HasJustPulled (scan : Scan) (n : Nat) (s : State) : Prop extends
    s.HasPulled scan n where
  pending : s.skipped = (scan.pulled (n + 1)).illegal

variable {scan : Scan} {n : Nat} {s s' : State}

lemma HasJustPulled.of_start {rules : Rules} {recover : Bool}
    (h : start rules recover scan = .ok s) : s.HasJustPulled scan 0 := by
  obtain ⟨t, u, ht, hu, rfl⟩ := start_eq_ok.1 h
  exact ⟨⟨rfl, ht, hu, rfl, .inl ⟨rfl, filter_ofIllegal _⟩⟩, rfl⟩

namespace HasPulled

lemma advance (h : s.HasPulled scan n) (hrun : MonkeyFront.advance s = .ok () s') :
    s'.HasJustPulled scan (n + 1) := by
  have hpull : pull s.last s.upcoming = scan.pulled (n + 2) := by
    rw [h.last, h.upcoming]
    rfl
  simp only [MonkeyFront.advance, hpull] at hrun
  cases htoken : (scan.pulled (n + 2)).token with
  | error e => simp [htoken] at hrun
  | ok t =>
    simp only [htoken, EStateM.Result.ok.injEq, true_and] at hrun
    subst hrun
    refine ⟨⟨h.last, h.peek, htoken, rfl, .inl ⟨rfl, ?_⟩⟩, rfl⟩
    rw [State.illegal, illegal_append, ← State.illegal]
    rcases h.illegal with ⟨hskipped, hillegals⟩ | ⟨hskipped, hillegals⟩
    · rw [hskipped, hillegals, ← List.map_append]
      rfl
    · rw [hskipped, hillegals, List.map_nil, List.append_nil]

lemma scans (h : s.HasPulled scan n) {ts : List Token} (hitems : scan.items = ts.map .ok) :
    s.Scans := by
  intro e he
  rw [h.upcoming] at he
  have hmem := (scan.left_suffix (n + 2)).subset he
  simp [hitems] at hmem

lemma apart (h : s.HasPulled scan n) (hscan : scan.Ordered) : s.Apart false := by
  refine ⟨fun x hx => ?_, ?_, ?_⟩
  · have hx : x ∈ (scan.pulled (n + 1)).illegal := by
      rcases h.illegal with ⟨hskipped, -⟩ | ⟨hskipped, -⟩
      · rwa [← hskipped]
      · rw [hskipped] at hx
        cases hx
    exact ⟨hscan.place_le h.current x hx, iff_of_true ((hscan.pulled h.peek).1 x hx) rfl⟩
  · rw [h.upcoming, h.last]
    exact (hscan.pulled h.peek).2.1
  · rw [h.upcoming, h.last]
    exact hscan.left (n + 2)

/-- A complaint does not move the parser. One about the next token leaves nothing pending. -/
lemma report (h : s.HasPulled scan n) (hscan : scan.Ordered) {c : Complaint}
    (hc : c.isStructural = true) {t : Token} (ht : t = s.current ∨ t = s.peek) :
    (s.report c t).HasPulled scan n := by
  have hapart := h.apart hscan
  rcases ht with rfl | rfl
  · rw [hapart.report_current]
    refine ⟨h.last, h.current, h.peek, h.upcoming, ?_⟩
    rw [State.illegal, illegal_append_structural _ hc]
    exact h.illegal
  · rw [hapart.report_peek]
    refine ⟨h.last, h.current, h.peek, h.upcoming, .inr ⟨rfl, ?_⟩⟩
    simp only [Bool.false_eq_true, if_false]
    rw [State.illegal, illegal_append_structural _ hc, illegal_append, ← State.illegal]
    rcases h.illegal with ⟨hskipped, hillegals⟩ | ⟨hskipped, hillegals⟩
    · rw [hskipped, hillegals, ← List.map_append]
      rfl
    · rw [hskipped, hillegals, List.map_nil, List.append_nil]

theorem of_reaches (h : s.HasPulled scan n) (hscan : scan.Ordered) (hs : s.Reaches s')
    (hshallow : ∀ d ∈ s'.diagnostics, d.complaint ≠ .nestedTooDeeply) :
    ∃ m, n ≤ m ∧ s'.HasPulled scan m := by
  induction hs with
  | refl => exact ⟨n, le_rfl, h⟩
  | advance _ hrun ih =>
    have hextends := prefix_of_advance hrun
    obtain ⟨m, hm, h₁⟩ := ih fun d hd => hshallow d (hextends.subset hd)
    exact ⟨m + 1, Nat.le_succ_of_le hm, (h₁.advance hrun).toHasPulled⟩
  | @report s₁ complaint t _ hblames ih =>
    have hextends := s₁.prefix_report complaint t
    obtain ⟨m, hm, h₁⟩ := ih fun d hd => hshallow d (hextends.subset hd)
    obtain ⟨hc, ht⟩ := hblames.at_current_or_peek
    exact ⟨m, hm, h₁.report hscan hc ht⟩
  | overrun => exact absurd rfl (hshallow _ List.mem_concat_self)
  | count _ _ ih | rule _ _ ih =>
    obtain ⟨m, hm, h₁⟩ := ih hshallow
    exact ⟨m, hm, ⟨h₁.last, h₁.current, h₁.peek, h₁.upcoming, h₁.illegal⟩⟩

end HasPulled

end State

end MonkeyFront
