import MonkeyFront.Proofs.Starting

namespace MonkeyFront

/-! ### Classes of characters -/

/-- No range of one ascending list meets a range of the other. -/
def areApart : List (Nat × Nat) → List (Nat × Nat) → Bool
  | [], _ => true
  | r :: rs, qs =>
    match qs.dropWhile (·.2 < r.1) with
    | [] => true
    | q :: qs => r.2 < q.1 && areApart rs (q :: qs)

lemma le_of_areAscending {r : Nat × Nat} {rest : List (Nat × Nat)}
    (h : areAscending (r :: rest) = true) : r.1 ≤ r.2 := by
  cases rest <;> simp_all [areAscending]

lemma areAscending_dropWhile {rs : List (Nat × Nat)} (h : areAscending rs = true)
    (p : Nat × Nat → Bool) : areAscending (rs.dropWhile p) = true := by
  induction rs with
  | nil => rfl
  | cons r rs ih =>
    rw [List.dropWhile_cons]
    split
    · exact ih (areAscending_tail h)
    · exact h

lemma lt_of_areApart {rs qs : List (Nat × Nat)} (h : areApart rs qs = true)
    (hrs : areAscending rs = true) (hqs : areAscending qs = true) {r q : Nat × Nat} (hr : r ∈ rs)
    (hq : q ∈ qs) : r.2 < q.1 ∨ q.2 < r.1 := by
  induction rs generalizing qs with
  | nil => cases hr
  | cons r' rs ih =>
    have hsplit := List.takeWhile_append_dropWhile (p := fun q : Nat × Nat => q.2 < r'.1) (l := qs)
    rcases List.mem_append.1 (hsplit ▸ hq) with hq | hq
    · -- a range that is passed lies below the ranges that are left
      have hlt := List.mem_takeWhile_imp hq
      have := le_of_areAscending hrs
      simp only [decide_eq_true_eq] at hlt
      rcases List.mem_cons.1 hr with rfl | hr
      · exact .inr hlt
      · have := lt_of_areAscending hrs hr
        exact .inr (by omega)
    · have hdrop := areAscending_dropWhile hqs (·.2 < r'.1)
      simp only [areApart] at h
      split at h
      · next hnil => simp [hnil] at hq
      · next q' qs' hcons =>
        rw [hcons] at hq hdrop
        simp only [Bool.and_eq_true, decide_eq_true_eq] at h
        rcases List.mem_cons.1 hr with rfl | hr
        · rcases List.mem_cons.1 hq with rfl | hq
          · exact .inl h.1
          · have := le_of_areAscending hdrop
            have := lt_of_areAscending hdrop hq
            exact .inl (by omega)
        · exact ih h.2 (areAscending_tail hrs) hdrop hr hq

lemma not_inRanges_of_areApart {rs qs : List (Nat × Nat)} (h : areApart rs qs = true)
    (hrs : areAscending rs = true) (hqs : areAscending qs = true) {n : Nat}
    (hn : inRanges rs n = true) : inRanges qs n = false := by
  rw [Bool.eq_false_iff, Ne, inRanges_iff hqs]
  rintro ⟨q, hq, hqn⟩
  obtain ⟨r, hr, hrn⟩ := (inRanges_iff hrs).1 hn
  have := lt_of_areApart h hrs hqs hr hq
  omega

/-- The code points of the decimal digits, as ascending ranges. -/
def decimalRanges : List (Nat × Nat) := decimalZeros.map fun first => (first, first + 9)

lemma areAscending_decimalRanges : areAscending decimalRanges = true := by decide +kernel

lemma isDecimal_eq (c : Char) : isDecimal c = inRanges decimalRanges c.toNat := by
  rw [Bool.eq_iff_iff, inRanges_iff areAscending_decimalRanges]
  simp only [isDecimal, decimalValue?, Option.isSome_map, List.find?_isSome, Bool.and_eq_true,
    decide_eq_true_eq, decimalRanges, List.mem_map, exists_exists_and_eq_and]
  exact exists_congr fun z => and_congr_right fun _ => and_congr_right fun _ => Nat.lt_succ_iff

lemma not_isDigit_of_areApart {rs : List (Nat × Nat)} (hrs : areAscending rs = true)
    (h : areApart decimalRanges rs = true) (h' : areApart otherDigitRanges rs = true) {c : Char}
    (hc : isDigit c = true) : inRanges rs c.toNat = false := by
  simp only [isDigit, isDecimal_eq, Bool.or_eq_true] at hc
  rcases hc with hc | hc
  · exact not_inRanges_of_areApart h areAscending_decimalRanges hrs hc
  · exact not_inRanges_of_areApart h' areAscending_otherDigitRanges hrs hc

lemma not_isLetter_of_isDigit {c : Char} (h : isDigit c = true) : isLetter c = false :=
  not_isDigit_of_areApart areAscending_letterRanges (by decide +kernel) (by decide +kernel) h

lemma not_isDigit_of_isLetter {c : Char} (h : isLetter c = true) : isDigit c = false :=
  Bool.eq_false_iff.2 fun hd => by
    rw [not_isLetter_of_isDigit hd] at h
    cases h

lemma not_isBlank_of_isDigit {c : Char} (h : isDigit c = true) : isBlank c = false :=
  not_isDigit_of_areApart areAscending_blankRanges (by decide +kernel) (by decide +kernel) h

lemma not_isBlank_of_isLetter {c : Char} (h : isLetter c = true) : isBlank c = false :=
  not_inRanges_of_areApart (by decide +kernel) areAscending_letterRanges areAscending_blankRanges h

lemma not_isLetter_of_isBlank {c : Char} (h : isBlank c = true) : isLetter c = false :=
  Bool.eq_false_iff.2 fun hl => by
    rw [not_isBlank_of_isLetter hl] at h
    cases h

lemma not_isDigit_of_isBlank {c : Char} (h : isBlank c = true) : isDigit c = false :=
  Bool.eq_false_iff.2 fun hd => by
    rw [not_isBlank_of_isDigit hd] at h
    cases h

lemma sign?_eq_none {c : Char} (h : isLetter c = true ∨ isDigit c = true) :
    Kind.sign? c = none := by
  unfold Kind.sign?
  split
  all_goals first | rfl | (revert h; decide)

lemma operator?_eq_none {c : Char} (h : isLetter c = true ∨ isDigit c = true) (text : List Char) :
    Kind.operator? (c :: text) = none := by
  unfold Kind.operator?
  split
  · next he =>
    rw [← (List.cons.inj he).1]
    exact sign?_eq_none h
  · next he =>
    rw [← (List.cons.inj he).1, if_neg fun hc => ?_, if_neg fun hc => ?_]
    · exact absurd h (by rw [hc]; decide)
    · exact absurd h (by rw [hc]; decide)
  · rfl

lemma keyword?_eq_none {c : Char} (h : isDigit c = true) (text : List Char) :
    Kind.keyword? (c :: text) = none := by
  unfold Kind.keyword?
  split
  all_goals first
    | rfl
    | next he => exact absurd h (by rw [(List.cons.inj he).1]; decide)

/-! ### Single lexemes -/

/-- The lexeme is scanned as itself where a space follows or nothing. -/
def Lexeme.Scans (x : Lexeme) : Prop :=
  ∃ c text, x.literal.toList = c :: text ∧ isBlank c = false ∧
    (isDigit c && (number? (c :: text)).isNone) = false ∧ munchedKind (c :: text) = x.kind ∧
    x.kind ≠ .eof ∧ x.kind ≠ .illegal ∧
    ∀ tail, (tail = [] ∨ ∃ rest, tail = ' ' :: rest) → munch c (text ++ tail) = (c :: text, tail)

/-- The first two characters are no operator if the second is not the equals sign. -/
lemma munch_eq_munchRun {c : Char} {rest : List Char} (h : ∀ behind, rest ≠ '=' :: behind) :
    munch c rest = munchRun c rest := by
  unfold munch
  split
  · exact absurd rfl (h _)
  · rfl

lemma takeWhile_run {p : Char → Bool} {text tail : List Char} (hp : p ' ' = false)
    (h : ∀ c ∈ text, p c = true) (htail : tail = [] ∨ ∃ rest, tail = ' ' :: rest) :
    (text ++ tail).takeWhile p = text ∧ (text ++ tail).dropWhile p = tail := by
  have hend : tail.takeWhile p = [] ∧ tail.dropWhile p = tail := by
    rcases htail with rfl | ⟨rest, rfl⟩ <;> simp [hp]
  rw [List.takeWhile_append_of_pos h, List.dropWhile_append_of_pos h, hend.1, hend.2,
    List.append_nil]
  exact ⟨rfl, rfl⟩

/-- A run of characters of a class without the equals sign is not taken for an operator. -/
lemma ne_equals_run {p : Char → Bool} {text tail : List Char} (hp : p '=' = false)
    (h : ∀ c ∈ text, p c = true) (htail : tail = [] ∨ ∃ rest, tail = ' ' :: rest)
    (behind : List Char) : text ++ tail ≠ '=' :: behind := by
  cases text with
  | nil => rcases htail with rfl | ⟨rest, rfl⟩ <;> simp
  | cons c text =>
    rintro he
    have := h c List.mem_cons_self
    rw [(List.cons.inj he).1, hp] at this
    cases this

namespace Lexeme

lemma scans_word {x : Lexeme} (hne : x.literal.toList ≠ [])
    (h : ∀ c ∈ x.literal.toList, isLetter c = true) (hk : x.kind = Kind.ofText x.literal.toList)
    (he : x.kind ≠ .eof) (hi : x.kind ≠ .illegal) : x.Scans := by
  obtain ⟨c, text, hx⟩ := List.exists_cons_of_ne_nil hne
  rw [hx] at h hk
  have hc := h c List.mem_cons_self
  have htext : ∀ d ∈ text, isLetter d = true := fun d hd => h d (List.mem_cons_of_mem _ hd)
  refine ⟨c, text, hx, not_isBlank_of_isLetter hc, ?_, ?_, he, hi, fun tail htail => ?_⟩
  · rw [not_isDigit_of_isLetter hc, Bool.false_and]
  · simp [munchedKind, hc, hk]
  · obtain ⟨htake, hdrop⟩ := takeWhile_run (by decide) htext htail
    rw [munch_eq_munchRun (ne_equals_run (by decide) htext htail), munchRun,
      if_neg (by simp [sign?_eq_none (.inl hc)]), if_pos hc, htake, hdrop]

lemma scans_number {x : Lexeme} (h : ∀ c ∈ x.literal.toList, isDigit c = true)
    (hn : (number? x.literal.toList).isSome = true) (hk : x.kind = .int) : x.Scans := by
  have hne : x.literal.toList ≠ [] := fun he => by rw [he] at hn; cases hn
  obtain ⟨c, text, hx⟩ := List.exists_cons_of_ne_nil hne
  rw [hx] at h hn
  have hc := h c List.mem_cons_self
  have hl : isLetter c = false := not_isLetter_of_isDigit hc
  have htext : ∀ d ∈ text, isDigit d = true := fun d hd => h d (List.mem_cons_of_mem _ hd)
  refine ⟨c, text, hx, not_isBlank_of_isDigit hc, ?_, ?_, by simp [hk], by simp [hk],
    fun tail htail => ?_⟩
  · rw [Option.isNone_eq_false_iff.2 hn, Bool.and_false]
  · have hall : (c :: text).all isDigit = true := List.all_eq_true.2 h
    simp [munchedKind, hc, Kind.ofText, keyword?_eq_none hc, operator?_eq_none (.inr hc), hall, hk]
  · obtain ⟨htake, hdrop⟩ := takeWhile_run (by decide) htext htail
    rw [munch_eq_munchRun (ne_equals_run (by decide) htext htail), munchRun,
      if_neg (by simp [sign?_eq_none (.inr hc)]), if_neg (by simp [hl]), if_pos hc, htake, hdrop]

lemma scans_operator {text : String} (h : text ∈ ["=", ";", "(", ")", ",", "+", "\x7b", "\x7d", "!",
    "-", "/", "*", "<", ">", "==", "!="]) : (ofText text).Scans := by
  simp only [List.mem_cons, List.not_mem_nil, or_false] at h
  rcases h with rfl | rfl | rfl | rfl | rfl | rfl | rfl | rfl | rfl | rfl | rfl | rfl | rfl | rfl |
    rfl | rfl
  all_goals
    refine ⟨_, _, rfl, rfl, rfl, rfl, by decide, by decide, ?_⟩
    rintro tail (rfl | ⟨rest, rfl⟩) <;> rfl

lemma scans_keyword {text : String}
    (h : text ∈ ["let", "return", "true", "false", "if", "else", "fn"]) : (ofText text).Scans := by
  simp only [List.mem_cons, List.not_mem_nil, or_false] at h
  rcases h with rfl | rfl | rfl | rfl | rfl | rfl | rfl
  all_goals
    exact scans_word (List.cons_ne_nil _ _) (List.all_eq_true.1 rfl) rfl (by decide) (by decide)

lemma ofText_word {text : List Char} (hne : text ≠ []) (h : ∀ c ∈ text, isLetter c = true)
    (hk : Kind.keyword? text = none) : Kind.ofText text = .ident := by
  obtain ⟨c, text, rfl⟩ := List.exists_cons_of_ne_nil hne
  have hc := h c List.mem_cons_self
  simp [Kind.ofText, hk, operator?_eq_none (.inl hc), not_isDigit_of_isLetter hc]

end Lexeme

/-! ### Texts -/

/-- The texts of the lexemes with spaces between them. -/
def joined (xs : List Lexeme) : String := " ".intercalate (xs.map (·.literal))

/-- The characters of the lexemes with spaces between them. -/
def spaced (xs : List Lexeme) : List Char := [' '].intercalate (xs.map (·.literal.toList))

lemma toList_joined (xs : List Lexeme) : (joined xs).toList = spaced xs := by
  simp [joined, spaced, String.toList_intercalate, Function.comp_def]

lemma spaced_cons (x : Lexeme) (xs : List Lexeme) :
    ∃ tail, spaced (x :: xs) = x.literal.toList ++ tail ∧
    (tail = [] ∧ xs = [] ∨ tail = ' ' :: spaced xs) := by
  cases xs with
  | nil => exact ⟨[], by simp [spaced], .inl ⟨rfl, rfl⟩⟩
  | cons y xs => exact ⟨' ' :: spaced (y :: xs), by simp [spaced, List.intercalate], .inr rfl⟩

lemma dropWhile_spaced {xs : List Lexeme} (h : ∀ x ∈ xs, x.Scans) :
    (spaced xs).dropWhile isBlank = spaced xs := by
  cases xs with
  | nil => rfl
  | cons x xs =>
    obtain ⟨c, text, hx, hc, -⟩ := h x List.mem_cons_self
    obtain ⟨tail, htail, -⟩ := spaced_cons x xs
    rw [htail, hx, List.cons_append, List.dropWhile_cons_of_neg (by simp [hc])]

/-- A text of lexemes is scanned as these, whatever blanks stand before it. -/
lemma Cursor.scanWithin_spaced {xs : List Lexeme} (h : ∀ x ∈ xs, x.Scans) (n : Nat) (c : Cursor)
    (hc : c.skipBlanks.rest = spaced xs) (hn : c.rest.length < n) :
    ∃ ts : List Token, (c.scanWithin n).1 = ts.map .ok ∧ ts.map Token.toLexeme = xs := by
  induction xs generalizing n c with
  | nil =>
    obtain ⟨n, rfl⟩ := Nat.exists_eq_succ_of_ne_zero (Nat.ne_zero_of_lt hn)
    refine ⟨[], ?_, rfl⟩
    rw [scanWithin, next_of_rest_eq_nil hc]
    rfl
  | cons x xs ih =>
    obtain ⟨n, rfl⟩ := Nat.exists_eq_succ_of_ne_zero (Nat.ne_zero_of_lt hn)
    obtain ⟨d, text, hx, -, hnumber, hkind, heof, -, hmunch⟩ := h x List.mem_cons_self
    have hxs : ∀ y ∈ xs, y.Scans := fun y hy => h y (List.mem_cons_of_mem _ hy)
    obtain ⟨tail, hspaced, htail⟩ := spaced_cons x xs
    have hrest : c.skipBlanks.rest = d :: (text ++ tail) := by
      rw [hc, hspaced, hx, List.cons_append]
    have hlexeme : (⟨munchedKind (d :: text), String.ofList (d :: text)⟩ : Lexeme) = x := by
      rw [hkind, ← hx, String.ofList_toList]
    have hnext : ∃ t : Token, c.next = (.ok t, ⟨tail, t.span.stop⟩) ∧ t.toLexeme = x := by
      simp only [next, hrest]
      rw [hmunch tail (htail.imp And.left fun ht => ⟨_, ht⟩)]
      simp only [hnumber, Bool.false_eq_true, if_false]
      exact ⟨_, rfl, hlexeme⟩
    obtain ⟨t, hnext, rfl⟩ := hnext
    have hbehind : (Cursor.mk tail t.span.stop).skipBlanks.rest = spaced xs := by
      rcases htail with ⟨rfl, rfl⟩ | rfl
      · rfl
      · have hspace : isBlank ' ' = true := by decide
        exact (List.dropWhile_cons_of_pos hspace).trans (dropWhile_spaced hxs)
    have hlength := length_next_lt (c := c) (by rw [hrest]; simp)
    rw [hnext] at hlength
    change tail.length < c.rest.length at hlength
    obtain ⟨ts, hts, rfl⟩ := ih hxs n _ hbehind (Nat.lt_of_lt_of_le hlength (Nat.le_of_lt_succ hn))
    refine ⟨t :: ts, ?_, rfl⟩
    rw [scanWithin, hnext]
    simp only [heof, if_false, hts, List.map_cons]

theorem items_joined {xs : List Lexeme} (h : ∀ x ∈ xs, x.Scans) :
    ∃ ts : List Token, (Scan.ofText (joined xs)).items = ts.map .ok ∧
      ts.map Token.toLexeme = xs := by
  refine Cursor.scanWithin_spaced h ((joined xs).length + 1) (.ofText (joined xs)) ?_ ?_
  · rw [← dropWhile_spaced h, ← toList_joined]
    rfl
  · exact Nat.lt_succ_of_le (Nat.le_of_eq String.length_toList)

/-- A lexeme and others behind it over and over are scanned if they all are. -/
lemma scans_repeated {x : Lexeme} {xs : List Lexeme} (hx : x.Scans) (hxs : ∀ y ∈ xs, y.Scans)
    (n : Nat) : ∀ y ∈ x :: (List.replicate n xs).flatten, y.Scans := by
  refine List.forall_mem_cons.2 ⟨hx, fun y hy => ?_⟩
  obtain ⟨ys, hys, hy⟩ := List.mem_flatten.1 hy
  rw [List.eq_of_mem_replicate hys] at hy
  exact hxs y hy

lemma kind_ne_illegal_of_scans {ts : List Token} (h : ∀ x ∈ ts.map Token.toLexeme, x.Scans) :
    ∀ t ∈ ts, t.kind ≠ .illegal := by
  intro t ht
  obtain ⟨_, _, -, -, -, -, -, hk, -⟩ := h t.toLexeme (List.mem_map_of_mem ht)
  exact hk

end MonkeyFront
