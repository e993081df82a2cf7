import MonkeyFront.Proofs.Spacing
import MonkeyFront.Proofs.IllegalCharacters

namespace MonkeyFront

/-- A character that neither separates lexemes nor begins one. -/
def isIllegal (c : Char) : Bool :=
  !isBlank c && (Kind.sign? c).isNone && !isLetter c && !isDigit c

/-- The character, or a space where it is illegal. -/
def blankIllegal (c : Char) : Char := if isIllegal c then ' ' else c

/-! ### Characters -/

lemma isIllegal_of_isBlank {c : Char} (h : isBlank c = true) : isIllegal c = false := by
  simp [isIllegal, h]

lemma isIllegal_of_isLetter {c : Char} (h : isLetter c = true) : isIllegal c = false := by
  simp [isIllegal, h]

lemma isIllegal_of_isDigit {c : Char} (h : isDigit c = true) : isIllegal c = false := by
  simp [isIllegal, h]

lemma blankIllegal_of_isIllegal {c : Char} (h : isIllegal c = true) : blankIllegal c = ' ' :=
  if_pos h

lemma blankIllegal_eq_self {c : Char} (h : isIllegal c = false) : blankIllegal c = c :=
  if_neg (by rw [h]; decide)

/-- A class of characters that are not illegal, to which the space does not belong. -/
lemma class_blankIllegal {p : Char → Bool} (hspace : p ' ' = false)
    (hp : ∀ c, p c = true → isIllegal c = false) (c : Char) : p (blankIllegal c) = p c := by
  unfold blankIllegal
  split
  · next h =>
    rw [hspace, eq_comm, Bool.eq_false_iff]
    intro hc
    rw [hp c hc] at h
    cases h
  · rfl

lemma isLetter_blankIllegal (c : Char) : isLetter (blankIllegal c) = isLetter c :=
  class_blankIllegal (by decide) (fun _ => isIllegal_of_isLetter) c

lemma isDigit_blankIllegal (c : Char) : isDigit (blankIllegal c) = isDigit c :=
  class_blankIllegal (by decide) (fun _ => isIllegal_of_isDigit) c

lemma map_blankIllegal_eq_self {cs : List Char} (h : ∀ c ∈ cs, isIllegal c = false) :
    cs.map blankIllegal = cs :=
  (List.map_congr_left fun c hc => blankIllegal_eq_self (h c hc)).trans (List.map_id' cs)

/-! ### Runs -/

lemma takeWhile_blankIllegal {p : Char → Bool} (hp : ∀ c, p c = true → isIllegal c = false)
    (hsame : ∀ c, p (blankIllegal c) = p c) (cs : List Char) :
    (cs.map blankIllegal).takeWhile p = cs.takeWhile p ∧
      (cs.map blankIllegal).dropWhile p = (cs.dropWhile p).map blankIllegal := by
  induction cs with
  | nil => exact ⟨rfl, rfl⟩
  | cons c cs ih =>
    cases hc : p c with
    | false => simp [hsame, hc]
    | true => simp [hc, ih, blankIllegal_eq_self (hp c hc)]

/-- A lexeme ends where it ends if the illegal characters behind it are spaces. -/
lemma munchRun_blankIllegal {c : Char} (hblank : isBlank c = false) (hc : isIllegal c = false)
    (rest : List Char) :
    munchRun c (rest.map blankIllegal) =
      ((munchRun c rest).1, (munchRun c rest).2.map blankIllegal) := by
  obtain ⟨htake, hdrop⟩ := takeWhile_blankIllegal (fun _ => isIllegal_of_isLetter)
    isLetter_blankIllegal rest
  obtain ⟨htake', hdrop'⟩ := takeWhile_blankIllegal (fun _ => isIllegal_of_isDigit)
    isDigit_blankIllegal rest
  unfold munchRun
  split_ifs with hsign hletter hdigit
  · rfl
  · rw [htake, hdrop]
  · rw [htake', hdrop']
  · simp [isIllegal, hblank, hletter, hdigit] at hc
    simp [hc] at hsign

lemma munch_blankIllegal {c : Char} (hblank : isBlank c = false) (hc : isIllegal c = false)
    (rest : List Char) :
    munch c (rest.map blankIllegal) = ((munch c rest).1, (munch c rest).2.map blankIllegal) := by
  have hequals : isIllegal '=' = false := by decide
  by_cases h : ∃ behind, rest = '=' :: behind
  · obtain ⟨behind, rfl⟩ := h
    simp only [munch, List.map_cons, blankIllegal_eq_self hequals]
    split
    · rfl
    · have := munchRun_blankIllegal hblank hc ('=' :: behind)
      rwa [List.map_cons, blankIllegal_eq_self hequals] at this
  · rw [munch_eq_munchRun fun behind he => h ⟨behind, he⟩, munch_eq_munchRun fun behind he => ?_,
      munchRun_blankIllegal hblank hc]
    cases rest with
    | nil => cases he
    | cons d rest =>
      obtain ⟨hd, -⟩ := List.cons.inj he
      refine h ⟨rest, ?_⟩
      unfold blankIllegal at hd
      split at hd
      · cases hd
      · rw [hd]

lemma munch_of_isIllegal {c : Char} (h : isIllegal c = true) (rest : List Char) :
    munch c rest = ([c], rest) := by
  simp only [isIllegal, Bool.and_eq_true, Bool.not_eq_true', Option.isNone_iff_eq_none] at h
  obtain ⟨⟨⟨-, hsign⟩, hletter⟩, hdigit⟩ := h
  have hrun (rest : List Char) : munchRun c rest = ([c], rest) := by
    simp [munchRun, hsign, hletter, hdigit]
  unfold munch
  split
  · rw [if_neg, hrun]
    intro he
    simp only [Bool.or_eq_true, decide_eq_true_eq] at he
    rcases he with rfl | rfl <;> cases hsign
  · exact hrun rest

lemma known_ne {kind : Kind} (h : kind ∈ [.illegal, .eof, .ident, .int]) (text : List Char) :
    Kind.keyword? text ≠ some kind ∧ Kind.operator? text ≠ some kind := by
  simp only [List.mem_cons, List.not_mem_nil, or_false] at h
  have hsign (c : Char) : Kind.sign? c ≠ some kind := by
    unfold Kind.sign?
    split <;> rcases h with rfl | rfl | rfl | rfl <;> simp
  constructor
  · unfold Kind.keyword?
    split <;> rcases h with rfl | rfl | rfl | rfl <;> simp
  · unfold Kind.operator?
    split
    · exact hsign _
    · split_ifs <;> rcases h with rfl | rfl | rfl | rfl <;> simp
    · simp

lemma ofText_cases (text : List Char) :
    Kind.ofText text ∉ [.illegal, .eof, .ident, .int] ∨
    (Kind.ofText text = .int ∧ text ≠ [] ∧ ∀ c ∈ text, isDigit c = true) ∨
    (Kind.ofText text = .ident ∧ Kind.keyword? text = none ∧ Kind.operator? text = none) := by
  unfold Kind.ofText
  split
  · next hk => exact .inl fun hkind => (known_ne hkind text).1 hk
  · next hk => exact .inl fun hkind => (known_ne hkind text).2 hk
  · next hkeyword hoperator =>
    split_ifs with hdigits
    · exact .inr (.inl ⟨rfl, by simpa using hdigits⟩)
    · exact .inr (.inr ⟨rfl, hkeyword, hoperator⟩)

lemma kind_ofText_ne {kind : Kind} (h : kind = .illegal ∨ kind = .eof) (text : List Char) :
    Kind.ofText text ≠ kind := by
  rcases ofText_cases text with hk | ⟨hk, -⟩ | ⟨hk, -⟩
  · rintro rfl
    rcases h with h | h <;> rw [h] at hk <;> exact hk (by decide)
  · rw [hk]
    rcases h with rfl | rfl <;> decide
  · rw [hk]
    rcases h with rfl | rfl <;> decide

/-- A lexeme that begins with no illegal character has none, and is legal. -/
lemma munch_of_not_isIllegal {c : Char} (hblank : isBlank c = false) (hc : isIllegal c = false)
    (rest : List Char) : (∀ d ∈ (munch c rest).1, isIllegal d = false) ∧
      munchedKind (munch c rest).1 ≠ .illegal ∧ munchedKind (munch c rest).1 ≠ .eof := by
  have hclass : ((Kind.sign? c).isSome || isLetter c || isDigit c) = true := by
    by_contra hnone
    simp only [Bool.or_eq_true, not_or, Bool.not_eq_true] at hnone
    simp [isIllegal, hblank, hnone, Option.isSome_eq_false_iff.1 hnone.1.1] at hc
  have hkind (text : List Char) :
      munchedKind (c :: text) ≠ .illegal ∧ munchedKind (c :: text) ≠ .eof := by
    rw [munchedKind, if_pos hclass]
    exact ⟨kind_ofText_ne (.inl rfl) _, kind_ofText_ne (.inr rfl) _⟩
  have hrun : (∀ d ∈ (munchRun c rest).1, isIllegal d = false) ∧
      munchedKind (munchRun c rest).1 ≠ .illegal ∧ munchedKind (munchRun c rest).1 ≠ .eof := by
    unfold munchRun
    split_ifs with hsign hletter hdigit
    · exact ⟨by simpa using hc, hkind _⟩
    · refine ⟨List.forall_mem_cons.2 ⟨hc, fun d hd => ?_⟩, hkind _⟩
      exact isIllegal_of_isLetter (List.mem_takeWhile_imp hd)
    · refine ⟨List.forall_mem_cons.2 ⟨hc, fun d hd => ?_⟩, hkind _⟩
      exact isIllegal_of_isDigit (List.mem_takeWhile_imp hd)
    · exact ⟨by simpa using hc, hkind _⟩
  unfold munch
  split
  · split
    · exact ⟨by simp [hc, show isIllegal '=' = false by decide], hkind _⟩
    · exact hrun
  · exact hrun

/-! ### Cursors -/

namespace Cursor

lemma scanWithin_of_ok {c behind : Cursor} {t : Token} (h : c.next = (.ok t, behind))
    (hk : t.kind ≠ .eof) (n : Nat) : c.scanWithin (n + 1) =
      (.ok t :: (behind.scanWithin n).1, (behind.scanWithin n).2) := by
  rw [scanWithin, h]
  exact if_neg hk

lemma scanWithin_of_error {c behind : Cursor} {e : ScanError} (h : c.next = (.error e, behind))
    (n : Nat) : c.scanWithin (n + 1) =
      (.error e :: (behind.scanWithin n).1, (behind.scanWithin n).2) := by
  rw [scanWithin, h]

/-- The cursor in the text in which the illegal characters are spaces. -/
def blankIllegal (c : Cursor) : Cursor := ⟨c.rest.map MonkeyFront.blankIllegal, c.position⟩

lemma next_congr {c d : Cursor} (h : c.skipBlanks = d.skipBlanks) : c.next = d.next := by
  simp only [next, h]

lemma skipBlanks_append {bs : List Char} (h : ∀ b ∈ bs, isBlank b = true) (rest : List Char)
    (p : Position) : skipBlanks ⟨bs ++ rest, p⟩ = skipBlanks ⟨rest, p.afterAll bs⟩ := by
  simp only [skipBlanks, List.dropWhile_append_of_pos h, List.takeWhile_append_of_pos h,
    Position.afterAll_append]

variable {c : Cursor} {head : Char} {tail : List Char}

lemma blankIllegal_of_rest_eq_nil (h : c.skipBlanks.rest = []) : c.blankIllegal = c := by
  rw [blankIllegal, map_blankIllegal_eq_self fun d hd => isIllegal_of_isBlank ?_]
  exact List.dropWhile_eq_nil_iff.1 h d hd

lemma skipBlanks_blankIllegal (h : c.skipBlanks.rest = head :: tail) : c.blankIllegal.skipBlanks =
    skipBlanks ⟨(head :: tail).map MonkeyFront.blankIllegal, c.skipBlanks.position⟩ := by
  have hrest : c.rest = c.rest.takeWhile isBlank ++ head :: tail := by
    rw [← h]
    exact List.takeWhile_append_dropWhile.symm
  have hblanks : ∀ b ∈ c.rest.takeWhile isBlank, isBlank b = true := fun b =>
    List.mem_takeWhile_imp
  rw [blankIllegal, hrest, List.map_append, map_blankIllegal_eq_self fun b hb =>
    isIllegal_of_isBlank (hblanks b hb), skipBlanks_append hblanks]
  rfl

lemma isBlank_head (h : c.skipBlanks.rest = head :: tail) : isBlank head = false := by
  have := List.head?_dropWhile_not isBlank c.rest
  rw [show c.rest.dropWhile isBlank = head :: tail from h] at this
  simpa using this

lemma next_blankIllegal (h : c.skipBlanks.rest = head :: tail) (hc : isIllegal head = false) :
    c.blankIllegal.next = (c.next.1, c.next.2.blankIllegal) := by
  have hblank := isBlank_head h
  have hskip : c.blankIllegal.skipBlanks =
      ⟨head :: tail.map MonkeyFront.blankIllegal, c.skipBlanks.position⟩ := by
    rw [skipBlanks_blankIllegal h, List.map_cons, blankIllegal_eq_self hc, skipBlanks]
    simp [hblank]
  rw [next_of_rest_eq_cons (by rw [hskip]), next_of_rest_eq_cons h, hskip,
    munch_blankIllegal hblank hc]
  rfl

lemma next_blankIllegal_of_isIllegal (h : c.skipBlanks.rest = head :: tail)
    (hc : isIllegal head = true) :
    c.blankIllegal.next = (blankIllegal ⟨tail, c.skipBlanks.position.after head⟩).next := by
  have hnewline : head ≠ '\n' := by
    rintro rfl
    exact absurd hc (by decide)
  have hspace : ∀ b ∈ [' '], isBlank b = true := List.forall_mem_singleton.2 (by decide)
  refine next_congr ?_
  rw [skipBlanks_blankIllegal h, List.map_cons, blankIllegal_of_isIllegal hc]
  have := skipBlanks_append hspace (tail.map MonkeyFront.blankIllegal) c.skipBlanks.position
  rw [List.singleton_append] at this
  rw [this, Position.afterAll_cons, Position.afterAll_nil, blankIllegal]
  simp [Position.after, hnewline]

lemma next_of_isIllegal (h : c.skipBlanks.rest = head :: tail) (hc : isIllegal head = true) :
    ∃ t : Token, t.kind = .illegal ∧ t.place = c.skipBlanks.position.offset ∧
      c.next = (.ok t, ⟨tail, c.skipBlanks.position.after head⟩) := by
  have hdigit : isDigit head = false := Bool.eq_false_iff.2 fun hd => by
    rw [isIllegal_of_isDigit hd] at hc
    cases hc
  have hkind : munchedKind [head] = .illegal := by
    rw [munchedKind, if_neg]
    intro hclass
    simp only [isIllegal, Bool.and_eq_true, Bool.not_eq_true', Option.isNone_iff_eq_none] at hc
    simp [hc] at hclass
  rw [next_of_rest_eq_cons h, munch_of_isIllegal hc, hdigit, hkind]
  exact ⟨_, rfl, rfl, rfl⟩

lemma next_of_not_isIllegal (h : c.skipBlanks.rest = head :: tail) (hc : isIllegal head = false)
    {t : Token} (ht : c.next.1 = .ok t) : t.kind ≠ .illegal ∧ t.kind ≠ .eof := by
  rw [next_of_rest_eq_cons h] at ht
  dsimp only at ht
  split at ht
  · cases ht
  · obtain rfl := Except.ok.inj ht
    exact (munch_of_not_isIllegal (isBlank_head h) hc tail).2

end Cursor

def isLegal : Scanned → Bool
  | .ok t => t.kind ≠ .illegal
  | .error _ => true

namespace Cursor

/-- In the text in which the illegal characters are spaces everything else is scanned. -/
theorem scanWithin_blankIllegal (n m : Nat) (c : Cursor) (hn : c.rest.length < n)
    (hm : c.rest.length < m) : c.blankIllegal.scanWithin m =
      ((c.scanWithin n).1.filter isLegal, (c.scanWithin n).2) := by
  induction n generalizing m c with
  | zero => cases hn
  | succ n ih =>
    obtain ⟨m, rfl⟩ := Nat.exists_eq_succ_of_ne_zero (Nat.ne_zero_of_lt hm)
    cases hrest : c.skipBlanks.rest with
    | nil =>
      rw [blankIllegal_of_rest_eq_nil hrest, scanWithin, scanWithin, next_of_rest_eq_nil hrest]
      rfl
    | cons head tail =>
      have hlt := length_next_lt (c := c) (by rw [hrest]; simp)
      cases hc : isIllegal head with
      | true =>
        obtain ⟨t, hk, -, hnext⟩ := next_of_isIllegal hrest hc
        rw [hnext] at hlt
        have hbehind := ih (m + 1) ⟨tail, c.skipBlanks.position.after head⟩
          (Nat.lt_of_lt_of_le hlt (Nat.le_of_lt_succ hn)) (Nat.lt_trans hlt hm)
        rw [scanWithin, next_blankIllegal_of_isIllegal hrest hc, ← scanWithin, hbehind,
          scanWithin_of_ok hnext (by rw [hk]; decide),
          List.filter_cons_of_neg (by simp [isLegal, hk])]
      | false =>
        have hbehind := ih m c.next.2 (Nat.lt_of_lt_of_le hlt (Nat.le_of_lt_succ hn))
          (Nat.lt_of_lt_of_le hlt (Nat.le_of_lt_succ hm))
        have hsame := next_blankIllegal hrest hc
        cases hx : c.next.1 with
        | error e =>
          rw [hx] at hsame
          rw [scanWithin_of_error hsame, hbehind, scanWithin_of_error (Prod.ext hx rfl),
            List.filter_cons_of_pos rfl]
        | ok t =>
          obtain ⟨hlegal, he⟩ := next_of_not_isIllegal hrest hc hx
          rw [hx] at hsame
          rw [scanWithin_of_ok hsame he, hbehind, scanWithin_of_ok (Prod.ext hx rfl) he,
            List.filter_cons_of_pos (by simp [isLegal, hlegal])]

end Cursor

/-! ### Places -/

/-- Where the illegal characters of a text stand that begins at an offset. -/
def illegalPlaces (offset : Int) : List Char → List Int
  | [] => []
  | c :: cs =>
    if isIllegal c then offset :: illegalPlaces (offset + 1) cs else illegalPlaces (offset + 1) cs

lemma illegalPlaces_append (z : Int) (cs ds : List Char) :
    illegalPlaces z (cs ++ ds) = illegalPlaces z cs ++ illegalPlaces (z + cs.length) ds := by
  induction cs generalizing z with
  | nil => simp [illegalPlaces]
  | cons c cs ih =>
    have hz : z + 1 + (cs.length : Int) = z + ((c :: cs).length : Int) := by
      rw [List.length_cons]
      omega
    simp only [List.cons_append, illegalPlaces, ih, hz]
    split <;> rfl

lemma illegalPlaces_eq_nil {cs : List Char} (h : ∀ c ∈ cs, isIllegal c = false) (z : Int) :
    illegalPlaces z cs = [] := by
  induction cs generalizing z with
  | nil => rfl
  | cons c cs ih =>
    obtain ⟨hc, hcs⟩ := List.forall_mem_cons.1 h
    rw [illegalPlaces, if_neg (by rw [hc]; decide), ih hcs]

lemma mem_illegalPlaces {z x : Int} {cs : List Char} : x ∈ illegalPlaces z cs ↔
    ∃ (i : Nat) (c : Char), cs[i]? = some c ∧ isIllegal c = true ∧ x = z + i := by
  induction cs generalizing z with
  | nil => simp [illegalPlaces]
  | cons c cs ih =>
    have hsplit : (∃ (i : Nat) (d : Char), (c :: cs)[i]? = some d ∧ isIllegal d = true ∧
      x = z + i) ↔
        isIllegal c = true ∧ x = z ∨
          ∃ (i : Nat) (d : Char), cs[i]? = some d ∧ isIllegal d = true ∧ x = z + 1 + i := by
      constructor
      · rintro ⟨i, d, hd, hskip, rfl⟩
        cases i with
        | zero =>
          obtain rfl := Option.some.inj hd
          exact .inl ⟨hskip, by simp⟩
        | succ i => exact .inr ⟨i, d, hd, hskip, by omega⟩
      · rintro (⟨hskip, rfl⟩ | ⟨i, d, hd, hskip, rfl⟩)
        · exact ⟨0, c, rfl, hskip, by simp⟩
        · exact ⟨i + 1, d, hd, hskip, by omega⟩
    rw [hsplit, ← ih, illegalPlaces]
    split
    · next h => simp [h]
    · next h => simp [h]

/-- The illegal characters of a text are the tokens that are scanned as such, in their places. -/
theorem Cursor.places_scanWithin (n : Nat) (c : Cursor) (hn : c.rest.length < n) :
    (illegalAmong (tokensAmong (c.scanWithin n).1)).map Token.place =
      illegalPlaces c.position.offset c.rest := by
  induction n generalizing c with
  | zero => cases hn
  | succ n ih =>
    have hblanks : ∀ b ∈ c.rest.takeWhile isBlank, isIllegal b = false := fun b hb =>
      isIllegal_of_isBlank (List.mem_takeWhile_imp hb)
    have hrest : illegalPlaces c.position.offset c.rest =
        illegalPlaces c.skipBlanks.position.offset c.skipBlanks.rest := by
      conv => lhs; rw [← List.takeWhile_append_dropWhile (p := isBlank) (l := c.rest)]
      rw [illegalPlaces_append, illegalPlaces_eq_nil hblanks, List.nil_append, skipBlanks,
        Position.offset_afterAll]
    rw [hrest]
    cases hskip : c.skipBlanks.rest with
    | nil =>
      rw [scanWithin, next_of_rest_eq_nil hskip]
      rfl
    | cons head tail =>
      have hlt := length_next_lt (c := c) (by rw [hskip]; simp)
      have hbehind := ih c.next.2 (Nat.lt_of_lt_of_le hlt (Nat.le_of_lt_succ hn))
      cases hc : isIllegal head with
      | true =>
        obtain ⟨t, hk, hplace, hnext⟩ := next_of_isIllegal hskip hc
        rw [hnext, Position.offset_after] at hbehind
        rw [scanWithin_of_ok hnext (by rw [hk]; decide), tokensAmong_ok, illegalAmong,
          List.filter_cons_of_pos (by simp [hk]), List.map_cons, illegalPlaces, if_pos hc, hplace]
        exact congrArg _ hbehind
      | false =>
        have hnext := next_of_rest_eq_cons hskip
        have htext := (munch_of_not_isIllegal (isBlank_head hskip) hc tail).1
        have hplaces : illegalPlaces c.skipBlanks.position.offset (head :: tail) =
            illegalPlaces c.next.2.position.offset c.next.2.rest := by
          rw [← munch_append, illegalPlaces_append, illegalPlaces_eq_nil htext, hnext,
            Position.offset_afterAll]
          rfl
        rw [hplaces, ← hbehind]
        cases hx : c.next.1 with
        | error e => rw [scanWithin_of_error (Prod.ext hx rfl), tokensAmong_error]
        | ok t =>
          obtain ⟨hlegal, he⟩ := next_of_not_isIllegal hskip hc hx
          rw [scanWithin_of_ok (Prod.ext hx rfl) he, tokensAmong_ok, illegalAmong,
            List.filter_cons_of_neg (by simp [hlegal])]
          rfl

/-! ### Texts -/

/-- The text with a space wherever one of the tokens begins. -/
def spacedAt (ts : List Token) (source : String) : String :=
  String.ofList (source.toList.mapIdx fun i c => if ts.any (·.place = i) then ' ' else c)

/-- A space wherever an illegal character is scanned is a space for every illegal character. -/
lemma spacedAt_illegalAmong {source : String} {tokens : List Token}
    (h : tokenize source = .ok tokens) :
    (spacedAt (illegalAmong tokens) source).toList = source.toList.map blankIllegal := by
  obtain ⟨ts, hitems, rfl⟩ := tokenize_eq_ok.1 h
  have hplaces : (illegalAmong ts).map Token.place = illegalPlaces 0 source.toList := by
    have := Cursor.places_scanWithin (source.length + 1) (.ofText source)
      (Nat.lt_succ_of_le (Nat.le_of_eq String.length_toList))
    rwa [show ((Cursor.ofText source).scanWithin (source.length + 1)).1 = ts.map .ok from hitems,
      tokensAmong_map_ok] at this
  have hillegal : illegalAmong (ts ++ [(Scan.ofText source).last]) = illegalAmong ts := by
    rw [illegalAmong, List.filter_append, List.filter_cons_of_neg (by simp [Scan.kind_last source])]
    exact List.append_nil _
  have hany (i : Nat) : (illegalAmong ts).any (·.place = i) = true ↔
      ∃ c, source.toList[i]? = some c ∧ isIllegal c = true := by
    have hmem : (illegalAmong ts).any (·.place = i) = true ↔
        (i : Int) ∈ (illegalAmong ts).map Token.place := by
      simp only [List.any_eq_true, decide_eq_true_eq, List.mem_map]
    rw [hmem, hplaces, mem_illegalPlaces]
    constructor
    · rintro ⟨j, c, hc, hskip, hj⟩
      obtain rfl : i = j := by omega
      exact ⟨c, hc, hskip⟩
    · rintro ⟨c, hc, hskip⟩
      exact ⟨i, c, hc, hskip, by omega⟩
  rw [spacedAt, String.toList_ofList, hillegal]
  refine List.ext_getElem (by rw [List.length_mapIdx, List.length_map]) fun i hi _ => ?_
  have hi : i < source.toList.length := by rwa [List.length_mapIdx] at hi
  have hskip : (illegalAmong ts).any (·.place = i) = isIllegal source.toList[i] := by
    rw [Bool.eq_iff_iff, hany, List.getElem?_eq_getElem hi]
    simp only [Option.some.injEq, exists_eq_left']
  rw [List.getElem_mapIdx, List.getElem_map, blankIllegal, hskip]

/-- In a text with spaces for its illegal characters everything else is scanned, in its place. -/
theorem Scan.ofText_spacedAt {source : String} {tokens : List Token}
    (h : tokenize source = .ok tokens) : Scan.ofText (spacedAt (illegalAmong tokens) source) =
      ⟨(Scan.ofText source).items.filter isLegal, (Scan.ofText source).last⟩ := by
  have htext := spacedAt_illegalAmong h
  have hlength : (spacedAt (illegalAmong tokens) source).length = source.length := by
    rw [← String.length_toList, htext, List.length_map, String.length_toList]
  have hcursor : Cursor.ofText (spacedAt (illegalAmong tokens) source) =
      (Cursor.ofText source).blankIllegal := by
    rw [Cursor.ofText, htext]
    rfl
  have hfuel : (Cursor.ofText source).rest.length < source.length + 1 :=
    Nat.lt_succ_of_le (Nat.le_of_eq String.length_toList)
  unfold Scan.ofText
  rw [hcursor, hlength, Cursor.scanWithin_blankIllegal _ _ _ hfuel hfuel]

end MonkeyFront
