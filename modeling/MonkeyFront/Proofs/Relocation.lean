import MonkeyFront.Proofs.Decomposition

namespace MonkeyFront

/-! ### Places -/

namespace Position

/-- The place in the whole text of a place in a text that begins at `base`. -/
def within (base p : Position) : Position where
  line := base.line + (p.line - 1)
  column := if p.line = 1 then base.column + (p.column - 1) else p.column
  offset := base.offset + p.offset

@[simp] lemma within_origin (base : Position) : base.within origin = base := by
  simp [within, origin]

lemma line_afterAll (p : Position) (text : List Char) :
    (p.afterAll text).line = p.line + text.count '\n' := by
  induction text generalizing p with
  | nil => simp
  | cons c text ih =>
    rw [afterAll_cons, ih, after, List.count_cons]
    by_cases hc : c = '\n'
    · simp [hc]
      omega
    · simp [hc]

lemma one_le_line_afterAll {p : Position} (h : 1 ≤ p.line) (text : List Char) :
    1 ≤ (p.afterAll text).line := by
  rw [line_afterAll]
  omega

lemma within_after (base : Position) {p : Position} (h : 1 ≤ p.line) (c : Char) :
    base.within (p.after c) = (base.within p).after c := by
  by_cases hc : c = '\n'
  · have hline : p.line + 1 ≠ 1 := by omega
    simp only [after, within, if_pos hc, if_neg hline, mk.injEq, true_and]
    omega
  · simp only [after, within, if_neg hc, mk.injEq, true_and]
    constructor
    · split <;> omega
    · omega

lemma within_afterAll (base : Position) {p : Position} (h : 1 ≤ p.line) (text : List Char) :
    base.within (p.afterAll text) = (base.within p).afterAll text := by
  induction text generalizing p with
  | nil => rfl
  | cons c text ih =>
    have hnext : 1 ≤ (p.after c).line := one_le_line_afterAll h [c]
    rw [afterAll_cons, afterAll_cons, ih hnext, within_after base h]

end Position

def Span.move (f : Position → Position) (s : Span) : Span := ⟨f s.start, f s.stop⟩

def Token.move (f : Position → Position) (t : Token) : Token := ⟨t.toLexeme, t.span.move f⟩

def Diagnostic.move (f : Position → Position) (d : Diagnostic) : Diagnostic :=
  ⟨d.complaint, d.span.move f⟩

def ScanError.move (f : Position → Position) (e : ScanError) : ScanError := ⟨e.run, f e.position⟩

def moveScanned (f : Position → Position) : Scanned → Scanned
  | .ok t => .ok (t.move f)
  | .error e => .error (e.move f)

def Scan.move (f : Position → Position) (scan : Scan) : Scan :=
  ⟨scan.items.map (moveScanned f), scan.last.move f⟩

/-! ### Scans of cursors -/

namespace Cursor

/-- A cursor either stands before nothing but blanks or goes on behind an outcome. -/
@[elab_as_elim]
theorem induction {motive : Cursor → Prop}
    (blank : ∀ c : Cursor, c.skipBlanks.rest = [] → motive c)
    (step : ∀ (c : Cursor) head tail, c.skipBlanks.rest = head :: tail → motive c.next.2 → motive c)
    (c : Cursor) : motive c := by
  induction hn : c.rest.length using Nat.strong_induction_on generalizing c with
  | _ n ih =>
    cases hrest : c.skipBlanks.rest with
    | nil => exact blank c hrest
    | cons head tail =>
      apply step c head tail hrest
      exact ih _ (hn ▸ length_next_lt (by simp [hrest])) _ rfl

lemma rest_eq {c : Cursor} {head : Char} {tail : List Char} (h : c.skipBlanks.rest = head :: tail) :
    c.rest = c.rest.takeWhile isBlank ++ (head :: tail) := by
  rw [← h]
  exact List.takeWhile_append_dropWhile.symm

lemma kind_next_ne_eof {c : Cursor} {head : Char} {tail : List Char}
    (h : c.skipBlanks.rest = head :: tail) {t : Token} (ht : c.next.1 = .ok t) : t.kind ≠ .eof := by
  cases hc : isIllegal head with
  | false => exact (next_of_not_isIllegal h hc ht).2
  | true =>
    obtain ⟨u, hu, -, hnext⟩ := next_of_isIllegal h hc
    rw [hnext] at ht
    obtain rfl := Except.ok.inj ht
    rw [hu]
    decide

lemma scanWithin_succ {c : Cursor} {head : Char} {tail : List Char}
    (h : c.skipBlanks.rest = head :: tail) (n : Nat) : c.scanWithin (n + 1) =
      (c.next.1 :: (c.next.2.scanWithin n).1, (c.next.2.scanWithin n).2) := by
  cases hx : c.next.1 with
  | error e => exact scanWithin_of_error (Prod.ext hx rfl) n
  | ok t => exact scanWithin_of_ok (Prod.ext hx rfl) (kind_next_ne_eof h hx) n

lemma scanWithin_eq (c : Cursor) {n m : Nat} (hn : c.rest.length < n) (hm : c.rest.length < m) :
    c.scanWithin n = c.scanWithin m := by
  induction c using Cursor.induction generalizing n m with
  | blank c hrest =>
    obtain ⟨n, rfl⟩ := Nat.exists_eq_succ_of_ne_zero (Nat.ne_zero_of_lt hn)
    obtain ⟨m, rfl⟩ := Nat.exists_eq_succ_of_ne_zero (Nat.ne_zero_of_lt hm)
    rw [scanWithin, scanWithin, next_of_rest_eq_nil hrest]
    rfl
  | step c head tail hrest ih =>
    obtain ⟨n, rfl⟩ := Nat.exists_eq_succ_of_ne_zero (Nat.ne_zero_of_lt hn)
    obtain ⟨m, rfl⟩ := Nat.exists_eq_succ_of_ne_zero (Nat.ne_zero_of_lt hm)
    have hlt := length_next_lt (c := c) (by simp [hrest])
    rw [scanWithin_succ hrest, scanWithin_succ hrest,
      ih (n := n) (m := m) (by omega) (by omega)]

def scan (c : Cursor) : Scan :=
  ⟨(c.scanWithin (c.rest.length + 1)).1, (c.scanWithin (c.rest.length + 1)).2⟩

lemma scan_of_rest_eq_nil {c : Cursor} (h : c.skipBlanks.rest = []) :
    c.scan = ⟨[], .endOfInput c.skipBlanks.position⟩ := by
  rw [scan, scanWithin, next_of_rest_eq_nil h]
  rfl

lemma scan_of_rest_eq_cons {c : Cursor} {head : Char} {tail : List Char}
    (h : c.skipBlanks.rest = head :: tail) :
    c.scan = ⟨c.next.1 :: c.next.2.scan.items, c.next.2.scan.last⟩ := by
  have hlt := length_next_lt (c := c) (by simp [h])
  rw [scan, scanWithin_succ h, scan, c.next.2.scanWithin_eq hlt (Nat.lt_succ_self _)]

lemma skipBlanks_skipBlanks {c : Cursor} {head : Char} {tail : List Char}
    (h : c.skipBlanks.rest = head :: tail) : c.skipBlanks.skipBlanks = c.skipBlanks := by
  have hblank := isBlank_head h
  rw [skipBlanks, h, List.dropWhile_cons_of_neg (by simp [hblank]),
    List.takeWhile_cons_of_neg (by simp [hblank]), ← h]
  rfl

lemma scan_congr {c d : Cursor} (h : c.skipBlanks = d.skipBlanks) : c.scan = d.scan := by
  cases hrest : c.skipBlanks.rest with
  | nil => rw [scan_of_rest_eq_nil hrest, scan_of_rest_eq_nil (h ▸ hrest), h]
  | cons head tail =>
    rw [scan_of_rest_eq_cons hrest, scan_of_rest_eq_cons (c := d) (h ▸ hrest), next_congr h]

/-! ### Cursors in larger texts -/

/-- The cursor in a text that begins at `base` in a larger one. -/
def within (base : Position) (c : Cursor) : Cursor := ⟨c.rest, base.within c.position⟩

lemma skipBlanks_within (base : Position) {c : Cursor} (h : 1 ≤ c.position.line) :
    (c.within base).skipBlanks = c.skipBlanks.within base := by
  simp only [skipBlanks, within, Position.within_afterAll base h]

lemma one_le_line_skipBlanks {c : Cursor} (h : 1 ≤ c.position.line) :
    1 ≤ c.skipBlanks.position.line := Position.one_le_line_afterAll h _

lemma one_le_line_next {c : Cursor} (h : 1 ≤ c.position.line) : 1 ≤ c.next.2.position.line := by
  have hblanks := one_le_line_skipBlanks h
  cases hrest : c.skipBlanks.rest with
  | nil =>
    rw [next_of_rest_eq_nil hrest]
    exact hblanks
  | cons head tail =>
    rw [next_of_rest_eq_cons hrest]
    exact Position.one_le_line_afterAll hblanks _

lemma next_within (base : Position) {c : Cursor} (h : 1 ≤ c.position.line) :
    (c.within base).next = (moveScanned base.within c.next.1, c.next.2.within base) := by
  have hskip := skipBlanks_within base h
  have hblanks := one_le_line_skipBlanks h
  cases hrest : c.skipBlanks.rest with
  | nil =>
    have hrest' : (c.within base).skipBlanks.rest = [] := by rw [hskip, within, hrest]
    rw [next_of_rest_eq_nil hrest, next_of_rest_eq_nil hrest', hskip]
    rfl
  | cons head tail =>
    have hrest' : (c.within base).skipBlanks.rest = head :: tail := by rw [hskip, within, hrest]
    rw [next_of_rest_eq_cons hrest, next_of_rest_eq_cons hrest', hskip]
    have hplace := Position.within_afterAll base hblanks (munch head tail).1
    split
    · simp only [within, moveScanned, ScanError.move, hplace]
    · simp only [within, moveScanned, Token.move, Span.move, hplace]

theorem scan_within (base : Position) {c : Cursor} (h : 1 ≤ c.position.line) :
    (c.within base).scan = c.scan.move base.within := by
  have hskip {c : Cursor} (h : 1 ≤ c.position.line) := skipBlanks_within base h
  induction c using Cursor.induction with
  | blank c hrest =>
    have hrest' : (c.within base).skipBlanks.rest = [] := by rw [hskip h, within, hrest]
    rw [scan_of_rest_eq_nil hrest, scan_of_rest_eq_nil hrest', hskip h]
    rfl
  | step c head tail hrest ih =>
    have hrest' : (c.within base).skipBlanks.rest = head :: tail := by
      rw [hskip h, within, hrest]
    rw [scan_of_rest_eq_cons hrest, scan_of_rest_eq_cons hrest', next_within base h,
      ih (one_le_line_next h)]
    rfl

/-- The outcomes from a token on are those of a cursor that stands before the token. -/
theorem exists_scan_from {c : Cursor} {before behind : List Scanned} {t : Token}
    (h : c.scan.items = before ++ .ok t :: behind) : ∃ text rest, c.rest = text ++ rest ∧
      c.position.afterAll text = t.span.start ∧
      scan ⟨rest, t.span.start⟩ = ⟨.ok t :: behind, c.scan.last⟩ := by
  induction c using Cursor.induction generalizing before with
  | blank c hrest =>
    rw [scan_of_rest_eq_nil hrest] at h
    simp at h
  | step c head tail hrest ih =>
    have hsplit := rest_eq hrest
    have hscan := scan_of_rest_eq_cons hrest
    rw [hscan] at h ⊢
    cases before with
    | nil =>
      obtain ⟨ht, rfl⟩ := List.cons.inj h
      have hplace : t.span.start = c.skipBlanks.position := by
        rw [next_of_rest_eq_cons hrest] at ht
        dsimp only at ht
        split at ht
        · cases ht
        · rw [← Except.ok.inj ht]
      refine ⟨c.rest.takeWhile isBlank, head :: tail, hsplit, hplace.symm, ?_⟩
      have hskip : skipBlanks ⟨head :: tail, t.span.start⟩ = c.skipBlanks := by
        rw [hplace, ← hrest]
        exact skipBlanks_skipBlanks hrest
      rw [scan_congr (d := c) hskip, hscan, ht]
    | cons x before =>
      obtain ⟨text, rest, hrest', hplace, hscan'⟩ := ih (List.cons.inj h).2
      rw [next_of_rest_eq_cons hrest] at hrest' hplace
      refine ⟨c.rest.takeWhile isBlank ++ ((munch head tail).1 ++ text), rest, ?_, ?_, hscan'⟩
      · rw [List.append_assoc, List.append_assoc, ← hrest', munch_append]
        exact hsplit
      · rw [Position.afterAll_append, Position.afterAll_append]
        exact hplace

end Cursor

lemma Scan.ofText_eq (source : String) : ofText source = (Cursor.ofText source).scan := by
  rw [Cursor.scan, ofText, Cursor.ofText, String.length_toList]

def textFrom (source : String) (t : Token) : String :=
  String.ofList (source.toList.drop t.place.toNat)

theorem Scan.move_textFrom {source : String} {before behind : List Scanned} {t : Token}
    (h : (ofText source).items = before ++ .ok t :: behind) :
    (ofText (textFrom source t)).move t.span.start.within =
      ⟨.ok t :: behind, (ofText source).last⟩ := by
  rw [ofText_eq] at h
  obtain ⟨text, rest, hrest, hplace, hscan⟩ := Cursor.exists_scan_from h
  have hoffset : t.place = text.length := by
    rw [Token.place, ← hplace, Position.offset_afterAll]
    exact Int.zero_add _
  have hfrom : Cursor.ofText (textFrom source t) = ⟨rest, .origin⟩ := by
    have hsource : source.toList = text ++ rest := hrest
    rw [Cursor.ofText, textFrom, String.toList_ofList, hoffset, hsource, Int.toNat_natCast,
      List.drop_left]
  have hwithin := Cursor.scan_within t.span.start (c := ⟨rest, .origin⟩) le_rfl
  rw [ofText_eq, ofText_eq, hfrom, ← hwithin, Cursor.within, Position.within_origin, hscan]

/-! ### Texts one behind the other -/

/-- No token of the text goes on in what is behind it: no run of letters or digits does, and no
operator of two characters is made of the last character and the first. -/
structure Seam (text behind : List Char) : Prop where
  letters : Parts isLetter text behind
  digits : Parts isDigit text behind
  equals : ∀ c, text.getLast? = some c → c = '=' ∨ c = '!' → behind.head? ≠ some '='

namespace Seam

variable {text xs ys behind : List Char} {c : Char}

lemma of_last (h : text.getLast? = some c) (hletter : isLetter c = false)
    (hdigit : isDigit c = false) (hequals : c = '=' ∨ c = '!' → behind.head? ≠ some '=') :
    Seam text behind := by
  obtain ⟨hletters, hdigits⟩ := partsRuns_of_getLast? h hletter hdigit behind
  refine ⟨hletters, hdigits, fun d hd he => ?_⟩
  obtain rfl := Option.some.inj (h.symm.trans hd)
  exact hequals he

lemma of_head (h : behind.head? = some c) (hletter : isLetter c = false)
    (hdigit : isDigit c = false) (hne : c ≠ '=') (text : List Char) : Seam text behind := by
  refine ⟨fun _ d _ hd _ => ?_, fun _ d _ hd _ => ?_, fun _ _ _ he => ?_⟩
  · rwa [← Option.some.inj (h.symm.trans hd)]
  · rwa [← Option.some.inj (h.symm.trans hd)]
  · exact hne (Option.some.inj (h.symm.trans he))

lemma ne_of_isBlank (h : isBlank c = true) : c ≠ '=' ∧ ¬(c = '=' ∨ c = '!') := by
  constructor
  · rintro rfl
    exact absurd h (by decide)
  · rintro (rfl | rfl) <;> exact absurd h (by decide)

lemma of_blank_last (h : text.getLast? = some c) (hc : isBlank c = true) (behind : List Char) :
    Seam text behind :=
  of_last h (not_isLetter_of_isBlank hc) (not_isDigit_of_isBlank hc) fun he =>
    absurd he (ne_of_isBlank hc).2

lemma of_blank_head (h : behind.head? = some c) (hc : isBlank c = true) (text : List Char) :
    Seam text behind :=
  of_head h (not_isLetter_of_isBlank hc) (not_isDigit_of_isBlank hc) (ne_of_isBlank hc).1 text

lemma nil (text : List Char) : Seam text [] :=
  ⟨fun _ _ _ hd => (by cases hd), fun _ _ _ hd => (by cases hd), fun _ _ _ hd => (by cases hd)⟩

lemma of_append (h : Seam (xs ++ ys) behind) : Seam ys behind := by
  have hlast {d : Char} (hd : ys.getLast? = some d) : (xs ++ ys).getLast? = some d := by
    rw [List.getLast?_append, hd]
    rfl
  exact ⟨fun d e hd => h.letters d e (hlast hd), fun d e hd => h.digits d e (hlast hd),
    fun d hd => h.equals d (hlast hd)⟩

end Seam

section Seams

variable {c : Char} {text behind : List Char}

lemma takeWhile_seam {p : Char → Bool} (h : Parts p (c :: text) behind) (hc : p c = true) :
    (text ++ behind).takeWhile p = text.takeWhile p ∧
      (text ++ behind).dropWhile p = text.dropWhile p ++ behind := by
  induction text generalizing c with
  | nil =>
    cases behind with
    | nil => exact ⟨rfl, rfl⟩
    | cons d behind => simp [h c d rfl rfl hc]
  | cons d text ih =>
    cases hd : p d with
    | true =>
      have := ih (fun a b ha => h a b (by rwa [List.getLast?_cons_cons])) hd
      simpa [hd] using this
    | false => simp [hd]

lemma munchRun_seam (h : Seam (c :: text) behind) : munchRun c (text ++ behind) =
    ((munchRun c text).1, (munchRun c text).2 ++ behind) := by
  unfold munchRun
  split_ifs with hsign hletter hdigit
  · rfl
  · obtain ⟨htake, hdrop⟩ := takeWhile_seam h.letters hletter
    rw [htake, hdrop]
  · obtain ⟨htake, hdrop⟩ := takeWhile_seam h.digits hdigit
    rw [htake, hdrop]
  · rfl

lemma munch_seam (h : Seam (c :: text) behind) : munch c (text ++ behind) =
    ((munch c text).1, (munch c text).2 ++ behind) := by
  have hrun := munchRun_seam h
  cases text with
  | nil =>
    have hbehind : munch c behind = munchRun c behind := by
      by_cases hc : c = '=' ∨ c = '!'
      · exact munch_eq_munchRun fun rest he => h.equals c rfl hc (by rw [he]; rfl)
      · unfold munch
        split
        · exact if_neg (by simpa using hc)
        · rfl
    rw [List.nil_append] at hrun ⊢
    have hend : munch c [] = munchRun c [] := munch_eq_munchRun (by simp)
    rw [hbehind, hend, hrun]
  | cons d text =>
    by_cases hd : d = '='
    · subst hd
      simp only [List.cons_append, munch] at hrun ⊢
      split
      · rfl
      · exact hrun
    · have hne {rest : List Char} : ∀ back, d :: rest ≠ '=' :: back :=
        fun back he => hd (List.cons.inj he).1
      have hend : munch c (d :: text) = munchRun c (d :: text) := munch_eq_munchRun hne
      rw [hend, List.cons_append, munch_eq_munchRun hne, ← List.cons_append, hrun]

end Seams

namespace Cursor

/-- The cursor in the text that goes on with `behind`. -/
def followedBy (c : Cursor) (behind : List Char) : Cursor := ⟨c.rest ++ behind, c.position⟩

variable {c : Cursor} {head : Char} {tail behind : List Char}

lemma afterAll_rest_next (h : c.skipBlanks.rest = head :: tail) :
    c.next.2.position.afterAll c.next.2.rest = c.position.afterAll c.rest := by
  have hsplit := rest_eq h
  rw [next_of_rest_eq_cons h]
  conv => rhs; rw [hsplit, ← munch_append, Position.afterAll_append, Position.afterAll_append]
  rfl

lemma next_followedBy (h : c.skipBlanks.rest = head :: tail) (hseam : Seam c.rest behind) :
    (c.followedBy behind).skipBlanks.rest = head :: (tail ++ behind) ∧
      (c.followedBy behind).next = (c.next.1, c.next.2.followedBy behind) ∧
      Seam c.next.2.rest behind := by
  have hsplit := rest_eq h
  have hskip : (c.followedBy behind).skipBlanks =
      ⟨head :: (tail ++ behind), c.skipBlanks.position⟩ := by
    rw [followedBy, hsplit, List.append_assoc, skipBlanks_append fun b => List.mem_takeWhile_imp,
      skipBlanks]
    simp [isBlank_head h, skipBlanks]
  have hrest : (c.followedBy behind).skipBlanks.rest = head :: (tail ++ behind) := by rw [hskip]
  rw [hsplit] at hseam
  refine ⟨hrest, ?_, ?_⟩
  · rw [next_of_rest_eq_cons hrest, next_of_rest_eq_cons h, hskip, munch_seam hseam.of_append]
    rfl
  · rw [← munch_append] at hseam
    rw [next_of_rest_eq_cons h]
    exact hseam.of_append.of_append

/-- In front of a seam a text is scanned as on its own, and what is behind it is scanned behind
it. -/
theorem scan_followedBy (hseam : Seam c.rest behind) : (c.followedBy behind).scan =
    ⟨c.scan.items ++ (scan ⟨behind, c.position.afterAll c.rest⟩).items,
      (scan ⟨behind, c.position.afterAll c.rest⟩).last⟩ := by
  induction c using Cursor.induction with
  | blank c h =>
    have hskip := skipBlanks_append (List.dropWhile_eq_nil_iff.1 h) behind c.position
    rw [scan_of_rest_eq_nil h, List.nil_append]
    exact scan_congr hskip
  | step c head tail h ih =>
    obtain ⟨hrest, hnext, hbehind⟩ := next_followedBy h hseam
    rw [scan_of_rest_eq_cons hrest, scan_of_rest_eq_cons h, hnext, ih hbehind, afterAll_rest_next h]
    rfl

end Cursor

def behindAll (text : String) : Position := Position.origin.afterAll text.toList

/-- Of two texts with a seam between them, first the one and then the other is scanned. -/
theorem Scan.ofText_append {text behind : String} (hseam : Seam text.toList behind.toList) :
    ofText (text ++ behind) =
      ⟨(ofText text).items ++ ((ofText behind).move (behindAll text).within).items,
        ((ofText behind).move (behindAll text).within).last⟩ := by
  have hcursor : Cursor.ofText (text ++ behind) =
      (Cursor.ofText text).followedBy behind.toList := by
    simp [Cursor.ofText, Cursor.followedBy]
  have hwithin := Cursor.scan_within (behindAll text) (c := .ofText behind) le_rfl
  simp only [Scan.ofText_eq]
  rw [hcursor, Cursor.scan_followedBy hseam, ← hwithin, Cursor.within]
  simp only [Cursor.ofText, Position.within_origin, behindAll]

lemma Scan.items_blanks {blanks : String} (h : ∀ b ∈ blanks.toList, isBlank b = true) :
    (ofText blanks).items = [] := by
  rw [ofText_eq, Cursor.scan_of_rest_eq_nil]
  exact List.dropWhile_eq_nil_iff.2 h

/-- The place behind a text and the line feed that follows it. -/
def behindLine (text : List Char) : Position := Position.origin.afterAll (text ++ ['\n'])

/-- Of two texts with a line feed between them, first the one and then the other is scanned. -/
theorem Scan.ofText_lineFeed (text behind : String) : ofText (text ++ "\n" ++ behind) =
    ⟨(ofText text).items ++ ((ofText behind).move (behindLine text.toList).within).items,
      ((ofText behind).move (behindLine text.toList).within).last⟩ := by
  have hfirst : Seam text.toList ("\n" : String).toList := .of_blank_head rfl (by decide) _
  have hsecond : Seam (text ++ "\n").toList behind.toList :=
    .of_blank_last (c := '\n') (by simp) (by decide) _
  have hline : (ofText "\n").items = [] := items_blanks (List.all_eq_true.1 rfl)
  have hplace : behindAll (text ++ "\n") = behindLine text.toList := by
    simp [behindAll, behindLine]
  rw [ofText_append hsecond, ofText_append hfirst, hplace]
  simp only [move, hline, List.map_nil, List.append_nil]

end MonkeyFront
