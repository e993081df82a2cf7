import MonkeyFront.Proofs.Blanking

namespace MonkeyFront

/-! ### Decompositions -/

/-- A longest run of characters of a class: no such character stands next to it. -/
structure IsRun (p : Char → Bool) (before run behind : List Char) : Prop where
  ne_nil : run ≠ []
  all : ∀ c ∈ run, p c = true
  before : ∀ c, before.getLast? = some c → p c = false
  behind : ∀ c, behind.head? = some c → p c = false

/-- A text that is a lexeme where it stands: an operator of two characters, an operator of one
character that does not begin one of two, a longest run of letters, or a longest run of digits that
writes a number. -/
inductive IsLexeme (before behind : List Char) : List Char → Prop
  | pair {c : Char} (h : c = '=' ∨ c = '!') : IsLexeme before behind [c, '=']
  | sign {c : Char} (h : (Kind.sign? c).isSome = true)
      (single : c = '=' ∨ c = '!' → behind.head? ≠ some '=') : IsLexeme before behind [c]
  | word {run : List Char} (h : IsRun isLetter before run behind) : IsLexeme before behind run
  | number {run : List Char} (h : IsRun isDigit before run behind)
      (value : (number? run).isSome = true) : IsLexeme before behind run

namespace Token

/-- The literal of the token is the stretch of the text between its offsets, behind `before` and in
front of `behind`. -/
structure IsBetween (t : Token) (text before behind : List Char) : Prop where
  text : text = before ++ (t.literal.toList ++ behind)
  start : t.span.start.offset = before.length
  stop : t.span.stop.offset = before.length + t.literal.toList.length

/-- The token is a lexeme where it stands, or an illegal character. -/
inductive Fits (t : Token) (before behind : List Char) : Prop
  | lexeme (kind : t.kind ≠ .illegal) (text : IsLexeme before behind t.literal.toList)
  | illegal {c : Char} (kind : t.kind = .illegal) (text : t.literal.toList = [c])
      (h : isIllegal c = true)

/-- The token stands on the character at an offset. -/
def Covers (t : Token) (i : Nat) : Prop := t.span.start.offset ≤ i ∧ i < t.span.stop.offset

/-- A token without the lines and columns of its places. -/
def extent (t : Token) : Lexeme × Int × Int :=
  (t.toLexeme, t.span.start.offset, t.span.stop.offset)

end Token

/-- The tokens decompose the text: they stand one behind the other, each is the stretch of the text
between its offsets and a lexeme or an illegal character there, nothing but blanks stands outside
them and none begins with a blank, the end of input comes last and only there, and every other token
that is no illegal character has the kind of its text. -/
structure IsDecomposition (source : String) (tokens : List Token) : Prop where
  ordered : tokens.Pairwise fun t u => t.span.stop.offset ≤ u.span.start.offset
  fits : ∀ t ∈ tokens, t.kind ≠ .eof →
    ∃ before behind, t.IsBetween source.toList before behind ∧ t.Fits before behind
  blanks : ∀ (i : Nat) (c : Char), source.toList[i]? = some c →
    isBlank c = true ∨ ∃ t ∈ tokens, t.Covers i
  begins : ∀ t ∈ tokens, ∀ (i : Nat) (c : Char), t.span.start.offset = i →
    source.toList[i]? = some c → isBlank c = false
  ending : ∃ ts last, tokens = ts ++ [last] ∧ (∀ t ∈ ts, t.kind ≠ .eof) ∧
    last.toLexeme = ⟨.eof, ""⟩ ∧ last.span.start.offset = (source.length : Int) ∧
    last.span.stop.offset = (source.length : Int)
  lookup : ∀ t ∈ tokens, t.kind ≠ .illegal → t.kind ≠ .eof → t.toLexeme = .ofText t.literal

/-! ### Single lexemes -/

/-- No character of a class at the end of a text meets one at the beginning of the other. -/
def Parts (p : Char → Bool) (before behind : List Char) : Prop :=
  ∀ c d, before.getLast? = some c → behind.head? = some d → p c = true → p d = false

/-- No run of letters or digits goes on behind `before`. -/
def PartsRuns (before behind : List Char) : Prop :=
  Parts isLetter before behind ∧ Parts isDigit before behind

lemma partsRuns_nil (behind : List Char) : PartsRuns [] behind :=
  ⟨fun _ _ h => (by cases h), fun _ _ h => (by cases h)⟩

/-- Behind a character that is neither a letter nor a digit no run goes on. -/
lemma partsRuns_of_getLast? {before : List Char} {c : Char} (h : before.getLast? = some c)
    (hletter : isLetter c = false) (hdigit : isDigit c = false) (behind : List Char) :
    PartsRuns before behind := by
  constructor <;> intro d e hd _ hp <;> rw [h] at hd <;> obtain rfl := Option.some.inj hd
  · rw [hletter] at hp
    cases hp
  · rw [hdigit] at hp
    cases hp

lemma PartsRuns.append_blanks {before blanks behind : List Char}
    (h : PartsRuns before (blanks ++ behind)) (hblanks : ∀ c ∈ blanks, isBlank c = true) :
    PartsRuns (before ++ blanks) behind := by
  cases hlast : blanks.getLast? with
  | none =>
    obtain rfl := List.getLast?_eq_none_iff.1 hlast
    rwa [List.append_nil]
  | some c =>
    have hc := hblanks c (List.mem_of_getLast? hlast)
    exact partsRuns_of_getLast? (by simp [List.getLast?_append, hlast])
      (not_isLetter_of_isBlank hc) (not_isDigit_of_isBlank hc) _

section Runs

variable {p : Char → Bool} {before run behind : List Char}

lemma isRun_takeWhile {c : Char} {rest : List Char} (h : Parts p before (c :: rest))
    (hc : p c = true) : IsRun p before (c :: rest.takeWhile p) (rest.dropWhile p) := by
  refine ⟨List.cons_ne_nil _ _, ?_, ?_, ?_⟩
  · exact List.forall_mem_cons.2 ⟨hc, fun d hd => List.mem_takeWhile_imp hd⟩
  · intro d hd
    by_contra hp
    rw [h d c hd rfl (Bool.eq_true_of_not_eq_false hp)] at hc
    cases hc
  · intro d hd
    have := List.head?_dropWhile_not p rest
    rw [hd] at this
    simpa using this

lemma IsRun.takeWhile_eq {c : Char} {text : List Char} (h : IsRun p before (c :: text) behind) :
    (text ++ behind).takeWhile p = text ∧ (text ++ behind).dropWhile p = behind := by
  have hend : behind.takeWhile p = [] ∧ behind.dropWhile p = behind := by
    cases behind with
    | nil => exact ⟨rfl, rfl⟩
    | cons d behind => simp [h.behind d rfl]
  have htext : ∀ d ∈ text, p d = true := fun d hd => h.all d (List.mem_cons_of_mem _ hd)
  rw [List.takeWhile_append_of_pos htext, List.dropWhile_append_of_pos htext, hend.1, hend.2,
    List.append_nil]
  exact ⟨rfl, rfl⟩

lemma IsRun.exists_getLast? (h : IsRun p before run behind) :
    ∃ c, (before ++ run).getLast? = some c ∧ p c = true := by
  refine ⟨run.getLast h.ne_nil, ?_, h.all _ (List.getLast_mem h.ne_nil)⟩
  rw [List.getLast?_append_of_ne_nil _ h.ne_nil, List.getLast?_eq_some_getLast h.ne_nil]

/-- Behind a longest run no run of its class goes on, and none of a class apart from it. -/
lemma IsRun.parts {q : Char → Bool} (h : IsRun p before run behind)
    (hq : (∀ c, q c = p c) ∨ ∀ c, p c = true → q c = false) : Parts q (before ++ run) behind := by
  intro c d hc hd hqc
  obtain ⟨e, he, hp⟩ := h.exists_getLast?
  obtain rfl := Option.some.inj (hc.symm.trans he)
  rcases hq with hq | hq
  · rw [hq]
    exact h.behind d hd
  · rw [hq c hp] at hqc
    cases hqc

end Runs

lemma munch_cases (c : Char) (rest : List Char) :
    (∃ behind, rest = '=' :: behind ∧ (c = '=' ∨ c = '!') ∧ munch c rest = ([c, '='], behind)) ∨
    ((Kind.sign? c).isSome = true ∧ (c = '=' ∨ c = '!' → rest.head? ≠ some '=') ∧
      munch c rest = ([c], rest)) ∨
    (isLetter c = true ∧ munch c rest = (c :: rest.takeWhile isLetter, rest.dropWhile isLetter)) ∨
    (isDigit c = true ∧ munch c rest = (c :: rest.takeWhile isDigit, rest.dropWhile isDigit)) ∨
    (((Kind.sign? c).isSome || isLetter c || isDigit c) = false ∧ munch c rest = ([c], rest)) := by
  by_cases hpair : ∃ behind, rest = '=' :: behind ∧ (c = '=' ∨ c = '!')
  · obtain ⟨behind, rfl, hc⟩ := hpair
    exact .inl ⟨behind, rfl, hc, by simp [munch, hc]⟩
  have hsingle : c = '=' ∨ c = '!' → rest.head? ≠ some '=' := by
    intro hc hrest
    obtain ⟨behind, rfl⟩ := List.head?_eq_some_iff.1 hrest
    exact hpair ⟨behind, rfl, hc⟩
  have hrun : munch c rest = munchRun c rest := by
    unfold munch
    split
    · next behind =>
      rw [if_neg fun hc => hpair ⟨behind, rfl, by simpa using hc⟩]
    · rfl
  rw [hrun]
  unfold munchRun
  by_cases hsign : (Kind.sign? c).isSome
  · exact .inr (.inl ⟨hsign, hsingle, if_pos hsign⟩)
  by_cases hletter : isLetter c
  · exact .inr (.inr (.inl ⟨hletter, by rw [if_neg hsign, if_pos hletter]⟩))
  by_cases hdigit : isDigit c
  · exact .inr (.inr (.inr (.inl ⟨hdigit, by rw [if_neg hsign, if_neg hletter, if_pos hdigit]⟩)))
  · refine .inr (.inr (.inr (.inr ⟨by simp [hsign, hletter, hdigit], ?_⟩)))
    rw [if_neg hsign, if_neg hletter, if_neg hdigit]

lemma munch_begins (c : Char) (rest : List Char) : ∃ text, (munch c rest).1 = c :: text := by
  rcases munch_cases c rest with ⟨_, -, -, h⟩ | ⟨-, -, h⟩ | ⟨-, h⟩ | ⟨-, h⟩ | ⟨-, h⟩ <;>
    exact ⟨_, by rw [h]⟩

lemma classes_of_sign {c : Char} (h : (Kind.sign? c).isSome = true) :
    isLetter c = false ∧ isDigit c = false := by
  constructor <;> by_contra hc
  · rw [sign?_eq_none (.inl (Bool.eq_true_of_not_eq_false hc))] at h
    cases h
  · rw [sign?_eq_none (.inr (Bool.eq_true_of_not_eq_false hc))] at h
    cases h

lemma fits_munch {before rest : List Char} {c : Char} (hblank : isBlank c = false)
    (hparts : PartsRuns before (c :: rest))
    (hnumber : (isDigit c && (number? (munch c rest).1).isNone) = false) {t : Token}
    (hkind : t.kind = munchedKind (munch c rest).1) (htext : t.literal.toList = (munch c rest).1) :
    t.Fits before (munch c rest).2 ∧
      PartsRuns (before ++ (munch c rest).1) (munch c rest).2 := by
  have legal (hclass : ((Kind.sign? c).isSome || isLetter c || isDigit c) = true) :
      t.kind ≠ .illegal := by
    have hc : isIllegal c = false := by
      simp only [Bool.or_eq_true, Option.isSome_iff_ne_none] at hclass
      by_contra hskip
      simp only [Bool.not_eq_false, isIllegal, Bool.and_eq_true, Bool.not_eq_true',
        Option.isNone_iff_eq_none] at hskip
      rcases hclass with (h | h) | h <;> simp_all
    rw [hkind]
    exact (munch_of_not_isIllegal hblank hc rest).2.1
  rcases munch_cases c rest with ⟨behind, -, hc, hmunch⟩ | ⟨hsign, hsingle, hmunch⟩ |
    ⟨hletter, hmunch⟩ | ⟨hdigit, hmunch⟩ | ⟨hnone, hmunch⟩ <;>
    rw [hmunch] at hkind htext hnumber ⊢ <;> dsimp only at hkind htext hnumber ⊢
  · have hsign : (Kind.sign? c).isSome = true := by rcases hc with rfl | rfl <;> rfl
    refine ⟨.lexeme (legal (by simp [hsign])) (htext ▸ .pair hc), ?_⟩
    exact partsRuns_of_getLast? (c := '=') (by simp) (by decide) (by decide) _
  · obtain ⟨hletter, hdigit⟩ := classes_of_sign hsign
    refine ⟨.lexeme (legal (by simp [hsign])) (htext ▸ .sign hsign hsingle), ?_⟩
    exact partsRuns_of_getLast? (c := c) (by simp) hletter hdigit _
  · have hrun := isRun_takeWhile hparts.1 hletter
    refine ⟨.lexeme (legal (by simp [hletter])) (htext ▸ .word hrun), ?_, ?_⟩
    · exact hrun.parts (.inl fun _ => rfl)
    · exact hrun.parts (.inr fun _ => not_isDigit_of_isLetter)
  · have hrun := isRun_takeWhile hparts.2 hdigit
    have hvalue : (number? (c :: rest.takeWhile isDigit)).isSome = true := by
      simpa [hdigit] using hnumber
    refine ⟨.lexeme (legal (by simp [hdigit])) (htext ▸ .number hrun hvalue), ?_, ?_⟩
    · exact hrun.parts (.inr fun _ => not_isLetter_of_isDigit)
    · exact hrun.parts (.inl fun _ => rfl)
  · have hillegal : t.kind = .illegal := by rw [hkind, munchedKind, if_neg (by simp [hnone])]
    simp only [Bool.or_eq_false_iff, Option.isSome_eq_false_iff] at hnone
    refine ⟨.illegal hillegal htext ?_, ?_⟩
    · simp [isIllegal, hblank, hnone]
    · exact partsRuns_of_getLast? (c := c) (by simp) hnone.1.2 hnone.2 _

lemma munchedKind_cons (c : Char) (text : List Char) : munchedKind (c :: text) =
    if (Kind.sign? c).isSome || isLetter c || isDigit c then Kind.ofText (c :: text)
    else .illegal := rfl

lemma munchedKind_eq_ofText {text : List Char} (h : munchedKind text ≠ .illegal) :
    munchedKind text = Kind.ofText text := by
  cases text with
  | nil => exact absurd rfl h
  | cons c text =>
    rw [munchedKind_cons] at h ⊢
    by_cases hc : ((Kind.sign? c).isSome || isLetter c || isDigit c) = true
    · rw [if_pos hc]
    · rw [if_neg hc] at h
      exact absurd rfl h

lemma IsLexeme.ne_nil {before behind text : List Char} (h : IsLexeme before behind text) :
    text ≠ [] := by
  cases h with
  | pair | sign => exact List.cons_ne_nil _ _
  | word hrun => exact hrun.ne_nil
  | number hrun => exact hrun.ne_nil

lemma Token.Fits.ne_nil {t : Token} {before behind : List Char} (h : t.Fits before behind) :
    t.literal.toList ≠ [] := by
  cases h with
  | lexeme _ htext => exact htext.ne_nil
  | illegal _ htext => simp [htext]

lemma IsLexeme.number_of_int {before behind text : List Char} (h : IsLexeme before behind text)
    (hk : Kind.ofText text = .int) :
    (∀ c ∈ text, isDigit c = true) ∧ (number? text).isSome = true := by
  obtain ⟨hne, hdigits⟩ : text ≠ [] ∧ ∀ c ∈ text, isDigit c = true := by
    rcases ofText_cases text with hk' | ⟨-, hdigits⟩ | ⟨hk', -⟩
    · exact absurd hk fun he => hk' (by simp [he])
    · exact hdigits
    · simp [hk] at hk'
  refine ⟨hdigits, ?_⟩
  cases h with
  | pair => exact absurd (hdigits '=' (by simp)) (by decide)
  | sign hsign =>
    have hdigit := hdigits _ List.mem_cons_self
    rw [(classes_of_sign hsign).2] at hdigit
    cases hdigit
  | word hrun =>
    obtain ⟨c, hc⟩ := List.exists_mem_of_ne_nil text hne
    have hdigit := hdigits c hc
    rw [not_isDigit_of_isLetter (hrun.all c hc)] at hdigit
    cases hdigit
  | number _ hvalue => exact hvalue

lemma IsLexeme.letters_of_ident {before behind text : List Char} (h : IsLexeme before behind text)
    (hk : Kind.ofText text = .ident) :
    (∀ c ∈ text, isLetter c = true) ∧ Kind.keyword? text = none := by
  obtain ⟨hkeyword, hoperator⟩ : Kind.keyword? text = none ∧ Kind.operator? text = none := by
    rcases ofText_cases text with hk' | ⟨hk', -⟩ | ⟨-, hnone⟩
    · exact absurd hk fun he => hk' (by simp [he])
    · simp [hk] at hk'
    · exact hnone
  refine ⟨?_, hkeyword⟩
  cases h with
  | pair hc => rcases hc with rfl | rfl <;> cases hoperator
  | sign hsign => exact absurd hsign (Option.not_isSome_iff_eq_none.2 hoperator)
  | word hrun => exact hrun.all
  | number hrun =>
    have hdigits : (!text.isEmpty && text.all isDigit) = true := by
      simpa using ⟨hrun.ne_nil, hrun.all⟩
    simp [Kind.ofText, hkeyword, hoperator, hdigits] at hk

section Elsewhere

variable {before behind behind' : List Char}
  (h : ∀ d, behind'.head? = some d → behind.head? = some d ∨ isBlank d = true)

include h

lemma IsRun.elsewhere {p : Char → Bool} {run : List Char} (hp : ∀ c, isBlank c = true → p c = false)
    (hrun : IsRun p before run behind) : IsRun p [] run behind' :=
  ⟨hrun.ne_nil, hrun.all, fun _ hc => (by cases hc), fun c hc =>
    (h c hc).elim (hrun.behind c) (hp c)⟩

/-- A lexeme is one at the beginning of another text too that goes on as it did, or with a blank, or
not at all. -/
lemma IsLexeme.elsewhere {text : List Char} (htext : IsLexeme before behind text) :
    IsLexeme [] behind' text := by
  cases htext with
  | pair hc => exact .pair hc
  | sign hsign hsingle =>
    refine .sign hsign fun hc he => ?_
    rcases h '=' he with he | hblank
    · exact hsingle hc he
    · exact absurd hblank (by decide)
  | word hrun => exact .word (hrun.elsewhere h fun _ => not_isLetter_of_isBlank)
  | number hrun hvalue => exact .number (hrun.elsewhere h fun _ => not_isDigit_of_isBlank) hvalue

lemma Token.Fits.elsewhere {t : Token} (ht : t.Fits before behind) : t.Fits [] behind' := by
  cases ht with
  | lexeme hkind htext => exact .lexeme hkind (htext.elsewhere h)
  | illegal hkind htext hc => exact .illegal hkind htext hc

end Elsewhere

lemma IsLexeme.munch_eq {before behind text : List Char} {c : Char}
    (h : IsLexeme before behind (c :: text)) :
    munch c (text ++ behind) = (c :: text, behind) ∧
      ((Kind.sign? c).isSome || isLetter c || isDigit c) = true ∧
      (isDigit c && (number? (c :: text)).isNone) = false := by
  have run {p : Char → Bool} (hp : p '=' = false) (hp' : p '!' = false)
      (hrun : IsRun p before (c :: text) behind) :
      munch c (text ++ behind) = munchRun c (text ++ behind) := by
    have hc := hrun.all c List.mem_cons_self
    have hne : ¬(c = '=' ∨ c = '!') := by
      rintro (rfl | rfl)
      · rw [hp] at hc
        cases hc
      · rw [hp'] at hc
        cases hc
    unfold munch
    split
    · rw [if_neg (by simpa using hne)]
    · rfl
  generalize htext : c :: text = lexeme at h
  cases h with
  | @pair d hd =>
    obtain ⟨rfl, rfl⟩ := List.cons.inj htext
    rcases hd with rfl | rfl <;> exact ⟨rfl, rfl, by decide⟩
  | @sign d hsign hsingle =>
    obtain ⟨rfl, rfl⟩ := List.cons.inj htext
    obtain ⟨hletter, hdigit⟩ := classes_of_sign hsign
    refine ⟨?_, by simp [hsign], by simp [hdigit]⟩
    rcases munch_cases c behind with ⟨behind, rfl, hc, -⟩ | ⟨-, -, hmunch⟩ | ⟨hl, -⟩ | ⟨hd, -⟩ |
      ⟨hnone, -⟩
    · exact absurd rfl (hsingle hc)
    · exact hmunch
    · rw [hletter] at hl
      cases hl
    · rw [hdigit] at hd
      cases hd
    · simp [hsign] at hnone
  | word hrun =>
    subst htext
    have hc := hrun.all c List.mem_cons_self
    obtain ⟨htake, hdrop⟩ := hrun.takeWhile_eq
    refine ⟨?_, by simp [hc], by simp [not_isDigit_of_isLetter hc]⟩
    rw [run (by decide) (by decide) hrun, munchRun, if_neg (by simp [sign?_eq_none (.inl hc)]),
      if_pos hc, htake, hdrop]
  | number hrun hvalue =>
    subst htext
    have hc := hrun.all c List.mem_cons_self
    obtain ⟨htake, hdrop⟩ := hrun.takeWhile_eq
    refine ⟨?_, by simp [hc], by simp [Option.isNone_eq_false_iff.2 hvalue]⟩
    rw [run (by decide) (by decide) hrun, munchRun, if_neg (by simp [sign?_eq_none (.inr hc)]),
      if_neg (by simp [not_isLetter_of_isDigit hc]), if_pos hc, htake, hdrop]

lemma Token.Fits.munch_eq {t : Token} {before behind text : List Char} {c : Char}
    (h : t.Fits before behind) (htext : t.literal.toList = c :: text)
    (hlookup : t.kind ≠ .illegal → t.kind = Kind.ofText t.literal.toList) :
    munch c (text ++ behind) = (c :: text, behind) ∧ munchedKind (c :: text) = t.kind ∧
      (isDigit c && (number? (c :: text)).isNone) = false := by
  cases h with
  | lexeme hkind h =>
    rw [htext] at h hlookup
    obtain ⟨hmunch, hclass, hnumber⟩ := h.munch_eq
    exact ⟨hmunch, by rw [munchedKind_cons, if_pos hclass, hlookup hkind], hnumber⟩
  | @illegal d hkind hd hskip =>
    obtain ⟨rfl, rfl⟩ := List.cons.inj (htext.symm.trans hd)
    refine ⟨munch_of_isIllegal hskip behind, ?_, ?_⟩
    · simp only [isIllegal, Bool.and_eq_true, Bool.not_eq_true', Option.isNone_iff_eq_none] at hskip
      rw [munchedKind_cons, if_neg (by simp [hskip]), hkind]
    · simp only [isIllegal, Bool.and_eq_true, Bool.not_eq_true'] at hskip
      simp [hskip.2]

/-! ### Chains -/

/-- The token stands between two parts of a text: it begins with no blank, fits there, and has the
kind of its text if it is no illegal character. -/
structure Token.Stands (t : Token) (before behind : List Char) : Prop where
  begun : ∃ c text, t.literal.toList = c :: text ∧ isBlank c = false
  start : t.span.start.offset = before.length
  stop : t.span.stop.offset = before.length + t.literal.toList.length
  fits : t.Fits before behind
  lookup : t.kind ≠ .illegal → t.kind = Kind.ofText t.literal.toList

/-- A token that is no illegal character stands there as a lexeme, and has the kind of its text. -/
lemma Token.Stands.isLexeme {t : Token} {before behind : List Char} (h : t.Stands before behind)
    (hk : t.kind ≠ .illegal) :
    IsLexeme before behind t.literal.toList ∧ Kind.ofText t.literal.toList = t.kind := by
  refine ⟨?_, (h.lookup hk).symm⟩
  cases h.fits with
  | lexeme _ htext => exact htext
  | illegal hillegal => exact absurd hillegal hk

/-- Tokens that stand one behind the other in a text of which `before` has been passed, with nothing
but blanks between them and behind them. -/
inductive Chain : List Char → List Char → List Token → Prop
  | nil {before rest} (blank : ∀ c ∈ rest, isBlank c = true) : Chain before rest []
  | cons {before blanks behind t ts} (blank : ∀ c ∈ blanks, isBlank c = true)
      (stands : t.Stands (before ++ blanks) behind)
      (rest : Chain (before ++ blanks ++ t.literal.toList) behind ts) :
      Chain before (blanks ++ (t.literal.toList ++ behind)) (t :: ts)

lemma eq_of_blanks_append {blanks blanks' rest rest' : List Char} {c c' : Char}
    (hblanks : ∀ b ∈ blanks, isBlank b = true) (hc : isBlank c = false)
    (hblanks' : ∀ b ∈ blanks', isBlank b = true) (hc' : isBlank c' = false)
    (h : blanks ++ c :: rest = blanks' ++ c' :: rest') :
    blanks = blanks' ∧ c = c' ∧ rest = rest' := by
  have hdrop := congrArg (List.dropWhile isBlank) h
  have htake := congrArg (List.takeWhile isBlank) h
  rw [List.dropWhile_append_of_pos hblanks, List.dropWhile_append_of_pos hblanks',
    List.dropWhile_cons_of_neg (by simp [hc]), List.dropWhile_cons_of_neg (by simp [hc'])] at hdrop
  rw [List.takeWhile_append_of_pos hblanks, List.takeWhile_append_of_pos hblanks',
    List.takeWhile_cons_of_neg (by simp [hc]), List.takeWhile_cons_of_neg (by simp [hc']),
    List.append_nil, List.append_nil] at htake
  exact ⟨htake, List.cons.inj hdrop⟩

lemma Token.Stands.length_pos {t : Token} {before behind : List Char} (h : t.Stands before behind) :
    0 < t.literal.toList.length := by
  obtain ⟨c, text, htext, -⟩ := h.begun
  rw [htext]
  exact Nat.succ_pos _

theorem Chain.unique {before rest : List Char} {ts us : List Token} (h : Chain before rest ts)
    (h' : Chain before rest us) : us.map Token.extent = ts.map Token.extent := by
  induction h generalizing us with
  | nil hblank =>
    cases h' with
    | nil => rfl
    | @cons _ blanks behind u us _ hu =>
      obtain ⟨c, text, htext, hc⟩ := hu.begun
      rw [hblank c (by simp [htext])] at hc
      cases hc
  | @cons before blanks behind t ts hblank ht _ ih =>
    obtain ⟨c, text, htext, hc⟩ := ht.begun
    generalize hrest : blanks ++ (t.literal.toList ++ behind) = rest at h'
    cases h' with
    | nil hblank' =>
      rw [hblank' c (by simp [← hrest, htext])] at hc
      cases hc
    | @cons _ blanks' behind' u us hblank' hu hus =>
      obtain ⟨c', text', htext', hc'⟩ := hu.begun
      rw [htext, htext', List.cons_append, List.cons_append] at hrest
      obtain ⟨rfl, rfl, hsame⟩ := eq_of_blanks_append hblank hc hblank' hc' hrest
      obtain ⟨hmunch, hkind, -⟩ := ht.fits.munch_eq htext ht.lookup
      obtain ⟨hmunch', hkind', -⟩ := hu.fits.munch_eq htext' hu.lookup
      rw [hsame, hmunch'] at hmunch
      obtain ⟨htexts, rfl⟩ := Prod.mk.inj hmunch
      obtain ⟨-, rfl⟩ := List.cons.inj htexts
      have hliteral : u.literal = t.literal := String.toList_inj.1 (htext'.trans htext.symm)
      have hextent : u.extent = t.extent := by
        have hlexeme : u.toLexeme = t.toLexeme := by
          rw [show u.toLexeme = ⟨u.kind, u.literal⟩ from rfl, ← hkind', hkind, hliteral]
        rw [Token.extent, Token.extent, hlexeme, hu.start, hu.stop, ht.start, ht.stop, hliteral]
      rw [List.map_cons, List.map_cons, hextent, ih (hliteral ▸ hus)]

/-! ### Scans -/

lemma munchedKind_ne_eof (text : List Char) : munchedKind text ≠ .eof := by
  by_cases h : munchedKind text = .illegal
  · rw [h]
    decide
  · rw [munchedKind_eq_ofText h]
    exact kind_ofText_ne (.inr rfl) text

namespace Cursor

/-- The cursor has passed `before`: its offset counts these characters, and no run of letters or
digits goes on behind them. -/
structure HasPassed (c : Cursor) (before : List Char) : Prop where
  offset : c.position.offset = before.length
  parts : PartsRuns before c.rest

namespace HasPassed

variable {c : Cursor} {before : List Char}

lemma skipBlanks (h : c.HasPassed before) : ∃ blanks, (∀ b ∈ blanks, isBlank b = true) ∧
    c.rest = blanks ++ c.skipBlanks.rest ∧ c.skipBlanks.HasPassed (before ++ blanks) := by
  have hsplit : c.rest = c.rest.takeWhile isBlank ++ c.skipBlanks.rest :=
    List.takeWhile_append_dropWhile.symm
  have hblank : ∀ b ∈ c.rest.takeWhile isBlank, isBlank b = true := fun b hb =>
    List.mem_takeWhile_imp hb
  refine ⟨c.rest.takeWhile isBlank, hblank, hsplit, ?_, ?_⟩
  · rw [Cursor.skipBlanks, Position.offset_afterAll, h.offset, List.length_append]
    exact (Int.natCast_add _ _).symm
  · exact (hsplit ▸ h.parts).append_blanks hblank

/-- What is scanned at a character that is no blank stands there, and the cursor passes it. -/
lemma stands {head : Char} {tail : List Char} (h : c.HasPassed before)
    (hrest : c.rest = head :: tail) (hblank : isBlank head = false)
    (hnumber : (isDigit head && (number? (munch head tail).1).isNone) = false) {t : Token}
    (ht : t = ⟨⟨munchedKind (munch head tail).1, String.ofList (munch head tail).1⟩,
      ⟨c.position, c.position.afterAll (munch head tail).1⟩⟩) :
    t.Stands before (munch head tail).2 ∧
      HasPassed ⟨(munch head tail).2, c.position.afterAll (munch head tail).1⟩
        (before ++ t.literal.toList) := by
  have hkind : t.kind = munchedKind (munch head tail).1 := by rw [ht]
  have htext : t.literal.toList = (munch head tail).1 := by rw [ht, String.toList_ofList]
  have hspan : t.span = ⟨c.position, c.position.afterAll (munch head tail).1⟩ := by rw [ht]
  have hstop : (c.position.afterAll (munch head tail).1).offset =
      before.length + t.literal.toList.length := by
    rw [Position.offset_afterAll, h.offset, htext]
  obtain ⟨hfits, hparts⟩ := fits_munch hblank (hrest ▸ h.parts) hnumber hkind htext
  obtain ⟨text, hbegins⟩ := munch_begins head tail
  refine ⟨⟨⟨head, text, htext.trans hbegins, hblank⟩, ?_, ?_, hfits, fun hlegal => ?_⟩, ?_, ?_⟩
  · rw [hspan]
    exact h.offset
  · rw [hspan]
    exact hstop
  · rw [hkind] at hlegal
    rw [hkind, munchedKind_eq_ofText hlegal, htext]
  · rw [List.length_append]
    exact hstop
  · rw [htext]
    exact hparts

lemma next (h : c.HasPassed before) {t : Token} {behind : Cursor} (ht : c.next = (.ok t, behind))
    (hk : t.kind ≠ .eof) : ∃ blanks, (∀ b ∈ blanks, isBlank b = true) ∧
      c.rest = blanks ++ (t.literal.toList ++ behind.rest) ∧
      t.Stands (before ++ blanks) behind.rest ∧
      behind.HasPassed (before ++ blanks ++ t.literal.toList) := by
  obtain ⟨blanks, hblanks, hsplit, hpassed⟩ := h.skipBlanks
  cases hrest : c.skipBlanks.rest with
  | nil =>
    rw [next_of_rest_eq_nil hrest] at ht
    obtain ⟨⟨⟩, -⟩ := Prod.mk.inj ht
    exact absurd rfl hk
  | cons head tail =>
    rw [next_of_rest_eq_cons hrest] at ht
    obtain ⟨htoken, rfl⟩ := Prod.mk.inj ht
    split at htoken
    · cases htoken
    next hnumber =>
    obtain rfl := Except.ok.inj htoken
    obtain ⟨hstands, hbehind⟩ :=
      hpassed.stands hrest (isBlank_head hrest) (Bool.eq_false_iff.2 hnumber) rfl
    refine ⟨blanks, hblanks, ?_, hstands, hbehind⟩
    rw [hsplit, hrest, String.toList_ofList, munch_append]

lemma next_eof (h : c.HasPassed before) {t : Token} {behind : Cursor}
    (ht : c.next = (.ok t, behind)) (hk : t.kind = .eof) :
    (∀ b ∈ c.rest, isBlank b = true) ∧ t.toLexeme = ⟨.eof, ""⟩ ∧
      t.span.start.offset = ((before ++ c.rest).length : Int) ∧
      t.span.stop.offset = ((before ++ c.rest).length : Int) := by
  obtain ⟨blanks, hblanks, hsplit, hpassed⟩ := h.skipBlanks
  cases hrest : c.skipBlanks.rest with
  | nil =>
    rw [next_of_rest_eq_nil hrest] at ht
    obtain ⟨⟨⟩, -⟩ := Prod.mk.inj ht
    rw [hrest, List.append_nil] at hsplit
    rw [hsplit]
    exact ⟨hblanks, rfl, hpassed.offset, hpassed.offset⟩
  | cons head tail =>
    rw [next_of_rest_eq_cons hrest] at ht
    obtain ⟨htoken, -⟩ := Prod.mk.inj ht
    split at htoken
    · cases htoken
    · obtain rfl := Except.ok.inj htoken
      exact absurd hk (munchedKind_ne_eof _)

end HasPassed

/-- What is scanned without a failure is a chain, and the end of input comes at its end. -/
theorem chain_scanWithin (n : Nat) (c : Cursor) {before : List Char} (h : c.HasPassed before)
    (hn : c.rest.length < n) {ts : List Token} (hts : (c.scanWithin n).1 = ts.map .ok) :
    Chain before c.rest ts ∧ (c.scanWithin n).2.toLexeme = ⟨.eof, ""⟩ ∧
      (c.scanWithin n).2.span.start.offset = ((before ++ c.rest).length : Int) ∧
      (c.scanWithin n).2.span.stop.offset = ((before ++ c.rest).length : Int) := by
  induction n generalizing c before ts with
  | zero => cases hn
  | succ n ih =>
    rcases hnext : c.next with ⟨e | t, behind⟩
    · rw [scanWithin_of_error hnext] at hts
      cases ts <;> simp at hts
    by_cases hk : t.kind = .eof
    · obtain ⟨hblank, hend⟩ := h.next_eof hnext hk
      have hscan : c.scanWithin (n + 1) = ([], t) := by
        rw [scanWithin, hnext]
        exact if_pos hk
      rw [hscan] at hts ⊢
      obtain rfl : ts = [] := List.map_eq_nil_iff.1 hts.symm
      exact ⟨.nil hblank, hend⟩
    · obtain ⟨blanks, hblanks, hsplit, hstands, hpassed⟩ := h.next hnext hk
      have hlength : behind.rest.length < n := by
        have := hstands.length_pos
        rw [hsplit, List.length_append, List.length_append] at hn
        omega
      rw [scanWithin_of_ok hnext hk] at hts ⊢
      obtain ⟨_, us, rfl, ⟨⟩, hus⟩ := List.map_eq_cons_iff.1 hts.symm
      obtain ⟨hchain, hend⟩ := ih behind hpassed hlength hus.symm
      rw [hsplit]
      refine ⟨.cons hblanks hstands hchain, ?_⟩
      simpa only [List.append_assoc] using hend

end Cursor

/-! ### Chains and offsets -/

section Offsets

variable {before rest text : List Char} {ts : List Token}

lemma Chain.stands (h : Chain before rest ts) {t : Token} (ht : t ∈ ts) :
    ∃ before' behind, before ++ rest = before' ++ (t.literal.toList ++ behind) ∧
      before.length ≤ before'.length ∧ t.Stands before' behind := by
  induction h with
  | nil => cases ht
  | @cons before blanks behind u us _ hu _ ih =>
    rcases List.mem_cons.1 ht with rfl | ht
    · refine ⟨before ++ blanks, behind, ?_, ?_, hu⟩
      · rw [List.append_assoc]
      · rw [List.length_append]
        omega
    · obtain ⟨before', behind', htext, hle, ht⟩ := ih ht
      refine ⟨before', behind', ?_, ?_, ht⟩
      · rw [← htext]
        simp only [List.append_assoc]
      · simp only [List.length_append] at hle
        omega

lemma Chain.ordered (h : Chain before rest ts) :
    ts.Pairwise fun t u => t.span.stop.offset ≤ u.span.start.offset := by
  induction h with
  | nil => exact .nil
  | @cons before blanks behind t ts _ ht hts ih =>
    refine .cons (fun u hu => ?_) ih
    obtain ⟨before', _, -, hle, hu⟩ := hts.stands hu
    rw [ht.stop, hu.start]
    simp only [List.length_append] at hle ⊢
    omega

lemma Chain.blank_or_covered (h : Chain before rest ts) {i : Nat} {c : Char}
    (hc : rest[i]? = some c) :
    isBlank c = true ∨ ∃ t ∈ ts, t.Covers (before.length + i) := by
  induction h generalizing i with
  | nil hblank => exact .inl (hblank c (List.mem_of_getElem? hc))
  | @cons before blanks behind t ts hblank ht _ ih =>
    by_cases hi : i < blanks.length
    · rw [List.getElem?_append_left hi] at hc
      exact .inl (hblank c (List.mem_of_getElem? hc))
    have hle : blanks.length ≤ i := Nat.le_of_not_lt hi
    rw [List.getElem?_append_right hle] at hc
    by_cases hj : i - blanks.length < t.literal.toList.length
    · refine .inr ⟨t, List.mem_cons_self, ?_, ?_⟩
      · rw [ht.start, List.length_append]
        omega
      · rw [ht.stop, List.length_append]
        omega
    · rw [List.getElem?_append_right (Nat.le_of_not_lt hj)] at hc
      refine (ih hc).imp_right fun ⟨u, hu, hcovers⟩ => ⟨u, List.mem_cons_of_mem _ hu, ?_⟩
      simp only [List.length_append] at hcovers
      have hsame : before.length + blanks.length + t.literal.toList.length +
          (i - blanks.length - t.literal.toList.length) = before.length + i := by omega
      rwa [hsame] at hcovers

theorem Chain.of_offsets (htext : text = before ++ rest)
    (hordered : ts.Pairwise fun t u => t.span.stop.offset ≤ u.span.start.offset)
    (hfrom : ∀ t ∈ ts, (before.length : Int) ≤ t.span.start.offset)
    (hstands : ∀ t ∈ ts, ∃ before' behind,
      text = before' ++ (t.literal.toList ++ behind) ∧ t.Stands before' behind)
    (hblanks : ∀ (i : Nat) (c : Char), rest[i]? = some c →
      isBlank c = true ∨ ∃ t ∈ ts, t.Covers (before.length + i)) : Chain before rest ts := by
  induction ts generalizing before rest with
  | nil =>
    refine .nil fun c hc => ?_
    obtain ⟨i, hi⟩ := List.mem_iff_getElem?.1 hc
    rcases hblanks i c hi with h | ⟨t, ht, -⟩
    · exact h
    · cases ht
  | cons t ts ih =>
    obtain ⟨hlater, hordered⟩ := List.pairwise_cons.1 hordered
    obtain ⟨before', behind, hsplit, ht⟩ := hstands t List.mem_cons_self
    have hle : before.length ≤ before'.length := by
      have := hfrom t List.mem_cons_self
      rw [ht.start] at this
      omega
    obtain ⟨blanks, rfl⟩ : ∃ blanks, before' = before ++ blanks := by
      have hextends : before <+: before' :=
        List.prefix_of_prefix_length_le (htext ▸ List.prefix_append _ _)
          (hsplit ▸ List.prefix_append _ _) hle
      exact hextends.imp fun _ => Eq.symm
    obtain rfl : rest = blanks ++ (t.literal.toList ++ behind) := by
      rw [htext, List.append_assoc] at hsplit
      exact List.append_cancel_left hsplit
    have hstart := ht.start
    have hstop := ht.stop
    rw [List.length_append] at hstart hstop
    refine .cons (fun b hb => ?_) ht (ih ?_ hordered (fun u hu => ?_) ?_ fun i c hi => ?_)
    · obtain ⟨i, hi⟩ := List.mem_iff_getElem?.1 hb
      obtain ⟨hlt, -⟩ := List.getElem?_eq_some_iff.1 hi
      rcases hblanks i b ((List.getElem?_append_left hlt).trans hi) with h | ⟨u, hu, hcovers, -⟩
      · exact h
      · rcases List.mem_cons.1 hu with rfl | hu
        · omega
        · have := hlater u hu
          omega
    · rw [hsplit]
      simp only [List.append_assoc]
    · have := hlater u hu
      rw [List.length_append, List.length_append]
      omega
    · exact fun u hu => hstands u (List.mem_cons_of_mem _ hu)
    · have hat : (blanks ++ (t.literal.toList ++ behind))[
          blanks.length + (t.literal.toList.length + i)]? = some c := by
        rw [List.getElem?_append_right (Nat.le_add_right _ _), Nat.add_sub_cancel_left,
          List.getElem?_append_right (Nat.le_add_right _ _), Nat.add_sub_cancel_left, hi]
      rcases hblanks _ c hat with h | ⟨u, hu, hcovers⟩
      · exact .inl h
      · rcases List.mem_cons.1 hu with rfl | hu
        · have := hcovers.2
          omega
        · refine .inr ⟨u, hu, ?_⟩
          rwa [List.length_append, List.length_append, Nat.add_assoc, Nat.add_assoc]

end Offsets

/-! ### Texts -/

lemma Token.Stands.kind_ne_eof {t : Token} {before behind : List Char}
    (h : t.Stands before behind) : t.kind ≠ .eof := by
  by_cases hk : t.kind = .illegal
  · rw [hk]
    decide
  · rw [h.lookup hk]
    exact kind_ofText_ne (.inr rfl) _

namespace Scan

variable {source : String} {ts : List Token}

/-- What is scanned without a failure is a chain through the text, with an empty lexeme at its
end. -/
lemma chain (h : (ofText source).items = ts.map .ok) :
    Chain [] source.toList ts ∧ (ofText source).last.toLexeme = ⟨.eof, ""⟩ := by
  obtain ⟨hchain, hlast, -⟩ := (Cursor.ofText source).chain_scanWithin (source.length + 1)
    ⟨rfl, partsRuns_nil _⟩ (Nat.lt_succ_of_le (Nat.le_of_eq String.length_toList)) h
  exact ⟨hchain, hlast⟩

lemma stands_of_mem (h : (ofText source).items = ts.map .ok) {t : Token} (ht : t ∈ ts) :
    ∃ before behind, t.Stands before behind := by
  obtain ⟨before, behind, -, -, hstands⟩ := (chain h).1.stands ht
  exact ⟨before, behind, hstands⟩

lemma toLexeme_last (h : (ofText source).items = ts.map .ok) :
    (ofText source).last.toLexeme = ⟨.eof, ""⟩ := (chain h).2

end Scan

/-- A chain through the whole text decomposes it, with the end of input behind it. -/
lemma Chain.isDecomposition {source : String} {ts : List Token} {last : Token}
    (h : Chain [] source.toList ts) (hlast : last.toLexeme = ⟨.eof, ""⟩)
    (hstart : last.span.start.offset = (source.length : Int))
    (hstop : last.span.stop.offset = (source.length : Int)) :
    IsDecomposition source (ts ++ [last]) := by
  have heof : last.kind = .eof := congrArg Lexeme.kind hlast
  have hend (i : Nat) (hi : last.span.start.offset = i) : source.toList[i]? = none := by
    apply List.getElem?_eq_none
    rw [String.length_toList]
    omega
  refine ⟨?ordered, ?fits, ?blanks, ?begins,
    ⟨ts, last, rfl, ?single, hlast, hstart, hstop⟩, ?lookup⟩
  case ordered =>
    refine List.pairwise_append.2 ⟨h.ordered, List.pairwise_singleton _ _, fun t ht u hu => ?_⟩
    obtain rfl := List.mem_singleton.1 hu
    obtain ⟨before, behind, htext, -, ht⟩ := h.stands ht
    have hlength := congrArg List.length htext
    rw [hstart, ht.stop, ← String.length_toList]
    simp only [List.nil_append, List.length_append] at hlength
    omega
  case fits =>
    intro t ht hk
    rcases List.mem_append.1 ht with ht | ht
    · obtain ⟨before, behind, htext, -, ht⟩ := h.stands ht
      exact ⟨before, behind, ⟨htext, ht.start, ht.stop⟩, ht.fits⟩
    · rw [List.mem_singleton.1 ht] at hk
      exact absurd heof hk
  case blanks =>
    intro i c hc
    refine (h.blank_or_covered hc).imp_right fun ⟨t, ht, hcovers⟩ => ?_
    rw [List.length_nil, Nat.zero_add] at hcovers
    exact ⟨t, List.mem_append_left _ ht, hcovers⟩
  case begins =>
    intro t ht i c hi hc
    rcases List.mem_append.1 ht with ht | ht
    · obtain ⟨before, behind, htext, -, ht⟩ := h.stands ht
      obtain ⟨d, text, hd, hblank⟩ := ht.begun
      have hi : i = before.length := by
        rw [ht.start] at hi
        omega
      rw [List.nil_append] at htext
      rw [htext, hi, List.getElem?_append_right (Nat.le_refl _), Nat.sub_self, hd] at hc
      rwa [← Option.some.inj hc]
    · rw [List.mem_singleton.1 ht] at hi
      rw [hend i hi] at hc
      cases hc
  case single =>
    intro t ht
    obtain ⟨before, behind, -, -, ht⟩ := h.stands ht
    exact ht.kind_ne_eof
  case lookup =>
    intro t ht hlegal hk
    rcases List.mem_append.1 ht with ht | ht
    · obtain ⟨before, behind, -, -, ht⟩ := h.stands ht
      rw [show t.toLexeme = ⟨t.kind, t.literal⟩ from rfl, ht.lookup hlegal]
      rfl
    · rw [List.mem_singleton.1 ht] at hk
      exact absurd heof hk

/-- A decomposition is a chain through the whole text, with the end of input behind it. -/
lemma IsDecomposition.exists_chain {source : String} {tokens : List Token}
    (h : IsDecomposition source tokens) : ∃ ts last, tokens = ts ++ [last] ∧
      Chain [] source.toList ts ∧
      last.extent = (⟨.eof, ""⟩, (source.length : Int), (source.length : Int)) := by
  obtain ⟨ts, last, rfl, hsingle, hlast, hstart, hstop⟩ := h.ending
  refine ⟨ts, last, rfl, ?_, by rw [Token.extent, hlast, hstart, hstop]⟩
  have hmem {t : Token} (ht : t ∈ ts) : t ∈ ts ++ [last] := List.mem_append_left _ ht
  refine .of_offsets rfl (List.pairwise_append.1 h.ordered).1 ?_ ?_ ?_
  · intro t ht
    obtain ⟨before, behind, hbetween, -⟩ := h.fits t (hmem ht) (hsingle t ht)
    rw [hbetween.start, List.length_nil]
    omega
  · intro t ht
    obtain ⟨before, behind, hbetween, hfits⟩ := h.fits t (hmem ht) (hsingle t ht)
    have hlookup : t.kind ≠ .illegal → t.kind = Kind.ofText t.literal.toList := fun hlegal =>
      congrArg Lexeme.kind (h.lookup t (hmem ht) hlegal (hsingle t ht))
    obtain ⟨c, text, htext⟩ := List.exists_cons_of_ne_nil hfits.ne_nil
    have hc : isBlank c = false := by
      refine h.begins t (hmem ht) before.length c hbetween.start ?_
      rw [hbetween.text, List.getElem?_append_right (Nat.le_refl _), Nat.sub_self, htext]
      rfl
    exact ⟨before, behind, hbetween.text, ⟨c, text, htext, hc⟩, hbetween.start, hbetween.stop,
      hfits, hlookup⟩
  · intro i c hc
    rw [List.length_nil, Nat.zero_add]
    refine (h.blanks i c hc).imp_right fun ⟨t, ht, hcovers⟩ => ⟨t, ?_, hcovers⟩
    rcases List.mem_append.1 ht with ht | ht
    · exact ht
    · -- the end of input stands on no character
      obtain rfl := List.mem_singleton.1 ht
      have := hcovers.1
      have := hcovers.2
      omega

/-- The tokens of a text decompose it, and every decomposition of the text consists of the same
lexemes at the same offsets. -/
theorem tokenize_decomposes {source : String} {tokens : List Token}
    (h : tokenize source = .ok tokens) : IsDecomposition source tokens ∧
      ∀ others, IsDecomposition source others →
        others.map Token.extent = tokens.map Token.extent := by
  obtain ⟨ts, hitems, rfl⟩ := tokenize_eq_ok.1 h
  have hlength : (Cursor.ofText source).rest.length = source.length := String.length_toList
  obtain ⟨hchain, hlast, hstart, hstop⟩ :=
    (Cursor.ofText source).chain_scanWithin (source.length + 1) ⟨rfl, partsRuns_nil _⟩
      (by rw [hlength]; exact Nat.lt_succ_self _) hitems
  rw [List.nil_append, hlength] at hstart hstop
  refine ⟨hchain.isDecomposition hlast hstart hstop, fun others hothers => ?_⟩
  obtain ⟨us, last, rfl, hus, hend⟩ := hothers.exists_chain
  rw [List.map_append, List.map_append, hchain.unique hus, List.map_singleton, List.map_singleton,
    hend]
  congr 2
  exact (Prod.ext hlast (Prod.ext hstart hstop)).symm

/-- Words and numbers side by side, three equals signs, digits of another script and an illegal
character. -/
theorem tokenize_decomposes_juxtaposed : ∃ tokens,
    tokenize "let x1===!٣ @if" = .ok tokens ∧ IsDecomposition "let x1===!٣ @if" tokens ∧
      tokens.map (·.toLexeme) = [⟨.kwLet, "let"⟩, ⟨.ident, "x"⟩, ⟨.int, "1"⟩, ⟨.eq, "=="⟩,
        ⟨.assign, "="⟩, ⟨.bang, "!"⟩, ⟨.int, "٣"⟩, ⟨.illegal, "@"⟩, ⟨.kwIf, "if"⟩, ⟨.eof, ""⟩] := by
  have hlexemes : (tokenize "let x1===!٣ @if").map (·.map (·.toLexeme)) = .ok [⟨.kwLet, "let"⟩,
      ⟨.ident, "x"⟩, ⟨.int, "1"⟩, ⟨.eq, "=="⟩, ⟨.assign, "="⟩, ⟨.bang, "!"⟩, ⟨.int, "٣"⟩,
      ⟨.illegal, "@"⟩, ⟨.kwIf, "if"⟩, ⟨.eof, ""⟩] := by
    decide +kernel
  cases htokens : tokenize "let x1===!٣ @if" with
  | error e => simp [htokens, Except.map] at hlexemes
  | ok tokens =>
    rw [htokens] at hlexemes
    exact ⟨tokens, rfl, (tokenize_decomposes htokens).1, Except.ok.inj hlexemes⟩

end MonkeyFront
