import MonkeyFront.Editor
import MonkeyFront.Proofs.Acceptance
import MonkeyFront.Proofs.SourceLines

namespace MonkeyFront

/-! ### Messages -/

/-- The message quotes the literal of the token, if this is an illegal character, and it tells the
kind of any other token as the one that has been found. -/
inductive NamesToken (t : Token) : String → Prop
  | illegal : t.kind = .illegal → NamesToken t ("illegal character " ++ quoted t.literal)
  | unexpected (wanted : Kind) : t.kind ≠ .illegal → NamesToken t
      ("expected next token to be " ++ wanted.shown ++ ", got " ++ t.kind.shown ++ " instead")
  | noExpression : t.kind ≠ .illegal →
      NamesToken t ("no prefix parse function for " ++ t.kind.shown ++ " found")

lemma Names.namesToken {t : Token} {d : Diagnostic} (h : Names t d)
    (hd : d.complaint ≠ .nestedTooDeeply) : NamesToken t d.message := by
  cases h with
  | illegal hk => exact .illegal hk
  | unexpected wanted hk => exact .unexpected wanted hk
  | noExpression hk => exact .noExpression hk
  | tooDeep => exact absurd rfl hd

/-! ### Lines between line feeds -/

lemma typedLinesFrom_append_lineFeed (started xs rest : List Char) :
    typedLinesFrom started (xs ++ '\n' :: rest) =
      typedLinesFrom started (xs ++ ['\n']) ++ typedLinesFrom [] rest := by
  induction xs generalizing started with
  | nil => simp [typedLinesFrom]
  | cons c xs ih =>
    rw [List.cons_append, List.cons_append, typedLinesFrom, typedLinesFrom, ih, ih]
    split <;> rfl

lemma length_typedLinesFrom {started text : List Char}
    (h : text.getLast? = some '\n' ∨ text = [] ∧ started = []) :
    (typedLinesFrom started text).length = text.count '\n' := by
  fun_induction typedLinesFrom started text with
  | case1 started hs => rfl
  | case2 started hs => simp_all
  | case3 started rest ih =>
    have hrest : rest.getLast? = some '\n' ∨ rest = [] ∧ ([] : List Char) = [] :=
      (endsAtFeed_behind (h.resolve_right (by simp))).imp_right fun hnil => ⟨hnil.1, rfl⟩
    simp [ih hrest]
  | case4 started c rest hc ih =>
    have hrest : rest.getLast? = some '\n' ∨ rest = [] ∧ c :: started = [] :=
      (endsAtFeed_behind (h.resolve_right (by simp))).imp_right fun hnil => absurd hnil.2 hc
    rw [ih hrest, List.count_cons_of_ne hc]

/-- The first line of a text begins like the text, up to any place in front of its first line
feed. -/
lemma prefix_first_typedLine {xs : List Char} (h : '\n' ∉ xs) (rest : List Char) :
    xs <+: (typedLines (xs ++ rest)).getD 0 [] := by
  have hfirst (started rest : List Char) :
      started.reverse <+: (typedLinesFrom started rest).getD 0 [] := by
    fun_induction typedLinesFrom started rest with
    | case1 started hs => simp_all
    | case2 started hs => exact List.prefix_rfl
    | case3 started rest ih => exact ⟨['\n'], by simp⟩
    | case4 started c rest hc ih => exact .trans ⟨[c], by simp⟩ ih
  have hpassed (started : List Char) :
      typedLinesFrom started (xs ++ rest) = typedLinesFrom (xs.reverse ++ started) rest := by
    induction xs generalizing started with
    | nil => rfl
    | cons c xs ih =>
      obtain ⟨hc, hxs⟩ := not_or.1 (List.mem_cons.not.1 h)
      rw [List.cons_append, typedLinesFrom, if_neg (Ne.symm hc), ih hxs]
      simp
  have hxs := hfirst xs.reverse rest
  rw [List.reverse_reverse] at hxs
  rwa [typedLines, hpassed, List.append_nil]

/-- The line with the number of an offset's line begins with what stands in it in front of the
offset, and goes on with what stands behind it. -/
lemma prefix_typedLine {text xs : List Char} {k : Nat} (h : '\n' ∉ xs) (hxs : xs <+: text.drop k) :
    ∃ line, text.take k = linesBefore text k ++ line ∧
      line ++ xs <+: (typedLines text).getD ((linesBefore text k).count '\n') [] := by
  obtain ⟨line, htake, hline, hdrop, hbefore⟩ := exists_linesBefore text k
  refine ⟨line, htake, ?_⟩
  obtain ⟨rest, hrest⟩ := hxs
  have htext : text = linesBefore text k ++ (line ++ xs ++ rest) := by
    rw [List.append_assoc, hrest, ← hdrop]
    exact (List.take_append_drop _ _).symm
  have hfeed : '\n' ∉ line ++ xs := by
    rw [List.mem_append, not_or]
    exact ⟨hline, h⟩
  generalize linesBefore text k = before at *
  have hlength : (typedLines before).length = before.count '\n' :=
    length_typedLinesFrom (hbefore.symm.imp_right fun hnil => ⟨hnil, rfl⟩)
  have hsplit : typedLines text = typedLines before ++ typedLines (line ++ xs ++ rest) := by
    rw [htext]
    rcases hbefore with rfl | hlast
    · rfl
    · obtain ⟨ys, rfl⟩ := List.getLast?_eq_some_iff.1 hlast
      rw [List.append_assoc, List.singleton_append]
      exact typedLinesFrom_append_lineFeed [] ys _
  rw [hsplit, List.getD_append_right _ _ _ _ hlength.le, hlength, Nat.sub_self]
  exact prefix_first_typedLine hfeed rest

/-! ### Tokens in their lines -/

/-- The token stands at an offset of the text, within one line. -/
structure Token.StandsAt (text : List Char) (i : Nat) (t : Token) : Prop where
  le_length : i + t.literal.length ≤ text.length
  run : t.literal.toList <+: text.drop i
  inline : '\n' ∉ t.literal.toList
  start : t.span.start = .ofOffset text i
  stop : t.span.stop = .ofOffset text (i + t.literal.length)

lemma Cursor.Yields.standsAt {text : List Char} {k k' : Nat} {t : Token}
    (h : Yields text k (.ok t) k') : ∃ i, t.StandsAt text i := by
  generalize hx : Except.ok t = x at h
  cases h with
  | ending =>
    cases hx
    exact ⟨text.length, le_rfl, List.nil_prefix, List.not_mem_nil, rfl, rfl⟩
  | @token i u _ _ hne hinline hrun hspan =>
    cases hx
    exact ⟨i, (add_length_le hne hrun).2, hrun, hinline, by rw [hspan], by rw [hspan]⟩
  | fault => cases hx

namespace Token.StandsAt

variable {text : List Char} {i : Nat} {t : Token} (h : t.StandsAt text i)

include h

/-- The token ends in the line where it starts, behind as many columns as its literal has
characters. -/
lemma stop_eq : t.span.stop.line = t.span.start.line ∧
    t.span.stop.column = t.span.start.column + t.literal.length := by
  obtain ⟨rest, hrest⟩ := h.run
  have hstop := Position.afterAll_ofOffset hrest.symm
  rw [Position.afterAll_of_not_mem _ h.inline, String.length_toList] at hstop
  rw [h.stop, h.start, ← hstop]
  exact ⟨rfl, rfl⟩

/-- The lines and columns of the token are counted from one and do not go beyond the text. -/
lemma bounds : 1 ≤ t.span.start.line ∧ t.span.start.line - 1 ≤ text.length ∧
    1 ≤ t.span.start.column ∧ t.span.start.column - 1 + t.literal.length ≤ text.length := by
  have hcount : (text.take i).count '\n' ≤ text.length :=
    List.count_le_length.trans (List.length_take_le' i text)
  have hstart : lineStart (text.take i) ≤ i := (Nat.sub_le _ _).trans (List.length_take_le i text)
  have hle := h.le_length
  rw [h.start, Position.ofOffset]
  dsimp only
  omega

/-- The literal of the token is what stands in its line between its columns. -/
lemma slice_eq : (((typedLines text).getD (t.span.start.line - 1).toNat []).drop
    (t.span.start.column - 1).toNat).take t.literal.length = t.literal.toList := by
  obtain ⟨line, htake, rest, hrest⟩ := prefix_typedLine h.inline h.run
  have hle : i ≤ text.length := Nat.le_of_add_right_le h.le_length
  have hlength : (t.span.start.column - 1).toNat = line.length := by
    have hstart : lineStart (text.take i) ≤ (text.take i).length := Nat.sub_le _ _
    have hlengths := congrArg List.length htake
    rw [List.length_append, linesBefore, List.length_take, List.length_take] at hlengths
    rw [List.length_take] at hstart
    rw [h.start, Position.ofOffset]
    dsimp only
    omega
  have hline : (t.span.start.line - 1).toNat = (linesBefore text i).count '\n' := by
    rw [h.start, line_ofOffset]
    omega
  rw [hline, ← hrest, hlength, List.append_assoc, List.drop_left, ← String.length_toList,
    List.take_left]

end Token.StandsAt

/-! ### Carets -/

namespace Excerpt

lemma bar_not_mem_toString (n : Int) : '|' ∉ (toString n).toList := by
  have hdigits (m : Nat) : '|' ∉ (toString m).toList := by
    intro hc
    rw [Nat.toString_eq_repr, Nat.repr_eq_ofList_toDigits, String.toList_ofList] at hc
    exact absurd (Nat.isDigit_of_mem_toDigits (by decide) (by decide) hc) (by decide)
  cases n with
  | ofNat m => exact hdigits m
  | negSucc m =>
    have hsign : toString (Int.negSucc m) = "-" ++ toString (m + 1) := rfl
    rw [hsign, String.toList_append, List.mem_append, not_or]
    exact ⟨by decide, hdigits (m + 1)⟩

lemma idxOf_bar_append {text : String} (h : '|' ∉ text.toList) (rest : String) :
    (text ++ "|" ++ rest).toList.idxOf '|' = text.length := by
  rw [String.toList_append, String.toList_append, List.append_assoc,
    List.idxOf_append_of_notMem h, ← String.length_toList]
  rfl

/-- The bars of the gutter are in one column, one behind the line number. -/
lemma idxOf_bar (e : Excerpt) :
    ∀ row ∈ e.rows.drop 2, row.toList.idxOf '|' = (toString e.line).length + 1 := by
  have hmargin (rest : String) : (repeated ((toString e.line).length + 1) ' ' ++ "|" ++
      rest).toList.idxOf '|' = (toString e.line).length + 1 := by
    have hblanks : '|' ∉ (repeated ((toString e.line).length + 1) ' ').toList := by
      rw [repeated, String.toList_ofList]
      exact fun hc => absurd (List.eq_of_mem_replicate hc) (by decide)
    rw [idxOf_bar_append hblanks, repeated, String.length_ofList, List.length_replicate]
    omega
  have hnumber (rest : String) : (toString e.line ++ " " ++ "|" ++ rest).toList.idxOf '|' =
      (toString e.line).length + 1 := by
    have hblank : '|' ∉ (toString e.line ++ " ").toList := by
      rw [String.toList_append, List.mem_append, not_or]
      exact ⟨bar_not_mem_toString e.line, by decide⟩
    rw [idxOf_bar_append hblank, String.length_append]
    rfl
  intro row hrow
  simp only [rows, List.drop_succ_cons, List.drop_zero, List.mem_cons, List.not_mem_nil,
    or_false] at hrow
  rcases hrow with rfl | rfl | rfl
  · simpa using hmargin ""
  · simpa [String.append_assoc] using hnumber (" " ++ e.text)
  · simpa [String.append_assoc] using
      hmargin (" " ++ (repeated (e.column - 1) ' ' ++ repeated e.carets '^'))

end Excerpt

/-- The excerpt marks the token: its place is the place of the token, and under the line there are
as many carets as the literal has characters, or one if there are none, beginning in the column of
the token. The bars of the gutter are one below the other, whatever the length of the line
number. -/
structure Excerpt.Marks (e : Excerpt) (t : Token) : Prop where
  line : e.line = t.span.start.line
  column : e.column = t.span.start.column
  bars : ∀ row ∈ e.rows.drop 2, row.toList.idxOf '|' = (toString t.span.start.line).length + 1
  carets : e.rows[4]? = some (repeated ((toString t.span.start.line).length + 1) ' ' ++ "| " ++
    repeated (t.span.start.column - 1) ' ' ++ repeated (max 1 t.literal.length) '^')

/-- The notice covers the token of the text: its range lies in the line of the token and selects
the literal there, and it is one that an editor knows if it knows as many columns as the text has
characters. -/
structure Notice.Covers [protocol : EditorProtocol] (n : Notice) (source : String) (t : Token) :
    Prop where
  line : n.start.line = t.span.start.line - 1 ∧ n.stop.line = t.span.start.line - 1
  nonneg : 0 ≤ n.start.line ∧ 0 ≤ n.start.character ∧ n.start.character ≤ n.stop.character
  slice : (((typedLines source.toList).getD n.start.line.toNat []).drop
    n.start.character.toNat).take (n.stop.character - n.start.character).toNat = t.literal.toList
  fault : source.length ≤ protocol.coordinateLimit → n.fault? = none

namespace Token.StandsAt

variable {source : String} {i : Nat} {t : Token} (h : t.StandsAt source.toList i)

include h

lemma marks {d : Diagnostic} (hd : d.span = t.span) (file : String) :
    (Excerpt.ofSpan d.message file source d.span).Marks t := by
  obtain ⟨hline, hcolumn⟩ := h.stop_eq
  have hcarets : (Excerpt.ofSpan d.message file source t.span).carets =
      max 1 (t.literal.length : Int) := by
    rw [Excerpt.ofSpan, if_pos hline, hcolumn, add_sub_cancel_left]
  rw [hd]
  exact {
    line := rfl
    column := rfl
    bars := Excerpt.idxOf_bar _
    carets := by
      rw [← hcarets]
      rfl }

lemma covers [protocol : EditorProtocol] {d : Diagnostic} (hd : d.span = t.span) :
    (Notice.ofDiagnostic d).Covers source t := by
  obtain ⟨hline, hcolumn⟩ := h.stop_eq
  obtain ⟨hline₁, hline₂, hcolumn₁, hcolumn₂⟩ := h.bounds
  have hwidth : (t.span.stop.column - 1 - (t.span.start.column - 1)).toNat = t.literal.length := by
    omega
  rw [Notice.ofDiagnostic, Notice.ofSpan, hd]
  simp only [Position.inEditor]
  refine ⟨⟨rfl, by rw [hline]⟩, ?_, ?_, fun hlimit => ?_⟩
  · dsimp only
    omega
  · rw [hwidth]
    exact h.slice_eq
  · rw [String.length_toList] at hline₂ hcolumn₂
    have known {p : EditorPosition} (hp : 0 ≤ p.line ∧ p.line ≤ protocol.coordinateLimit ∧
        0 ≤ p.character ∧ p.character ≤ protocol.coordinateLimit) : p.fault? = none := by
      simp only [EditorPosition.fault?, List.find?_eq_none, List.mem_cons, List.not_mem_nil,
        or_false, forall_eq_or_imp, forall_eq, Bool.or_eq_true, decide_eq_true_eq]
      omega
    rw [Notice.fault?, known, known, Option.none_or]
    all_goals
      dsimp only
      omega

end Token.StandsAt

/-- However a text with tokens is parsed, every diagnostic has the stretch of one of these tokens,
which stands in one line, and names it, unless expressions nest too deeply. Its report has the
carets under the token, and its notice covers the token. -/
theorem diagnostics_mark_tokens [EditorProtocol] (bound : Bound) (recover : Bool) {source : String}
    {tokens : List Token} (h : tokenize source = .ok tokens) :
    ∃ outcome, parseWithin bound recover source = .ok outcome ∧
      ∀ d ∈ outcome.diagnostics, ∃ t ∈ tokens, d.span = t.span ∧
        (d.complaint ≠ .nestedTooDeeply → NamesToken t d.message) ∧
        d.span.stop.line = d.span.start.line ∧
        (∀ file, d.report file source =
            "\n".intercalate (Excerpt.ofSpan d.message file source d.span).rows ∧
          (Excerpt.ofSpan d.message file source d.span).Marks t) ∧
        (Notice.ofDiagnostic d).Covers source t := by
  obtain ⟨s, outcome, -, hparse, -⟩ := exists_program bound recover h
  refine ⟨outcome, hparse, fun d hd => ?_⟩
  obtain ⟨t, ht, hnames⟩ := (isRecorded_of_parseWithin hparse hd).exists_token
  obtain ⟨k, k', hyields⟩ := Scan.exists_yields_of_mem_tokens ht
  obtain ⟨i, hstands⟩ := hyields.standsAt
  have hspan := hnames.span_eq
  have htokens : t ∈ tokens := by
    obtain ⟨ts, hitems, rfl⟩ := tokenize_eq_ok.1 h
    rwa [Scan.tokens, hitems, tokensAmong_map_ok] at ht
  exact ⟨t, htokens, hspan, hnames.namesToken, hspan ▸ hstands.stop_eq.1,
    fun file => ⟨Excerpt.render_eq _, hstands.marks hspan file⟩, hstands.covers hspan⟩

/-- The token where an equals sign is missing, behind an illegal character on the second line. -/
theorem diagnostics_mark_tokens_behind_illegal : ∃ tokens outcome,
    tokenize "5\nlet x @ 12" = .ok tokens ∧
      parseWithin 20 true "5\nlet x @ 12" = .ok outcome ∧
      ∃ d ∈ outcome.diagnostics, ∃ t ∈ tokens,
        d.message = "expected next token to be =, got INT instead" ∧ NamesToken t d.message ∧
        t.toLexeme = ⟨.int, "12"⟩ ∧
        (Excerpt.ofSpan d.message "a.monkey" "5\nlet x @ 12" d.span).Marks t ∧
        (Notice.ofDiagnostic d).Covers "5\nlet x @ 12" t := by
  cases htokens : tokenize "5\nlet x @ 12" with
  | error e => cases (show tokenize "5\nlet x @ 12" = .ok _ from rfl).symm.trans htokens
  | ok tokens =>
    obtain ⟨outcome, hparse, h⟩ := diagnostics_mark_tokens 20 true htokens
    have hdiagnostics : (parseWithin 20 true "5\nlet x @ 12").map (·.diagnostics) =
        .ok [⟨.illegalCharacter "@", ⟨2, 7, 8⟩, ⟨2, 8, 9⟩⟩,
          ⟨.unexpectedToken .assign .int, ⟨2, 9, 10⟩, ⟨2, 11, 12⟩⟩] := by
      decide +kernel
    rw [hparse] at hdiagnostics
    have hds : outcome.diagnostics = _ := Except.ok.inj hdiagnostics
    have hd : (⟨.unexpectedToken .assign .int, ⟨2, 9, 10⟩, ⟨2, 11, 12⟩⟩ : Diagnostic) ∈
        outcome.diagnostics := by
      simp [hds]
    obtain ⟨t, ht, hspan, hnames, -, hreport, hcovers⟩ := h _ hd
    have hlexeme : ∀ t ∈ tokens, t.span = ⟨⟨2, 9, 10⟩, ⟨2, 11, 12⟩⟩ →
        t.toLexeme = ⟨.int, "12"⟩ := by
      obtain rfl := Except.ok.inj
        ((show tokenize "5\nlet x @ 12" = .ok _ from rfl).symm.trans htokens)
      decide
    exact ⟨tokens, outcome, rfl, hparse, _, hd, t, ht, rfl, hnames (by decide),
      hlexeme t ht hspan.symm, (hreport "a.monkey").2, hcovers⟩

end MonkeyFront
