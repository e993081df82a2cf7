import MonkeyFront.Proofs.Faults
import MonkeyFront.Proofs.Relocation
import MonkeyFront.Proofs.Wording
import MonkeyFront.Session

namespace MonkeyFront

/-! ### Listings -/

/-- A listing writes nothing but tokens, and breaks off at the first scan error. -/
lemma listScanned_failure (items : List Scanned) : (listScanned items).err = "" ∧
    (listScanned items).failure = (firstError? items).map .scan := by
  induction items with
  | nil => exact ⟨rfl, rfl⟩
  | cons x items ih =>
    cases x with
    | error e => exact ⟨rfl, rfl⟩
    | ok t => exact ih

lemma out_listScanned_ok (t : Token) (items : List Scanned) :
    (listScanned (.ok t :: items)).out = tokenLine t ++ (listScanned items).out := rfl

lemma firstError?_append (xs ys : List Scanned) :
    firstError? (xs ++ ys) = (firstError? xs).or (firstError? ys) := List.findSome?_append

lemma out_listScanned_append {xs : List Scanned} (h : firstError? xs = none) (ys : List Scanned) :
    (listScanned (xs ++ ys)).out = (listScanned xs).out ++ (listScanned ys).out := by
  induction xs with
  | nil => exact String.empty_append.symm
  | cons x xs ih =>
    cases x with
    | error e => cases h
    | ok t =>
      rw [List.cons_append, out_listScanned_ok, out_listScanned_ok, String.append_assoc, ih h]

lemma out_listScanned_of_error {xs : List Scanned} {e : ScanError} (h : firstError? xs = some e)
    (ys : List Scanned) : (listScanned (xs ++ ys)).out = (listScanned xs).out := by
  induction xs with
  | nil => cases h
  | cons x xs ih =>
    cases x with
    | error e => rfl
    | ok t => rw [List.cons_append, out_listScanned_ok, out_listScanned_ok, ih h]

lemma out_listScanned_move (f : Position → Position) (items : List Scanned) :
    (listScanned (items.map (moveScanned f))).out = (listScanned items).out := by
  induction items with
  | nil => rfl
  | cons x items ih =>
    cases x with
    | error e => rfl
    | ok t => rw [List.map_cons, moveScanned, out_listScanned_ok, out_listScanned_ok, ih]; rfl

lemma firstError?_move (f : Position → Position) (items : List Scanned) :
    firstError? (items.map (moveScanned f)) = (firstError? items).map (ScanError.move f) := by
  induction items with
  | nil => rfl
  | cons x items ih =>
    cases x with
    | error e => rfl
    | ok t => exact ih

/-! ### Lines -/

lemma typedLines_of_not_mem {text : List Char} (h : '\n' ∉ text) (started : List Char)
    (hne : started.reverse ++ text ≠ []) :
    typedLinesFrom started text = [started.reverse ++ text] := by
  induction text generalizing started with
  | nil =>
    rw [List.append_nil] at hne ⊢
    have hstarted : started ≠ [] := fun h => hne (by rw [h]; rfl)
    simp [typedLinesFrom, hstarted]
  | cons c text ih =>
    rw [List.mem_cons, not_or] at h
    rw [typedLinesFrom, if_neg (Ne.symm h.1), ih h.2 _ (by simp)]
    simp

/-- An input is empty, or a single line, or begins with a line that a line feed ends. -/
@[elab_as_elim]
theorem linesOf_induction {motive : String → Prop} (empty : linesOf "" = [] → motive "")
    (single : ∀ line, linesOf line = [line] → motive line)
    (line : ∀ text rest, linesOf (text ++ "\n" ++ rest) = (text ++ "\n") :: linesOf rest →
      motive rest → motive (text ++ "\n" ++ rest)) (input : String) : motive input := by
  induction hn : input.length using Nat.strong_induction_on generalizing input with
  | _ n ih =>
    by_cases hmem : '\n' ∈ input.toList
    · obtain ⟨text, rest, hsplit, hfirst⟩ := List.eq_append_cons_of_mem hmem
      obtain rfl : input = String.ofList text ++ "\n" ++ String.ofList rest := by
        rw [← String.toList_inj]
        simpa using hsplit
      apply line
      · rw [linesOf, linesOf, hsplit, typedLines, typedLinesFrom_append hfirst]
        simp [typedLines]
      · apply ih _ _ _ rfl
        rw [← hn, String.length_append, String.length_append]
        exact Nat.lt_add_of_pos_left (Nat.lt_add_left _ (by decide))
    · by_cases hempty : input = ""
      · rw [hempty]
        exact empty rfl
      · apply single
        have hlines := typedLines_of_not_mem hmem [] (by simpa using hempty)
        rw [linesOf, typedLines, hlines]
        simp

/-! ### Lines and listings -/

lemma Scan.ofText_line (text : String) :
    (ofText (text ++ "\n")).items = (ofText text).items := by
  have hscan := Scan.ofText_lineFeed text ""
  rw [String.append_empty] at hscan
  rw [hscan]
  exact List.append_nil _

lemma Cursor.exists_run {c : Cursor} {e : ScanError} (h : .error e ∈ c.scan.items) :
    ∃ text rest, c.rest = text ++ (e.run.toList ++ rest) ∧
      e.position = c.position.afterAll text := by
  induction c using Cursor.induction with
  | blank c hrest =>
    rw [scan_of_rest_eq_nil hrest] at h
    cases h
  | step c head tail hrest ih =>
    have hsplit := rest_eq hrest
    have hnext := next_of_rest_eq_cons hrest
    rw [scan_of_rest_eq_cons hrest] at h
    rcases List.mem_cons.1 h with h | h
    · rw [hnext] at h
      dsimp only at h
      split at h
      · obtain rfl := Except.error.inj h
        refine ⟨c.rest.takeWhile isBlank, (munch head tail).2, ?_, rfl⟩
        rw [String.toList_ofList, munch_append]
        exact hsplit
      · cases h
    · obtain ⟨text, rest, hrest', hplace⟩ := ih h
      rw [hnext] at hrest' hplace
      refine ⟨c.rest.takeWhile isBlank ++ ((munch head tail).1 ++ text), rest, ?_, ?_⟩
      · rw [List.append_assoc, List.append_assoc, ← hrest', munch_append]
        exact hsplit
      · rw [Position.afterAll_append, Position.afterAll_append]
        exact hplace

/-- The run of digits of the scan error stands in the line, behind the text `before`. -/
def ScanError.StandsIn (e : ScanError) (before line : String) : Prop :=
  ∃ text rest, line.toList = text ++ (e.run.toList ++ rest) ∧
    e.position = Position.origin.afterAll (before.toList ++ text)

lemma ScanError.standsIn_of_firstError? {source : String} {e : ScanError}
    (h : firstError? (Scan.ofText source).items = some e) : e.StandsIn "" source := by
  rw [Scan.ofText_eq] at h
  obtain ⟨x, hx, he⟩ := List.exists_of_findSome?_eq_some h
  cases x with
  | ok t => cases he
  | error e' =>
    obtain rfl := Option.some.inj he
    exact Cursor.exists_run hx

lemma ScanError.StandsIn.move {e : ScanError} {before line : String} (h : e.StandsIn before line)
    (text : String) :
    (e.move (behindLine text.toList).within).StandsIn (text ++ "\n" ++ before) line := by
  obtain ⟨start, rest, hline, hplace⟩ := h
  refine ⟨start, rest, hline, ?_⟩
  rw [ScanError.move, hplace, Position.within_afterAll _ le_rfl, Position.within_origin, behindLine,
    ← Position.afterAll_append]
  simp

/-- What the listings of lines write, one after the other. -/
def listed (lines : List String) : String :=
  String.join (lines.map fun line => (listTokens line).out)

lemma listed_cons (line : String) (lines : List String) :
    listed (line :: lines) = (listTokens line).out ++ listed lines := by
  rw [listed, List.map_cons, String.join_cons]
  rfl

/-- The listings of the lines of an input are together the listing of the input; the first scan
error of the input is that of the first line that has one. -/
theorem listTokens_linesOf (input : String) :
    match firstError? (Scan.ofText input).items with
    | none => (∀ line ∈ linesOf input, firstError? (Scan.ofText line).items = none) ∧
        listed (linesOf input) = (listTokens input).out
    | some e => ∃ before line after e', linesOf input = before ++ line :: after ∧
        (∀ line ∈ before, firstError? (Scan.ofText line).items = none) ∧
        firstError? (Scan.ofText line).items = some e' ∧ e'.run = e.run ∧
        e.StandsIn (String.join before) line ∧
        listed before ++ (listTokens line).out = (listTokens input).out := by
  induction input using linesOf_induction with
  | empty h =>
    rw [h]
    exact ⟨List.forall_mem_nil _, rfl⟩
  | single line h =>
    rw [h]
    cases herror : firstError? (Scan.ofText line).items with
    | none => exact ⟨List.forall_mem_singleton.2 herror, by simp [listed]⟩
    | some e =>
      exact ⟨[], line, [], e, rfl, List.forall_mem_nil _, herror, rfl,
        e.standsIn_of_firstError? herror, by simp [listed]⟩
  | line text rest h ih =>
    have hline : (listTokens (text ++ "\n")).out = (listTokens text).out := by
      rw [listTokens, listTokens, Scan.ofText_line]
    have hout : (listTokens (text ++ "\n" ++ rest)).out = (listScanned ((Scan.ofText text).items ++
        (Scan.ofText rest).items.map (moveScanned (behindLine text.toList).within))).out := by
      rw [listTokens, Scan.ofText_lineFeed]
      rfl
    rw [h, hout, Scan.ofText_lineFeed, firstError?_append, Scan.move, firstError?_move]
    cases htext : firstError? (Scan.ofText text).items with
    | some e =>
      have herror : firstError? (Scan.ofText (text ++ "\n")).items = some e := by
        rw [Scan.ofText_line, htext]
      refine ⟨[], _, _, e, rfl, List.forall_mem_nil _, herror, rfl,
        e.standsIn_of_firstError? herror, ?_⟩
      rw [hline, out_listScanned_of_error htext]
      exact String.empty_append
    | none =>
      have hclean : firstError? (Scan.ofText (text ++ "\n")).items = none := by
        rw [Scan.ofText_line, htext]
      rw [out_listScanned_append htext, out_listScanned_move]
      cases hrest : firstError? (Scan.ofText rest).items with
      | none =>
        rw [hrest] at ih
        refine ⟨List.forall_mem_cons.2 ⟨hclean, ih.1⟩, ?_⟩
        rw [listed_cons, hline, ih.2]
        rfl
      | some e =>
        rw [hrest] at ih
        obtain ⟨before, line, after, e', hlines, hbefore, herror, hrun, hstands, hlisted⟩ := ih
        refine ⟨(text ++ "\n") :: before, line, after, e', by rw [hlines, List.cons_append],
          List.forall_mem_cons.2 ⟨hclean, hbefore⟩, herror, hrun, ?_, ?_⟩
        · rw [String.join_cons]
          exact hstands.move text
        · rw [listed_cons, hline, String.append_assoc, hlisted]
          rfl

/-! ### Sessions -/

/-- What a session writes about lines before it prompts for the next one. -/
def prompted (prompt : String) (lines : List String) : String :=
  String.join (lines.map fun line => prompt ++ (listTokens line).out)

section Tokens

variable [Limits] {settings : SessionSettings} (hmode : settings.mode = .tokens)

include hmode

lemma report_tokens (line : String) : settings.report line =
    ⟨(listTokens line).out, "", (firstError? (Scan.ofText line).items).map .scan⟩ := by
  obtain ⟨herr, hfailure⟩ := listScanned_failure (Scan.ofText line).items
  rw [SessionSettings.report, hmode, ← herr, ← hfailure]
  rfl

lemma sessionOver_append {before : List String}
    (hbefore : ∀ line ∈ before, firstError? (Scan.ofText line).items = none)
    (after : List String) : sessionOver settings (before ++ after) =
      { sessionOver settings after with
        out := prompted settings.prompt before ++ (sessionOver settings after).out } := by
  induction before with
  | nil => simp [prompted]
  | cons line before ih =>
    obtain ⟨hline, hlines⟩ := List.forall_mem_cons.1 hbefore
    rw [List.cons_append, sessionOver, report_tokens hmode, hline]
    simp only [Option.map_none, ih hlines, prompted, List.map_cons, String.join_cons,
      String.append_assoc, String.empty_append]

lemma sessionOver_of_error {line : String} {e : ScanError}
    (h : firstError? (Scan.ofText line).items = some e) (after : List String) :
    sessionOver settings (line :: after) =
      ⟨settings.prompt ++ (listTokens line).out, "", some (line, .scan e)⟩ := by
  rw [sessionOver, report_tokens hmode, h]
  rfl

end Tokens

/-- A session that lists tokens prompts and lists each line of its input, and the listings of the
lines are together the listing of the input. Where the input fails to scan, the session fails by the
same message, at the line that holds the run of digits, and has written what the listing of the
input writes before it fails, with a prompt for each line. -/
theorem session_lists_input [Limits] (prompt : String) (recover : Bool) (input : String) :
    match tokenize input with
    | .ok _ =>
        session ⟨prompt, .tokens, recover⟩ input =
          ⟨prompted prompt (linesOf input) ++ prompt, "", none⟩ ∧
        (∀ line ∈ linesOf input, (listTokens line).failure = none) ∧
        (listTokens input).failure = none ∧ listed (linesOf input) = (listTokens input).out
    | .error e => ∃ before line after e', linesOf input = before ++ line :: after ∧
        session ⟨prompt, .tokens, recover⟩ input =
          ⟨prompted prompt before ++ prompt ++ (listTokens line).out, "",
            some (line, .scan e')⟩ ∧
        (∀ line ∈ before, (listTokens line).failure = none) ∧
        (listTokens line).failure = some (.scan e') ∧
        (listTokens input).failure = some (.scan e) ∧ e'.message = e.message ∧
        e.StandsIn (String.join before) line ∧
        listed before ++ (listTokens line).out = (listTokens input).out := by
  have hlines := listTokens_linesOf input
  have hmode : (⟨prompt, .tokens, recover⟩ : SessionSettings).mode = .tokens := rfl
  have hfailure (text : String) : (listTokens text).failure =
      (firstError? (Scan.ofText text).items).map .scan := (listScanned_failure _).2
  cases htokens : tokenize input with
  | ok tokens =>
    obtain ⟨ts, hitems, -⟩ := tokenize_eq_ok.1 htokens
    have hnone : firstError? (Scan.ofText input).items = none := by
      rw [firstError?, hitems, List.findSome?_eq_none_iff]
      simp
    rw [hnone] at hlines
    obtain ⟨hclean, hlisted⟩ := hlines
    have hsession := sessionOver_append hmode hclean []
    rw [List.append_nil] at hsession
    refine ⟨hsession, fun line hline => ?_, ?_, hlisted⟩
    · rw [hfailure, hclean line hline]
      rfl
    · rw [hfailure, hnone]
      rfl
  | error e =>
    rw [tokenize_eq_error.1 htokens] at hlines
    obtain ⟨before, line, after, e', hsplit, hclean, herror, hrun, hstands, hlisted⟩ := hlines
    have hsession := sessionOver_append hmode hclean (line :: after)
    rw [← hsplit, sessionOver_of_error hmode herror, ← String.append_assoc] at hsession
    refine ⟨before, line, after, e', hsplit, hsession, fun line hline => ?_, ?_, ?_, ?_, hstands,
      hlisted⟩
    · rw [hfailure, hclean line hline]
      rfl
    · rw [hfailure, herror]
      rfl
    · rw [hfailure, tokenize_eq_error.1 htokens]
      rfl
    · rw [ScanError.message, ScanError.message, hrun]

/-- A run of digits that writes no number, in the second line. -/
example : session ⟨"> ", .tokens, true⟩ "a\n1 ² b\nc" =
    ⟨"> Token: IDENT(a)\n> Token: INT(1)\n", "", some ("1 ² b\n", .scan ⟨"²", ⟨1, 3, 2⟩⟩)⟩ := by
  decide +kernel

end MonkeyFront
