import Mathlib.Data.List.DropRight
import Mathlib.Data.List.GetD
import MonkeyFront.Proofs.Blame
import MonkeyFront.Proofs.Offsets

namespace MonkeyFront

/-! ### Lines of offsets -/

/-- The text in front of the line in which an offset stands. -/
def linesBefore (text : List Char) (k : Nat) : List Char := text.take (lineStart (text.take k))

/-- The text of the line in which an offset stands, between the line feeds around it. -/
def lineAt (text : List Char) (k : Nat) : List Char :=
  (text.drop (lineStart (text.take k))).takeWhile (· ≠ '\n')

/-- Each boundary of displayed lines in the text is a line feed, alone or behind a carriage
return. -/
def breaksAtFeeds : List Char → Bool
  | [] => true
  | '\r' :: '\n' :: rest => breaksAtFeeds rest
  | c :: rest => (c = '\n' || !isLineBoundary c) && breaksAtFeeds rest

/-- Behind the first boundary of displayed lines in the text there are carriage returns only. -/
def breaksAtEnd (line : List Char) : Bool :=
  (line.dropWhile (!isLineBoundary ·)).tail.all (· == '\r')

def stripped (line : List Char) : List Char := dropTrailing '\r' (dropTrailing '\n' line)

/-! ### Displayed lines -/

lemma displayLinesFrom_cons {c : Char} {rest : List Char}
    (h : c = '\r' → rest.head? ≠ some '\n') (started : List Char) :
    displayLinesFrom started (c :: rest) =
      if isLineBoundary c then (c :: started).reverse :: displayLinesFrom [] rest
      else displayLinesFrom (c :: started) rest := by
  rw [displayLinesFrom]
  rintro rest' rfl rfl
  exact h rfl rfl

/-- A line feed separates the displayed lines in front of it from those behind it. -/
lemma displayLinesFrom_append (started xs rest : List Char) :
    displayLinesFrom started (xs ++ '\n' :: rest) =
      displayLinesFrom started (xs ++ ['\n']) ++ displayLinesFrom [] rest := by
  fun_induction displayLinesFrom started xs with
  | case1 started | case2 started => simp [displayLinesFrom, isLineBoundary]
  | case3 started xs ih => simp [displayLinesFrom, ih]
  | case4 started c xs hpair hc ih =>
    by_cases hlast : c = '\r' ∧ xs = []
    · obtain ⟨rfl, rfl⟩ := hlast
      simp [displayLinesFrom]
    · have hnext (rest : List Char) : c = '\r' → (xs ++ '\n' :: rest).head? ≠ some '\n' := by
        rintro rfl hd
        cases xs with
        | nil => exact hlast ⟨rfl, rfl⟩
        | cons d xs => exact hpair xs rfl (by rw [Option.some.inj hd])
      rw [List.cons_append, List.cons_append, displayLinesFrom_cons (hnext rest),
        displayLinesFrom_cons (hnext []), if_pos hc, if_pos hc, ih, List.cons_append]
  | case5 started c xs hpair hc ih =>
    have hne : c ≠ '\r' := by
      rintro rfl
      exact hc rfl
    rw [List.cons_append, List.cons_append, displayLinesFrom_cons (absurd · hne),
      displayLinesFrom_cons (absurd · hne), if_neg hc, if_neg hc, ih]

/-- If a text ends at a line feed, then so does what stands behind its first character, unless that
is the line feed. -/
lemma endsAtFeed_behind {c : Char} {rest : List Char} (h : (c :: rest).getLast? = some '\n') :
    rest.getLast? = some '\n' ∨ rest = [] ∧ c = '\n' := by
  cases rest with
  | nil => exact .inr ⟨rfl, by simpa using h⟩
  | cons d rest => exact .inl (by simpa using h)

/-- A text that ends at a line feed has at least as many displayed lines as line feeds, and more if
it has other boundaries. -/
lemma length_displayLinesFrom {started text : List Char}
    (h : text.getLast? = some '\n' ∨ text = [] ∧ started = []) :
    text.count '\n' ≤ (displayLinesFrom started text).length ∧
      ((displayLinesFrom started text).length = text.count '\n' ↔
        breaksAtFeeds text = true) := by
  fun_induction displayLinesFrom started text with
  | case1 started hs => simp [breaksAtFeeds]
  | case2 started hs => simp_all
  | case3 started rest ih =>
    have hpair : ('\n' :: rest).getLast? = some '\n' := by simpa using h
    have hrest : rest.getLast? = some '\n' ∨ rest = [] ∧ ([] : List Char) = [] :=
      (endsAtFeed_behind hpair).imp_right fun hnil => ⟨hnil.1, rfl⟩
    obtain ⟨hle, hiff⟩ := ih hrest
    simp [breaksAtFeeds, ← hiff]
    omega
  | case4 started c rest hpair hc ih =>
    have hrest : rest.getLast? = some '\n' ∨ rest = [] ∧ ([] : List Char) = [] :=
      (endsAtFeed_behind (h.resolve_right (by simp))).imp_right fun hnil => ⟨hnil.1, rfl⟩
    obtain ⟨hle, hiff⟩ := ih hrest
    rw [breaksAtFeeds, List.length_cons, List.count_cons]
    · by_cases hfeed : c = '\n'
      · simp [hfeed, ← hiff]
        omega
      · simp [hfeed, hc]
        omega
    · exact hpair
  | case5 started c rest hpair hc ih =>
    have hfeed : c ≠ '\n' := by
      rintro rfl
      exact hc rfl
    have hrest : rest.getLast? = some '\n' ∨ rest = [] ∧ c :: started = [] :=
      (endsAtFeed_behind (h.resolve_right (by simp))).imp_right fun hnil => absurd hnil.2 hfeed
    rw [breaksAtFeeds, List.count_cons]
    · simpa [hfeed, hc] using ih hrest
    · exact hpair

lemma length_displayLines {text : List Char} (h : text = [] ∨ text.getLast? = some '\n') :
    text.count '\n' ≤ (displayLines text).length ∧
      ((displayLines text).length = text.count '\n' ↔ breaksAtFeeds text = true) :=
  length_displayLinesFrom (h.symm.imp_right fun hnil => ⟨hnil, rfl⟩)

/-- Characters at which no displayed line ends are at the beginning of one. -/
lemma displayLinesFrom_of_forall {xs : List Char} (h : ∀ c ∈ xs, isLineBoundary c = false)
    (started rest : List Char) :
    displayLinesFrom started (xs ++ rest) = displayLinesFrom (xs.reverse ++ started) rest := by
  induction xs generalizing started with
  | nil => rfl
  | cons c xs ih =>
    obtain ⟨hc, hxs⟩ := List.forall_mem_cons.1 h
    have hne : c ≠ '\r' := by
      rintro rfl
      cases hc
    rw [List.cons_append, displayLinesFrom_cons (absurd · hne), hc, if_neg (by decide), ih hxs]
    simp

/-! ### What is dropped from lines -/

section Trailing

variable {c : Char} {xs ys : List Char}

lemma dropTrailing_eq (c : Char) (xs : List Char) :
    dropTrailing c xs = xs.rdropWhile (· == c) := rfl

lemma dropTrailing_append (c : Char) (xs ys : List Char) : dropTrailing c (xs ++ ys) =
    if ys.all (· == c) then dropTrailing c xs else xs ++ dropTrailing c ys := by
  have hnil : (ys.reverse.dropWhile (· == c)).isEmpty = ys.all (· == c) := by
    rw [Bool.eq_iff_iff, List.isEmpty_iff, List.dropWhile_eq_nil_iff]
    simp
  unfold dropTrailing
  rw [List.reverse_append, List.dropWhile_append, hnil]
  split
  · rfl
  · rw [List.reverse_append, List.reverse_reverse]

lemma dropTrailing_of_not_mem (h : c ∉ xs) : dropTrailing c xs = xs := by
  refine List.rdropWhile_eq_self_iff.2 fun hne he => h ?_
  have hlast : xs.getLast hne = c := by simpa using he
  exact hlast ▸ List.getLast_mem hne

/-- What stands behind a character does not matter only if it is dropped. -/
lemma dropTrailing_concat_eq_iff (xs : List Char) (d : Char) (ys : List Char) :
    dropTrailing c (xs ++ [d]) = dropTrailing c (xs ++ d :: ys) ↔ ys.all (· == c) = true := by
  rw [List.append_cons xs d ys, dropTrailing_append c (xs ++ [d]) ys]
  split
  · next hall => exact ⟨fun _ => hall, fun _ => rfl⟩
  · next hall =>
    refine ⟨fun he => absurd ?_ hall, fun h => absurd h hall⟩
    have hle : (dropTrailing c (xs ++ [d])).length ≤ (xs ++ [d]).length :=
      (List.rdropWhile_prefix _ _).length_le
    rw [he, List.length_append] at hle
    have hnil : dropTrailing c ys = [] := List.length_eq_zero_iff.1 (by omega)
    rw [dropTrailing_eq, List.rdropWhile_eq_nil_iff] at hnil
    exact List.all_eq_true.2 hnil

end Trailing

/-! ### The displayed line at the beginning of a line -/

lemma dropTrailing_first {xs : List Char} (hxs : ∀ c ∈ xs, isLineBoundary c = false) {c : Char}
    (hc : isLineBoundary c = true) (hne : c ≠ '\n') (rest : List Char) :
    dropTrailing '\n' ((displayLines (xs ++ c :: rest)).getD 0 []) = xs ++ [c] := by
  have hfeed : '\n' ∉ xs ++ [c] := by
    rw [List.mem_append, List.mem_singleton, not_or]
    exact ⟨fun hmem => absurd (hxs _ hmem) (by decide), Ne.symm hne⟩
  rw [displayLines, displayLinesFrom_of_forall hxs, List.append_nil]
  by_cases hpair : c = '\r' ∧ rest.head? = some '\n'
  · obtain ⟨rfl, hhead⟩ := hpair
    obtain ⟨rest, rfl⟩ := List.head?_eq_some_iff.1 hhead
    have hfirst : (displayLinesFrom xs.reverse ('\r' :: '\n' :: rest)).getD 0 [] =
        xs ++ ['\r'] ++ ['\n'] := by
      simp [displayLinesFrom]
    rw [hfirst, dropTrailing_append]
    exact dropTrailing_of_not_mem hfeed
  · rw [displayLinesFrom_cons fun hr hn => hpair ⟨hr, hn⟩, if_pos hc, List.getD_cons_zero,
      List.reverse_cons, List.reverse_reverse]
    exact dropTrailing_of_not_mem hfeed

/-- The first displayed line of a text shows the text up to its first line feed, unless this holds
another boundary and goes on behind it. -/
lemma stripped_first_iff (rest : List Char) :
    stripped ((displayLines rest).getD 0 []) = dropTrailing '\r' (rest.takeWhile (· ≠ '\n')) ↔
      breaksAtEnd (rest.takeWhile (· ≠ '\n')) = true := by
  have hfeed : '\n' ∉ rest.takeWhile (· ≠ '\n') := fun hmem => by
    simpa using List.mem_takeWhile_imp hmem
  have htail : rest.dropWhile (· ≠ '\n') = [] ∨
      ∃ tail, rest.dropWhile (· ≠ '\n') = '\n' :: tail := by
    have hhead := List.head?_dropWhile_not (· ≠ '\n') rest
    cases hd : rest.dropWhile (· ≠ '\n') with
    | nil => exact .inl rfl
    | cons d tail =>
      rw [hd] at hhead
      exact .inr ⟨tail, by simpa using hhead⟩
  have hrest : rest.takeWhile (· ≠ '\n') ++ rest.dropWhile (· ≠ '\n') = rest :=
    List.takeWhile_append_dropWhile
  generalize rest.takeWhile (· ≠ '\n') = line at hfeed hrest ⊢
  generalize rest.dropWhile (· ≠ '\n') = tail at htail hrest
  subst hrest
  have hline : line.takeWhile (!isLineBoundary ·) ++ line.dropWhile (!isLineBoundary ·) = line :=
    List.takeWhile_append_dropWhile
  have hbefore : ∀ c ∈ line.takeWhile (!isLineBoundary ·), isLineBoundary c = false := by
    intro c hc
    simpa using List.mem_takeWhile_imp hc
  rw [breaksAtEnd]
  cases hbehind : line.dropWhile (!isLineBoundary ·) with
  | nil =>
    rw [hbehind, List.append_nil] at hline
    rw [hline] at hbefore
    have hshown : dropTrailing '\n' ((displayLines (line ++ tail)).getD 0 []) = line := by
      rw [displayLines, displayLinesFrom_of_forall hbefore, List.append_nil]
      rcases htail with rfl | ⟨tail, rfl⟩
      · cases line with
        | nil => rfl
        | cons c line => simpa [displayLinesFrom] using dropTrailing_of_not_mem hfeed
      · have hfirst : (displayLinesFrom line.reverse ('\n' :: tail)).getD 0 [] =
            line ++ ['\n'] := by
          simp [displayLinesFrom, isLineBoundary]
        rw [hfirst, dropTrailing_append]
        exact dropTrailing_of_not_mem hfeed
    rw [stripped, hshown]
    exact iff_of_true rfl rfl
  | cons c behind =>
    have hc : isLineBoundary c = true := by
      have hhead := List.head?_dropWhile_not (!isLineBoundary ·) line
      rw [hbehind] at hhead
      simpa using hhead
    have hne : c ≠ '\n' := by
      rintro rfl
      exact hfeed (by rw [← hline, hbehind]; simp)
    rw [hbehind] at hline
    rw [stripped, ← hline, List.append_assoc, List.cons_append, dropTrailing_first hbefore hc hne,
      dropTrailing_concat_eq_iff, List.tail_cons]

/-! ### Beginnings of lines -/

lemma exists_lineStart (text : List Char) : ∃ before line, text = before ++ line ∧
    lineStart text = before.length ∧ '\n' ∉ line ∧ (before = [] ∨ before.getLast? = some '\n') := by
  induction text using List.reverseRecOn with
  | nil => exact ⟨[], [], rfl, rfl, List.not_mem_nil, .inl rfl⟩
  | append_singleton text c ih =>
    obtain ⟨before, line, rfl, hstart, hline, hbefore⟩ := ih
    rw [lineStart_append_singleton]
    by_cases hc : c = '\n'
    · refine ⟨before ++ line ++ [c], [], by simp, ?_, List.not_mem_nil, .inr ?_⟩
      · simp only [if_pos hc, List.length_append, List.length_singleton]
      · rw [List.getLast?_concat, hc]
    · refine ⟨before, line ++ [c], by simp, by rw [if_neg hc, hstart], ?_, hbefore⟩
      rw [List.mem_append, List.mem_singleton, not_or]
      exact ⟨hline, Ne.symm hc⟩

lemma exists_linesBefore (text : List Char) (k : Nat) : ∃ line,
    text.take k = linesBefore text k ++ line ∧ '\n' ∉ line ∧
      text.drop (lineStart (text.take k)) = line ++ text.drop k ∧
      (linesBefore text k = [] ∨ (linesBefore text k).getLast? = some '\n') := by
  obtain ⟨before, line, htake, hstart, hline, hbefore⟩ := exists_lineStart (text.take k)
  have htext : text = before ++ (line ++ text.drop k) := by
    rw [← List.append_assoc, ← htake, List.take_append_drop]
  have hlines : linesBefore text k = before := by
    rw [linesBefore, hstart, htext, List.take_left]
  refine ⟨line, by rw [hlines, htake], hline, ?_, by rwa [hlines]⟩
  rw [hstart]
  conv_lhs => rw [htext, List.drop_left]

/-- The displayed lines in front of the line of an offset come before all others. -/
lemma displayLines_eq (text : List Char) (k : Nat) : displayLines text =
    displayLines (linesBefore text k) ++
      displayLines (text.drop (lineStart (text.take k))) := by
  obtain ⟨-, -, -, -, hbefore⟩ := exists_linesBefore text k
  have htext : linesBefore text k ++ text.drop (lineStart (text.take k)) = text :=
    List.take_append_drop _ _
  generalize linesBefore text k = before at *
  generalize text.drop (lineStart (text.take k)) = rest at *
  rw [← htext]
  rcases hbefore with rfl | hlast
  · rfl
  · obtain ⟨xs, rfl⟩ := List.getLast?_eq_some_iff.1 hlast
    rw [List.append_assoc, List.singleton_append]
    exact displayLinesFrom_append [] xs rest

/-- The number of the line of an offset counts the line feeds in front of this line. -/
lemma line_ofOffset (text : List Char) (k : Nat) :
    (Position.ofOffset text k).line = 1 + (linesBefore text k).count '\n' := by
  obtain ⟨line, htake, hline, -⟩ := exists_linesBefore text k
  rw [Position.ofOffset, htake, List.count_append, List.count_eq_zero.2 hline, Nat.add_zero]

lemma displayLine_ofOffset (text : List Char) (k : Nat) :
    displayLine text (Position.ofOffset text k).line =
      stripped ((displayLines text).getD ((linesBefore text k).count '\n') []) := by
  have hpos : ¬(1 + ((linesBefore text k).count '\n' : Int) < 1) := by omega
  have hindex : (1 + ((linesBefore text k).count '\n' : Int) - 1).toNat =
      (linesBefore text k).count '\n' := by omega
  rw [line_ofOffset, displayLine, if_neg hpos, hindex]
  rfl

/-- What is shown of a text as the line of an offset. Where the displayed lines in front of the line
end at line feeds, it is the line, less the carriage returns at its end, exactly if this holds no
other boundary of displayed lines with anything but carriage returns behind it. Otherwise it is an
earlier displayed line. -/
structure ShowsLine (text : List Char) (k : Nat) (shown : List Char) : Prop where
  eq_iff : breaksAtFeeds (linesBefore text k) = true →
    (shown = dropTrailing '\r' (lineAt text k) ↔ breaksAtEnd (lineAt text k) = true)
  earlier : breaksAtFeeds (linesBefore text k) = false →
    ∃ line ∈ displayLines (linesBefore text k), shown = stripped line

theorem showsLine_displayLine (text : List Char) (k : Nat) :
    ShowsLine text k (displayLine text (Position.ofOffset text k).line) := by
  obtain ⟨-, -, -, -, hbefore⟩ := exists_linesBefore text k
  have hcount := length_displayLines hbefore
  rw [displayLine_ofOffset, displayLines_eq text k]
  constructor
  · intro hbreaks
    have hlength := hcount.2.2 hbreaks
    rw [List.getD_append_right _ _ _ _ hlength.le, ← hlength, Nat.sub_self]
    exact stripped_first_iff _
  · intro hbreaks
    have hne : (displayLines (linesBefore text k)).length ≠ (linesBefore text k).count '\n' :=
      fun he => by simp [hcount.2.1 he] at hbreaks
    have hlt := lt_of_le_of_ne hcount.1 hne.symm
    rw [List.getD_append _ _ _ _ hlt, List.getD_eq_getElem _ _ hlt]
    exact ⟨_, List.getElem_mem hlt, rfl⟩

/-! ### Places of scanned text -/

namespace Cursor

lemma Yields.le_length {text : List Char} {k k' : Nat} {x : Scanned} (h : Yields text k x k') :
    k' ≤ text.length := by
  cases h with
  | ending => exact le_rfl
  | token _ _ hne _ hrun => exact (add_length_le hne hrun).2
  | fault _ hne hrun => exact (add_length_le hne hrun).2

/-- Whatever is scanned from an offset of a text on is yielded from one of its offsets on. -/
lemma exists_yields {text : List Char} (c : Cursor) {k : Nat} (hk : k ≤ text.length)
    (hc : c = atOffset text k) :
    ∀ x, x ∈ c.scan.items ∨ x = .ok c.scan.last → ∃ i k', Yields text i x k' := by
  induction c using Cursor.induction generalizing k with
  | blank c hrest =>
    obtain ⟨k', hyields, -⟩ := yields_next hk
    rw [← hc, next_of_rest_eq_nil hrest] at hyields
    rintro x (hx | rfl)
    · rw [scan_of_rest_eq_nil hrest] at hx
      cases hx
    · rw [scan_of_rest_eq_nil hrest]
      exact ⟨k, k', hyields⟩
  | step c head tail hrest ih =>
    obtain ⟨k', hyields, hnext⟩ := yields_next hk
    rw [← hc] at hyields hnext
    have hbehind := ih hyields.le_length hnext
    rw [scan_of_rest_eq_cons hrest]
    rintro x (hx | rfl)
    · rcases List.mem_cons.1 hx with rfl | hx
      · exact ⟨k, k', hyields⟩
      · exact hbehind x (.inl hx)
    · exact hbehind _ (.inr rfl)

end Cursor

namespace Scan

variable {source : String}

theorem exists_yields {x : Scanned} (h : x ∈ (ofText source).items ∨ x = .ok (ofText source).last) :
    ∃ k k', Cursor.Yields source.toList k x k' := by
  have hstart : Cursor.ofText source = .atOffset source.toList 0 := by
    simp [Cursor.ofText, Cursor.atOffset, Position.ofOffset, Position.origin, lineStart]
  rw [ofText_eq] at h
  exact Cursor.exists_yields _ (Nat.zero_le _) hstart x h

lemma exists_yields_of_mem_tokens {t : Token} (h : t ∈ (ofText source).tokens) :
    ∃ k k', Cursor.Yields source.toList k (.ok t) k' := by
  rcases List.mem_append.1 h with h | h
  · exact exists_yields (.inl (mem_tokensAmong.1 h))
  · exact exists_yields (.inr (congrArg _ (List.mem_singleton.1 h)))

end Scan

/-! ### Excerpts -/

namespace Excerpt

/-- The rows of an excerpt: the message, the place, an empty row, the source line and the carets. -/
def rows (e : Excerpt) : List String :=
  let number := toString e.line
  let margin := repeated (number.length + 1) ' '
  ["error: " ++ e.message,
    margin ++ "--> " ++ e.file ++ ":" ++ number ++ ":" ++ toString e.column,
    margin ++ "|",
    number ++ " | " ++ e.text,
    margin ++ "| " ++ repeated (e.column - 1) ' ' ++ repeated e.carets '^']

lemma intercalate_rows (message file number text column margin blanks carets : String) :
    "\n".intercalate ["error: " ++ message, margin ++ "--> " ++ file ++ ":" ++ number ++ ":" ++
        column, margin ++ "|", number ++ " | " ++ text, margin ++ "| " ++ blanks ++ carets] =
      "error: " ++ message ++ "\n" ++
        margin ++ "--> " ++ file ++ ":" ++ number ++ ":" ++ column ++ "\n" ++
        margin ++ "|\n" ++
        number ++ " | " ++ text ++ "\n" ++
        margin ++ "| " ++ blanks ++ carets := by
  have hbar : "|\n" = "|" ++ "\n" := rfl
  simp only [String.intercalate_cons_cons, String.intercalate_singleton, hbar,
    String.append_assoc]

lemma render_eq (e : Excerpt) : e.render = "\n".intercalate e.rows :=
  (intercalate_rows e.message e.file (toString e.line) e.text (toString e.column)
    (repeated ((toString e.line).length + 1) ' ') (repeated (e.column - 1) ' ')
    (repeated e.carets '^')).symm

end Excerpt

/-- The excerpt of a text is about an offset: behind the number of the line of the offset it shows
a line of the text, as `ShowsLine` says. -/
structure Excerpt.IsAt (source : String) (k : Nat) (e : Excerpt) : Prop where
  le_length : k ≤ source.toList.length
  place : (e.line, e.column) =
    ((Position.ofOffset source.toList k).line, (Position.ofOffset source.toList k).column)
  lineRow : e.rows[3]? = some (toString e.line ++ " | " ++ e.text)
  caretRow : e.rows[4]? = some (repeated ((toString e.line).length + 1) ' ' ++ "| " ++
    repeated (e.column - 1) ' ' ++ repeated e.carets '^')
  shows : ShowsLine source.toList k e.text.toList

lemma Excerpt.isAt_of_displayLine {source : String} {k : Nat} (hk : k ≤ source.toList.length)
    {e : Excerpt} (hline : e.line = (Position.ofOffset source.toList k).line)
    (hcolumn : e.column = (Position.ofOffset source.toList k).column)
    (htext : e.text = shownLine source e.line) : e.IsAt source k where
  le_length := hk
  place := by rw [hline, hcolumn]
  lineRow := rfl
  caretRow := rfl
  shows := by
    rw [htext, hline, shownLine, String.toList_ofList]
    exact showsLine_displayLine source.toList k

/-- Behind the line number, the format of a diagnostic and the format of a scan error show the line
of the offset where this begins, unless other boundaries of displayed lines than line feeds are in
front of the line or in it. For a scan error, the carets reach from its column to the end of the
text that is shown; there is at least one. -/
theorem excerpt_shows_line (source file : String) :
    (∀ {bound : Bound} {recover : Bool} {d : Diagnostic}, IsRecorded bound recover source d →
      d.report file source =
        "\n".intercalate (Excerpt.ofSpan d.message file source d.span).rows ∧
      ∃ k, d.span.start = .ofOffset source.toList k ∧
        (Excerpt.ofSpan d.message file source d.span).IsAt source k) ∧
    ∀ {e : ScanError}, .error e ∈ (Scan.ofText source).items →
      excerptFrom e.message file source e.position =
        "\n".intercalate (Excerpt.ofPosition e.message file source e.position).rows ∧
      ∃ k, e.position = .ofOffset source.toList k ∧
        (Excerpt.ofPosition e.message file source e.position).IsAt source k ∧
        (Excerpt.ofPosition e.message file source e.position).carets =
          max 1 ((Excerpt.ofPosition e.message file source e.position).text.length -
            e.position.column + 1) := by
  constructor
  · intro bound recover d hd
    refine ⟨Excerpt.render_eq _, ?_⟩
    obtain ⟨t, ht, hnames⟩ := hd.exists_token
    obtain ⟨i, k', hyields⟩ := Scan.exists_yields_of_mem_tokens ht
    obtain ⟨k, hk, hstart⟩ := hyields.places t.span.start (by simp [placesOf])
    rw [hnames.span_eq]
    exact ⟨k, hstart, Excerpt.isAt_of_displayLine hk (congrArg Position.line hstart)
      (congrArg Position.column hstart) rfl⟩
  · intro e he
    refine ⟨Excerpt.render_eq _, ?_⟩
    obtain ⟨i, k', hyields⟩ := Scan.exists_yields (.inl he)
    obtain ⟨k, hk, hposition⟩ := hyields.places e.position (by simp [placesOf])
    exact ⟨k, hposition, Excerpt.isAt_of_displayLine hk (congrArg Position.line hposition)
      (congrArg Position.column hposition) rfl, rfl⟩

/-- Behind a form feed, an empty line is shown in the place of the line where a name is missing. -/
theorem excerpt_shows_line_behind_formFeed : ∃ d : Diagnostic,
    IsRecorded 20 true "let a = 1;\x0c\nlet 2;" d ∧
      d.report "a.monkey" "let a = 1;\x0c\nlet 2;" =
        "error: expected next token to be IDENT, got INT instead\n" ++
        "  --> a.monkey:2:5\n  |\n2 | \n  |     ^" ∧
      d.span.start = .ofOffset "let a = 1;\x0c\nlet 2;".toList 16 ∧
      ShowsLine "let a = 1;\x0c\nlet 2;".toList 16 [] ∧
      lineAt "let a = 1;\x0c\nlet 2;".toList 16 = "let 2;".toList := by
  have hdiagnostics : (parseWithin 20 true "let a = 1;\x0c\nlet 2;").map (·.diagnostics) =
      .ok [⟨.unexpectedToken .ident .int, ⟨2, 5, 16⟩, ⟨2, 6, 17⟩⟩] := by
    decide +kernel
  cases hparse : parseWithin 20 true "let a = 1;\x0c\nlet 2;" with
  | error e => simp [hparse, Except.map] at hdiagnostics
  | ok outcome =>
    rw [hparse] at hdiagnostics
    have hd := isRecorded_of_parseWithin hparse
      (Except.ok.inj hdiagnostics ▸ List.mem_singleton.2 rfl)
    obtain ⟨-, k, hstart, hat⟩ :=
      (excerpt_shows_line "let a = 1;\x0c\nlet 2;" "a.monkey").1 hd
    obtain rfl : 16 = k := Int.ofNat.inj (congrArg Position.offset hstart)
    exact ⟨_, hd, by decide +kernel, hstart, hat.shows, by decide +kernel⟩

end MonkeyFront
