import Mathlib.Data.List.GetD
import Mathlib.Data.List.SplitBy
import MonkeyFront.Proofs.Counting

namespace MonkeyFront

/-- A run of digits does not write a number if one of the digits belongs to no decimal system, or if
there are too many of them. -/
def IsRejected (run : List Char) : Prop :=
  (∃ c ∈ run, isDecimal c = false) ∨ numberLimit < run.length

instance (run : List Char) : Decidable (IsRejected run) :=
  decidable_of_iff (run.any (fun c => !isDecimal c) = true ∨ numberLimit < run.length)
    (by simp [IsRejected])

/-- A scan error for a longest run of digits of the text that writes no number, at the first of the
digits. -/
def IsRejection (source : String) (e : ScanError) : Prop :=
  ∃ before run behind, source.toList = before ++ (run ++ behind) ∧
    IsRun isDigit before run behind ∧ IsRejected run ∧
    e = ⟨String.ofList run, .ofOffset source.toList before.length⟩

/-- The longest runs of digits of a text, and its other characters one by one. -/
def digitRuns (text : List Char) : List (List Char) :=
  text.splitBy fun c d => isDigit c && isDigit d

/-- As many spaces as there are digits, if these write no number. -/
def spacedRun (run : List Char) : List Char :=
  if run.all isDigit = true ∧ IsRejected run then List.replicate run.length ' ' else run

/-- The text with spaces for the longest runs of digits that write no number. -/
def spacedRuns (text : List Char) : List Char := (digitRuns text).flatMap spacedRun

/-! ### Numbers -/

lemma foldlM_decimal_eq_none (run : List Char) (n : Nat) :
    run.foldlM (fun value c => (decimalValue? c).map (value * 10 + ·)) n = none ↔
      ∃ c ∈ run, isDecimal c = false := by
  induction run generalizing n with
  | nil => simp
  | cons c run ih =>
    rw [List.foldlM_cons]
    cases hc : decimalValue? c with
    | none => simp [isDecimal, hc]
    | some m => simp [isDecimal, hc, ih]

lemma isNone_number? {run : List Char} (hne : run ≠ []) :
    (number? run).isNone = true ↔ IsRejected run := by
  unfold number? IsRejected
  by_cases hlength : numberLimit < run.length
  · simp [hlength]
  · simp [hlength, hne, foldlM_decimal_eq_none]

/-! ### Runs -/

section Runs

variable {c : Char} {text xs ys before run behind : List Char}

lemma digitRuns_append (h : Parts isDigit xs ys) :
    digitRuns (xs ++ ys) = digitRuns xs ++ digitRuns ys := by
  refine List.splitBy_append fun c hc d hd => ?_
  cases hdigit : isDigit c with
  | false => rfl
  | true => rw [h c d hc hd hdigit, Bool.and_false]

lemma digitRuns_digits (hne : run ≠ []) (h : ∀ c ∈ run, isDigit c = true) :
    digitRuns run = [run] := by
  refine List.splitBy_of_isChain hne (List.Pairwise.isChain ?_)
  exact List.pairwise_of_forall_mem_list fun c hc d hd => by simp [h c hc, h d hd]

lemma parts_of_not_isDigit (h : ∀ c ∈ xs, isDigit c = false) (ys : List Char) :
    Parts isDigit xs ys := fun c _ hc _ hdigit => by
  rw [h c (List.mem_of_getLast? hc)] at hdigit
  cases hdigit

lemma IsRun.parts_before (h : IsRun isDigit before run behind) (rest : List Char) :
    Parts isDigit before rest := fun c _ hc _ hdigit => by
  rw [h.before c hc] at hdigit
  cases hdigit

lemma IsRun.parts_behind (h : IsRun isDigit before run behind) : Parts isDigit run behind :=
  fun _ d _ hd _ => h.behind d hd

lemma digitRuns_cons (hc : isDigit c = false) (text : List Char) :
    digitRuns (c :: text) = [c] :: digitRuns text := by
  have hparts : Parts isDigit [c] text := parts_of_not_isDigit (by simpa using hc) text
  exact digitRuns_append hparts

lemma flatten_digitRuns (text : List Char) : (digitRuns text).flatten = text :=
  List.flatten_splitBy _ _

/-- A text begins with a character that is no digit or with a longest run of digits. -/
@[elab_as_elim]
theorem digitRuns_induction {motive : List Char → Prop} (nil : motive [])
    (other : ∀ c text, isDigit c = false → motive text → motive (c :: text))
    (digits : ∀ run behind, IsRun isDigit [] run behind → motive behind → motive (run ++ behind))
    (text : List Char) : motive text := by
  induction hn : text.length using Nat.strong_induction_on generalizing text with
  | _ n ih =>
    cases text with
    | nil => exact nil
    | cons c text =>
      rw [List.length_cons] at hn
      cases hc : isDigit c with
      | false => exact other c text hc (ih text.length (by omega) text rfl)
      | true =>
        have hrun : IsRun isDigit [] (c :: text.takeWhile isDigit) (text.dropWhile isDigit) :=
          isRun_takeWhile (fun _ _ h => by cases h) hc
        have hlt := (text.dropWhile_sublist isDigit).length_le
        have := digits _ _ hrun (ih _ (by omega) _ rfl)
        rwa [List.cons_append, List.takeWhile_append_dropWhile] at this

/-! ### Spaces for runs -/

lemma spacedRuns_append (h : Parts isDigit xs ys) :
    spacedRuns (xs ++ ys) = spacedRuns xs ++ spacedRuns ys := by
  rw [spacedRuns, digitRuns_append h, List.flatMap_append]
  rfl

lemma spacedRuns_digits (hne : run ≠ []) (h : ∀ c ∈ run, isDigit c = true) : spacedRuns run =
    if IsRejected run then List.replicate run.length ' ' else run := by
  rw [spacedRuns, digitRuns_digits hne h, List.flatMap_singleton, spacedRun]
  exact if_congr (and_iff_right (List.all_eq_true.2 h)) rfl rfl

lemma spacedRuns_cons (hc : isDigit c = false) (text : List Char) :
    spacedRuns (c :: text) = c :: spacedRuns text := by
  rw [spacedRuns, digitRuns_cons hc, List.flatMap_cons, spacedRun, if_neg (by simp [hc])]
  rfl

lemma spacedRuns_of_not_isDigit (h : ∀ c ∈ text, isDigit c = false) : spacedRuns text = text := by
  induction text with
  | nil => rfl
  | cons c text ih =>
    obtain ⟨hc, htext⟩ := List.forall_mem_cons.1 h
    rw [spacedRuns_cons hc, ih htext]

/-- A text begins with the same character behind the replacement, or with a space. -/
lemma head?_spacedRuns {d : Char} (h : (spacedRuns text).head? = some d) :
    text.head? = some d ∨ isBlank d = true := by
  induction text using digitRuns_induction with
  | nil => cases h
  | other c text hc _ =>
    rw [spacedRuns_cons hc] at h
    exact .inl h
  | digits run behind hrun _ =>
    obtain ⟨c, run, rfl⟩ := List.exists_cons_of_ne_nil hrun.ne_nil
    rw [spacedRuns_append hrun.parts_behind, spacedRuns_digits hrun.ne_nil hrun.all] at h
    split at h
    · rw [List.length_cons, List.replicate_succ] at h
      obtain rfl := Option.some.inj h
      exact .inr (by decide)
    · exact .inl h

/-! ### Scan errors for runs -/

/-- A scan error for each of the runs that are rejected, in a text that begins at `p`. -/
def rejectionsOf (p : Position) : List (List Char) → List ScanError
  | [] => []
  | run :: runs =>
    if run.all isDigit = true ∧ IsRejected run then
      ⟨String.ofList run, p⟩ :: rejectionsOf (p.afterAll run) runs
    else rejectionsOf (p.afterAll run) runs

/-- The scan errors for a text that begins at `p`. -/
def rejections (p : Position) (text : List Char) : List ScanError := rejectionsOf p (digitRuns text)

lemma rejectionsOf_append (p : Position) (rs ss : List (List Char)) : rejectionsOf p (rs ++ ss) =
    rejectionsOf p rs ++ rejectionsOf (p.afterAll rs.flatten) ss := by
  induction rs generalizing p with
  | nil => rfl
  | cons run rs ih =>
    rw [List.cons_append, rejectionsOf, rejectionsOf, ih, List.flatten_cons,
      Position.afterAll_append]
    split <;> rfl

lemma rejections_append (p : Position) (h : Parts isDigit xs ys) :
    rejections p (xs ++ ys) = rejections p xs ++ rejections (p.afterAll xs) ys := by
  rw [rejections, digitRuns_append h, rejectionsOf_append, flatten_digitRuns]
  rfl

lemma rejections_digits (p : Position) (hne : run ≠ []) (h : ∀ c ∈ run, isDigit c = true) :
    rejections p run = if IsRejected run then [⟨String.ofList run, p⟩] else [] := by
  rw [rejections, digitRuns_digits hne h, rejectionsOf]
  exact if_congr (and_iff_right (List.all_eq_true.2 h)) rfl rfl

lemma rejections_cons (p : Position) (hc : isDigit c = false) (text : List Char) :
    rejections p (c :: text) = rejections (p.after c) text := by
  rw [rejections, digitRuns_cons hc, rejectionsOf, if_neg (by simp [hc])]
  rfl

lemma rejections_of_not_isDigit (p : Position) (h : ∀ c ∈ text, isDigit c = false) :
    rejections p text = [] := by
  induction text generalizing p with
  | nil => rfl
  | cons c text ih =>
    obtain ⟨hc, htext⟩ := List.forall_mem_cons.1 h
    rw [rejections_cons p hc, ih _ htext]

/-- A run stays a longest one behind more text if this does not end with a digit where the run
begins. -/
lemma IsRun.append_before (h : IsRun isDigit before run behind)
    (hxs : before = [] → ∀ c, xs.getLast? = some c → isDigit c = false) :
    IsRun isDigit (xs ++ before) run behind := by
  refine ⟨h.ne_nil, h.all, fun c hc => ?_, h.behind⟩
  cases hbefore : before.getLast? with
  | none =>
    rw [List.getLast?_eq_none_iff] at hbefore
    rw [hbefore, List.append_nil] at hc
    exact hxs hbefore c hc
  | some d =>
    rw [List.getLast?_append, hbefore] at hc
    rw [← Option.some.inj hc]
    exact h.before d hbefore

theorem mem_rejections {p : Position} {e : ScanError} : e ∈ rejections p text ↔
    ∃ before run behind, text = before ++ (run ++ behind) ∧ IsRun isDigit before run behind ∧
      IsRejected run ∧ e = ⟨String.ofList run, p.afterAll before⟩ := by
  constructor
  · intro h
    induction text using digitRuns_induction generalizing p with
    | nil => cases h
    | other c text hc ih =>
      rw [rejections_cons p hc] at h
      obtain ⟨before, run, behind, rfl, hrun, hrejected, rfl⟩ := ih h
      refine ⟨c :: before, run, behind, rfl, ?_, hrejected, rfl⟩
      have hlast : before = [] → ∀ d, [c].getLast? = some d → isDigit d = false :=
        fun _ d hd => by rwa [← Option.some.inj hd]
      have hlonger := hrun.append_before hlast
      exact hlonger
    | digits first rest hfirst ih =>
      rw [rejections_append p hfirst.parts_behind, rejections_digits p hfirst.ne_nil hfirst.all,
        List.mem_append] at h
      rcases h with h | h
      · split at h
        · next hrejected =>
          exact ⟨[], first, rest, rfl, hfirst, hrejected, List.mem_singleton.1 h⟩
        · cases h
      · obtain ⟨before, run, behind, rfl, hrun, hrejected, rfl⟩ := ih h
        refine ⟨first ++ before, run, behind, (List.append_assoc _ _ _).symm, ?_, hrejected, ?_⟩
        · refine hrun.append_before fun hbefore => ?_
          obtain ⟨d, run, rfl⟩ := List.exists_cons_of_ne_nil hrun.ne_nil
          have hdigit := hrun.all d List.mem_cons_self
          rw [hfirst.behind d (by rw [hbefore]; rfl)] at hdigit
          cases hdigit
        · rw [Position.afterAll_append]
  · rintro ⟨before, run, behind, rfl, hrun, hrejected, rfl⟩
    rw [rejections_append p (hrun.parts_before _), rejections_append _ hrun.parts_behind,
      rejections_digits _ hrun.ne_nil hrun.all, if_pos hrejected]
    simp

end Runs

/-! ### Cursors -/

lemma munch_digits (head : Char) (tail : List Char) :
    (isDigit head = true ∧ IsRun isDigit [] (munch head tail).1 (munch head tail).2) ∨
    (isDigit head = false ∧ ∀ c ∈ (munch head tail).1, isDigit c = false) := by
  rcases munch_cases head tail with ⟨behind, -, hc, hmunch⟩ | ⟨hsign, -, hmunch⟩ |
    ⟨hletter, hmunch⟩ | ⟨hdigit, hmunch⟩ | ⟨hnone, hmunch⟩ <;> rw [hmunch]
  · have hhead : isDigit head = false := by rcases hc with rfl | rfl <;> decide
    exact .inr ⟨hhead, by simp [hhead, show isDigit '=' = false by decide]⟩
  · have hhead := (classes_of_sign hsign).2
    exact .inr ⟨hhead, by simpa using hhead⟩
  · refine .inr ⟨not_isDigit_of_isLetter hletter, List.forall_mem_cons.2 ?_⟩
    exact ⟨not_isDigit_of_isLetter hletter, fun c hc =>
      not_isDigit_of_isLetter (List.mem_takeWhile_imp hc)⟩
  · exact .inl ⟨hdigit, isRun_takeWhile (fun _ _ h => by cases h) hdigit⟩
  · have hhead : isDigit head = false := by simp_all
    exact .inr ⟨hhead, by simpa using hhead⟩

namespace Cursor

variable {c : Cursor} {head : Char} {tail : List Char}

lemma rest_eq_munch (h : c.skipBlanks.rest = head :: tail) :
    c.rest = c.rest.takeWhile isBlank ++ ((munch head tail).1 ++ (munch head tail).2) := by
  rw [munch_append]
  exact rest_eq h

lemma not_isDigit_of_mem_blanks (c : Cursor) : ∀ d ∈ c.rest.takeWhile isBlank, isDigit d = false :=
  fun _ hd => not_isDigit_of_isBlank (List.mem_takeWhile_imp hd)

lemma parts_munch (head : Char) (tail : List Char) :
    Parts isDigit (munch head tail).1 (munch head tail).2 := by
  rcases munch_digits head tail with ⟨-, hrun⟩ | ⟨-, hnone⟩
  · exact hrun.parts_behind
  · exact parts_of_not_isDigit hnone _

/-- A cursor fails where a run of digits comes next that writes no number. -/
lemma mem_rejections_munch {p : Position} {e : ScanError} :
    e ∈ rejections p (munch head tail).1 ↔
      (isDigit head && (number? (munch head tail).1).isNone) = true ∧
        e = ⟨String.ofList (munch head tail).1, p⟩ := by
  rcases munch_digits head tail with ⟨hdigit, hrun⟩ | ⟨hdigit, hnone⟩
  · rw [rejections_digits p hrun.ne_nil hrun.all, hdigit, Bool.true_and, isNone_number? hrun.ne_nil]
    split
    · next h => simp [h]
    · next h => simp [h]
  · simp [rejections_of_not_isDigit p hnone, hdigit]

theorem error_mem_scan {e : ScanError} :
    .error e ∈ c.scan.items ↔ e ∈ rejections c.position c.rest := by
  induction c using Cursor.induction with
  | blank c h =>
    have hblank : ∀ d ∈ c.rest, isDigit d = false := fun d hd =>
      not_isDigit_of_isBlank (List.dropWhile_eq_nil_iff.1 h d hd)
    rw [scan_of_rest_eq_nil h, rejections_of_not_isDigit _ hblank]
    simp
  | step c head tail h ih =>
    rw [rest_eq_munch h, rejections_append _ (parts_of_not_isDigit c.not_isDigit_of_mem_blanks _),
      rejections_append _ (parts_munch head tail),
      rejections_of_not_isDigit _ c.not_isDigit_of_mem_blanks, List.nil_append, List.mem_append,
      scan_of_rest_eq_cons h, List.mem_cons, ih, mem_rejections_munch, next_of_rest_eq_cons h]
    refine or_congr ?_ Iff.rfl
    by_cases hnumber : (isDigit head && (number? (munch head tail).1).isNone) = true
    · simp [hnumber, skipBlanks]
    · simp [hnumber]

/-- The cursor in the text with spaces for the runs of digits that write no number. -/
def spacedOut (c : Cursor) : Cursor := ⟨spacedRuns c.rest, c.position⟩

lemma skipBlanks_spacedOut (h : c.skipBlanks.rest = head :: tail) : c.spacedOut.skipBlanks =
    skipBlanks ⟨spacedRuns (munch head tail).1 ++ spacedRuns (munch head tail).2,
      c.skipBlanks.position⟩ := by
  have hblanks : ∀ b ∈ c.rest.takeWhile isBlank, isBlank b = true := fun b =>
    List.mem_takeWhile_imp
  have hnone := c.not_isDigit_of_mem_blanks
  rw [spacedOut, rest_eq_munch h, spacedRuns_append (parts_of_not_isDigit hnone _),
    spacedRuns_of_not_isDigit hnone, spacedRuns_append (parts_munch head tail),
    skipBlanks_append hblanks]
  rfl

lemma afterAll_replicate (p : Position) {run : List Char} (h : ∀ c ∈ run, isDigit c = true) :
    p.afterAll (List.replicate run.length ' ') = p.afterAll run := by
  have hrun : '\n' ∉ run := fun hmem => absurd (h _ hmem) (by decide)
  have hspaces : '\n' ∉ List.replicate run.length ' ' := fun hmem =>
    absurd (List.eq_of_mem_replicate hmem) (by decide)
  rw [Position.afterAll_of_not_mem p hrun, Position.afterAll_of_not_mem p hspaces,
    List.length_replicate]

lemma skipBlanks_spacedOut_of_error (h : c.skipBlanks.rest = head :: tail)
    (hnumber : (isDigit head && (number? (munch head tail).1).isNone) = true) :
    c.spacedOut.skipBlanks = c.next.2.spacedOut.skipBlanks := by
  obtain ⟨hdigit, hnone⟩ := Bool.and_eq_true_iff.1 hnumber
  have hspace : isBlank ' ' = true := by decide
  rcases munch_digits head tail with ⟨-, hrun⟩ | ⟨hno, -⟩
  · rw [skipBlanks_spacedOut h, spacedRuns_digits hrun.ne_nil hrun.all,
      if_pos ((isNone_number? hrun.ne_nil).1 hnone), skipBlanks_append fun b hb => ?_,
      afterAll_replicate _ hrun.all, next_of_rest_eq_cons h]
    · rfl
    · rwa [List.eq_of_mem_replicate hb]
  · rw [hno] at hdigit
    cases hdigit

lemma next_spacedOut_of_ok (h : c.skipBlanks.rest = head :: tail)
    (hnumber : (isDigit head && (number? (munch head tail).1).isNone) = false) :
    (∃ tail', c.spacedOut.skipBlanks.rest = head :: tail') ∧
      c.spacedOut.next = (c.next.1, c.next.2.spacedOut) := by
  obtain ⟨text, htext⟩ := munch_begins head tail
  have hblank := isBlank_head h
  have hsame : spacedRuns (munch head tail).1 = (munch head tail).1 := by
    rcases munch_digits head tail with ⟨hdigit, hrun⟩ | ⟨-, hnone⟩
    · rw [spacedRuns_digits hrun.ne_nil hrun.all, if_neg]
      rwa [hdigit, Bool.true_and, Bool.eq_false_iff, Ne, isNone_number? hrun.ne_nil] at hnumber
    · exact spacedRuns_of_not_isDigit hnone
  have hskip : c.spacedOut.skipBlanks =
      ⟨head :: (text ++ spacedRuns (munch head tail).2), c.skipBlanks.position⟩ := by
    rw [skipBlanks_spacedOut h, hsame, htext, skipBlanks]
    simp [hblank]
  have hmunch : munch head (text ++ spacedRuns (munch head tail).2) =
      ((munch head tail).1, spacedRuns (munch head tail).2) := by
    obtain ⟨hfits, -⟩ := fits_munch hblank (partsRuns_nil _) hnumber
      (t := ⟨⟨munchedKind (munch head tail).1, String.ofList (munch head tail).1⟩,
        ⟨c.position, c.position⟩⟩) rfl (String.toList_ofList)
    have := (hfits.elsewhere fun d => head?_spacedRuns).munch_eq
      (String.toList_ofList.trans htext) fun hlegal => ?_
    · rw [htext]
      exact this.1
    · rw [String.toList_ofList]
      exact munchedKind_eq_ofText hlegal
  have hrest : c.spacedOut.skipBlanks.rest =
      head :: (text ++ spacedRuns (munch head tail).2) := by rw [hskip]
  refine ⟨⟨_, hrest⟩, ?_⟩
  rw [next_of_rest_eq_cons hrest, next_of_rest_eq_cons h, hmunch, hskip]
  rfl

/-- With spaces for the runs of digits that write no number the same tokens are scanned, in the same
places. -/
theorem scan_spacedOut (c : Cursor) :
    c.spacedOut.scan = ⟨(tokensAmong c.scan.items).map .ok, c.scan.last⟩ := by
  induction c using Cursor.induction with
  | blank c h =>
    have hsame : c.spacedOut = c := by
      rw [spacedOut, spacedRuns_of_not_isDigit fun d hd =>
        not_isDigit_of_isBlank (List.dropWhile_eq_nil_iff.1 h d hd)]
    rw [hsame, scan_of_rest_eq_nil h]
    rfl
  | step c head tail h ih =>
    rw [scan_of_rest_eq_cons h]
    cases hnumber : isDigit head && (number? (munch head tail).1).isNone with
    | true =>
      have herror : c.next.1 =
          .error ⟨String.ofList (munch head tail).1, c.skipBlanks.position⟩ := by
        rw [next_of_rest_eq_cons h, if_pos hnumber]
      rw [scan_congr (skipBlanks_spacedOut_of_error h hnumber), ih, herror, tokensAmong_error]
    | false =>
      obtain ⟨⟨tail', hrest⟩, hnext⟩ := next_spacedOut_of_ok h hnumber
      obtain ⟨t, ht⟩ : ∃ t, c.next.1 = .ok t := by
        rw [next_of_rest_eq_cons h, hnumber]
        exact ⟨_, rfl⟩
      rw [scan_of_rest_eq_cons hrest, hnext, ih, ht, tokensAmong_ok, List.map_cons]

lemma skipBlanks_of_rest_eq_nil {c : Cursor} (h : c.rest = []) : c.skipBlanks = c := by
  obtain ⟨rest, position⟩ := c
  obtain rfl : rest = [] := h
  rfl

/-- Behind everything that a cursor yields, the end of input is yielded for ever. -/
theorem steps_length_add (c : Cursor) (k : Nat) : c.steps (c.scan.items.length + k) =
    c.scan.items ++ List.replicate k (.ok c.scan.last) := by
  induction c using Cursor.induction with
  | blank c h =>
    rw [scan_of_rest_eq_nil h, List.length_nil, Nat.zero_add, List.nil_append]
    induction k generalizing c with
    | zero => rfl
    | succ k ih =>
      have hagain := skipBlanks_of_rest_eq_nil h
      rw [steps, next_of_rest_eq_nil h, ih c.skipBlanks (by rw [hagain, h]), hagain]
      rfl
  | step c head tail h ih =>
    rw [scan_of_rest_eq_cons h, List.length_cons, Nat.add_right_comm, steps, ih]
    rfl

end Cursor

/-- The text with spaces for the longest runs of digits that write no number. -/
def spacedText (source : String) : String := String.ofList (spacedRuns source.toList)

lemma Scan.ofText_spacedText (source : String) : ofText (spacedText source) =
    ⟨(tokensAmong (ofText source).items).map .ok, (ofText source).last⟩ := by
  have hcursor : Cursor.ofText (spacedText source) = (Cursor.ofText source).spacedOut := by
    rw [Cursor.ofText, spacedText, String.toList_ofList]
    rfl
  rw [ofText_eq, ofText_eq, hcursor, Cursor.scan_spacedOut]

/-- The scan errors of a text are those for its longest runs of digits that write no number. -/
lemma Scan.error_mem_items {source : String} {e : ScanError} :
    .error e ∈ (ofText source).items ↔ IsRejection source e := by
  rw [ofText_eq, Cursor.error_mem_scan, mem_rejections]
  refine exists₃_congr fun before run behind => and_congr_right fun htext => ?_
  have hplace : Position.origin.afterAll before = .ofOffset source.toList before.length := by
    have := Position.afterAll_ofOffset (k := 0) htext
    rwa [Nat.zero_add] at this
  rw [← hplace]
  rfl

namespace Reader

/-- The calls of a reader yield everything that the text yields, and then the end of input. -/
lemma outcome_eq (source : String) (i : Nat) :
    outcome source i = (Scan.ofText source).items.getD i (.ok (Scan.ofText source).last) := by
  have hcounts := (counts_ofText source).1
  have hsteps := congrArg (·[i]?)
    (hcounts.map_next_after ((Cursor.ofText source).scan.items.length + (i + 1)))
  simp only [cursor_ofText, Cursor.steps_length_add] at hsteps
  have hi : i < (Cursor.ofText source).scan.items.length + (i + 1) := by omega
  rw [List.getElem?_map, List.getElem?_range hi, Option.map_some] at hsteps
  rw [Scan.ofText_eq, List.getD_eq_getElem?_getD]
  by_cases hlt : i < (Cursor.ofText source).scan.items.length
  · rw [List.getElem?_append_left hlt] at hsteps
    rw [← hsteps]
    rfl
  · rw [List.getElem?_append_right (Nat.le_of_not_lt hlt),
      List.getElem?_replicate_of_lt (by omega)] at hsteps
    rw [List.getElem?_eq_none (Nat.le_of_not_lt hlt)]
    exact Option.some.inj hsteps

/-- What is yielded before the end of input is yielded at some call, and nothing else. -/
lemma exists_outcome {source : String} {x : Scanned} (hx : x ≠ .ok (Scan.ofText source).last) :
    (∃ i, outcome source i = x) ↔ x ∈ (Scan.ofText source).items := by
  simp only [outcome_eq, List.getD_eq_getElem?_getD, List.mem_iff_getElem?]
  refine exists_congr fun i => ?_
  cases (Scan.ofText source).items[i]? with
  | none => simpa using Ne.symm hx
  | some y => simp

lemma start_lt_of_lt {source : String} {i j : Nat} (hij : i < j) {p q : Position}
    (hp : p ∈ startOf? (outcome source i)) (hq : q ∈ startOf? (outcome source j)) :
    p.offset < q.offset := by
  have hcounts := (counts_ofText source).1
  have hyields (i : Nat) : ∃ text, Cursor.Yields text ((ofText source).after i).pos
      (outcome source i) ((ofText source).after (i + 1)).pos := by
    obtain ⟨_, hgoes⟩ := hcounts.goes_after i
    rw [after_succ]
    exact ⟨_, hgoes.counts.yields⟩
  obtain ⟨_, hi⟩ := hyields i
  obtain ⟨_, hj⟩ := hyields j
  have hle := hcounts.pos_after_le (show i + 1 ≤ j from hij)
  have hp := (hi.start hp).2
  have hq := (hj.start hq).1
  omega

/-- A reader fails exactly at the longest runs of digits of a text that write no number, at the
first digit of each of them and once for each, and every integer that it yields writes a number. The
failures apart, its calls yield what is scanned where there are spaces for these runs, in the same
places, and then the end of input for ever. -/
theorem fails_at_rejected_runs (source : String) :
    (∀ e, (∃ i, outcome source i = .error e) ↔ IsRejection source e) ∧
    (∀ i j e, outcome source i = .error e → outcome source j = .error e → i = j) ∧
    (∀ i t, outcome source i = .ok t → t.kind = .int →
      (number? t.literal.toList).isSome = true) ∧
    ∃ ts last n, tokenize (spacedText source) = .ok (ts ++ [last]) ∧
      tokensAmong ((List.range n).map (outcome source)) = ts ∧
      ∀ i ≥ n, outcome source i = .ok last := by
  have hspaced := Scan.ofText_spacedText source
  have hitems : (Scan.ofText (spacedText source)).items =
      (tokensAmong (Scan.ofText source).items).map .ok := congrArg Scan.items hspaced
  refine ⟨fun e => ?runs, fun i j e hi hj => ?once, fun i t ht hk => ?numbers,
    tokensAmong (Scan.ofText source).items, (Scan.ofText source).last,
    (Scan.ofText source).items.length, ?tokens, ?before, fun i hi => ?behind⟩
  case runs =>
    rw [exists_outcome (by simp), Scan.error_mem_items]
  case once =>
    have hstart {k : Nat} (hk : outcome source k = .error e) :
        e.position ∈ startOf? (outcome source k) := by
      rw [hk]
      rfl
    rcases lt_trichotomy i j with hlt | rfl | hlt
    · exact absurd (start_lt_of_lt hlt (hstart hi) (hstart hj)) (lt_irrefl _)
    · rfl
    · exact absurd (start_lt_of_lt hlt (hstart hj) (hstart hi)) (lt_irrefl _)
  case numbers =>
    have hne : (.ok t : Scanned) ≠ .ok (Scan.ofText source).last := by
      intro he
      rw [Except.ok.inj he, Scan.kind_last] at hk
      cases hk
    have hmem : t ∈ tokensAmong (Scan.ofText source).items :=
      mem_tokensAmong.2 ((exists_outcome hne).1 ⟨i, ht⟩)
    obtain ⟨before, behind, hstands⟩ := Scan.stands_of_mem hitems hmem
    obtain ⟨hlexeme, hkind⟩ := hstands.isLexeme (by simp [hk])
    exact (hlexeme.number_of_int (hkind.trans hk)).2
  case tokens =>
    refine tokenize_eq_ok.2 ⟨_, hitems, ?_⟩
    rw [hspaced]
  case before =>
    congr 1
    refine List.ext_getElem (by simp) fun i hi hi' => ?_
    rw [List.getElem_map, List.getElem_range, outcome_eq, List.getD_eq_getElem _ _ hi']
  case behind =>
    rw [outcome_eq, List.getD_eq_default _ _ hi]

/-- Two runs that write no number, one glued to a name and one in front of a line feed, and a run of
digits of two scripts that writes one. -/
theorem fails_at_rejected_runs_glued : ∃ ts last n,
    IsRejection "a1² ==٣4²\n5٣" ⟨"1²", ⟨1, 2, 1⟩⟩ ∧
    (∃ i, outcome "a1² ==٣4²\n5٣" i = .error ⟨"1²", ⟨1, 2, 1⟩⟩) ∧
    (∀ i, outcome "a1² ==٣4²\n5٣" i = .error ⟨"1²", ⟨1, 2, 1⟩⟩ → i = 1) ∧
    (∃ t, outcome "a1² ==٣4²\n5٣" 4 = .ok t ∧ t.kind = .int ∧
      (number? t.literal.toList).isSome = true) ∧
    spacedText "a1² ==٣4²\n5٣" = "a   ==   \n5٣" ∧
    tokenize "a   ==   \n5٣" = .ok (ts ++ [last]) ∧
    tokensAmong ((List.range n).map (outcome "a1² ==٣4²\n5٣")) = ts ∧
    ∀ i ≥ n, outcome "a1² ==٣4²\n5٣" i = .ok last := by
  have hfail : outcome "a1² ==٣4²\n5٣" 1 = .error ⟨"1²", ⟨1, 2, 1⟩⟩ := by decide +kernel
  obtain ⟨t, ht, hk⟩ : ∃ t, outcome "a1² ==٣4²\n5٣" 4 = .ok t ∧ t.kind = .int :=
    ⟨⟨⟨.int, "5٣"⟩, ⟨⟨2, 1, 10⟩, ⟨2, 3, 12⟩⟩⟩, by decide +kernel, rfl⟩
  have hspaced : spacedText "a1² ==٣4²\n5٣" = "a   ==   \n5٣" := by decide +kernel
  obtain ⟨hruns, honce, hnumbers, ts, last, n, htokens, hbefore, hbehind⟩ :=
    fails_at_rejected_runs "a1² ==٣4²\n5٣"
  rw [hspaced] at htokens
  exact ⟨ts, last, n, (hruns _).1 ⟨1, hfail⟩, (hruns _).2 ((hruns _).1 ⟨1, hfail⟩),
    fun i hi => honce i 1 _ hi hfail, ⟨t, ht, hk, hnumbers 4 t ht hk⟩, hspaced, htokens, hbefore,
    hbehind⟩

end Reader

end MonkeyFront
