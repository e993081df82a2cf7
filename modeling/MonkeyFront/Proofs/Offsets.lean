import MonkeyFront.Proofs.Decomposition
import MonkeyFront.Proofs.Relocation

namespace MonkeyFront

/-- The offset just behind the last line feed of a text; where there is none, its beginning. -/
def lineStart (text : List Char) : Nat := text.length - text.reverse.idxOf '\n'

lemma lineStart_append_singleton (text : List Char) (c : Char) :
    lineStart (text ++ [c]) = if c = '\n' then text.length + 1 else lineStart text := by
  unfold lineStart
  rw [List.reverse_concat, List.length_append, List.length_singleton]
  split
  · next hc => rw [hc, List.idxOf_cons_self, Nat.sub_zero]
  · next hc => rw [List.idxOf_cons_ne _ hc, Nat.add_sub_add_right]

namespace Position

def ofOffset (text : List Char) (k : Nat) : Position where
  line := 1 + (text.take k).count '\n'
  column := k - lineStart (text.take k) + 1
  offset := k

variable {text run rest : List Char} {k : Nat}

lemma ofOffset_succ {c : Char} (h : text[k]? = some c) :
    ofOffset text (k + 1) = (ofOffset text k).after c := by
  obtain ⟨hk, rfl⟩ := List.getElem?_eq_some_iff.1 h
  have hlength : (text.take k).length = k := List.length_take_of_le hk.le
  rw [ofOffset, List.take_succ_eq_append_getElem hk, List.count_append, List.count_singleton,
    lineStart_append_singleton, hlength, after]
  by_cases hc : text[k] = '\n'
  · simp [hc, ofOffset]
    omega
  · simp [hc, ofOffset]
    omega

lemma afterAll_ofOffset (h : text.drop k = run ++ rest) :
    (ofOffset text k).afterAll run = ofOffset text (k + run.length) := by
  induction run generalizing k with
  | nil => rfl
  | cons c run ih =>
    rw [List.cons_append] at h
    have hc : text[k]? = some c := by
      rw [← List.head?_drop, h]
      rfl
    have hrest : text.drop (k + 1) = run ++ rest := by
      rw [← List.tail_drop, h]
      rfl
    rw [afterAll_cons, ← ofOffset_succ hc, ih hrest, List.length_cons, Nat.add_assoc,
      Nat.add_comm 1]

lemma afterAll_of_not_mem (p : Position) (h : '\n' ∉ run) :
    p.afterAll run = ⟨p.line, p.column + run.length, p.offset + run.length⟩ := by
  induction run generalizing p with
  | nil => simp
  | cons c run ih =>
    obtain ⟨hc, hrun⟩ := not_or.1 (List.mem_cons.not.1 h)
    rw [afterAll_cons, ih _ hrun, after, if_neg (Ne.symm hc), List.length_cons]
    simp only [mk.injEq, true_and]
    omega

end Position

/-- What is read in a text from the offset `k` on before one goes on at the offset `k'`: the end of
input at the end of the text, or a lexeme or a scan error that stands in one line. -/
inductive Cursor.Yields (text : List Char) (k : Nat) : Scanned → Nat → Prop
  | ending (hk : k ≤ text.length) :
      Yields text k (.ok (.endOfInput (.ofOffset text text.length))) text.length
  | token {i : Nat} {t : Token} (hi : k ≤ i) (kind : t.kind ≠ .eof)
      (ne_nil : t.literal.toList ≠ []) (inline : '\n' ∉ t.literal.toList)
      (run : t.literal.toList <+: text.drop i)
      (span : t.span = ⟨.ofOffset text i, .ofOffset text (i + t.literal.length)⟩) :
      Yields text k (.ok t) (i + t.literal.length)
  | fault {i : Nat} {e : ScanError} (hi : k ≤ i) (ne_nil : e.run.toList ≠ [])
      (run : e.run.toList <+: text.drop i) (position : e.position = .ofOffset text i) :
      Yields text k (.error e) (i + e.run.length)

def placesOf : Scanned → List Position
  | .ok t => [t.span.start, t.span.stop]
  | .error e => [e.position]

/-- Where something begins that is yielded in front of the end of input. -/
def startOf? : Scanned → Option Position
  | .ok t => if t.kind = .eof then none else some t.span.start
  | .error e => some e.position

lemma add_length_le {text : List Char} {run : String} {i : Nat} (hne : run.toList ≠ [])
    (h : run.toList <+: text.drop i) : 0 < run.length ∧ i + run.length ≤ text.length := by
  have hpos := List.length_pos_of_ne_nil hne
  have hle := h.length_le
  rw [List.length_drop] at hle
  rw [← String.length_toList]
  omega

namespace Cursor.Yields

variable {text : List Char} {k k' : Nat} {x : Scanned} (h : Yields text k x k')

include h

lemma places : ∀ p ∈ placesOf x, ∃ i ≤ text.length, p = .ofOffset text i := by
  cases h with
  | ending =>
    intro p hp
    exact ⟨text.length, le_rfl, by simpa [placesOf, Token.endOfInput] using hp⟩
  | @token i t _ _ hne _ hrun hspan =>
    have hle := (add_length_le hne hrun).2
    rw [placesOf, hspan, List.forall_mem_cons, List.forall_mem_singleton]
    exact ⟨⟨i, by omega, rfl⟩, ⟨_, hle, rfl⟩⟩
  | @fault i e _ hne hrun hposition =>
    have hle := (add_length_le hne hrun).2
    rw [placesOf, hposition, List.forall_mem_singleton]
    exact ⟨i, by omega, rfl⟩

/-- A token stands in one line and takes as many columns as its literal has characters. -/
lemma inline {t : Token} (ht : x = .ok t) : t.span.start.line = t.span.stop.line ∧
    t.span.stop.column - t.span.start.column = t.literal.length := by
  subst ht
  cases h with
  | ending => exact ⟨rfl, sub_self _⟩
  | @token i _ _ _ _ hinline hrun hspan =>
    obtain ⟨rest, hrest⟩ := hrun
    have hstop := Position.afterAll_ofOffset hrest.symm
    rw [Position.afterAll_of_not_mem _ hinline, String.length_toList] at hstop
    rw [hspan, ← hstop]
    exact ⟨rfl, add_sub_cancel_left _ _⟩

/-- What is yielded in front of the end of input begins behind what has been read before, and in
front of where one goes on. -/
lemma start {p : Position} (hp : p ∈ startOf? x) : k ≤ p.offset ∧ p.offset < k' := by
  cases h with
  | ending => cases hp
  | @token i t hi hk hne _ hrun hspan =>
    have hpos := (add_length_le hne hrun).1
    rw [startOf?, if_neg hk, hspan] at hp
    obtain rfl := Option.some.inj hp
    simp only [Position.ofOffset]
    omega
  | @fault i e hi hne hrun hposition =>
    have hpos := (add_length_le hne hrun).1
    rw [startOf?, hposition] at hp
    obtain rfl := Option.some.inj hp
    simp only [Position.ofOffset]
    omega

lemma of_eof {t : Token} (ht : x = .ok t) (hk : t.kind = .eof) :
    k' = text.length ∧ t = .endOfInput (.ofOffset text text.length) := by
  subst ht
  cases h with
  | ending => exact ⟨rfl, rfl⟩
  | token _ hne => exact absurd hk hne

end Cursor.Yields

namespace Cursor

def atOffset (text : List Char) (k : Nat) : Cursor := ⟨text.drop k, .ofOffset text k⟩

variable {text : List Char} {k : Nat}

/-- A cursor that goes on behind a run of the text stands at the offset where the run ends. -/
lemma atOffset_add {run rest : List Char} (h : text.drop k = run ++ rest) :
    (⟨rest, (Position.ofOffset text k).afterAll run⟩ : Cursor) =
      atOffset text (k + run.length) := by
  rw [Position.afterAll_ofOffset h, atOffset, ← List.drop_drop, h, List.drop_left]

lemma skipBlanks_atOffset (text : List Char) (k : Nat) : (atOffset text k).skipBlanks =
    atOffset text (k + ((text.drop k).takeWhile isBlank).length) :=
  atOffset_add List.takeWhile_append_dropWhile.symm

end Cursor

lemma not_mem_munch {c : Char} (hc : isBlank c = false) (rest : List Char) :
    '\n' ∉ (munch c rest).1 := by
  have hne : '\n' ≠ c := by
    rintro rfl
    cases hc
  have run {p : Char → Bool} (hp : p '\n' = false) : '\n' ∉ c :: rest.takeWhile p := by
    rw [List.mem_cons, not_or]
    refine ⟨hne, fun hmem => ?_⟩
    rw [List.mem_takeWhile_imp hmem] at hp
    cases hp
  rcases munch_cases c rest with ⟨behind, -, -, h⟩ | ⟨-, -, h⟩ | ⟨-, h⟩ | ⟨-, h⟩ | ⟨-, h⟩ <;> rw [h]
  · simp [hne]
  · simp [hne]
  · exact run (by decide)
  · exact run (by decide)
  · simp [hne]

theorem Cursor.yields_next {text : List Char} {k : Nat} (hk : k ≤ text.length) :
    ∃ k', Yields text k (atOffset text k).next.1 k' ∧
      (atOffset text k).next.2 = atOffset text k' := by
  have hblanks : ((text.drop k).takeWhile isBlank).length ≤ (text.drop k).length :=
    (List.takeWhile_prefix _).length_le
  rw [List.length_drop] at hblanks
  have hskip := skipBlanks_atOffset text k
  generalize hi : k + ((text.drop k).takeWhile isBlank).length = i at hskip
  cases hrest : (atOffset text k).skipBlanks.rest with
  | nil =>
    rw [next_of_rest_eq_nil hrest, hskip]
    rw [hskip, atOffset, List.drop_eq_nil_iff] at hrest
    obtain rfl : i = text.length := by omega
    exact ⟨_, .ending hk, rfl⟩
  | cons head tail =>
    have hblank : isBlank head = false := by
      have := List.head?_dropWhile_not isBlank (text.drop k)
      rw [show (text.drop k).dropWhile isBlank = head :: tail from hrest] at this
      simpa using this
    rw [next_of_rest_eq_cons hrest, hskip]
    rw [hskip, atOffset] at hrest
    have hdrop := hrest.trans (munch_append head tail).symm
    have hbehind := Position.afterAll_ofOffset hdrop
    have hne : (munch head tail).1 ≠ [] := by
      obtain ⟨rest, h⟩ := munch_begins head tail
      simp [h]
    have hinline := not_mem_munch hblank tail
    have hrun : (munch head tail).1 <+: text.drop i := ⟨_, hdrop.symm⟩
    refine ⟨_, ?_, atOffset_add hdrop⟩
    generalize (munch head tail).1 = lexeme at *
    have hstring : (String.ofList lexeme).length = lexeme.length := by simp
    have hlist : (String.ofList lexeme).toList = lexeme := String.toList_ofList
    rw [← hlist] at hne hinline hrun
    rw [← hstring] at hbehind ⊢
    split
    · exact .fault (by omega) hne hrun rfl
    · exact .token (by omega) (munchedKind_ne_eof _) hne hinline hrun (by rw [← hbehind]; rfl)

end MonkeyFront
