import MonkeyFront.Proofs.Decomposition
import MonkeyFront.Proofs.Relocation

namespace MonkeyFront

def IsBlankText (text : String) : Prop := text ≠ "" ∧ ∀ c ∈ text.toList, isBlank c = true

instance (text : String) : Decidable (IsBlankText text) :=
  decidable_of_iff (text ≠ "" ∧ text.toList.all isBlank = true)
    (and_congr Iff.rfl List.all_eq_true)

/-- The literals of the tokens with a text behind each of them. -/
def interspersed (ts : List Token) (separators : List String) : String :=
  String.join (List.zipWith (fun t w => t.literal ++ w) ts separators)

lemma interspersed_cons (t : Token) (ts : List Token) (w : String) (separators : List String) :
    interspersed (t :: ts) (w :: separators) = t.literal ++ w ++ interspersed ts separators :=
  String.join_cons

/-! ### Literals -/

lemma Token.Stands.items_literal {t : Token} {before behind : List Char}
    (h : t.Stands before behind) :
    ∃ u : Token, (Scan.ofText t.literal).items = [.ok u] ∧ u.toLexeme = t.toLexeme := by
  obtain ⟨c, text, htext, hc⟩ := h.begun
  have hfits : t.Fits [] [] := h.fits.elsewhere fun d hd => (by cases hd)
  obtain ⟨hmunch, hkind, hnumber⟩ := hfits.munch_eq htext h.lookup
  have hrest : (Cursor.ofText t.literal).skipBlanks.rest = c :: text := by
    rw [Cursor.ofText, htext, Cursor.skipBlanks]
    exact List.dropWhile_cons_of_neg (by simp [hc])
  rw [List.append_nil] at hmunch
  have hnext := Cursor.next_of_rest_eq_cons hrest
  rw [hmunch, hnumber, hkind, ← htext, String.ofList_toList] at hnext
  rw [Scan.ofText_eq, Cursor.scan_of_rest_eq_cons hrest, hnext,
    Cursor.scan_of_rest_eq_nil (c := ⟨[], _⟩) rfl]
  exact ⟨_, rfl, rfl⟩

/-! ### Joined texts -/

/-- A text consists of lexemes if it has tokens and these are the lexemes. -/
def Consists (source : String) (xs : List Lexeme) : Prop :=
  ∃ ts : List Token, (Scan.ofText source).items = ts.map .ok ∧ ts.map Token.toLexeme = xs

lemma consists_empty : Consists "" [] := ⟨[], rfl, rfl⟩

lemma Consists.append {a b : String} {xs ys : List Lexeme} (ha : Consists a xs)
    (hb : Consists b ys) (hseam : Seam a.toList b.toList) : Consists (a ++ b) (xs ++ ys) := by
  obtain ⟨ts, hts, rfl⟩ := ha
  obtain ⟨us, hus, rfl⟩ := hb
  refine ⟨ts ++ us.map (Token.move (behindAll a).within), ?_, ?_⟩
  · rw [Scan.ofText_append hseam, Scan.move, hts, hus, List.map_append, List.map_map, List.map_map]
    rfl
  · rw [List.map_append, List.map_map]
    rfl

lemma consists_blanks {blanks : String} (h : ∀ c ∈ blanks.toList, isBlank c = true) :
    Consists blanks [] := ⟨[], Scan.items_blanks h, rfl⟩

lemma Consists.append_blanks {a blanks : String} {xs : List Lexeme} (ha : Consists a xs)
    (hblanks : ∀ c ∈ blanks.toList, isBlank c = true) : Consists (a ++ blanks) xs := by
  cases hlist : blanks.toList with
  | nil => rwa [String.toList_eq_nil_iff.1 hlist, String.append_empty]
  | cons b bs =>
    have hb : isBlank b = true := hblanks b (hlist ▸ List.mem_cons_self)
    have hseam : Seam a.toList blanks.toList := .of_blank_head (by rw [hlist]; rfl) hb _
    simpa using ha.append (consists_blanks hblanks) hseam

lemma Consists.append_spaced {a b blanks : String} {xs ys : List Lexeme} (ha : Consists a xs)
    (hb : Consists b ys) (hblanks : IsBlankText blanks) :
    Consists (a ++ blanks ++ b) (xs ++ ys) := by
  obtain ⟨c, hc⟩ : ∃ c, blanks.toList.getLast? = some c := by
    cases hlast : blanks.toList.getLast? with
    | none =>
      exact absurd (String.toList_eq_nil_iff.1 (List.getLast?_eq_none_iff.1 hlast)) hblanks.1
    | some c => exact ⟨c, rfl⟩
  have hblank : isBlank c = true := hblanks.2 c (List.mem_of_getLast? hc)
  have hseam : Seam (a ++ blanks).toList b.toList :=
    .of_blank_last (by simp [List.getLast?_append, hc]) hblank _
  exact (ha.append_blanks hblanks.2).append hb hseam

/-- What a text consists of is what it is taken apart into, in front of the end of input. -/
lemma consists_iff {source : String} {xs : List Lexeme} : Consists source xs ↔
    ∃ ts, tokenize source = .ok ts ∧ ts.map Token.toLexeme = xs ++ [⟨.eof, ""⟩] := by
  constructor
  · rintro ⟨ts, hts, rfl⟩
    refine ⟨_, tokenize_eq_ok.2 ⟨ts, hts, rfl⟩, ?_⟩
    rw [List.map_append, List.map_singleton, Scan.toLexeme_last hts]
  · rintro ⟨tokens, htokens, hlexemes⟩
    obtain ⟨ts, hts, rfl⟩ := tokenize_eq_ok.1 htokens
    rw [List.map_append, List.map_singleton] at hlexemes
    exact ⟨ts, hts, (List.append_inj' hlexemes rfl).1⟩

/-- The literals of tokens consist of these, whatever blanks are put between them. -/
theorem consists_interspersed {ts : List Token} {separators : List String}
    (hts : ∀ t ∈ ts, ∃ before behind, t.Stands before behind)
    (hlength : separators.length = ts.length)
    (hblank : ∀ w ∈ separators, ∀ c ∈ w.toList, isBlank c = true)
    (hne : ∀ w ∈ separators.dropLast, w ≠ "") :
    Consists (interspersed ts separators) (ts.map Token.toLexeme) := by
  induction ts generalizing separators with
  | nil => exact consists_empty
  | cons t ts ih =>
    obtain ⟨w, ws, rfl⟩ := List.exists_cons_of_length_eq_add_one hlength
    obtain ⟨hw, hws⟩ := List.forall_mem_cons.1 hblank
    obtain ⟨⟨before, behind, ht⟩, hts⟩ := List.forall_mem_cons.1 hts
    obtain ⟨u, hitems, hu⟩ := ht.items_literal
    have hliteral : Consists t.literal [t.toLexeme] := ⟨[u], hitems, congrArg (· :: []) hu⟩
    have hlength' : ws.length = ts.length := Nat.succ.inj hlength
    rw [interspersed_cons]
    cases ws with
    | nil =>
      obtain rfl := List.eq_nil_of_length_eq_zero hlength'.symm
      simpa [interspersed] using hliteral.append_blanks hw
    | cons w' ws =>
      obtain ⟨hfirst, hrest⟩ := List.forall_mem_cons.1 hne
      exact hliteral.append_spaced (ih hts hlength' hws hrest) ⟨hfirst, hw⟩

/-- The same blanks between all literals, the empty one of the end of input included. -/
lemma intercalate_literals (w : String) (ts : List Token) {last : Token}
    (hlast : last.toLexeme = ⟨.eof, ""⟩) :
    w.intercalate ((ts ++ [last]).map (·.literal)) =
      interspersed ts (List.replicate ts.length w) := by
  have hempty : last.literal = "" := congrArg Lexeme.literal hlast
  induction ts with
  | nil => simp [hempty, interspersed]
  | cons t ts ih =>
    obtain ⟨u, us, hus⟩ : ∃ u us, ts ++ [last] = u :: us :=
      List.exists_cons_of_ne_nil (List.append_ne_nil_of_right_ne_nil _ (List.cons_ne_nil _ _))
    rw [hus] at ih
    rw [List.length_cons, List.replicate_succ, interspersed_cons, ← ih, List.cons_append, hus,
      List.map_cons, List.map_cons, String.intercalate_cons_cons]

/-- Of two texts with blanks between them, first the tokens of the one are scanned, but for the end
of input, and then those of the other. The literals of a text's tokens with blanks between them have
the same tokens again, be the blanks the same everywhere or not. -/
theorem tokenize_homomorphic :
    (∀ (a b w : String) (ts us : List Token), tokenize a = .ok ts → tokenize b = .ok us →
      IsBlankText w → ∃ front last vs, ts = front ++ [last] ∧ last.toLexeme = ⟨.eof, ""⟩ ∧
        tokenize (a ++ w ++ b) = .ok vs ∧
        vs.map (·.toLexeme) = front.map (·.toLexeme) ++ us.map (·.toLexeme)) ∧
    (∀ (source w : String) (ts : List Token), tokenize source = .ok ts → IsBlankText w →
      ∃ us, tokenize (w.intercalate (ts.map (·.literal))) = .ok us ∧
        us.map (·.toLexeme) = ts.map (·.toLexeme)) ∧
    ∀ (source : String) (ts : List Token) (separators : List String), tokenize source = .ok ts →
      separators.length = ts.dropLast.length →
      (∀ w ∈ separators, ∀ c ∈ w.toList, isBlank c = true) →
      (∀ w ∈ separators.dropLast, w ≠ "") →
      ∃ us, tokenize (interspersed ts.dropLast separators) = .ok us ∧
        us.map (·.toLexeme) = ts.map (·.toLexeme) := by
  refine ⟨fun a b w ts us hts hus hw => ?append, fun source w ts hts hw => ?same,
    fun source ts separators hts hlength hblank hne => ?any⟩
  case append =>
    obtain ⟨front, hfront, rfl⟩ := tokenize_eq_ok.1 hts
    obtain ⟨back, hback, rfl⟩ := tokenize_eq_ok.1 hus
    have hboth : Consists (a ++ w ++ b) (front.map Token.toLexeme ++ back.map Token.toLexeme) :=
      Consists.append_spaced ⟨front, hfront, rfl⟩ ⟨back, hback, rfl⟩ hw
    obtain ⟨vs, hvs, hlexemes⟩ := consists_iff.1 hboth
    refine ⟨front, _, vs, rfl, Scan.toLexeme_last hfront, hvs, ?_⟩
    rw [hlexemes, List.map_append, List.map_singleton, Scan.toLexeme_last hback, List.append_assoc]
  case same =>
    obtain ⟨front, hfront, rfl⟩ := tokenize_eq_ok.1 hts
    have hlast := Scan.toLexeme_last hfront
    have hw' : ∀ v ∈ List.replicate front.length w, v = w := fun v => List.eq_of_mem_replicate
    have hjoined := consists_interspersed (fun t => Scan.stands_of_mem hfront)
      List.length_replicate (fun v hv => by rw [hw' v hv]; exact hw.2)
      (fun v hv => by rw [hw' v (List.mem_of_mem_dropLast hv)]; exact hw.1)
    rw [intercalate_literals w front hlast, List.map_append, List.map_singleton, hlast]
    exact consists_iff.1 hjoined
  case any =>
    obtain ⟨front, hfront, rfl⟩ := tokenize_eq_ok.1 hts
    rw [List.dropLast_concat] at hlength ⊢
    rw [List.map_append, List.map_singleton, Scan.toLexeme_last hfront]
    exact consists_iff.1
      (consists_interspersed (fun t => Scan.stands_of_mem hfront) hlength hblank hne)

/-- Half an operator on each side of blanks other than the space, and different blanks between the
literals. -/
theorem tokenize_homomorphic_equals : ∃ ts us, tokenize "@ x=" = .ok ts ∧
    tokenize "= 1!" = .ok us ∧ IsBlankText "\n\u3000" ∧
    (∃ vs, tokenize ("@ x=" ++ "\n\u3000" ++ "= 1!") = .ok vs ∧
      vs.map (·.toLexeme) = ts.dropLast.map (·.toLexeme) ++ us.map (·.toLexeme)) ∧
    (∃ vs, tokenize ("\n\u3000".intercalate (us.map (·.literal))) = .ok vs ∧
      vs.map (·.toLexeme) = us.map (·.toLexeme)) ∧
    ∃ vs, tokenize (interspersed us.dropLast ["\t", " \n", ""]) = .ok vs ∧
      vs.map (·.toLexeme) = us.map (·.toLexeme) := by
  have hblank : IsBlankText "\n\u3000" := by decide +kernel
  obtain ⟨ts, hts⟩ : ∃ ts, tokenize "@ x=" = .ok ts := ⟨_, rfl⟩
  obtain ⟨us, hus, hlength⟩ : ∃ us, tokenize "= 1!" = .ok us ∧ us.dropLast.length = 3 :=
    ⟨_, rfl, rfl⟩
  obtain ⟨front, last, vs, rfl, -, hvs, hlexemes⟩ :=
    tokenize_homomorphic.1 _ _ _ ts us hts hus hblank
  have hfront : (front ++ [last]).dropLast = front := List.dropLast_concat
  rw [← hfront] at hlexemes
  have hblanks : (["\t", " \n", ""].all fun w => w.toList.all isBlank) = true := by decide +kernel
  exact ⟨_, us, hts, hus, hblank, ⟨vs, hvs, hlexemes⟩,
    tokenize_homomorphic.2.1 _ _ us hus hblank,
    tokenize_homomorphic.2.2 _ us ["\t", " \n", ""] hus hlength.symm
      (fun w hw => List.all_eq_true.1 (List.all_eq_true.1 hblanks w hw)) (by decide)⟩

end MonkeyFront
