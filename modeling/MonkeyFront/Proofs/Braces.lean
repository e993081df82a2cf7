import Mathlib.Tactic.Common
import Mathlib.Data.List.Induction
import MonkeyFront.Lexeme

/-!
# Open blocks in a sequence of tokens

Blocks are counted by their braces. `openBlocks n ts` is the number of blocks that are open behind
the tokens `ts` if `n` are open before them, unless a brace in `ts` closes a block that is not open.
-/

namespace MonkeyFront

def Kind.isBrace : Kind → Bool
  | .lbrace | .rbrace => true
  | _ => false

/-- The number of blocks open behind some tokens if `n` are open before them, unless a brace closes
more blocks than are open. -/
def openBlocks : Nat → List Token → Option Nat
  | n, [] => some n
  | n, t :: ts =>
    if t.kind = .lbrace then openBlocks (n + 1) ts
    else if t.kind = .rbrace then
      match n with
      | 0 => none
      | n + 1 => openBlocks n ts
    else openBlocks n ts

lemma openBlocks_append (n : Nat) (xs ys : List Token) :
    openBlocks n (xs ++ ys) = (openBlocks n xs).bind fun m => openBlocks m ys := by
  induction xs generalizing n with
  | nil => rfl
  | cons t xs ih =>
    simp only [List.cons_append, openBlocks]
    split
    · exact ih _
    split
    · cases n with
      | zero => rfl
      | succ n => exact ih n
    · exact ih n

lemma openBlocks_add {n m : Nat} {ts : List Token} (h : openBlocks n ts = some m) (k : Nat) :
    openBlocks (n + k) ts = some (m + k) := by
  induction ts generalizing n with
  | nil =>
    obtain rfl : n = m := by simpa only [openBlocks, Option.some.injEq] using h
    rfl
  | cons t ts ih =>
    simp only [openBlocks] at h ⊢
    split_ifs at h ⊢
    · rw [Nat.add_right_comm]
      exact ih h
    · cases n with
      | zero => cases h
      | succ n =>
        rw [Nat.add_right_comm]
        exact ih h
    · exact ih h

/-- The tokens close none but their own blocks and leave `k` of these open. -/
def Opens (ts : List Token) (k : Nat) : Prop := openBlocks 0 ts = some k

/-- The tokens close all the blocks that they open and no others. -/
abbrev Balanced (ts : List Token) : Prop := Opens ts 0

namespace Opens

lemma openBlocks_eq {ts : List Token} {k : Nat} (h : Opens ts k) (n : Nat) :
    openBlocks n ts = some (n + k) := by
  have := openBlocks_add h n
  rwa [Nat.zero_add, Nat.add_comm k] at this

lemma append {xs ys : List Token} {j k : Nat} (hx : Opens xs j) (hy : Opens ys k) :
    Opens (xs ++ ys) (j + k) := by
  rw [Opens, openBlocks_append, hx]
  exact hy.openBlocks_eq j

lemma unique {ts : List Token} {j k : Nat} (hj : Opens ts j) (hk : Opens ts k) : j = k :=
  Option.some.inj (hj.symm.trans hk)

lemma nil : Balanced [] := rfl

lemma singleton {t : Token} (h : t.kind.isBrace = false) : Balanced [t] := by
  have hl : t.kind ≠ .lbrace := fun hl => by simp only [hl, Kind.isBrace, reduceCtorEq] at h
  have hr : t.kind ≠ .rbrace := fun hr => by simp only [hr, Kind.isBrace, reduceCtorEq] at h
  simp only [Balanced, Opens, openBlocks, hl, hr, if_false]

lemma cons {t : Token} {ts : List Token} {k : Nat} (h : t.kind.isBrace = false)
    (hts : Opens ts k) : Opens (t :: ts) k := by
  have := (singleton h).append hts
  rwa [Nat.zero_add] at this

lemma between {xs ys : List Token} {t : Token} (hx : Balanced xs) (h : t.kind.isBrace = false)
    (hy : Balanced ys) : Balanced (xs ++ t :: ys) :=
  hx.append (cons h hy)

lemma openingBrace {t : Token} (h : t.kind = .lbrace) : Opens [t] 1 := by
  simp only [Opens, openBlocks, h, if_true]

lemma closingBrace {ts : List Token} {t : Token} {k : Nat} (h : Opens ts (k + 1))
    (ht : t.kind = .rbrace) : Opens (ts ++ [t]) k := by
  rw [Opens, openBlocks_append, h]
  simp only [Option.bind_some, openBlocks, ht, reduceCtorEq, if_false, if_true]

lemma braces {l r : Token} {ts : List Token} (hl : l.kind = .lbrace) (h : Balanced ts)
    (hr : r.kind = .rbrace) : Balanced (l :: ts ++ [r]) :=
  closingBrace ((openingBrace hl).append h) hr

end Opens

/-- Where tokens leave blocks open, the outermost of these is opened behind balanced tokens, and
nothing behind its brace closes it. -/
theorem exists_outermost {ts : List Token} {k : Nat} (h : Opens ts (k + 1)) :
    ∃ before brace inside, ts = before ++ brace :: inside ∧ Balanced before ∧
      brace.kind = .lbrace ∧ Opens inside k := by
  -- From the right, as the brace is the last at which no block was open before.
  induction ts using List.reverseRecOn generalizing k with
  | nil => simp only [Opens, openBlocks, Option.some.injEq, Nat.right_eq_add, reduceCtorEq] at h
  | append_singleton ts t ih =>
    rw [Opens, openBlocks_append] at h
    obtain ⟨m, hm, ht⟩ := Option.bind_eq_some_iff.1 h
    simp only [openBlocks] at ht
    split_ifs at ht with hl hr
    · obtain rfl : m = k := by simpa only [Option.some.injEq, Nat.add_right_cancel_iff] using ht
      cases m with
      | zero => exact ⟨ts, t, [], rfl, hm, hl, Opens.nil⟩
      | succ m =>
        obtain ⟨before, brace, inside, rfl, hbefore, hbrace, hinside⟩ := ih hm
        exact ⟨before, brace, inside ++ [t], by simp, hbefore, hbrace,
          hinside.append (Opens.openingBrace hl)⟩
    · cases m with
      | zero => cases ht
      | succ m =>
        obtain rfl : m = k + 1 := by simpa only [Option.some.injEq] using ht
        obtain ⟨before, brace, inside, rfl, hbefore, hbrace, hinside⟩ := ih hm
        exact ⟨before, brace, inside ++ [t], by simp, hbefore, hbrace, hinside.closingBrace hr⟩
    · obtain rfl : m = k + 1 := by simpa only [Option.some.injEq] using ht
      obtain ⟨before, brace, inside, rfl, hbefore, hbrace, hinside⟩ := ih hm
      exact ⟨before, brace, inside ++ [t], by simp, hbefore, hbrace,
        hinside.append (Opens.singleton (by cases hk : t.kind <;> simp_all [Kind.isBrace]))⟩

/-- The tokens `after` stand behind the brace that closes the block in which the tokens `ts` begin;
if there is no such brace, `after` is empty. -/
def IsBehindBlock (ts after : List Token) : Prop :=
  (∃ inside brace, ts = inside ++ brace :: after ∧ Balanced inside ∧ brace.kind = .rbrace) ∨
    after = [] ∧ ∃ k, Opens ts k

/-- What stands behind the brace that closes the outermost of `n` open blocks; nothing if there is
no such brace. -/
def behindClosing : Nat → List Token → List Token
  | _, [] => []
  | n, t :: ts =>
    if t.kind = .lbrace then behindClosing (n + 1) ts
    else if t.kind = .rbrace then if n ≤ 1 then ts else behindClosing (n - 1) ts
    else behindClosing n ts

lemma behindClosing_cons {t : Token} (h : t.kind.isBrace = false) (n : Nat) (ts : List Token) :
    behindClosing n (t :: ts) = behindClosing n ts := by
  rw [behindClosing, if_neg fun hl => ?_, if_neg fun hr => ?_]
  · rw [hr] at h
    cases h
  · rw [hl] at h
    cases h

lemma behindClosing_append {xs : List Token} {n m : Nat} (h : openBlocks n xs = some m)
    (ys : List Token) : behindClosing (n + 1) (xs ++ ys) = behindClosing (m + 1) ys := by
  induction xs generalizing n with
  | nil =>
    obtain rfl : n = m := by simpa only [openBlocks, Option.some.injEq] using h
    rfl
  | cons t xs ih =>
    simp only [openBlocks] at h
    simp only [List.cons_append, behindClosing]
    split_ifs at h ⊢
    · exact ih h
    · cases n with
      | zero => cases h
      | succ n => omega
    · cases n with
      | zero => omega
      | succ n => exact ih h
    · exact ih h

lemma isBehindBlock_behindClosing (ts : List Token) : IsBehindBlock ts (behindClosing 1 ts) := by
  suffices h : ∀ n, (∃ inside brace, ts = inside ++ brace :: behindClosing (n + 1) ts ∧
      openBlocks n inside = some 0 ∧ brace.kind = .rbrace) ∨
        behindClosing (n + 1) ts = [] ∧ ∃ k, openBlocks n ts = some k from h 0
  induction ts with
  | nil => exact fun n => .inr ⟨rfl, n, rfl⟩
  | cons t ts ih =>
    have behind {n m : Nat} (hc : behindClosing (n + 1) (t :: ts) = behindClosing (m + 1) ts)
        (ho : ∀ us, openBlocks n (t :: us) = openBlocks m us) :
        (∃ inside brace, t :: ts = inside ++ brace :: behindClosing (n + 1) (t :: ts) ∧
          openBlocks n inside = some 0 ∧ brace.kind = .rbrace) ∨
            behindClosing (n + 1) (t :: ts) = [] ∧ ∃ k, openBlocks n (t :: ts) = some k := by
      rw [hc, ho]
      refine (ih m).imp_left ?_
      rintro ⟨inside, brace, hts, hinside, hbrace⟩
      exact ⟨t :: inside, brace, by rw [List.cons_append, ← hts], (ho inside).trans hinside, hbrace⟩
    intro n
    by_cases hl : t.kind = .lbrace
    · exact behind (m := n + 1) (by simp [behindClosing, hl]) fun us => by simp [openBlocks, hl]
    by_cases hr : t.kind = .rbrace
    · cases n with
      | zero => exact .inl ⟨[], t, by simp [behindClosing, hr], rfl, hr⟩
      | succ n =>
        exact behind (m := n) (by simp [behindClosing, hr]) fun us => by simp [openBlocks, hr]
    · exact behind (m := n) (by simp [behindClosing, hl, hr]) fun us => by
        simp [openBlocks, hl, hr]

theorem isBehindBlock_iff {ts after : List Token} :
    IsBehindBlock ts after ↔ after = behindClosing 1 ts := by
  constructor
  · rintro (⟨inside, brace, rfl, hinside, hbrace⟩ | ⟨rfl, k, hk⟩)
    · rw [behindClosing_append hinside, behindClosing, if_neg (by rw [hbrace]; decide),
        if_pos hbrace, if_pos (Nat.le_refl 1)]
    · have := behindClosing_append hk []
      rw [List.append_nil] at this
      exact this.symm
  · rintro rfl
    exact isBehindBlock_behindClosing ts

/-- Closing the outermost of several open blocks means closing the others first. -/
lemma behindClosing_succ {n : Nat} (hn : 0 < n) (ts : List Token) :
    behindClosing (n + 1) ts = behindClosing 1 (behindClosing n ts) := by
  induction ts generalizing n with
  | nil => rfl
  | cons t ts ih =>
    have hn' : ¬n + 1 ≤ 1 := by omega
    simp only [behindClosing, hn', if_false, Nat.add_sub_cancel]
    split_ifs with hl hr h
    · exact ih (Nat.succ_pos _)
    · rw [Nat.le_antisymm h hn]
    · have := ih (n := n - 1) (by omega)
      rwa [Nat.sub_add_cancel hn] at this
    · exact ih hn

/-- A closing brace that is counted though it closes none of the open blocks leaves one too many. -/
lemma behindClosing_rbrace {t : Token} (h : t.kind = .rbrace) (n : Nat) (ts : List Token) :
    behindClosing (n + 1) ts = behindClosing 1 (behindClosing (n + 1) (t :: ts)) := by
  rw [behindClosing.eq_2 _ t, if_neg (by rw [h]; decide), if_pos h]
  cases n with
  | zero => rfl
  | succ n =>
    rw [if_neg (by omega)]
    exact behindClosing_succ (Nat.succ_pos n) ts

lemma behindClosing_suffix (n : Nat) (ts : List Token) : behindClosing n ts <:+ ts.tail := by
  induction ts generalizing n with
  | nil => exact List.suffix_rfl
  | cons t ts ih =>
    simp only [behindClosing, List.tail_cons]
    split_ifs
    · exact (ih _).trans (List.tail_suffix ts)
    · exact List.suffix_rfl
    · exact (ih _).trans (List.tail_suffix ts)
    · exact (ih _).trans (List.tail_suffix ts)

end MonkeyFront
