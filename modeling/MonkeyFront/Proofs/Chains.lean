import Mathlib.Tactic.Common
import MonkeyFront.Parsing.Command
import MonkeyFront.Proofs.Grammar

/-!
# Chains of operators

A chain is an operand and any number of links, each of them an operator with the operand behind it.
-/

namespace MonkeyFront

namespace Precedence

def below : Precedence → Precedence
  | lowest | equals => lowest
  | lessGreater => equals
  | sum => lessGreater
  | product => sum
  | unary => product
  | call => unary

lemma lt_iff {p q : Precedence} : p < q ↔ p.rank < q.rank := Iff.rfl

lemma eq_iff {p q : Precedence} : p = q ↔ p.rank = q.rank := by
  cases p <;> cases q <;> decide

lemma not_lt_lowest (p : Precedence) : ¬p < lowest := by
  cases p <;> decide

lemma rank_below {p : Precedence} (h : lowest < p) : p.below.rank + 1 = p.rank := by
  revert h
  cases p <;> decide

end Precedence

/-! ### Operators -/

/-- An operator between two operands: the kind of its tokens, how tightly it binds, and whether
operators of its precedence group to the right. -/
structure Operator where
  kind : Kind
  precedence : Precedence
  toRight : Bool
  deriving DecidableEq, Repr

namespace Operator

/-- The precedence of the right operand. What binds as tightly as the operator itself belongs to its
right operand if the operator groups to the right. -/
def operand (o : Operator) : Precedence := if o.toRight then o.precedence.below else o.precedence

/-- What is done at the operator, behind its left operand. -/
def script (o : Operator) (left : Expr Token) : Script :=
  .current fun t => .advance (.expression o.operand fun right => .done (.binary t left right))

def command (o : Operator) : Command :=
  .setInfixFn o.kind o.precedence (some (.script o.script))

def standard? (kind : Kind) : Option Operator :=
  if kind.isBinary then some ⟨kind, Rules.standard.precedence kind, false⟩ else none

/-- The operator that a kind is for, after some have been registered one after the other. -/
def lookup (os : List Operator) (kind : Kind) : Option Operator :=
  os.foldl (fun found o => if kind = o.kind then some o else found) (standard? kind)

/-- An operator that a kind is for has been registered or is one of the language. -/
lemma mem_of_lookup {os : List Operator} {kind : Kind} {o : Operator}
    (h : lookup os kind = some o) : o ∈ os ∨ standard? kind = some o := by
  unfold lookup at h
  generalize standard? kind = found at h ⊢
  induction os generalizing found with
  | nil => exact .inr h
  | cons o' os ih =>
    rcases ih _ h with ho | ho
    · exact .inl (List.mem_cons_of_mem _ ho)
    · dsimp only at ho
      split_ifs at ho
      · cases ho
        exact .inl List.mem_cons_self
      · exact .inr ho

lemma lowest_lt_of_standard? {kind : Kind} {o : Operator} (h : standard? kind = some o) :
    .lowest < o.precedence := by
  unfold standard? at h
  split_ifs at h with hbinary
  cases h
  revert hbinary
  cases kind <;> decide

end Operator

/-- Operators that may be registered: none of them is for tokens that are operands or the end of
input, all bind, and with those of the language, all of a precedence group to the same side. -/
structure IsOperatorTable (os : List Operator) : Prop where
  kinds : ∀ o ∈ os, o.kind ∉ [.ident, .int, .kwTrue, .kwFalse, .eof]
  binds : ∀ o ∈ os, .lowest < o.precedence
  sides : ∀ kind kind' o o', Operator.lookup os kind = some o → Operator.lookup os kind' = some o' →
    o.precedence = o'.precedence → o.toRight = o'.toRight

/-! ### Chains -/

/-- An operator of a chain and the operand behind it. -/
structure Link where
  operator : Operator
  token : Token
  operand : Token

def chainTokens (first : Token) (ls : List Link) : List Token :=
  first :: ls.flatMap fun l => [l.token, l.operand]

def Token.operand? (t : Token) : Option (Expr Token) :=
  match t.kind with
  | .ident => some (.name t)
  | .int => some (.integer t)
  | .kwTrue | .kwFalse => some (.boolean t)
  | _ => none

/-- The operator is the root of the chain between `before` and `behind`. -/
structure IsRoot (before : List Link) (l : Link) (behind : List Link) : Prop where
  loosest : ∀ m ∈ before ++ behind, ¬m.operator.precedence < l.operator.precedence
  first : l.operator.toRight = true →
    ∀ m ∈ before, m.operator.precedence ≠ l.operator.precedence
  last : l.operator.toRight = false →
    ∀ m ∈ behind, m.operator.precedence ≠ l.operator.precedence

/-- The chain of an operand and links is grouped as the tree. -/
inductive Groups : Expr Token → Token → List Link → Prop
  | operand {first e} : first.operand? = some e → Groups e first []
  | root {l : Link} {first before behind left right} : IsRoot before l behind →
      Groups left first before → Groups right l.operand behind →
      Groups (.binary l.token left right) first (before ++ l :: behind)

def lastOperand (first : Token) (ls : List Link) : Token :=
  (ls.getLast?.map Link.operand).getD first

/-- How tightly the first operator of some links binds; where there is none, nothing does. -/
def precedenceAhead (ls : List Link) : Precedence :=
  (ls.head?.map (·.operator.precedence)).getD .lowest

lemma lastOperand_append (first : Token) (before : List Link) (l : Link) (behind : List Link) :
    lastOperand first (before ++ l :: behind) = lastOperand l.operand behind := by
  rw [lastOperand, lastOperand, List.getLast?_append, List.getLast?_cons]
  cases behind.getLast? <;> rfl

/-- How deeply right operands stand in right operands. -/
def Expr.operandDepth {τ : Type} : Expr τ → Nat
  | .binary _ left right => max left.operandDepth (right.operandDepth + 1)
  | _ => 0

@[simp] lemma Expr.operandDepth_binary {τ : Type} (t : τ) (left right : Expr τ) :
    (Expr.binary t left right).operandDepth = max left.operandDepth (right.operandDepth + 1) := rfl

lemma Token.operandDepth_of_operand? {t : Token} {e : Expr Token} (h : t.operand? = some e) :
    e.operandDepth = 0 := by
  unfold Token.operand? at h
  split at h <;> cases h <;> rfl

lemma Groups.operandDepth_le {e : Expr Token} {first : Token} {ls : List Link}
    (h : Groups e first ls) : e.operandDepth ≤ ls.length := by
  induction h with
  | operand he => exact Nat.le_of_eq (Token.operandDepth_of_operand? he)
  | root _ _ _ ihl ihr =>
    rw [Expr.operandDepth_binary, List.length_append, List.length_cons]
    omega

/-- Right operands nest as deeply as there are operators if all of these group to the right. -/
lemma Groups.operandDepth_eq {e : Expr Token} {first : Token} {ls : List Link}
    (h : Groups e first ls) {o : Operator} (ho : o.toRight = true)
    (hls : ∀ l ∈ ls, l.operator = o) : e.operandDepth = ls.length := by
  induction h with
  | operand he => exact Token.operandDepth_of_operand? he
  | @root l first before behind left right hroot hleft _ _ ihr =>
    rw [List.forall_mem_append, List.forall_mem_cons] at hls
    obtain ⟨hbefore, rfl, hbehind⟩ := hls
    obtain rfl : before = [] := List.eq_nil_iff_forall_not_mem.2 fun m hm =>
      hroot.first ho m hm (congrArg _ (hbefore m hm))
    have hsingle : left.operandDepth ≤ 0 := hleft.operandDepth_le
    rw [Expr.operandDepth_binary, ihr hbehind, List.nil_append, List.length_cons]
    omega

/-- Operators of a precedence group to the same side. -/
def HaveSides (ls : List Link) : Prop :=
  ∀ l ∈ ls, ∀ m ∈ ls, l.operator.precedence = m.operator.precedence →
    l.operator.toRight = m.operator.toRight

lemma HaveSides.mono {ls ms : List Link} (h : HaveSides ls) (hms : ms ⊆ ls) : HaveSides ms :=
  fun l hl m hm => h l (hms hl) m (hms hm)

namespace IsRoot

variable {before behind : List Link} {l : Link} (h : IsRoot before l behind)

include h

lemma operand_lt (hl : .lowest < l.operator.precedence) :
    ∀ m ∈ behind, l.operator.operand < m.operator.precedence := by
  intro m hm
  have hloosest := h.loosest m (List.mem_append_right _ hm)
  have hbelow := Precedence.rank_below hl
  have hlast := h.last
  unfold Operator.operand
  cases hside : l.operator.toRight with
  | true =>
    simp only [Precedence.lt_iff, if_true] at hloosest ⊢
    omega
  | false =>
    have hne := hlast hside m hm
    simp only [Precedence.lt_iff, Precedence.eq_iff, Ne, Bool.false_eq_true, if_false]
      at hloosest hne ⊢
    omega

lemma not_operand_lt (hsides : HaveSides (before ++ l :: behind))
    (hbinds : ∀ m ∈ before, .lowest < m.operator.precedence) :
    ∀ m ∈ before, ¬m.operator.operand < l.operator.precedence := by
  intro m hm
  have hloosest := h.loosest m (List.mem_append_left _ hm)
  have hbelow := Precedence.rank_below (hbinds m hm)
  have hside := hsides m (List.mem_append_left _ hm) l (by simp)
  unfold Operator.operand
  cases hright : m.operator.toRight with
  | true =>
    have hne : m.operator.precedence ≠ l.operator.precedence := fun he =>
      h.first ((hside he).symm.trans hright) m hm he
    simp only [Precedence.lt_iff, Precedence.eq_iff, Ne, if_true] at hloosest hne ⊢
    omega
  | false => simpa using hloosest

end IsRoot

lemma exists_root {ls : List Link} (hne : ls ≠ []) (hsides : HaveSides ls) :
    ∃ before l behind, ls = before ++ l :: behind ∧ IsRoot before l behind := by
  induction ls with
  | nil => exact absurd rfl hne
  | cons m ls ih =>
    cases ls with
    | nil => exact ⟨[], m, [], rfl, by simp, by simp, by simp⟩
    | cons m' ls =>
      obtain ⟨before, l, behind, hls, hroot⟩ :=
        ih (List.cons_ne_nil _ _) (hsides.mono (List.subset_cons_self _ _))
      rw [hls] at hsides ⊢
      have hl : l ∈ before ++ l :: behind := by simp
      have hside := hsides m List.mem_cons_self l (List.mem_cons_of_mem _ hl)
      -- the first operator is the root if it binds more loosely than the root of the others, or as
      -- loosely and groups to the right
      by_cases hfirst : m.operator.precedence < l.operator.precedence ∨
          m.operator.precedence = l.operator.precedence ∧ m.operator.toRight = true
      · have hloosest : ∀ k ∈ before ++ l :: behind,
            ¬k.operator.precedence < l.operator.precedence := by
          have hall := List.forall_mem_append.1 hroot.loosest
          exact List.forall_mem_append.2
            ⟨hall.1, List.forall_mem_cons.2 ⟨Nat.lt_irrefl _, hall.2⟩⟩
        refine ⟨[], m, before ++ l :: behind, rfl, fun k hk => ?_, by simp, fun hleft k hk => ?_⟩
        · have := hloosest k hk
          simp only [Precedence.lt_iff, Precedence.eq_iff] at hfirst this ⊢
          omega
        · have := hloosest k hk
          rw [hleft] at hfirst
          simp only [Precedence.lt_iff, Precedence.eq_iff, Ne, Bool.false_eq_true, and_false,
            or_false] at hfirst this ⊢
          omega
      · obtain ⟨hlt, heq⟩ := not_or.1 hfirst
        refine ⟨m :: before, l, behind, rfl, ?_, fun hright => ?_, hroot.last⟩
        · exact List.forall_mem_cons.2 ⟨hlt, hroot.loosest⟩
        · refine List.forall_mem_cons.2 ⟨fun he => heq ⟨he, ?_⟩, hroot.first hright⟩
          rw [hside he, hright]

/-- Every chain whose operators of a precedence group to the same side is grouped as a tree. -/
theorem exists_groups {first : Token} {ls : List Link} (hfirst : first.operand?.isSome = true)
    (hoperands : ∀ l ∈ ls, l.operand.operand?.isSome = true) (hsides : HaveSides ls) :
    ∃ e, Groups e first ls := by
  induction hn : ls.length using Nat.strongRecOn generalizing first ls with
  | _ n ih =>
    by_cases hne : ls = []
    · subst hne
      obtain ⟨e, he⟩ := Option.isSome_iff_exists.1 hfirst
      exact ⟨e, .operand he⟩
    · obtain ⟨before, l, behind, rfl, hroot⟩ := exists_root hne hsides
      rw [List.forall_mem_append, List.forall_mem_cons] at hoperands
      obtain ⟨hbefore, hl, hbehind⟩ := hoperands
      rw [List.length_append, List.length_cons] at hn
      obtain ⟨left, hleft⟩ := ih before.length (by omega) hfirst hbefore
        (hsides.mono (List.subset_append_left _ _)) rfl
      obtain ⟨right, hright⟩ := ih behind.length (by omega) hl hbehind
        (hsides.mono fun m hm => by simp [hm]) rfl
      exact ⟨_, .root hroot hleft hright⟩

end MonkeyFront
