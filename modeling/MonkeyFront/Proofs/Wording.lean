import Mathlib.Data.List.Basic
import Mathlib.Tactic.Common
import MonkeyFront.Report
import MonkeyFront.Text.Lines

namespace MonkeyFront

/-! ### Quoted texts -/

def Printable (text : String) : Prop := ∀ c ∈ text.toList, isPrintable c = true

instance (text : String) : Decidable (Printable text) :=
  List.decidableBAll (isPrintable · = true) text.toList

lemma Printable.append {s t : String} (hs : Printable s) (ht : Printable t) :
    Printable (s ++ t) := by
  intro c hc
  rw [String.toList_append, List.mem_append] at hc
  exact hc.elim (hs c) (ht c)

def linesOf (text : String) : List String := (typedLines text.toList).map String.ofList

lemma typedLinesFrom_append {line : List Char} (h : '\n' ∉ line) (started rest : List Char) :
    typedLinesFrom started (line ++ '\n' :: rest) =
      (started.reverse ++ line ++ ['\n']) :: typedLinesFrom [] rest := by
  induction line generalizing started with
  | nil => simp [typedLinesFrom]
  | cons c line ih =>
    rw [List.mem_cons, not_or] at h
    obtain ⟨hc, hline⟩ := h
    rw [List.cons_append, typedLinesFrom, if_neg (Ne.symm hc), ih hline]
    simp

lemma linesOf_join {lines : List String} (h : ∀ line ∈ lines, '\n' ∉ line.toList) :
    linesOf (String.join (lines.map (· ++ "\n"))) = lines.map (· ++ "\n") := by
  induction lines with
  | nil => rfl
  | cons line lines ih =>
    obtain ⟨hline, hlines⟩ := List.forall_mem_cons.1 h
    have hrest := ih hlines
    have htext : (String.join ((line :: lines).map (· ++ "\n"))).toList =
        line.toList ++ '\n' :: (String.join (lines.map (· ++ "\n"))).toList := by
      simp
    unfold linesOf typedLines at hrest ⊢
    rw [htext, typedLinesFrom_append hline, List.map_cons, hrest, List.map_cons]
    simp [String.ofList_append]

lemma Printable.not_mem {text : String} (h : Printable text) : '\n' ∉ text.toList :=
  fun hmem => absurd (h _ hmem) (by decide)

end MonkeyFront
