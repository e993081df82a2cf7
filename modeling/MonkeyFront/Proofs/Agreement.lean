import MonkeyFront.CommandLine.Run
import MonkeyFront.Editor
import MonkeyFront.Proofs.Strictness
import MonkeyFront.Proofs.CallChains
import MonkeyFront.Proofs.Wording

namespace MonkeyFront

/-! ### The two parses -/

/-- An outcome of a text that a recovering parse reads as the program `p` with the diagnostics
`ds`: it is the same where there are no diagnostics, and otherwise a strict parse records the
diagnostics up to one of them. -/
inductive Outcome.Agrees (p : Program Token) : List Diagnostic → Bool → Outcome → Prop
  | clean (recover : Bool) : Agrees p [] recover ⟨.ok p, []⟩
  | faulty {ds : List Diagnostic} {recover : Bool} {outcome : Outcome} :
      outcome.diagnostics ≠ [] → outcome.diagnostics <+: ds →
      (recover = true → outcome.diagnostics = ds) → Agrees p ds recover outcome

section Limited

variable [limits : Limits]

section Line

variable {recover : Bool} {source : String}

end Line

end Limited

/-! ### Runs on a file -/

/-- A file of the disk holds the source text, line ends aside. -/
def Disk.Holds (disk : Disk) (file : Path) (source : String) : Prop :=
  ∃ bytes text, disk.read file = .ok bytes ∧ decoded? bytes = some text ∧
    source = String.ofList (withLineFeeds text.toList)

section File

variable [Limits] {disk : Disk} {file : Path} {source : String} {options : Options}

lemma runFile_of_holds (h : disk.Holds file source) :
    runFile disk options file = runSource options file.text source := by
  obtain ⟨bytes, text, hread, htext, rfl⟩ := h
  simp only [runFile, hread, htext]

lemma runFile_of_faulty (h : disk.Holds file source) (htokens : options.tokens = false)
    {outcome : Outcome} (hparse : parse options.recover source = .ok outcome)
    (hne : outcome.diagnostics ≠ []) : runFile disk options file =
      ⟨"", String.join (outcome.diagnostics.map fun d => d.report file.text source ++ "\n"),
        .exited 1⟩ := by
  rw [runFile_of_holds h]
  simp only [runSource, htokens, hparse, Bool.false_eq_true, if_false]
  split
  · next hds => exact absurd hds hne
  · rfl

end File

/-! ### Agreement -/

section Agreement

variable [Limits]

namespace Outcome.Agrees

variable {p : Program Token} {ds : List Diagnostic} {source : String} {outcome : Outcome}

end Outcome.Agrees

end Agreement

example : reportProgram false "1 @ ) 2 $ (" =
    ⟨"", "parser errors:\n\tillegal character '@'\n\tno prefix parse function for ) found\n",
      none⟩ := by
  decide +kernel

end MonkeyFront
