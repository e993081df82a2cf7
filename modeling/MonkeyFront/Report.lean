import MonkeyFront.Parsing.Program
import MonkeyFront.Tree.Outline

namespace MonkeyFront

/-- Why a report breaks off: the scan failed, or the program is too deep to be shown. -/
inductive Interruption where
  | scan (error : ScanError)
  | tooDeep
  deriving DecidableEq, Repr

/-- What has been written to the two output streams, and what ended it early, if anything. -/
structure Report where
  out : String
  err : String
  failure : Option Interruption
  deriving DecidableEq, Repr

def tokenLine (t : Token) : String :=
  (if t.kind = .illegal then "Illegal! " else "Token: ") ++ t.listed ++ "\n"

/-- The listing of scan outcomes, up to the first scan error. -/
def listScanned : List Scanned → Report
  | [] => ⟨"", "", none⟩
  | .error e :: _ => ⟨"", "", some (.scan e)⟩
  | .ok t :: rest =>
    let report := listScanned rest
    { report with out := tokenLine t ++ report.out }

/-- The listing of the tokens of a source text, the end of input left out. -/
def listTokens (source : String) : Report := listScanned (Scan.ofText source).items

/-- Diagnostics under a heading, one indented line each. -/
def diagnosticsBlock (diagnostics : List Diagnostic) : String :=
  "parser errors:\n" ++ String.join (diagnostics.map fun d => "\t" ++ d.message ++ "\n")

section Limited

variable [Limits]

/-- What a parse comes to, in one piece of text: the program if there is no diagnostic, and
otherwise the diagnostics. -/
def Outcome.report (outcome : Outcome) : Report :=
  match outcome.program, outcome.diagnostics with
  | .ok program, [] =>
    let program := Program.erase program
    if program.isShowable then ⟨program.text ++ "\n", "", none⟩ else ⟨"", "", some .tooDeep⟩
  | _, diagnostics => ⟨"", diagnosticsBlock diagnostics, none⟩

/-- The program that a source text parses to, or the diagnostics. -/
def reportProgram (recover : Bool) (source : String) : Report :=
  match parse recover source with
  | .ok outcome => outcome.report
  | .error e => ⟨"", "", some (.scan e)⟩

/-- Whether a source text is well formed, so that its report shows a program, if it is not too
deep. -/
def isWellFormed (recover : Bool) (source : String) : Except ScanError Bool :=
  return (← parse recover source).diagnostics.isEmpty

end Limited

end MonkeyFront
