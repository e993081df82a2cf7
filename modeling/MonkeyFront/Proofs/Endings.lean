import MonkeyFront.Proofs.Agreement
import MonkeyFront.Proofs.Transcripts

namespace MonkeyFront

/-! ### Failures -/

section Limited

variable [Limits]

section Session

variable {settings : SessionSettings}

end Session

section Session

variable {options : Options} {input : String}

end Session

/-! ### Files -/

section File

variable {disk : Disk} {options : Options} {file : Path} {source : String}

end File

/-! ### Runs -/

section Run

variable {disk : Disk} {arguments : Arguments} {input : String}

end Run

end Limited

/-- The disk with one file, in the folder in which the program runs. -/
def Disk.ofFile (name : String) (bytes : ByteArray) : Disk where
  read p := if p.names = [name] then .ok bytes else .error .missing

end MonkeyFront
