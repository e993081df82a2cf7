import MonkeyFront.Report
import MonkeyFront.Text.Lines

namespace MonkeyFront

inductive Mode where
  | tokens | parse
  deriving DecidableEq, Repr

namespace Mode

def all : List Mode := [tokens, parse]

def name : Mode → String
  | tokens => "tokens"
  | parse => "parse"

def ofName? (name : String) : Option Mode := all.find? fun mode => mode.name = name

def names : String := ", ".intercalate (all.map name)

end Mode

/-- The complaint about a mode, given in its quoted form, that does not exist. -/
def unknownModeMessage (shown : String) : String :=
  "unknown REPL mode " ++ shown ++ " (expected one of " ++ Mode.names ++ ")"

/-- The complaint about a mode that is nothing, which is shown as an empty list. -/
def missingModeMessage : String := unknownModeMessage "[]"

/-- The prompt of a session for which none is chosen. -/
def defaultPrompt : String := ">> "

structure SessionSettings where
  prompt : String
  mode : Mode
  recover : Bool
  deriving DecidableEq, Repr

section Limited

variable [Limits]

namespace SessionSettings

def report (settings : SessionSettings) (line : String) : Report :=
  match settings.mode with
  | .tokens => listTokens line
  | .parse => reportProgram settings.recover line

end SessionSettings

/-- What a session has written to the two output streams, and the line at which it ended before the
end of input, and why, if it did. -/
structure Transcript where
  out : String
  err : String
  failure : Option (String × Interruption)
  deriving DecidableEq, Repr

def sessionOver (settings : SessionSettings) : List String → Transcript
  | [] => ⟨settings.prompt, "", none⟩
  | line :: lines =>
    let report := settings.report line
    match report.failure with
    | some e => ⟨settings.prompt ++ report.out, report.err, some (line, e)⟩
    | none =>
      let transcript := sessionOver settings lines
      { transcript with
        out := settings.prompt ++ report.out ++ transcript.out
        err := report.err ++ transcript.err }

def session (settings : SessionSettings) (input : String) : Transcript :=
  sessionOver settings ((typedLines input.toList).map String.ofList)

end Limited

end MonkeyFront
