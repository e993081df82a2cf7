import MonkeyFront.Editor.Address
import MonkeyFront.Parsing.Program

/-!
# Diagnostics in an editor

An editor shows diagnostics as notices on ranges of a document. Its lines and columns are counted
from zero, in code points. A document that cannot be scanned gets one notice, one character wide.
Which addresses of documents and which coordinates are accepted is up to the protocol by which the
editor is told, and so a parameter.
-/

namespace MonkeyFront

structure EditorPosition where
  line : Int
  character : Int
  deriving DecidableEq, Repr

class EditorProtocol where
  /-- What is wrong with the address of a document. -/
  addressFault? : String → Option AddressFault
  /-- The highest line and column. -/
  coordinateLimit : Int

/-- The addresses of the web, and coordinates of 31 bits. -/
instance EditorProtocol.standard : EditorProtocol := ⟨MonkeyFront.addressFault?, 2147483647⟩

section Protocol

variable [protocol : EditorProtocol]

/-- A line or column of which an editor knows nothing: the name of the coordinate and its value. -/
structure CoordinateFault where
  coordinate : String
  value : Int
  deriving DecidableEq, Repr

def CoordinateFault.message (e : CoordinateFault) : String :=
  "Position." ++ e.coordinate ++ " should be in range [0:" ++ toString protocol.coordinateLimit ++
    "], but was " ++ toString e.value ++ "."

/-- The first coordinate of a place that an editor does not know. -/
def EditorPosition.fault? (p : EditorPosition) : Option CoordinateFault :=
  [⟨"line", p.line⟩, ⟨"character", p.character⟩].find? fun e : CoordinateFault =>
    e.value < 0 || protocol.coordinateLimit < e.value

structure Notice where
  start : EditorPosition
  stop : EditorPosition
  message : String
  deriving DecidableEq, Repr

/-- The name under which an editor lists the notices. -/
def noticeSource : String := "monkey"

def noticeSeverity : Nat := 1

def Position.inEditor (p : Position) : EditorPosition := ⟨p.line - 1, p.column - 1⟩

namespace Notice

/-- The notice of a message about a stretch of a document, or at its beginning where there is
none. -/
def ofSpan (message : String) : Option Span → Notice
  | none => ⟨⟨0, 0⟩, ⟨0, 0⟩, message⟩
  | some span => ⟨span.start.inEditor, span.stop.inEditor, message⟩

/-- The first coordinate of a notice that an editor does not know. -/
def fault? (n : Notice) : Option CoordinateFault := n.start.fault?.or n.stop.fault?

def ofDiagnostic (d : Diagnostic) : Notice := ofSpan d.message (some d.span)

def ofScanError (e : ScanError) : Notice :=
  let start := e.position.inEditor
  ⟨start, ⟨start.line, start.character + 1⟩, e.message⟩

end Notice

section Limited

variable [Limits]

def notices (document : String) : List Notice :=
  match parse true document with
  | .ok outcome => outcome.diagnostics.map .ofDiagnostic
  | .error e => [.ofScanError e]

/-- The notices that are published when a document with an address is opened or changed. -/
def publish (address document : String) : Except AddressFault (List Notice) :=
  match protocol.addressFault? address with
  | some fault => .error fault
  | none => .ok (notices document)

end Limited

end Protocol

end MonkeyFront
