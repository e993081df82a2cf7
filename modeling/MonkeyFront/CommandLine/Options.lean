import MonkeyFront.CommandLine.Usage
import MonkeyFront.Config.Document
import MonkeyFront.Files.Disk

/-!
# Options

The options of a run: a default, unless the configuration says something else, unless the command
line does, even if it gives nothing. The configuration is the file that the command line names, or a
file beside the source file; where there is no such file it is empty.
-/

namespace MonkeyFront

structure Options where
  input : Option Path
  tokens : Bool
  recover : Bool
  prompt : Given String
  mode : Given Mode
  debug : Bool
  deriving DecidableEq, Repr

/-- The text of an argument that is there and not empty, as a path. -/
def pathOf? (text : String) : Option Path := if text = "" then none else some (.ofText text)

namespace Arguments

def inputPath? (a : Arguments) : Option Path := a.input.bind pathOf?

/-- The configuration file: the one that is named, or the one beside the source file. -/
def configPath (a : Arguments) : Path :=
  let folder := (a.inputPath?.map Path.parent).getD (Path.ofText ".")
  let beside := folder.child configName
  ((a.config.bind Given.value?).bind pathOf?).getD beside

end Arguments

/-- A mode of the configuration that does not exist. -/
structure UnknownMode where
  name : String
  deriving DecidableEq, Repr

def UnknownMode.message (e : UnknownMode) : String :=
  "invalid repl mode in config (expected one of " ++ Mode.names ++ "): " ++ e.name

def setting? (config : Config.Table) (table key : String) : Option Config.Value := do
  let entries ← (← config.get? table).table?
  entries.get? key

def configPrompt? (config : Config.Table) : Option String :=
  (setting? config "repl" "prompt").bind (·.text?)

def configMode? (config : Config.Table) : Except UnknownMode (Option Mode) :=
  match (setting? config "repl" "mode").bind (·.text?) with
  | none => .ok none
  | some name =>
    match Mode.ofName? name with
    | some mode => .ok (some mode)
    | none => .error ⟨name⟩

/-- Whether the configuration has statements that fail skipped. -/
def configRecover? (config : Config.Table) : Option Bool :=
  (setting? config "parser" "recover").bind (·.truth?)

/-- The options that the arguments and the configuration come to. -/
def resolveOptions (a : Arguments) (config : Config.Table) : Except UnknownMode Options := do
  let mode := (← configMode? config).getD .tokens
  let prompt := (configPrompt? config).getD defaultPrompt
  return {
    input := a.inputPath?
    tokens := a.tokens
    recover := !a.strict && (configRecover? config).getD true
    prompt := a.prompt.getD (.value prompt)
    mode := a.mode.getD (.value mode)
    debug := a.debug }

inductive OptionsError where
  | unreadable (error : FileError)
  | undecodable
  | document (fault : Config.Fault)
  | unknownMode (error : UnknownMode)
  deriving DecidableEq, Repr

/-- Reads the configuration that the arguments lead to. -/
def readConfig (disk : Disk) (a : Arguments) : Except OptionsError Config.Table :=
  match disk.read a.configPath with
  | .error e => if e.meansNoFile then .ok [] else .error (.unreadable e)
  | .ok bytes =>
    match decoded? bytes with
    | none => .error .undecodable
    | some text => (Config.readDocument text).mapError .document

/-- The options that the arguments and the configuration on a disk come to. -/
def optionsFor (disk : Disk) (a : Arguments) : Except OptionsError Options := do
  (resolveOptions a (← readConfig disk a)).mapError .unknownMode

end MonkeyFront
