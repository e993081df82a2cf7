import MonkeyFront.CommandLine.Options

namespace MonkeyFront

/-- A failure that the program does not answer for: bytes that write no text, a path that cannot be
followed, a document that goes beyond what is read, a session that is given nothing as its mode or
as its prompt, or a program that is too deep to be shown. -/
inductive Escape where
  | undecodable
  | unreadable (error : FileError)
  | unbounded (excess : Config.Excess)
  | noMode
  | noPrompt
  | tooDeep
  deriving DecidableEq, Repr

/-- How a run ends: with an exit code of its own, with one because of its command line, or with a
failure that it does not answer for. -/
inductive Ending where
  | exited (code : Nat)
  | refused (code : Nat)
  | escaped (escape : Escape)
  deriving DecidableEq, Repr

structure Run where
  out : String
  err : String
  ending : Ending
  deriving DecidableEq, Repr

namespace Run

/-- A run that ends with a message and the code 2. -/
def failed (out err message : String) : Run := ⟨out, err ++ message ++ "\n", .exited 2⟩

/-- A run that writes nothing and that the program does not answer for. -/
def escaped (escape : Escape) : Run := ⟨"", "", .escaped escape⟩

/-- A run that breaks off, behind what it has written. -/
def interrupted (out err file source : String) : Interruption → Run
  | .scan e => .failed out err (excerptFrom e.message file source e.position)
  | .tooDeep => ⟨out, err, .escaped .tooDeep⟩

end Run

section Limited

variable [limits : Limits]

/-- A run that shows a program: its listing, and its outline before that if it is asked for. -/
def showProgram (debug : Bool) (program : Program Lexeme) : Run :=
  if debug && !program.isOutlinable then
    ⟨"", program.writtenOutline limits.outlinedDepth, .escaped .tooDeep⟩
  else
    let outline := if debug then program.outline else ""
    if program.isShowable then ⟨program.listing, outline, .exited 0⟩
    else ⟨"", outline, .escaped .tooDeep⟩

def runSource (options : Options) (file source : String) : Run :=
  if options.tokens then
    let report := listTokens source
    match report.failure with
    | some why => .interrupted report.out "" file source why
    | none => ⟨report.out, "", .exited 0⟩
  else
    match parse options.recover source with
    | .error e => .failed "" "" (excerptFrom e.message file source e.position)
    | .ok outcome =>
      match outcome.program, outcome.diagnostics with
      | .ok program, [] => showProgram options.debug (Program.erase program)
      | _, diagnostics =>
        ⟨"", String.join (diagnostics.map fun d => d.report file source ++ "\n"), .exited 1⟩

def runFile (disk : Disk) (options : Options) (file : Path) : Run :=
  match disk.read file with
  | .error .nullCharacter => .escaped (.unreadable .nullCharacter)
  | .error e => .failed "" "" ("error: " ++ e.message file)
  | .ok bytes =>
    match decoded? bytes with
    | none => .escaped .undecodable
    | some text => runSource options file.text (String.ofList (withLineFeeds text.toList))

/-- The file name under which the lines of a session are shown. -/
def sessionFileName : String := "<stdin>"

def Options.session (options : Options) : Except Escape SessionSettings :=
  match options.mode, options.prompt with
  | .nothing, _ => .error .noMode
  | .value _, .nothing => .error .noPrompt
  | .value mode, .value prompt => .ok ⟨prompt, mode, options.recover⟩

def runSession (options : Options) (input : String) : Run :=
  match options.session with
  | .error escape => .escaped escape
  | .ok settings =>
    let transcript := session settings input
    match transcript.failure with
    | some (line, why) =>
      .interrupted transcript.out transcript.err sessionFileName line why
    | none => ⟨transcript.out, transcript.err, .exited 0⟩

def runWith (disk : Disk) (options : Options) (input : String) : Run :=
  match options.input with
  | some file => runFile disk options file
  | none => runSession options input

def runArguments (disk : Disk) (arguments : Arguments) (input : String) : Run :=
  match optionsFor disk arguments with
  | .ok options => runWith disk options input
  | .error (.unreadable e) => .escaped (.unreadable e)
  | .error .undecodable => .escaped .undecodable
  | .error (.document (.excessive excess)) => .escaped (.unbounded excess)
  | .error (.document fault) => .failed "" "" ("error: " ++ fault.message)
  | .error (.unknownMode e) => .failed "" "" ("error: " ++ e.message)

/-- A run with a command line, on a disk and with a standard input. -/
def run (disk : Disk) (commandLine : List String) (input : String) : Run :=
  match Arguments.ofList commandLine with
  | .error .help => ⟨help, "", .refused 0⟩
  | .error (.misuse misuse) => ⟨"", misuseText misuse, .refused 2⟩
  | .ok arguments => runArguments disk arguments input

end Limited

end MonkeyFront
