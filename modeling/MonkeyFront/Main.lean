import MonkeyFront.CommandLine.Run

namespace MonkeyFront

def readBytes (p : Path) : IO (Except FileError ByteArray) := do
  try return .ok (← IO.FS.readBinFile p.text)
  catch
    | .noFileOrDirectory .. => return .error .missing
    | .inappropriateType _ code _ =>
      return .error (if code = 21 then .isFolder else .notFolder)
    | .invalidArgument _ code reason =>
      return .error (if code = 36 then .tooLong else .other code.toNat reason)
    | e => return .error (.other 5 (toString e))

/-- The disk on which only the given paths lead to files. -/
def diskOf (contents : List (Path × Except FileError ByteArray)) : Disk where
  read p := (contents.lookup p).getD (.error .missing)

/-- Writes what a run has written and yields its exit code. -/
def finish (r : Run) : IO UInt32 := do
  (← IO.getStdout).putStr r.out
  (← IO.getStderr).putStr r.err
  match r.ending with
  | .exited code => return code.toUInt32
  | .refused code => return code.toUInt32
  | .escaped _ => do
    (← IO.getStderr).putStrLn "error: unusable input"
    return 1

/-- The session with the standard input. -/
partial def converse (settings : SessionSettings) : IO UInt32 := do
  let out ← IO.getStdout
  out.putStr settings.prompt
  out.flush
  let line ← (← IO.getStdin).getLine
  if line.isEmpty then return 0
  let report := settings.report line
  out.putStr report.out
  (← IO.getStderr).putStr report.err
  match report.failure with
  | some why => finish (.interrupted "" "" sessionFileName line why)
  | none => converse settings

end MonkeyFront

open MonkeyFront in
def main (commandLine : List String) : IO UInt32 := do
  match Arguments.ofList commandLine with
  | .error _ => finish (run (diskOf []) commandLine "")
  | .ok arguments => do
    let paths := arguments.configPath :: arguments.inputPath?.toList
    let disk := diskOf (← paths.mapM fun p => return (p, ← readBytes p))
    match optionsFor disk arguments with
    | .ok options =>
      match options.input, options.session with
      | none, .ok settings => converse settings
      | _, _ => finish (runWith disk options "")
    | _ => finish (runArguments disk arguments "")
