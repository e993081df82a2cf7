import MonkeyFront.Parsing.Form

namespace MonkeyFront

/-- By how much a token of a kind changes the number of open blocks. -/
def Kind.nestingChange : Kind → Int
  | .lbrace => 1
  | .rbrace => -1
  | _ => 0

/-- Ends the abandoned statement. Outside blocks the rest is skipped up to a semicolon, a closing
brace or the end of input; inside blocks it is skipped up to the brace that closes the outermost of
them, and a semicolon behind it. -/
def synchronize : Parse Unit := do
  let depth := (← get).depth
  modify fun s => { s with depth := 0 }
  if depth = 0 then
    repeatWhile
      (fun s _ => s.current.kind != .semicolon && s.current.kind != .rbrace &&
        s.current.kind != .eof)
      (fun _ => advance)
      (← get).tokensLeft ()
  else
    let _ ← repeatWhile
      (fun s (nesting : Int) =>
        s.current.kind != .eof && !(s.current.kind = .rbrace && nesting = 1))
      (fun nesting => do
        let kind := (← get).current.kind
        advance
        return nesting + kind.nestingChange)
      (← get).tokensLeft depth
    if (← get).current.kind = .rbrace then skipSemicolon

namespace Engine

variable (engine : Engine)

/-- Reads a statement outside blocks; nesting beyond the bound is a complaint like any other. -/
def outerStatement : Parse (Stmt Token) := do
  try engine.statement
  catch
    | .tooDeep => do
      reject .nestedTooDeeply (← get).current
    | failure => throw failure

/-- Reads a statement outside blocks; where statements that fail are skipped, such a statement
yields nothing and the tokens up to the next one are skipped. -/
def recoveringStatement : Parse (Option (Stmt Token)) := do
  try return some (← engine.outerStatement)
  catch
    | .rejected d => do
      if (← get).recover then
        synchronize
        return none
      else throw (.rejected d)
    | failure => throw failure

def program : Parse (Program Token) := do
  let statements ← collectWhile
    (fun s => s.current.kind != .eof)
    (do
      let s ← engine.recoveringStatement
      advance
      return s)
    (← get).tokensLeft
  return statements.filterMap id

end Engine

end MonkeyFront
