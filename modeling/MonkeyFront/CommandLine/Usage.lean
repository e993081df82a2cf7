import MonkeyFront.CommandLine.Arguments

namespace MonkeyFront

def programName : String := "monkey"

/-- The name of the configuration file that is looked for. -/
def configName : String := "monkey.toml"

def usage : String :=
  "usage: " ++ programName ++ " [-h] [--tokens] [--strict] [--mode \x7btokens,parse\x7d]\n" ++
    "              [--prompt TEXT] [--config FILE] [--debug]\n" ++
    "              [input]\n"

def help : String :=
  usage ++ "\n" ++
    "Monkey language scanner and parser\n" ++
    "\n" ++
    "positional arguments:\n" ++
    "  input                 Source file (default: start the REPL)\n" ++
    "\n" ++
    "options:\n" ++
    "  -h, --help            show this help message and exit\n" ++
    "  --tokens              Print the token stream instead of parsing\n" ++
    "  --strict              Stop at the first bad statement instead of\n" ++
    "                        resynchronizing\n" ++
    "  --mode \x7btokens,parse\x7d\n" ++
    "                        REPL mode (default: tokens)\n" ++
    "  --prompt TEXT         REPL prompt\n" ++
    "  --config FILE         Config file (default: auto-discover " ++ configName ++ ")\n" ++
    "  --debug               Dump AST to stderr\n"

/-- The complaint about a misuse of the command line. -/
def misuseText (misuse : Misuse) : String :=
  usage ++ programName ++ ": error: " ++ misuse.message ++ "\n"

end MonkeyFront
