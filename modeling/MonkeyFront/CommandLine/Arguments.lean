import MonkeyFront.Session
import MonkeyFront.Text.Digit

/-!
# Command-line arguments

An argument is an option if it begins with `-`, unless it is just that, a negative number, or holds
a space. A long option may be shortened as long as it stays the only one, and may carry its value
behind `=`; behind the argument `--` there are no options. There is one operand, the source file,
which may be left out.
-/

namespace MonkeyFront

inductive Switch where
  | help | tokens | strict | mode | prompt | config | debug
  deriving DecidableEq, Repr

namespace Switch

def spellings : List (String × Switch) :=
  [("-h", help), ("--help", help), ("--tokens", tokens), ("--strict", strict), ("--mode", mode),
    ("--prompt", prompt), ("--config", config), ("--debug", debug)]

def takesValue : Switch → Bool
  | mode | prompt | config => true
  | _ => false

def shown (switch : Switch) : String :=
  "/".intercalate ((spellings.filter fun s => s.2 = switch).map (·.1))

end Switch

inductive Misuse where
  | ambiguous (argument : String) (candidates : List String)
  | unwantedValue (switch : Switch) (value : String)
  | missingValue (switch : Switch)
  | unknownChoice (switch : Switch) (value : String)
  | unrecognized (arguments : List String)
  deriving DecidableEq, Repr

def Misuse.message : Misuse → String
  | ambiguous argument candidates =>
    "ambiguous option: " ++ argument ++ " could match " ++ ", ".intercalate candidates
  | unwantedValue switch value =>
    "argument " ++ switch.shown ++ ": ignored explicit argument " ++ quoted value
  | missingValue switch => "argument " ++ switch.shown ++ ": expected one argument"
  | unknownChoice switch value =>
    "argument " ++ switch.shown ++ ": invalid choice: " ++ quoted value ++ " (choose from " ++
      ", ".intercalate (Mode.all.map fun mode => quoted mode.name) ++ ")"
  | unrecognized arguments => "unrecognized arguments: " ++ " ".intercalate arguments

/-- Why no arguments result: help was asked for, or something is wrong. -/
inductive Refusal where
  | help
  | misuse (misuse : Misuse)
  deriving DecidableEq, Repr

/-- What an option is given that takes a value: a value, or nothing. -/
inductive Given (α : Type) where
  | value (a : α)
  | nothing
  deriving DecidableEq, Repr

/-- The value that an option is given, if it is given one. -/
def Given.value? {α : Type} : Given α → Option α
  | value a => some a
  | nothing => none

def Given.ofText (text : String) : Given String :=
  if text = "--" then nothing else value text

structure Arguments where
  input : Option String
  tokens : Bool
  strict : Bool
  mode : Option (Given Mode)
  prompt : Option (Given String)
  config : Option (Given String)
  debug : Bool
  deriving DecidableEq, Repr

/-- An argument by its role: an operand, an option that is known or not, with its value if it
carries one, or the mark of the last option. -/
inductive Argument where
  | operand (text : String)
  | option (switch : Switch) (value : Option String)
  | unknown (text : String)
  | mark
  deriving DecidableEq, Repr

namespace Argument

/-- The argument as it was written, where this matters: an option is never taken as text. -/
def text : Argument → String
  | operand text => text
  | unknown text => text
  | option switch _ => switch.shown
  | mark => "--"

def isOption : Argument → Bool
  | option _ _ => true
  | unknown _ => true
  | _ => false

end Argument

/-- The text before the first `=` and the text behind it, if there is one. -/
def splitValue? : List Char → Option (List Char × List Char)
  | [] => none
  | '=' :: rest => some ([], rest)
  | c :: rest => (splitValue? rest).map fun (key, value) => (c :: key, value)

/-- The digits of a negative number, behind its sign: a whole number, or one with a point and
digits behind it. A line feed may follow. -/
def isNegativeNumber (text : List Char) : Bool :=
  match text with
  | '-' :: rest =>
    let digits := if rest.getLast? = some '\n' then rest.dropLast else rest
    let whole := digits.takeWhile isDecimal
    match digits.dropWhile isDecimal with
    | [] => !whole.isEmpty
    | '.' :: fraction => !fraction.isEmpty && fraction.all isDecimal
    | _ => false
  | _ => false

/-- The options that a shortened spelling may stand for. -/
def candidates (spelling : List Char) : List (String × Switch) :=
  Switch.spellings.filter fun s => spelling.isPrefixOf s.1.toList

/-- The value that the text behind the short option `-h` gives it, though it takes none. The letters
of such a text are further short options; what follows the mentions of `-h` itself, the only one
that there is, is a value. -/
def valueInLetters? (text : List Char) : Option String :=
  match text.dropWhile (· == 'h') with
  | [] => none
  | value => some (String.ofList value)

/-- The value that an option carries behind `=`, which for a short option may be letters. -/
def carriedValue? (switch : Switch) (short : Bool) (value : List Char) : Option String :=
  if short && !switch.takesValue && !value.isEmpty then valueInLetters? value
  else some (String.ofList value)

/-- The role of an argument before the mark of the last option. -/
def roleOf (argument : String) : Except Misuse Argument :=
  let text := argument.toList
  match text, Switch.spellings.lookup argument with
  | '-' :: second :: rest, none =>
    let (spelling, carried) :=
      match splitValue? text with
      | some (spelling, value) => (spelling, some value)
      | none => (text, none)
    let other : Argument :=
      if isNegativeNumber text || text.contains ' ' then .operand argument else .unknown argument
    match Switch.spellings.lookup (String.ofList spelling), second with
    | some switch, _ => .ok (.option switch (carried.bind (carriedValue? switch (second != '-'))))
    | none, '-' =>
      match candidates spelling with
      | [] => .ok other
      | [(_, switch)] => .ok (.option switch (carried.map String.ofList))
      | several => .error (.ambiguous argument (several.map (·.1)))
    | none, _ =>
      match Switch.spellings.lookup (String.ofList ['-', second]) with
      | some switch => .ok (.option switch (valueInLetters? rest))
      | none => .ok other
  | '-' :: _ :: _, some switch => .ok (.option switch none)
  | _, _ => .ok (.operand argument)

def rolesOf : List String → Except Misuse (List Argument)
  | [] => .ok []
  | argument :: rest =>
    if argument = "--" then .ok (.mark :: rest.map .operand)
    else do return (← roleOf argument) :: (← rolesOf rest)

/-- The arguments after an option and its value, if it takes one. -/
def Arguments.take (a : Arguments) (switch : Switch) (value : String) :
    Except Refusal Arguments :=
  match switch with
  | .help => .error .help
  | .tokens => .ok { a with tokens := true }
  | .strict => .ok { a with strict := true }
  | .debug => .ok { a with debug := true }
  | .prompt => .ok { a with prompt := some (.ofText value) }
  | .config => .ok { a with config := some (.ofText value) }
  | .mode =>
    match Given.ofText value, Mode.ofName? value with
    | .nothing, _ => .ok { a with mode := some .nothing }
    | .value _, some mode => .ok { a with mode := some (.value mode) }
    | .value _, none => .error (.misuse (.unknownChoice .mode value))

/-- Arguments in the making: what has been read, whether the place of the operand is taken, and what
was not understood. -/
structure Progress where
  arguments : Arguments
  placed : Bool
  extras : List String

/-- The operand is put in its place; `extras` are not understood. -/
def Progress.place (p : Progress) (operand : String) (extras : List String) : Progress :=
  ⟨{ p.arguments with input := some operand }, true, p.extras ++ extras⟩

/-- The arguments behind the last option: the operand, if its place is free, with the mark around
it; all others are not understood. -/
def placeOperands (p : Progress) (rest : List Argument) : Progress :=
  let texts (rest : List Argument) : List String := rest.map (·.text)
  if p.placed then { p with extras := p.extras ++ texts rest }
  else
    match rest with
    | .operand text :: .mark :: rest => p.place text (texts rest)
    | .operand text :: rest => p.place text (texts rest)
    | .mark :: .operand text :: rest => p.place text (texts rest)
    | .mark :: rest => { p with extras := p.extras ++ texts rest }
    | rest => { p with extras := p.extras ++ texts rest }

def readArguments (p : Progress) : List Argument → Except Refusal Progress
  | [] => .ok p
  | .unknown text :: rest => readArguments { p with extras := p.extras ++ [text] } rest
  | .option switch (some value) :: rest =>
    if switch.takesValue then do
      let arguments ← p.arguments.take switch value
      readArguments { p with arguments := arguments } rest
    else .error (.misuse (.unwantedValue switch value))
  | .option switch none :: rest =>
    if switch.takesValue then
      match rest with
      | .operand value :: rest => do
        let arguments ← p.arguments.take switch value
        readArguments { p with arguments := arguments } rest
      | _ => .error (.misuse (.missingValue switch))
    else do
      let arguments ← p.arguments.take switch ""
      readArguments { p with arguments := arguments } rest
  | .operand text :: rest =>
    if rest.any (·.isOption) then
      if p.placed then readArguments { p with extras := p.extras ++ [text] } rest
      else readArguments (p.place text []) rest
    else .ok (placeOperands p (.operand text :: rest))
  | .mark :: rest => .ok (placeOperands p (.mark :: rest))

def Arguments.ofList (arguments : List String) : Except Refusal Arguments := do
  let roles ← (rolesOf arguments).mapError .misuse
  let p ← readArguments ⟨⟨none, false, false, none, none, none, false⟩, false, []⟩ roles
  if p.extras.isEmpty then return p.arguments
  else throw (.misuse (.unrecognized p.extras))

end MonkeyFront
