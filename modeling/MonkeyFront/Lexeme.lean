import MonkeyFront.Position
import MonkeyFront.Text.Digit

namespace MonkeyFront

inductive Kind where
  | illegal | eof | ident | int
  | assign | plus | minus | bang | asterisk | slash | lt | gt | eq | notEq
  | comma | semicolon | lparen | rparen | lbrace | rbrace
  | kwFunction | kwLet | kwTrue | kwFalse | kwIf | kwElse | kwReturn
  deriving DecidableEq, Repr

namespace Kind

def all : List Kind :=
  [illegal, eof, ident, int, assign, plus, minus, bang, asterisk, slash, lt, gt, eq, notEq, comma,
    semicolon, lparen, rparen, lbrace, rbrace, kwFunction, kwLet, kwTrue, kwFalse, kwIf, kwElse,
    kwReturn]

/-- The name under which a token listing shows a kind. -/
def name : Kind → String
  | illegal => "ILLEGAL" | eof => "EOF" | ident => "IDENT" | int => "INT"
  | assign => "ASSIGN" | plus => "PLUS" | minus => "MINUS" | bang => "BANG"
  | asterisk => "ASTERISK" | slash => "SLASH" | lt => "LT" | gt => "GT" | eq => "EQ"
  | notEq => "NOT_EQ" | comma => "COMMA" | semicolon => "SEMICOLON" | lparen => "LPAREN"
  | rparen => "RPAREN" | lbrace => "LBRACE" | rbrace => "RBRACE" | kwFunction => "FUNCTION"
  | kwLet => "LET" | kwTrue => "TRUE" | kwFalse => "FALSE" | kwIf => "IF" | kwElse => "ELSE"
  | kwReturn => "RETURN"

/-- The form in which a diagnostic shows a kind: operators and delimiters by their text. -/
def shown : Kind → String
  | assign => "=" | plus => "+" | minus => "-" | bang => "!" | asterisk => "*" | slash => "/"
  | lt => "<" | gt => ">" | eq => "==" | notEq => "!=" | comma => "," | semicolon => ";"
  | lparen => "(" | rparen => ")" | lbrace => "\x7b" | rbrace => "\x7d"
  | kind => kind.name

def keyword? : List Char → Option Kind
  | ['f', 'n'] => some kwFunction
  | ['l', 'e', 't'] => some kwLet
  | ['t', 'r', 'u', 'e'] => some kwTrue
  | ['f', 'a', 'l', 's', 'e'] => some kwFalse
  | ['i', 'f'] => some kwIf
  | ['e', 'l', 's', 'e'] => some kwElse
  | ['r', 'e', 't', 'u', 'r', 'n'] => some kwReturn
  | _ => none

/-- The kind of an operator or delimiter of one character. -/
def sign? : Char → Option Kind
  | '=' => some assign | ';' => some semicolon | '(' => some lparen | ')' => some rparen
  | ',' => some comma | '+' => some plus | '\x7b' => some lbrace | '\x7d' => some rbrace
  | '!' => some bang | '-' => some minus | '/' => some slash | '*' => some asterisk
  | '<' => some lt | '>' => some gt
  | _ => none

def operator? : List Char → Option Kind
  | [c] => sign? c
  | [c, '='] => if c = '=' then some eq else if c = '!' then some notEq else none
  | _ => none

/-- The kind of a text: keyword, then operator, then integer or name. -/
def ofText (text : List Char) : Kind :=
  match keyword? text, operator? text with
  | some kind, _ => kind
  | none, some kind => kind
  | none, none => if !text.isEmpty && text.all isDigit then int else ident

end Kind

structure Lexeme where
  kind : Kind
  literal : String
  deriving DecidableEq, Repr

namespace Lexeme

def ofText (text : String) : Lexeme := ⟨.ofText text.toList, text⟩

def ofInt (n : Int) : Lexeme := ⟨.int, toString n⟩

/-- The lexeme of a truth value that stands where a number may stand: an integer that is written
as a word. -/
def ofBool (b : Bool) : Lexeme := ⟨.int, if b then "True" else "False"⟩

/-- The form in which a token listing shows a lexeme. -/
def listed (x : Lexeme) : String := x.kind.name ++ "(" ++ x.literal ++ ")"

end Lexeme

structure Token extends Lexeme where
  span : Span
  deriving DecidableEq, Repr

def Token.endOfInput (p : Position) : Token := ⟨⟨.eof, ""⟩, ⟨p, p⟩⟩

end MonkeyFront
