import QueryLint.Text.Quoted

/-!
Significant tokens: what they are, how messages call them and where they stand.
-/

namespace QueryLint

inductive Punctuator where
  | bang | dollar | amp | parenL | parenR | spread | colon | equals | at | bracketL | bracketR
  | braceL | pipe | braceR
  deriving DecidableEq

namespace Punctuator

def text : Punctuator → String
  | .bang => "!"
  | .dollar => "$"
  | .amp => "&"
  | .parenL => "("
  | .parenR => ")"
  | .spread => "..."
  | .colon => ":"
  | .equals => "="
  | .at => "@"
  | .bracketL => "["
  | .bracketR => "]"
  | .braceL => "\x7b"
  | .pipe => "|"
  | .braceR => "\x7d"

/-- The punctuator that a single code point makes up. -/
def ofPoint? : CodePoint → Option Punctuator
  | .scalar '!' => some .bang
  | .scalar '$' => some .dollar
  | .scalar '&' => some .amp
  | .scalar '(' => some .parenL
  | .scalar ')' => some .parenR
  | .scalar ':' => some .colon
  | .scalar '=' => some .equals
  | .scalar '@' => some .at
  | .scalar '[' => some .bracketL
  | .scalar ']' => some .bracketR
  | .scalar '{' => some .braceL
  | .scalar '|' => some .pipe
  | .scalar '}' => some .braceR
  | _ => none

end Punctuator

inductive TokenKind where
  | sof | eof
  | punctuator (mark : Punctuator)
  | name | int | float | string
  deriving DecidableEq

def TokenKind.text : TokenKind → String
  | .sof => "<SOF>"
  | .eof => "<EOF>"
  | .punctuator mark => mark.text
  | .name => "Name"
  | .int => "Int"
  | .float => "Float"
  | .string => "String"

/-- A token without its place. Numbers keep their digits, strings are decoded. -/
inductive Lexeme where
  | sof | eof
  | punctuator (mark : Punctuator)
  | name (text : String)
  | int (text : String)
  | float (text : String)
  | string (value : Text)
  deriving DecidableEq

namespace Lexeme

def kind : Lexeme → TokenKind
  | .sof => .sof
  | .eof => .eof
  | .punctuator mark => .punctuator mark
  | .name _ => .name
  | .int _ => .int
  | .float _ => .float
  | .string _ => .string

def value? : Lexeme → Option Text
  | .sof | .eof | .punctuator _ => none
  | .name text | .int text | .float text => some (Text.ofString text)
  | .string value => some value

/-- How messages call the token: its kind, and its value unless that is empty. -/
def describe (lexeme : Lexeme) : String :=
  match lexeme.value? with
  | none | some [] => lexeme.kind.text
  | some value => lexeme.kind.text ++ " " ++ value.quoted

end Lexeme

structure Token where
  lexeme : Lexeme
  start : Nat
  stop : Nat
  line : Nat
  column : Nat
  deriving DecidableEq

namespace Token

def sof : Token := ⟨.sof, 0, 0, 0, 0⟩

def kind (token : Token) : TokenKind := token.lexeme.kind

def describe (token : Token) : String := token.lexeme.describe

/-- The token with its line and column, for display. -/
def display (token : Token) : String :=
  "<Token " ++ token.describe ++ " " ++ toString token.line ++ ":" ++ toString token.column ++ ">"

end Token

end QueryLint
