import QueryLint.Text.Printable

/-!
Quoted text. A text is set in single quotes, or in double quotes if it holds a single quote and no
double one. The backslash, the quote in use, line breaks, tabs and unprintable code points are
escaped, the last with the fewest of two, four or eight hexadecimal digits.
-/

namespace QueryLint

/-- The number in lower-case hexadecimal, filled up with zeros to the width. -/
def hexadecimal (width code : Nat) : List Char :=
  let digits := Nat.toDigits 16 code
  List.replicate (width - digits.length) '0' ++ digits

def CodePoint.escaped (quote : Char) (point : CodePoint) : List Char :=
  let code := point.toNat
  if code = '\\'.toNat ∨ code = quote.toNat then ['\\', Char.ofNat code]
  else if code = '\n'.toNat then ['\\', 'n']
  else if code = '\r'.toNat then ['\\', 'r']
  else if code = '\t'.toNat then ['\\', 't']
  else if point.isPrintable then point.char?.toList
  else if code < 0x100 then '\\' :: 'x' :: hexadecimal 2 code
  else if code < 0x10000 then '\\' :: 'u' :: hexadecimal 4 code
  else '\\' :: 'U' :: hexadecimal 8 code

def Text.quoteMark (text : Text) : Char :=
  if text.contains (.scalar '\'') && !text.contains (.scalar '"') then '"' else '\''

def Text.quoted (text : Text) : String :=
  let mark := text.quoteMark
  String.ofList ([mark] ++ text.flatMap (CodePoint.escaped mark) ++ [mark])

def quoted (string : String) : String :=
  (Text.ofString string).quoted

end QueryLint
