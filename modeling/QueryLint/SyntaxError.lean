import QueryLint.Token

/-!
What can be wrong with the text of a document, and the sentence that says so. Each cause stands at
an offset of the source.
-/

namespace QueryLint

inductive SyntaxFault where
  | expectedDigit (found : Option CodePoint)
  | digitAfterZero (digit : CodePoint)
  | invalidEscape (sequence : Text)
  | unterminatedString
  | invalidInString (point : CodePoint)
  | invalidCharacter (point : CodePoint)
  | singleQuote
  | unexpectedCharacter (point : CodePoint)
  | expectedToken (kind : TokenKind) (found : Lexeme)
  | expectedKeyword (keyword : String) (found : Lexeme)
  | unexpectedToken (found : Lexeme)
  deriving DecidableEq

def CodePoint.describe (point : CodePoint) : String := Text.quoted [point]

def SyntaxFault.describe : SyntaxFault → Text
  | .expectedDigit found =>
    "Invalid number, expected digit but got: " ++
      (found.map CodePoint.describe).getD TokenKind.eof.text ++ "."
  | .digitAfterZero digit =>
    "Invalid number, unexpected digit after 0: " ++ digit.describe ++ "."
  | .invalidEscape sequence => "Invalid character escape sequence: \\" ++ sequence ++ "."
  | .unterminatedString => "Unterminated string."
  | .invalidInString point => "Invalid character within String: " ++ point.describe ++ "."
  | .invalidCharacter point => "Cannot contain the invalid character " ++ point.describe ++ "."
  | .singleQuote =>
    "Unexpected single quote character ('), did you mean to use a double quote (\")?"
  | .unexpectedCharacter point =>
    "Cannot parse the unexpected character " ++ point.describe ++ "."
  | .expectedToken kind found => "Expected " ++ kind.text ++ ", found " ++ found.describe ++ "."
  | .expectedKeyword keyword found =>
    "Expected " ++ quoted keyword ++ ", found " ++ found.describe ++ "."
  | .unexpectedToken found => "Unexpected " ++ found.describe ++ "."

structure SyntaxError where
  position : Nat
  fault : SyntaxFault
  deriving DecidableEq

namespace SyntaxError

def description (error : SyntaxError) : Text := error.fault.describe

def message (error : SyntaxError) : Text := "Syntax Error: " ++ error.description

end SyntaxError

end QueryLint
