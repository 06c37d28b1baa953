import QueryLint.Text.Quoted
import QueryLint.Token.Scan

/-!
Names of types, fields, arguments and enum values. A name is a letter or underscore with letters,
digits and underscores behind it; one line feed at its end is passed over. Two underscores in front
are reserved for introspection.
-/

namespace QueryLint

inductive NameFault where
  | reserved (name : Text)
  | malformed (name : Text)
  deriving DecidableEq

def NameFault.message : NameFault → String
  | .reserved name =>
    "Name " ++ name.quoted ++
      " must not begin with '__', which is reserved by GraphQL introspection."
  | .malformed name =>
    "Names must match /^[_a-zA-Z][_a-zA-Z0-9]*$/ but " ++ name.quoted ++ " does not."

namespace Text

/-- The text without one line feed at its end. -/
def dropFinalNewline (text : Text) : Text :=
  if text.getLast? = some (.scalar '\n') then text.dropLast else text

def isName (text : Text) : Bool :=
  match text.dropFinalNewline with
  | [] => false
  | first :: rest => isNameStart first && rest.all isNameChar

def isReserved (text : Text) : Bool := text.take 2 == [.scalar '_', .scalar '_']

end Text

/-- Accepts a name that the type system may use, reserved ones only on demand. -/
def checkName (name : Text) (allowReserved : Bool := false) : Except NameFault Unit :=
  if name.isReserved && !allowReserved then .error (.reserved name)
  else if name.isName then .ok ()
  else .error (.malformed name)

end QueryLint
