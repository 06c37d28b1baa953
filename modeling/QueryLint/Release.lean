import QueryLint.Text.DecimalDigit
import QueryLint.Text.Quoted

/-!
Release numbers: three numbers with dots between them and, for anything but a final release, a
letter for its level with a serial number. Digits of any script are read, one line feed at the end
is passed over, and a candidate may be written with `c` or `rc`.
-/

namespace QueryLint

inductive ReleaseLevel where
  | alpha | beta | candidate | final
  deriving DecidableEq

def ReleaseLevel.text : ReleaseLevel → String
  | .alpha => "alpha"
  | .beta => "beta"
  | .candidate => "candidate"
  | .final => "final"

structure Release where
  major : Nat
  minor : Nat
  micro : Nat
  level : ReleaseLevel
  serial : Nat
  deriving DecidableEq

namespace Release

/-- The number in front of the characters and what follows it. -/
def number? (chars : List Char) : Option (Nat × List Char) :=
  let digits := chars.takeWhile fun char => (decimalDigit? char).isSome
  if digits.isEmpty then none
  else some (digits.foldl (fun value char => value * 10 + (decimalDigit? char).getD 0) 0,
    chars.drop digits.length)

/-- A dot with a number behind it. -/
def dotNumber? : List Char → Option (Nat × List Char)
  | '.' :: rest => number? rest
  | _ => none

def level? : List Char → Option (ReleaseLevel × List Char)
  | 'a' :: rest => some (.alpha, rest)
  | 'b' :: rest => some (.beta, rest)
  | 'r' :: 'c' :: rest => some (.candidate, rest)
  | 'c' :: rest => some (.candidate, rest)
  | _ => none

/-- Nothing is left but perhaps a line feed. -/
def isEnd (chars : List Char) : Bool := chars == [] || chars == ['\n']

def read? (chars : List Char) : Option Release := do
  let (major, rest) ← number? chars
  let (minor, rest) ← dotNumber? rest
  let (micro, rest) ← dotNumber? rest
  if isEnd rest then return ⟨major, minor, micro, .final, 0⟩
  let (level, rest) ← level? rest
  let (serial, rest) ← number? rest
  if isEnd rest then return ⟨major, minor, micro, level, serial⟩ else none

def ofText? (text : Text) : Option Release := (text.mapM CodePoint.char?).bind read?

def refusal (text : Text) : String := "Invalid version: " ++ text.quoted ++ "."

def letter : ReleaseLevel → String
  | .alpha => "a"
  | .beta => "b"
  | .candidate => "c"
  | .final => "f"

def print (release : Release) : String :=
  let base := toString release.major ++ "." ++ toString release.minor ++ "." ++
    toString release.micro
  match release.level with
  | .final => base
  | level => base ++ letter level ++ toString release.serial

/-- The release of this library. -/
def current : Release := ⟨0, 1, 0, .final, 0⟩

end Release

end QueryLint
