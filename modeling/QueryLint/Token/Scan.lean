import QueryLint.SyntaxError

/-!
The texts of single tokens. `scan` reads the token that starts with a given code point and says how
many code points behind the first belong to it. Names and numbers are taken as long as possible, and
a number must not touch a digit, a name or a dot. A string is scanned twice: first for the end of
its longest valid run, and then, by a pattern of its own, for the escapes to be decoded.
-/

namespace QueryLint

/-- A fault, at a distance from the start of the token in which it is found. -/
structure Misfit where
  distance : Nat
  fault : SyntaxFault
  deriving DecidableEq

def isNameStart (point : CodePoint) : Bool := point == '_' || point.isAlpha

def isNameChar (point : CodePoint) : Bool := point == '_' || point.isAlphanum

/-! Numbers -/

def signPart : Text → Text
  | .scalar '-' :: _ => ['-']
  | _ => []

/-- A lone zero or the digits in front. -/
def integerPart : Text → Text
  | .scalar '0' :: _ => ['0']
  | text => text.takeWhile CodePoint.isDigit

/-- A dot with the digits behind it, nothing if there are none. -/
def fractionPart : Text → Text
  | .scalar '.' :: rest =>
    let digits := rest.takeWhile CodePoint.isDigit
    if digits.isEmpty then [] else '.' :: digits
  | _ => []

def exponentSign : Text → Text
  | .scalar '+' :: _ => ['+']
  | .scalar '-' :: _ => ['-']
  | _ => []

def isExponentMark (point : CodePoint) : Bool := point == 'e' || point == 'E'

/-- An exponent mark, a sign or none, and digits; nothing if there are no digits. -/
def exponentPart : Text → Text
  | mark :: rest =>
    if isExponentMark mark then
      let sign := exponentSign rest
      let digits := (rest.drop sign.length).takeWhile CodePoint.isDigit
      if digits.isEmpty then [] else mark :: sign ++ digits
    else []
  | [] => []

/-- The longest number in front of a text, in its four parts. -/
structure NumberText where
  sign : Text
  integer : Text
  fraction : Text
  exponent : Text
  deriving DecidableEq

namespace NumberText

def read (text : Text) : NumberText :=
  let sign := signPart text
  let unsigned := text.drop sign.length
  let integer := integerPart unsigned
  let afterInteger := unsigned.drop integer.length
  let fraction := fractionPart afterInteger
  ⟨sign, integer, fraction, exponentPart (afterInteger.drop fraction.length)⟩

def text (number : NumberText) : Text :=
  number.sign ++ number.integer ++ number.fraction ++ number.exponent

def isInteger (number : NumberText) : Bool := number.fraction.isEmpty && number.exponent.isEmpty

def lexeme (number : NumberText) : Lexeme :=
  if number.isInteger then .int number.text.asString else .float number.text.asString

/-- What is wrong about the text that follows a number. -/
def misfit? (number : NumberText) (after : Text) : Option Misfit :=
  let size := number.text.length
  match after with
  | [] => none
  | next :: rest =>
    if next.isDigit then some ⟨size, .digitAfterZero next⟩
    else if next == '.' && number.isInteger then some ⟨size + 1, .expectedDigit rest.head?⟩
    else if isExponentMark next && number.exponent.isEmpty then
      let sign := exponentSign rest
      some ⟨size + 1 + sign.length, .expectedDigit (rest.drop sign.length).head?⟩
    else if next == '.' || isNameStart next then some ⟨size, .expectedDigit (some next)⟩
    else none

end NumberText

def scanNumber (first : CodePoint) (rest : Text) : Except Misfit (Lexeme × Nat) :=
  let number := NumberText.read (first :: rest)
  if number.integer.isEmpty then .error ⟨1, .expectedDigit rest.head?⟩
  else
    match number.misfit? ((first :: rest).drop number.text.length) with
    | some misfit => .error misfit
    | none => .ok (number.lexeme, number.text.length - 1)

/-! Strings -/

def hexDigit? (point : CodePoint) : Option Nat :=
  let code := point.toNat
  if '0'.toNat ≤ code ∧ code ≤ '9'.toNat then some (code - '0'.toNat)
  else if 'a'.toNat ≤ code ∧ code ≤ 'f'.toNat then some (code - 'a'.toNat + 10)
  else if 'A'.toNat ≤ code ∧ code ≤ 'F'.toNat then some (code - 'A'.toNat + 10)
  else none

/-- The number that four hexadecimal digits in front write. -/
def hexCode? : Text → Option Nat
  | a :: b :: c :: d :: _ => do
    return (((← hexDigit? a) * 16 + (← hexDigit? b)) * 16 + (← hexDigit? c)) * 16 + (← hexDigit? d)
  | _ => none

/-- Code points that stand for themselves inside a string. -/
def isStringChar (point : CodePoint) : Bool :=
  point != '"' && point != '\\' && (point == '\t' || 0x20 ≤ point.toNat)

/-- The signs that make up an escape with a backslash in front of them. -/
def isEscapeSign (point : CodePoint) : Bool :=
  (Text.ofString "\"\\/bfnrt").contains point

/-- The length of the escape behind a backslash: a sign, or the letter `u` with four digits. -/
def escapeSize? : Text → Option Nat
  | [] => none
  | point :: rest =>
    if isEscapeSign point then some 1
    else if point = 'u' ∧ (hexCode? rest).isSome then some 5
    else none

/-- The length of the longest run of plain code points and valid escapes. -/
def stringRun : Text → Nat
  | [] => 0
  | point :: rest =>
    if point = '\\' then
      match escapeSize? rest with
      | some size => 1 + size + stringRun (rest.drop size)
      | none => 0
    else if isStringChar point then 1 + stringRun rest
    else 0
  termination_by text => text.length
  decreasing_by all_goals simp only [List.length_cons, List.length_drop]; omega

/-- What a backslash takes with it when a string is decoded: the number of a code point, or a single
sign, whatever it is. -/
inductive Escape where
  | code (number : Nat)
  | sign (point : CodePoint)
  deriving DecidableEq

namespace Escape

/-- The letter `u` with four digits. -/
def code? : Text → Option Escape
  | .scalar 'u' :: rest => (hexCode? rest).map .code
  | _ => none

/-- Any code point but a line feed. -/
def sign? : Text → Option Escape
  | [] => none
  | point :: _ => if point = '\n' then none else some (.sign point)

/-- The escape at the start of a text: a backslash with a number or else with a sign. -/
def match? : Text → Option Escape
  | .scalar '\\' :: rest => code? rest <|> sign? rest
  | _ => none

/-- How much text an escape takes behind its backslash. -/
def size : Escape → Nat
  | .code _ => 5
  | .sign _ => 1

/-- The code points that the signs behind a backslash stand for. -/
def meanings : List (CodePoint × CodePoint) :=
  [('"', '"'), ('/', '/'), ('\\', '\\'), ('b', '\x08'), ('f', '\x0c'), ('n', '\n'), ('r', '\r'),
    ('t', '\t')]

/-- The code point that an escape stands for, none if its sign has no meaning. -/
def decode? : Escape → Option CodePoint
  | .code number => some (.ofNat number)
  | .sign point => meanings.lookup point

end Escape

/-- Replaces the escapes in a text by what they stand for, and leaves all else as it is. There is no
result if an escape has no meaning. -/
def unescape? : Text → Option Text
  | [] => some []
  | point :: rest =>
    match Escape.match? (point :: rest) with
    | some escape => do return (← escape.decode?) :: (← unescape? (rest.drop escape.size))
    | none => do return point :: (← unescape? rest)
  termination_by text => text.length
  decreasing_by all_goals simp only [List.length_cons, List.length_drop]; omega

theorem isEscapeSign_meaning {point : CodePoint} (h : isEscapeSign point = true) :
    (Escape.meanings.lookup point).isSome ∧ point ≠ 'u' ∧ point ≠ '\n' := by
  have hall : ∀ sign ∈ Text.ofString "\"\\/bfnrt",
      (Escape.meanings.lookup sign).isSome ∧ sign ≠ 'u' ∧ sign ≠ '\n' := by decide
  exact hall point (List.contains_iff_mem.mp h)

theorem Escape.match?_sign {point : CodePoint} (hletter : point ≠ 'u') (hfeed : point ≠ '\n')
    (rest : Text) : match? ('\\' :: point :: rest) = some (.sign point) := by
  rw [match?, code?, sign?, if_neg hfeed]
  · rfl
  · rintro tail ⟨⟩
    exact hletter rfl

theorem Escape.match?_code {rest : Text} {number : Nat} (h : hexCode? rest = some number) :
    match? ('\\' :: 'u' :: rest) = some (.code number) := by
  rw [match?, code?, h]
  rfl

theorem Escape.match?_of_ne {point : CodePoint} (h : point ≠ '\\') (rest : Text) :
    match? (point :: rest) = none := by
  rw [match?]
  rintro tail ⟨⟩
  exact h rfl

theorem hexCode?_take (text : Text) (kept : Nat) :
    hexCode? (text.take (4 + kept)) = hexCode? text := by
  rw [Nat.add_comm]
  rcases text with _ | ⟨a, _ | ⟨b, _ | ⟨c, _ | ⟨d, rest⟩⟩⟩⟩ <;> rfl

/-- What the first scan takes for an escape is one in the second, with a meaning and of the same
length, wherever the text is cut behind it. -/
theorem Escape.of_escapeSize? {text : Text} {size : Nat} (h : escapeSize? text = some size) :
    ∃ escape : Escape, escape.size = size ∧ escape.decode?.isSome ∧
      ∀ kept, match? ('\\' :: text.take (size + kept)) = some escape := by
  cases text with
  | nil => cases h
  | cons point rest =>
    by_cases hsign : isEscapeSign point = true
    · rw [escapeSize?, if_pos hsign] at h
      cases h
      obtain ⟨hmeaning, hletter, hfeed⟩ := isEscapeSign_meaning hsign
      refine ⟨.sign point, rfl, hmeaning, fun kept => ?_⟩
      rw [Nat.add_comm, List.take_succ_cons, match?_sign hletter hfeed]
    · rw [escapeSize?, if_neg hsign] at h
      split at h
      next hcode =>
        cases h
        obtain ⟨rfl, hsome⟩ := hcode
        obtain ⟨number, hnumber⟩ := Option.isSome_iff_exists.mp hsome
        refine ⟨.code number, rfl, rfl, fun kept => ?_⟩
        rw [show 5 + kept = 4 + kept + 1 by omega, List.take_succ_cons]
        exact match?_code ((hexCode?_take rest kept).trans hnumber)
      next => cases h

/-- Every escape in the run of a string has a meaning. -/
theorem isSome_unescape?_run (text : Text) :
    (unescape? (text.take (stringRun text))).isSome := by
  have hnil : (unescape? []).isSome := by
    rw [unescape?]
    rfl
  fun_induction stringRun text with
  | case1 => exact hnil
  | case2 rest size hsize ih =>
    obtain ⟨escape, rfl, hmeaning, hmatch⟩ := Escape.of_escapeSize? hsize
    obtain ⟨point, hpoint⟩ := Option.isSome_iff_exists.mp hmeaning
    obtain ⟨value, hvalue⟩ := Option.isSome_iff_exists.mp ih
    rw [Nat.add_assoc, Nat.add_comm 1, List.take_succ_cons, unescape?, hmatch]
    simp only [hpoint, List.drop_take, Nat.add_sub_cancel_left, hvalue]
    rfl
  | case3 rest hsize => exact hnil
  | case4 point rest hpoint hplain ih =>
    obtain ⟨value, hvalue⟩ := Option.isSome_iff_exists.mp ih
    rw [Nat.add_comm, List.take_succ_cons, unescape?, Escape.match?_of_ne hpoint]
    simp only [hvalue]
    rfl
  | case5 point rest hpoint hplain => exact hnil

/-- The text that the run of a string stands for. -/
def decodedRun (text : Text) : Text :=
  (unescape? (text.take (stringRun text))).get (isSome_unescape?_run text)

/-- What is shown of an escape that is not valid. -/
def escapeSequence : Text → Text
  | [] => []
  | point :: rest => if point = 'u' then point :: rest.take 4 else [point]

/-- Reads a string behind its opening quote. -/
def scanString (rest : Text) : Except Misfit (Lexeme × Nat) :=
  let size := stringRun rest
  match rest.drop size with
  | [] => .error ⟨size + 1, .unterminatedString⟩
  | stop :: after =>
    if stop = '"' then .ok (.string (decodedRun rest), size + 1)
    else if stop = '\\' then .error ⟨size + 2, .invalidEscape (escapeSequence after)⟩
    else if stop = '\n' ∨ stop = '\r' then .error ⟨size + 1, .unterminatedString⟩
    else .error ⟨size + 1, .invalidInString stop⟩

/-! All tokens -/

/-- What is wrong about a code point that starts no token. -/
def strayFault (point : CodePoint) : SyntaxFault :=
  if point < ' ' ∧ point ≠ '\t' ∧ point ≠ '\n' ∧ point ≠ '\r' then .invalidCharacter point
  else if point = '\'' then .singleQuote
  else .unexpectedCharacter point

/-- Reads the token that starts with `first` and says how much of `rest` it takes. -/
def scan (first : CodePoint) (rest : Text) : Except Misfit (Lexeme × Nat) :=
  match Punctuator.ofPoint? first with
  | some mark => .ok (.punctuator mark, 0)
  | none =>
    if first = '.' ∧ rest.take 2 = [.scalar '.', .scalar '.'] then .ok (.punctuator .spread, 2)
    else if first = '"' then scanString rest
    else if isNameStart first then
      let more := rest.takeWhile isNameChar
      .ok (.name (Text.asString (first :: more)), more.length)
    else if first = '-' ∨ first.isDigit then scanNumber first rest
    else .error ⟨0, strayFault first⟩

end QueryLint
