import QueryLint.Document.Basic
import QueryLint.Token.Lexer

/-!
Reading tokens one after the other. A reading stands on a token and may look at it, consume it, or
refuse it. `Reading` is all that a grammar asks of a reading, and what is put together from it here
can be run by any of them. A `Reader` runs over a list of tokens: a fault in the text is met when
the token before it is consumed, and repetition ends because every item consumes a token, so that
the budget of a loop is the number of tokens left.
-/

namespace QueryLint

/-- What a grammar asks of a reading. -/
class Reading (m : Type → Type) where
  current : m Token
  /-- The token behind the current one. -/
  lookahead : m Token
  /-- Consumes the current token. The end of the source stays current. -/
  advance : m Unit
  refuse {α : Type} (token : Token) (fault : SyntaxFault) : m α
  /-- The end of the last consumed token. -/
  lastEnd : m Nat
  /-- The text between two offsets. -/
  slice (start stop : Nat) : m Text
  /-- The span from a token to the last consumed one. -/
  spanFrom (start : Token) : m (Option Location)
  /-- How often a loop may go on, or how deep calls may be nested. -/
  budget : m Nat
  /-- What comes when a budget has run out. -/
  exhausted {α : Type} : m α
  /-- A round of a loop, which reads an item. -/
  round {α : Type} (item : m α) : m α
  /-- A call with others inside it, which are made through what the body is given. -/
  enclosing {α : Type} (body : (m α → m α) → m α) : m α

namespace Reading

variable {m : Type → Type} [Monad m] [Reading m] {α : Type}

def unexpected (token : Token) : m α := refuse token (.unexpectedToken token.lexeme)

def peek (kind : TokenKind) : m Bool := return (← current).kind == kind

/-- Consumes the current token if it has the kind. -/
def skip (kind : TokenKind) : m Bool := do
  if ← peek kind then advance; return true
  else return false

/-- Consumes the current token, which must have the kind. -/
def expect (kind : TokenKind) : m Token := do
  let token ← current
  if token.kind == kind then advance; return token
  else refuse token (.expectedToken kind token.lexeme)

/-- An item that is there only if the current token has the kind. -/
def optionalItem (kind : TokenKind) (item : m α) : m (Option α) := do
  if ← peek kind then return some (← item)
  else return none

def skipKeyword (keyword : String) : m Bool := do
  if (← current).lexeme == .name keyword then advance; return true
  else return false

def expectKeyword (keyword : String) : m Unit := do
  unless ← skipKeyword keyword do
    let token ← current
    refuse token (.expectedKeyword keyword token.lexeme)

/-- Items up to a closing token, which is consumed. -/
def itemsUntil (closing : TokenKind) (item : m α) : Nat → m (List α)
  | 0 => exhausted
  | rounds + 1 => do
    if ← skip closing then return []
    else
      let first ← round item
      return first :: (← itemsUntil closing item rounds)

/-- At least one item between an opening and a closing token. -/
def many (opening : TokenKind) (item : m α) (closing : TokenKind) : m (List α) := do
  let _ ← expect opening
  let first ← round item
  return first :: (← itemsUntil closing item (← budget))

/-- As `many`, or nothing if the opening token is missing. -/
def optionalMany (opening : TokenKind) (item : m α) (closing : TokenKind) : m (List α) := do
  if ← peek opening then many opening item closing
  else return []

/-- Items that each follow a delimiter. -/
def itemsAfter (delimiter : TokenKind) (item : m α) : Nat → m (List α)
  | 0 => exhausted
  | rounds + 1 => do
    if ← skip delimiter then
      let first ← round item
      return first :: (← itemsAfter delimiter item rounds)
    else return []

/-- At least one item, with delimiters between them and perhaps one in front. -/
def delimited (delimiter : TokenKind) (item : m α) : m (List α) := do
  let _ ← skip delimiter
  let first ← round item
  return first :: (← itemsAfter delimiter item (← budget))

end Reading

/-- What stays the same during a reading: the source, whether spans are recorded, and what follows
the last token. -/
structure Setting where
  source : Source
  located : Bool
  ending : Except SyntaxError Token

/-- Where a reading stands: on a token, behind the end of the last consumed one. -/
structure Cursor where
  token : Token
  lastEnd : Nat
  rest : List Token

abbrev Reader := ReaderT Setting (StateT Cursor (Except SyntaxError))

namespace Reader

variable {α : Type}

protected def current : Reader Token := return (← get).token

protected def lookahead : Reader Token := do
  match (← get).rest with
  | next :: _ => return next
  | [] => (← read).ending

protected def advance : Reader Unit := fun setting cursor =>
  match cursor.rest with
  | next :: rest => .ok ((), ⟨next, cursor.token.stop, rest⟩)
  | [] => do
    let eof ← setting.ending
    return ((), ⟨eof, cursor.token.stop, []⟩)

protected def refuse (token : Token) (fault : SyntaxFault) : Reader α := throw ⟨token.start, fault⟩

protected def lastEnd : Reader Nat := return (← get).lastEnd

protected def slice (start stop : Nat) : Reader Text := return (← read).source.slice start stop

protected def spanFrom (start : Token) : Reader (Option Location) := do
  let setting ← read
  if setting.located then return some ⟨start.start, (← get).lastEnd, setting.source⟩
  else return none

/-- One more than the number of tokens that loops and nested parts can still consume. -/
protected def budget : Reader Nat := return (← get).rest.length + 2

instance : Reading Reader where
  current := Reader.current
  lookahead := Reader.lookahead
  advance := Reader.advance
  refuse := Reader.refuse
  lastEnd := Reader.lastEnd
  slice := Reader.slice
  spanFrom := Reader.spanFrom
  budget := Reader.budget
  exhausted := do
    let token ← Reader.current
    Reader.refuse token (.unexpectedToken token.lexeme)
  round item := item
  enclosing body := body fun inner => inner

theorem round_eq (item : Reader α) : Reading.round item = item := rfl

theorem enclosing_eq (body : (Reader α → Reader α) → Reader α) :
    Reading.enclosing body = body fun inner => inner := rfl

end Reader

end QueryLint
