import QueryLint.Source
import QueryLint.Token.Scan

/-!
Splitting a source into significant tokens. Blanks, commas, byte order marks, line breaks and
comments between tokens are passed over, and lines are counted while doing so. `Source.lex` lists
all tokens with what ends the list; a `Lexer` reads them one by one and can look one token ahead.
-/

namespace QueryLint

/-- A place in the source: its offset, its line, and where that line starts. -/
structure Mark where
  offset : Nat
  line : Nat
  lineStart : Nat
  deriving DecidableEq

namespace Mark

def start : Mark := ⟨0, 1, 0⟩

def forward (mark : Mark) (count : Nat) : Mark := { mark with offset := mark.offset + count }

/-- Behind a line break of the given length. -/
def nextLine (mark : Mark) (size : Nat) : Mark :=
  ⟨mark.offset + size, mark.line + 1, mark.offset + size⟩

/-- The token that starts here and has the given length. -/
def token (mark : Mark) (lexeme : Lexeme) (size : Nat) : Token :=
  ⟨lexeme, mark.offset, mark.offset + size, mark.line, mark.offset - mark.lineStart + 1⟩

end Mark

def isBlank (point : CodePoint) : Bool :=
  point == ' ' || point == '\t' || point == ',' || point == '\ufeff'

/-- Passes over ignored text. -/
def skipIgnored (inComment : Bool) (mark : Mark) : Text → Mark × Text
  | [] => (mark, [])
  | .scalar '\r' :: .scalar '\n' :: rest => skipIgnored false (mark.nextLine 2) rest
  | point :: rest =>
    if point = '\n' ∨ point = '\r' then skipIgnored false (mark.nextLine 1) rest
    else if inComment || isBlank point then skipIgnored inComment (mark.forward 1) rest
    else if point = '#' then skipIgnored true (mark.forward 1) rest
    else (mark, point :: rest)

theorem skipIgnored_length_le (inComment : Bool) (mark : Mark) (text : Text) :
    (skipIgnored inComment mark text).2.length ≤ text.length := by
  fun_induction skipIgnored inComment mark text with
  | case1 => simp
  | case2 _ _ rest ih => simp only [List.length_cons]; omega
  | case3 _ _ _ _ _ _ ih => simp only [List.length_cons]; omega
  | case4 _ _ _ _ _ _ _ ih => simp only [List.length_cons]; omega
  | case5 _ _ _ _ _ _ ih => simp only [List.length_cons]; omega
  | case6 => simp

/-- The tokens between the start and the end of a source, and what ends them: the end of the
source, or a fault in the text. -/
structure Lexed where
  tokens : List Token
  ending : Except SyntaxError Token

/-- Lists the tokens from a place on. -/
def lexFrom (mark : Mark) (text : Text) : Lexed :=
  match _skipped : skipIgnored false mark text with
  | (here, []) => ⟨[], .ok (here.token .eof 0)⟩
  | (here, first :: rest) =>
    match scan first rest with
    | .error misfit => ⟨[], .error ⟨here.offset + misfit.distance, misfit.fault⟩⟩
    | .ok (lexeme, more) =>
      let following := lexFrom (here.forward (more + 1)) (rest.drop more)
      { following with tokens := here.token lexeme (more + 1) :: following.tokens }
  termination_by text.length
  decreasing_by
    have bound := skipIgnored_length_le false mark text
    rw [_skipped] at bound
    simp only [List.length_cons, List.length_drop] at bound ⊢
    omega

def Source.lex (source : Source) : Lexed := lexFrom .start source.body

/-- A walk through the tokens of a source. `mark` stands behind all that was read, which is the
current token or one token more; that one is kept in `peeked` until the walk comes to it. -/
structure Lexer where
  source : Source
  token : Token
  lastToken : Token
  mark : Mark
  peeked : Option Token

inductive LexerCall where
  | advance | lookahead
  deriving DecidableEq

namespace Lexer

def ofSource (source : Source) : Lexer := ⟨source, .sof, .sof, .start, none⟩

/-- Reads a token. At a fault in the text the reading stays where it was, but the lines that were
passed over remain counted. -/
def readToken (lexer : Lexer) : Except SyntaxError Token × Lexer :=
  match skipIgnored false lexer.mark (lexer.source.body.drop lexer.mark.offset) with
  | (here, []) => (.ok (here.token .eof 0), { lexer with mark := here })
  | (here, first :: rest) =>
    match scan first rest with
    | .error misfit =>
      (.error ⟨here.offset + misfit.distance, misfit.fault⟩,
        { lexer with mark := { here with offset := lexer.mark.offset } })
    | .ok (lexeme, more) =>
      (.ok (here.token lexeme (more + 1)), { lexer with mark := here.forward (more + 1) })

/-- The token after the current one. The end of the source follows itself. -/
def lookahead (lexer : Lexer) : Except SyntaxError Token × Lexer :=
  if lexer.token.kind = .eof then (.ok lexer.token, lexer)
  else
    match lexer.peeked with
    | some token => (.ok token, lexer)
    | none =>
      match lexer.readToken with
      | (.ok token, lexer) => (.ok token, { lexer with peeked := some token })
      | (.error error, lexer) => (.error error, lexer)

/-- Moves on to the next token. A fault in the text leaves the walk where it is, but for the last
token, which becomes the current one. -/
def advance (lexer : Lexer) : Except SyntaxError Token × Lexer :=
  match lookahead { lexer with lastToken := lexer.token } with
  | (.ok token, lexer) => (.ok token, { lexer with token := token, peeked := none })
  | (.error error, lexer) => (.error error, lexer)

def call (lexer : Lexer) : LexerCall → Except SyntaxError Token × Lexer
  | .advance => lexer.advance
  | .lookahead => lexer.lookahead

end Lexer

end QueryLint
