import QueryLint.Document.Reader
import QueryLint.Proofs.LexerCalls

/-!
Reading from a lexer. A reader has all tokens of the source before it starts, with the fault that
may end them. A stepper has only a lexer, which reads a token when it is asked for one: it stands on
a token, has perhaps looked one further, and meets a fault when it gets there. The same tokens are
to come for both, whatever the lexer has read of them, and each thing that a stepper does is
simulated by what a reader does.
-/

namespace QueryLint

/-- A reading that takes its tokens from a lexer, and records spans or not. -/
abbrev Stepper := ReaderT Bool (StateT Lexer (Except SyntaxError))

namespace Stepper

variable {α : Type}

def current : Stepper Token := return (← get).token

def lookahead : Stepper Token := fun _ lexer =>
  match lexer.lookahead with
  | (.ok token, next) => .ok (token, next)
  | (.error error, _) => .error error

def advance : Stepper Unit := fun _ lexer =>
  match lexer.advance with
  | (.ok _, next) => .ok ((), next)
  | (.error error, _) => .error error

def refuse (token : Token) (fault : SyntaxFault) : Stepper α := throw ⟨token.start, fault⟩

def lastEnd : Stepper Nat := return (← get).lastToken.stop

def slice (start stop : Nat) : Stepper Text := return (← get).source.slice start stop

def spanFrom (start : Token) : Stepper (Option Location) := do
  let lexer ← get
  if ← read then return some ⟨start.start, lexer.lastToken.stop, lexer.source⟩
  else return none

end Stepper

/-! A lexer beside a cursor -/

/-- The lexer stands where the cursor does, and the same is to come. -/
structure Lexer.Follows (lexer : Lexer) (setting : Setting) (cursor : Cursor) : Prop where
  source : lexer.source = setting.source
  token : lexer.token = cursor.token
  lastEnd : lexer.lastToken.stop = cursor.lastEnd
  ahead : lexer.ahead = ⟨cursor.rest, setting.ending⟩

/-- A lexer at the start of a source, beside a cursor in front of all its tokens. -/
theorem Lexer.follows_ofSource (source : Source) (located : Bool) :
    (ofSource source).Follows ⟨source, located, source.lex.ending⟩
      ⟨.sof, 0, source.lex.tokens⟩ where
  source := rfl
  token := rfl
  lastEnd := rfl
  ahead := ahead_ofSource source

theorem Lexer.source_readToken (lexer : Lexer) : lexer.readToken.2.source = lexer.source := by
  rcases lexer.readToken_cases with ⟨token, mark, hread, -⟩ | ⟨error, mark, hread, -⟩
  · rw [hread]
    rfl
  · rw [hread]
    rfl

theorem Lexer.source_lookahead (lexer : Lexer) : lexer.lookahead.2.source = lexer.source := by
  have hread := lexer.source_readToken
  unfold lookahead
  split
  · rfl
  · split
    · rfl
    · split
      next hcall => rwa [hcall] at hread
      next hcall => rwa [hcall] at hread

namespace Stepper

variable {α : Type} {setting : Setting} {cursor : Cursor} {lexer : Lexer}

/-- The outcomes of two readings are the same, and at the end the lexer follows the cursor. -/
inductive Matches (setting : Setting) :
    Except SyntaxError (α × Lexer) → Except SyntaxError (α × Cursor) → Prop
  | ok {a : α} {lexer : Lexer} {cursor : Cursor} (h : lexer.Follows setting cursor) :
    Matches setting (.ok (a, lexer)) (.ok (a, cursor))
  | error {error : SyntaxError} : Matches setting (.error error) (.error error)

/-- From wherever a lexer follows a cursor the two readings have outcomes that match. -/
def Simulates (stepper : Stepper α) (reader : Reader α) : Prop :=
  ∀ setting cursor lexer, lexer.Follows setting cursor →
    Matches setting (stepper setting.located lexer) (reader setting cursor)

theorem current_simulates : Simulates current Reader.current := by
  intro setting cursor lexer h
  change Matches setting (.ok (lexer.token, lexer)) (.ok (cursor.token, cursor))
  rw [h.token]
  exact .ok h

theorem lastEnd_simulates : Simulates lastEnd Reader.lastEnd := by
  intro setting cursor lexer h
  change Matches setting (.ok (lexer.lastToken.stop, lexer)) (.ok (cursor.lastEnd, cursor))
  rw [h.lastEnd]
  exact .ok h

theorem slice_simulates (start stop : Nat) :
    Simulates (slice start stop) (Reader.slice start stop) := by
  intro setting cursor lexer h
  change Matches setting (.ok (lexer.source.slice start stop, lexer))
    (.ok (setting.source.slice start stop, cursor))
  rw [h.source]
  exact .ok h

theorem refuse_simulates (token : Token) (fault : SyntaxFault) :
    Simulates (refuse token fault : Stepper α) (Reader.refuse token fault) :=
  fun _ _ _ _ => .error

theorem spanFrom_simulates (start : Token) :
    Simulates (spanFrom start) (Reader.spanFrom start) := by
  rintro ⟨source, located, ending⟩ cursor lexer h
  cases located with
  | true =>
    have hspan : Location.mk start.start lexer.lastToken.stop lexer.source =
        ⟨start.start, cursor.lastEnd, source⟩ := by rw [h.lastEnd, h.source]
    change Matches _
      (.ok (some (Location.mk start.start lexer.lastToken.stop lexer.source), lexer)) _
    rw [hspan]
    exact .ok h
  | false => exact .ok h

/-- What a reader finds behind the current token. -/
theorem run_lookahead_entry (setting : Setting) (cursor : Cursor) :
    Reader.lookahead setting cursor =
      (Lexed.entry ⟨cursor.rest, setting.ending⟩ 0).map fun token => (token, cursor) := by
  obtain ⟨source, located, ending⟩ := setting
  obtain ⟨token, lastEnd, rest⟩ := cursor
  cases rest with
  | cons following rest => rfl
  | nil => cases ending <;> rfl

theorem run_advance_entry (setting : Setting) (cursor : Cursor) :
    Reader.advance setting cursor = (Lexed.entry ⟨cursor.rest, setting.ending⟩ 0).map fun token =>
      ((), ⟨token, cursor.token.stop, cursor.rest.tail⟩) := by
  obtain ⟨source, located, ending⟩ := setting
  obtain ⟨token, lastEnd, rest⟩ := cursor
  cases rest with
  | cons following rest => rfl
  | nil => cases ending <;> rfl

/-- Looking ahead may have the lexer read a token, which does not show. -/
theorem lookahead_simulates : Simulates lookahead Reader.lookahead := by
  intro setting cursor lexer h
  have hsource := lexer.source_lookahead
  rw [run_lookahead_entry, ← h.ahead, lookahead]
  rcases lexer.lookahead_cases with ⟨token, next, hcall, hfirst, hahead, htoken, hlast, -⟩ |
    ⟨error, next, hcall, hfault, -⟩
  · rw [hcall, hfirst]
    rw [hcall] at hsource
    exact .ok ⟨hsource.trans h.source, htoken.trans h.token, hlast ▸ h.lastEnd,
      hahead.trans h.ahead⟩
  · rw [hcall, hfault]
    exact .error

/-- Moving on takes the first token from those to come, for the lexer as for the cursor. -/
theorem advance_simulates : Simulates advance Reader.advance := by
  intro setting cursor lexer h
  let leaving : Lexer := { lexer with lastToken := lexer.token }
  have hview : leaving.ahead = lexer.ahead := rfl
  have hsource : leaving.lookahead.2.source = lexer.source := leaving.source_lookahead
  rw [run_advance_entry, ← h.ahead, advance, Lexer.advance]
  rcases leaving.lookahead_cases with ⟨token, next, hcall, hfirst, -, -, hlast, hmoved⟩ |
    ⟨error, next, hcall, hfault, -⟩
  · rw [hview] at hfirst hmoved
    rw [hcall] at hsource
    have hstop : next.lastToken.stop = cursor.token.stop := by rw [hlast, ← h.token]
    have htail : lexer.ahead.tail = ⟨cursor.rest.tail, setting.ending⟩ := by rw [h.ahead]; rfl
    rw [hcall, hfirst]
    exact .ok ⟨hsource.trans h.source, rfl, hstop, hmoved.trans htail⟩
  · rw [hview] at hfault
    rw [hcall, hfault]
    exact .error

end Stepper

end QueryLint
