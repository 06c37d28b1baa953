import Mathlib.Data.List.Forall2
import QueryLint.Document.Reader
import QueryLint.Proofs.Printing

/-!
Two readings side by side. The tokens of both are paired, and what a reader does with a token may
depend on what the token is, but not on where it stands. So each step of one reading is a step of
the other: both go on, with results that are the same once their spans and the texts of their values
are revised, or both are refused at tokens that are paired. The rules follow the way readers are put
together.
-/

namespace QueryLint

/-- The span between two offsets, if spans are recorded. -/
def Setting.span (setting : Setting) (start stop : Nat) : Option Location :=
  if setting.located then some ⟨start, stop, setting.source⟩ else none

/-- Two settings whose tokens are paired, and ends of tokens with them. The results of both readings
are compared after a revision on either side, which hides where they differ by their places. -/
structure Pairing where
  first : Setting
  second : Setting
  Twins : Token → Token → Prop
  Ends : Nat → Nat → Prop
  revision : Revision
  revision' : Revision
  lexeme_eq : ∀ {token token'}, Twins token token' → token.lexeme = token'.lexeme
  ends_stop : ∀ {token token'}, Twins token token' → Ends token.stop token'.stop
  ending : (∃ error error', first.ending = .error error ∧ second.ending = .error error') ∨
    ∃ eof eof', first.ending = .ok eof ∧ second.ending = .ok eof' ∧ Twins eof eof'
  loc_eq : ∀ start stop start' stop',
    revision.loc (first.span start stop) = revision'.loc (second.span start' stop')
  text_eq : ∀ {token token' stop stop'}, Twins token token' → Ends stop stop' →
    revision.text (first.source.slice token.start stop) =
      revision'.text (second.source.slice token'.start stop')

namespace Pairing

variable (pairing : Pairing) {α β α' β' : Type}

/-- Both readings stand on paired tokens, and the tokens behind them are paired. -/
structure Alike (cursor cursor' : Cursor) : Prop where
  token : pairing.Twins cursor.token cursor'.token
  lastEnd : pairing.Ends cursor.lastEnd cursor'.lastEnd
  rest : List.Forall₂ pairing.Twins cursor.rest cursor'.rest

/-- Both errors are faults that end the tokens, or they say the same about paired tokens. -/
def Refused (error error' : SyntaxError) : Prop :=
  (pairing.first.ending = .error error ∧ pairing.second.ending = .error error') ∨
    ∃ token token', pairing.Twins token token' ∧ error.position = token.start ∧
      error'.position = token'.start ∧ error.fault = error'.fault

/-- What two readings that go together lead to. -/
inductive Outcomes (post : α → α' → Prop) :
    Except SyntaxError (α × Cursor) → Except SyntaxError (α' × Cursor) → Prop where
  | ok {result : α} {result' : α'} {cursor cursor' : Cursor} (hpost : post result result')
      (halike : pairing.Alike cursor cursor') :
      Outcomes post (.ok (result, cursor)) (.ok (result', cursor'))
  | error {error error' : SyntaxError} (hrefused : pairing.Refused error error') :
      Outcomes post (.error error) (.error error')

/-- From alike places on, both readers go on or are refused together. -/
def Agree (p : Reader α) (p' : Reader α') (post : α → α' → Prop) : Prop :=
  ∀ cursor cursor', pairing.Alike cursor cursor' →
    pairing.Outcomes post (p pairing.first cursor) (p' pairing.second cursor')

/-- The results are the same once revised. -/
abbrev Same (revise : Revision → α → β) (result result' : α) : Prop :=
  revise pairing.revision result = revise pairing.revision' result'

/-- Two runs of one reader go together. -/
abbrev Repeats (p : Reader α) (revise : Revision → α → β) : Prop :=
  pairing.Agree p p (pairing.Same revise)

variable {pairing} {p : Reader α} {p' : Reader α'} {k : α → Reader β} {k' : α' → Reader β'}
  {post : α → α' → Prop} {after : β → β' → Prop}

theorem Outcomes.bind {cursor cursor' : Cursor}
    (hp : pairing.Outcomes post (p pairing.first cursor) (p' pairing.second cursor'))
    (hk : ∀ a a', post a a' → pairing.Agree (k a) (k' a') after) :
    pairing.Outcomes after ((p >>= k) pairing.first cursor)
      ((p' >>= k') pairing.second cursor') := by
  change pairing.Outcomes after (p pairing.first cursor >>= fun r => k r.1 pairing.first r.2)
    (p' pairing.second cursor' >>= fun r => k' r.1 pairing.second r.2)
  generalize p pairing.first cursor = outcome, p' pairing.second cursor' = outcome' at hp ⊢
  cases hp with
  | ok hpost halike => exact hk _ _ hpost _ _ halike
  | error hrefused => exact .error hrefused

theorem Outcomes.imp {other : α → α' → Prop} {outcome : Except SyntaxError (α × Cursor)}
    {outcome' : Except SyntaxError (α' × Cursor)} (h : pairing.Outcomes post outcome outcome')
    (himp : ∀ a a', post a a' → other a a') : pairing.Outcomes other outcome outcome' := by
  cases h with
  | ok hpost halike => exact .ok (himp _ _ hpost) halike
  | error hrefused => exact .error hrefused

namespace Agree

theorem imp {other : α → α' → Prop} (hp : pairing.Agree p p' post)
    (himp : ∀ a a', post a a' → other a a') : pairing.Agree p p' other :=
  fun cursor cursor' halike => (hp cursor cursor' halike).imp himp

theorem bind (hp : pairing.Agree p p' post)
    (hk : ∀ a a', post a a' → pairing.Agree (k a) (k' a') after) :
    pairing.Agree (p >>= k) (p' >>= k') after :=
  fun cursor cursor' halike => (hp cursor cursor' halike).bind hk

theorem pure {a : α} {a' : α'} (h : post a a') :
    pairing.Agree (pure a : Reader α) (pure a' : Reader α') post :=
  fun _ _ halike => .ok h halike

theorem map {f : α → β} {f' : α' → β'}
    (hp : pairing.Agree p p' fun a a' => after (f a) (f' a')) :
    pairing.Agree (f <$> p) (f' <$> p') after := by
  rw [map_eq_pure_bind, map_eq_pure_bind]
  exact bind hp fun _ _ h => pure h

theorem refuse {token token' : Token} (h : pairing.Twins token token') (fault : SyntaxFault) :
    pairing.Agree (Reader.refuse token fault : Reader α) (Reader.refuse token' fault : Reader α')
      post :=
  fun _ _ _ => .error (.inr ⟨token, token', h, rfl, rfl, rfl⟩)

theorem unexpected {token token' : Token} (h : pairing.Twins token token') :
    pairing.Agree (Reading.unexpected token : Reader α) (Reading.unexpected token' : Reader α')
      post := by
  rw [Reading.unexpected, Reading.unexpected, pairing.lexeme_eq h]
  exact refuse h _

end Agree

/-! Looking at tokens and consuming them -/

/-- The current tokens need not be paired to be consumed together. -/
theorem outcomes_advance {cursor cursor' : Cursor}
    (hend : pairing.Ends cursor.token.stop cursor'.token.stop)
    (hrest : List.Forall₂ pairing.Twins cursor.rest cursor'.rest) :
    pairing.Outcomes (fun _ _ => True) (Reader.advance pairing.first cursor)
      (Reader.advance pairing.second cursor') := by
  obtain ⟨token, lastEnd, rest⟩ := cursor
  obtain ⟨token', lastEnd', rest'⟩ := cursor'
  cases hrest with
  | cons htwins hlater => exact .ok trivial ⟨htwins, hend, hlater⟩
  | nil =>
    rcases pairing.ending with ⟨error, error', herror, herror'⟩ | ⟨eof, eof', heof, heof', htwins⟩
    · simp only [Reader.advance, herror, herror']
      exact .error (.inl ⟨herror, herror'⟩)
    · simp only [Reader.advance, heof, heof']
      exact .ok trivial ⟨htwins, hend, .nil⟩

theorem advance_agree : pairing.Agree Reader.advance Reader.advance fun _ _ => True :=
  fun _ _ halike => outcomes_advance (pairing.ends_stop halike.token) halike.rest

theorem current_agree : pairing.Agree Reader.current Reader.current pairing.Twins :=
  fun _ _ halike => .ok halike.token halike

theorem budget_agree : pairing.Agree Reader.budget Reader.budget Eq :=
  fun _ _ halike => .ok (congrArg (· + 2) halike.rest.length_eq) halike

theorem lookahead_agree : pairing.Agree Reader.lookahead Reader.lookahead pairing.Twins := by
  rintro ⟨token, lastEnd, rest⟩ ⟨token', lastEnd', rest'⟩ ⟨htoken, hend, hrest⟩
  cases hrest with
  | cons htwins hlater => exact .ok htwins ⟨htoken, hend, .cons htwins hlater⟩
  | nil =>
    change pairing.Outcomes pairing.Twins
      (pairing.first.ending >>= fun eof => .ok (eof, ⟨token, lastEnd, []⟩))
      (pairing.second.ending >>= fun eof => .ok (eof, ⟨token', lastEnd', []⟩))
    rcases pairing.ending with ⟨error, error', herror, herror'⟩ | ⟨eof, eof', heof, heof', htwins⟩
    · rw [herror, herror']
      exact .error (.inl ⟨herror, herror'⟩)
    · rw [heof, heof']
      exact .ok htwins ⟨htoken, hend, .nil⟩

theorem spanFrom_eq (start : Token) (setting : Setting) (cursor : Cursor) :
    Reader.spanFrom start setting cursor =
      .ok (setting.span start.start cursor.lastEnd, cursor) := by
  obtain ⟨source, located, ending⟩ := setting
  cases located <;> rfl

theorem spanFrom_agree (start start' : Token) :
    pairing.Agree (Reader.spanFrom start) (Reader.spanFrom start')
      (pairing.Same Revision.loc) := by
  intro cursor cursor' halike
  rw [spanFrom_eq, spanFrom_eq]
  exact .ok (pairing.loc_eq _ _ _ _) halike

theorem peek_agree (kind : TokenKind) :
    pairing.Agree (Reading.peek kind) (Reading.peek kind) Eq := by
  refine .bind current_agree fun token token' htwins => .pure ?_
  rw [Token.kind, Token.kind, pairing.lexeme_eq htwins]

theorem skip_agree (kind : TokenKind) :
    pairing.Agree (Reading.skip kind) (Reading.skip kind) Eq := by
  refine .bind (peek_agree kind) ?_
  rintro found _ rfl
  cases found with
  | true => exact .bind advance_agree fun _ _ _ => .pure rfl
  | false => exact .pure rfl

theorem expect_agree (kind : TokenKind) :
    pairing.Agree (Reading.expect kind) (Reading.expect kind) pairing.Twins := by
  refine .bind current_agree fun token token' htwins => ?_
  rw [Token.kind, Token.kind, pairing.lexeme_eq htwins]
  split
  · exact .bind advance_agree fun _ _ _ => .pure htwins
  · exact .refuse htwins _

theorem skipKeyword_agree (keyword : String) :
    pairing.Agree (Reading.skipKeyword keyword) (Reading.skipKeyword keyword) Eq := by
  refine .bind current_agree fun token token' htwins => ?_
  rw [pairing.lexeme_eq htwins]
  split
  · exact .bind advance_agree fun _ _ _ => .pure rfl
  · exact .pure rfl

theorem expectKeyword_agree (keyword : String) :
    pairing.Agree (Reading.expectKeyword keyword) (Reading.expectKeyword keyword)
      fun _ _ => True := by
  refine .bind (skipKeyword_agree keyword) ?_
  rintro found _ rfl
  cases found with
  | true => exact .pure trivial
  | false =>
    refine .bind current_agree fun token token' htwins => ?_
    rw [pairing.lexeme_eq htwins]
    exact .refuse htwins _

/-! Repetition -/

section Items

variable {item : Reader α} {revise : Revision → α → β}

/-- A result that is wrapped is revised inside the wrapping. -/
theorem map_repeats {wrap : α → α'} {revise' : Revision → α' → β'} {wrap' : β → β'}
    (hitem : pairing.Repeats item revise)
    (hwrap : ∀ revision a, revise' revision (wrap a) = wrap' (revise revision a)) :
    pairing.Repeats (wrap <$> item) revise' := by
  refine .map (hitem.imp fun a a' h => ?_)
  rw [Same, hwrap, hwrap, h]

theorem optionalItem_repeats (hitem : pairing.Repeats item revise) (kind : TokenKind) :
    pairing.Repeats (Reading.optionalItem kind item)
      fun revision => Option.map (revise revision) := by
  refine .bind (peek_agree kind) ?_
  rintro found _ rfl
  cases found with
  | true => exact .bind hitem fun a a' h => .pure (congrArg some h)
  | false => exact .pure rfl

theorem itemsUntil_repeats (hitem : pairing.Repeats item revise) (closing : TokenKind)
    (rounds : Nat) :
    pairing.Repeats (Reading.itemsUntil closing item rounds)
      fun revision => List.map (revise revision) := by
  induction rounds with
  | zero => exact .bind current_agree fun _ _ htwins => .unexpected htwins
  | succ rounds ih =>
    refine .bind (skip_agree closing) ?_
    rintro found _ rfl
    cases found with
    | true => exact .pure rfl
    | false =>
      refine .bind hitem fun first first' hfirst => .bind ih fun others others' hothers => .pure ?_
      simp only [Same, List.map_cons, hfirst, hothers]

theorem itemsAfter_repeats (hitem : pairing.Repeats item revise) (delimiter : TokenKind)
    (rounds : Nat) :
    pairing.Repeats (Reading.itemsAfter delimiter item rounds)
      fun revision => List.map (revise revision) := by
  induction rounds with
  | zero => exact .bind current_agree fun _ _ htwins => .unexpected htwins
  | succ rounds ih =>
    refine .bind (skip_agree delimiter) ?_
    rintro found _ rfl
    cases found with
    | true =>
      refine .bind hitem fun first first' hfirst => .bind ih fun others others' hothers => .pure ?_
      simp only [Same, List.map_cons, hfirst, hothers]
    | false => exact .pure rfl

/-- A first item and more of them, as many as the budget allows. -/
theorem nonempty_repeats {others : Nat → Reader (List α)} (hitem : pairing.Repeats item revise)
    (hothers : ∀ rounds, pairing.Repeats (others rounds)
      fun revision => List.map (revise revision)) :
    pairing.Repeats
      (do
        let first ← item
        let rounds ← Reader.budget
        return first :: (← others rounds))
      fun revision => List.map (revise revision) := by
  refine .bind hitem fun first first' hfirst => .bind budget_agree ?_
  rintro rounds _ rfl
  refine .bind (hothers rounds) fun later later' hlater => .pure ?_
  simp only [Same, List.map_cons, hfirst, hlater]

theorem many_repeats (hitem : pairing.Repeats item revise) (opening closing : TokenKind) :
    pairing.Repeats (Reading.many opening item closing)
      fun revision => List.map (revise revision) :=
  .bind (expect_agree opening) fun _ _ _ =>
    nonempty_repeats hitem (itemsUntil_repeats hitem closing)

theorem optionalMany_repeats (hitem : pairing.Repeats item revise) (opening closing : TokenKind) :
    pairing.Repeats (Reading.optionalMany opening item closing)
      fun revision => List.map (revise revision) := by
  refine .bind (peek_agree opening) ?_
  rintro found _ rfl
  cases found with
  | true => exact many_repeats hitem opening closing
  | false => exact .pure rfl

theorem delimited_repeats (hitem : pairing.Repeats item revise) (delimiter : TokenKind) :
    pairing.Repeats (Reading.delimited delimiter item)
      fun revision => List.map (revise revision) :=
  .bind (skip_agree delimiter) fun _ _ _ =>
    nonempty_repeats hitem (itemsAfter_repeats hitem delimiter)

end Items

end Pairing

end QueryLint
