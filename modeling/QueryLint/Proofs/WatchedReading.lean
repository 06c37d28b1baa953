import QueryLint.Proofs.Foresight
import QueryLint.Proofs.LexerReading

/-!
Readings that are watched. A watched reading takes its tokens from a lexer and keeps a record of
those that it consumes, which stays when it fails. Its loops and nested calls know nothing of the
tokens that are left: they go on until a clock cuts them off, and then there is no result at all.
For every item of a loop and every nested call the record also holds what was consumed since the
round or the call around it began. The grammar asks for no more than a `Reading`, so that it can be
watched as it stands.

A watched reading tracks a reader if it comes to the same result, in time, over tokens of the source
alone. What is recorded is tracked along with it, and the rules follow the way readers are put
together.
-/

namespace QueryLint

/-- What a reading has consumed, and the stretches of it in which there must have been progress. -/
structure Record where
  consumed : List Token := []
  stretches : List (List Token) := []

namespace Record

def extend (record : Record) (tokens : List Token) (stretches : List (List Token)) : Record :=
  ⟨record.consumed ++ tokens, record.stretches ++ stretches⟩

/-- Takes down what has been consumed behind a mark. -/
def note (record : Record) (mark : Nat) : Record :=
  record.extend [] [record.consumed.drop mark]

theorem extend_nil (record : Record) : record.extend [] [] = record := by
  simp [extend]

theorem extend_extend (record : Record) (tokens later : List Token)
    (stretches others : List (List Token)) :
    (record.extend tokens stretches).extend later others =
      record.extend (tokens ++ later) (stretches ++ others) := by
  simp [extend]

theorem note_extend (record : Record) (tokens : List Token) (stretches : List (List Token)) :
    (record.extend tokens stretches).note record.consumed.length =
      record.extend tokens (stretches ++ [tokens]) := by
  simp [note, extend]

end Record

theorem Setting.Moves.kind_ne {setting : Setting} {cursor last : Cursor} {tokens : List Token}
    (h : setting.Moves cursor tokens last) : ∀ token ∈ tokens, token.kind ≠ .eof := by
  induction h with
  | stay => exact fun token htoken => absurd htoken List.not_mem_nil
  | step hinside hadvance hrest ih =>
    refine List.forall_mem_cons.mpr ⟨fun hkind => ?_, ih⟩
    exact hinside (Token.lexeme_of_kind_eof hkind)

/-- There is a token other than the end of the source. -/
def Lively (tokens : List Token) : Prop := ∃ token ∈ tokens, token.kind ≠ .eof

theorem Setting.Moves.lively {setting : Setting} {cursor last : Cursor} {tokens : List Token}
    (h : setting.Moves cursor tokens last) (hsome : 1 ≤ tokens.length) : Lively tokens := by
  cases tokens with
  | nil => cases hsome
  | cons token tokens => exact ⟨token, List.mem_cons_self, h.kind_ne token List.mem_cons_self⟩

/-- A reading from a lexer with a clock, which leaves a record however it ends, and nothing if it is
cut off. -/
abbrev Watched := ReaderT Nat (ReaderT Bool
  (StateT Lexer (ExceptT SyntaxError (StateT Record Option))))

namespace Watched

open Reading

variable {α β : Type}

/-- A step that consumes nothing. -/
def look (stepper : Stepper α) : Watched α :=
  fun _ located lexer record => some (stepper located lexer, record)

/-- Consumes the current token, which goes into the record. -/
protected def advance : Watched Unit := fun _ located lexer record =>
  match Stepper.advance located lexer with
  | .ok result => some (.ok result, record.extend [lexer.token] [])
  | .error error => some (.error error, record)

/-- The clock has run down. -/
def late : Watched α := fun _ _ _ _ => none

def clock : Watched Nat := fun clock _ lexer record => some (.ok (clock, lexer), record)

/-- How many tokens have been consumed. -/
def count : Watched Nat := fun _ _ lexer record =>
  some (.ok (record.consumed.length, lexer), record)

def noteSince (mark : Nat) : Watched Unit := fun _ _ lexer record =>
  some (.ok ((), lexer), record.note mark)

/-- The round of a loop that reads an item, with a note of what the item consumed. -/
protected def round (item : Watched α) : Watched α := do
  let mark ← count
  let result ← item
  noteSince mark
  return result

/-- A call inside another one that began at the mark, with a note of what was consumed between. -/
def nested (mark : Nat) (reader : Watched α) : Watched α := do
  noteSince mark
  reader

instance : Reading Watched where
  current := look Stepper.current
  lookahead := look Stepper.lookahead
  advance := Watched.advance
  refuse token fault := look (Stepper.refuse token fault)
  lastEnd := look Stepper.lastEnd
  slice start stop := look (Stepper.slice start stop)
  spanFrom start := look (Stepper.spanFrom start)
  budget := clock
  exhausted := late
  round := Watched.round
  enclosing body := do
    let mark ← count
    body (nested mark)

/-! Running one reading after the other -/

section

variable {w : Watched α} {k : α → Watched β} {time : Nat} {located : Bool} {lexer next : Lexer}
  {record later : Record}

theorem run_bind {a : α} (h : w time located lexer record = some (.ok (a, next), later)) :
    (w >>= k) time located lexer record = k a time located next later := by
  change (w time located lexer record >>= fun result =>
    ExceptT.bindCont (fun pair => k pair.1 time located pair.2) result.1 result.2) = _
  rw [h]
  rfl

theorem run_bind_error {error : SyntaxError}
    (h : w time located lexer record = some (.error error, later)) :
    (w >>= k) time located lexer record = some (.error error, later) := by
  change (w time located lexer record >>= fun result =>
    ExceptT.bindCont (fun pair => k pair.1 time located pair.2) result.1 result.2) = _
  rw [h]
  rfl

end

/-! Conditions on records -/

/-- What may be known of a record, and stays true while the reading goes on. -/
structure Condition where
  holds : Record → Prop
  persists : ∀ {record : Record} (tokens : List Token) (stretches : List (List Token)),
    holds record → holds (record.extend tokens stretches)

namespace Condition

/-- The mark has been set. -/
def begun (mark : Nat) : Condition where
  holds record := mark ≤ record.consumed.length
  persists tokens _ h := by
    rw [Record.extend, List.length_append]
    omega

/-- Since the mark there has been progress. -/
def movedSince (mark : Nat) : Condition where
  holds record := Lively (record.consumed.drop mark)
  persists tokens _ h := by
    obtain ⟨token, htoken, hkind⟩ := h
    refine ⟨token, ?_, hkind⟩
    rw [Record.extend, List.drop_append]
    exact List.mem_append_left _ htoken

/-- Once a token of the source has been consumed, the second condition holds. -/
def Leads (before after : Condition) : Prop :=
  ∀ {record : Record} (token : Token) (tokens : List Token) (stretches : List (List Token)),
    before.holds record → token.kind ≠ .eof →
      after.holds (record.extend (token :: tokens) stretches)

theorem leads_self (condition : Condition) : condition.Leads condition :=
  fun _ _ _ h _ => condition.persists _ _ h

theorem begun_leads (mark : Nat) : (begun mark).Leads (movedSince mark) := by
  intro record token tokens stretches hmark hkind
  refine ⟨token, ?_, hkind⟩
  rw [Record.extend, List.drop_append_of_le_length hmark]
  exact List.mem_append_right _ List.mem_cons_self

end Condition

/-! Tracking -/

/-- Where a watched reading and the reader beside it stand. -/
structure Point where
  time : Nat
  setting : Setting
  cursor : Cursor
  lexer : Lexer
  record : Record

namespace Point

def watch (point : Point) (watched : Watched α) :
    Option (Except SyntaxError (α × Lexer) × Record) :=
  watched point.time point.setting.located point.lexer point.record

def read (point : Point) (reader : Reader α) : Except SyntaxError (α × Cursor) :=
  reader point.setting point.cursor

theorem watch_current (point : Point) (k : Token → Watched β) :
    point.watch (current >>= k) = point.watch (k point.lexer.token) := rfl

theorem read_current (point : Point) (k : Token → Reader β) :
    point.read (current >>= k) = point.read (k point.cursor.token) := rfl

/-- The point behind some tokens. -/
def behind (point : Point) (tokens : List Token) (stretches : List (List Token)) (last : Cursor)
    (next : Lexer) : Point :=
  { point with cursor := last, lexer := next, record := point.record.extend tokens stretches }

end Point

/-- Where a watched reading may start: in front of tokens of the source, with more time than tokens
that are left, and with fewer of them than a bound. -/
structure Ready (condition : Condition) (bound : Nat) (point : Point) : Prop where
  fits : point.setting.Fits point.cursor
  follows : point.lexer.Follows point.setting point.cursor
  inTime : point.cursor.left.length < point.time
  bounded : point.cursor.left.length < bound
  holds : condition.holds point.record

/-- From here the watched reading comes to the result of the reader, and its lexer to where the
cursor comes. It moves over tokens of the source, at least so many of them if it succeeds, and there
is progress wherever there must be. -/
def TracksAt (least : Nat) (watched : Watched α) (reader : Reader α) (point : Point) : Prop :=
  ∃ outcome tokens stretches last,
    point.watch watched = some (outcome, point.record.extend tokens stretches) ∧
    Stepper.Matches point.setting outcome (point.read reader) ∧
    (∀ stretch ∈ stretches, Lively stretch) ∧ point.setting.Moves point.cursor tokens last ∧
    ∀ result next, point.read reader = .ok (result, next) → next = last ∧ least ≤ tokens.length

def Tracks (condition : Condition) (bound least : Nat) (watched : Watched α) (reader : Reader α) :
    Prop :=
  ∀ point, Ready condition bound point → TracksAt least watched reader point

section

variable {condition before after : Condition} {bound bound' least least' : Nat} {point : Point}
  {last : Cursor} {next : Lexer} {tokens : List Token} {watched : Watched α} {reader : Reader α}
  {k : α → Watched β} {rk : α → Reader β}

theorem Ready.moves (h : Ready condition bound point)
    (hmoves : point.setting.Moves point.cursor tokens last)
    (hfollows : next.Follows point.setting last) (stretches : List (List Token)) :
    Ready condition bound (point.behind tokens stretches last next) := by
  have hlength := hmoves.length_left h.fits
  have hless : last.left.length ≤ point.cursor.left.length := by omega
  exact ⟨(hmoves.fits h.fits).1, hfollows, Nat.lt_of_le_of_lt hless h.inTime,
    Nat.lt_of_le_of_lt hless h.bounded, condition.persists tokens stretches h.holds⟩

/-- Behind a token that has been consumed. -/
theorem Ready.step (h : Ready before bound point) (hleads : before.Leads after)
    (hmoves : point.setting.Moves point.cursor tokens last)
    (hfollows : next.Follows point.setting last) (hsome : 1 ≤ tokens.length)
    (stretches : List (List Token)) :
    Ready after (bound - 1) (point.behind tokens stretches last next) := by
  have hlength := hmoves.length_left h.fits
  have hbounded := h.bounded
  have hless : last.left.length < bound - 1 := by omega
  obtain ⟨hfits, -, hinTime, -, -⟩ := h.moves hmoves hfollows stretches
  refine ⟨hfits, hfollows, hinTime, hless, ?_⟩
  cases tokens with
  | nil => simp at hsome
  | cons token tokens =>
    exact hleads token tokens stretches h.holds (hmoves.kind_ne token List.mem_cons_self)

theorem TracksAt.mono (h : TracksAt least watched reader point) (hleast : least' ≤ least) :
    TracksAt least' watched reader point := by
  obtain ⟨outcome, tokens, stretches, last, hrun, hmatches, hlively, hmoves, hok⟩ := h
  refine ⟨outcome, tokens, stretches, last, hrun, hmatches, hlively, hmoves, ?_⟩
  intro result next hresult
  obtain ⟨hnext, hlength⟩ := hok result next hresult
  exact ⟨hnext, Nat.le_trans hleast hlength⟩

theorem Tracks.mono (h : Tracks condition bound least watched reader) (hleast : least' ≤ least)
    (hbound : bound' ≤ bound) : Tracks condition bound' least' watched reader :=
  fun point hready =>
    (h point { hready with bounded := Nat.lt_of_lt_of_le hready.bounded hbound }).mono hleast

/-- One reading after the other, where the first leads to a point from which the second tracks. -/
theorem TracksAt.bind_of_ready (hp : TracksAt least watched reader point)
    (hready : ∀ tokens stretches last next, point.setting.Moves point.cursor tokens last →
      next.Follows point.setting last → least ≤ tokens.length →
      Ready after bound (point.behind tokens stretches last next))
    (hk : ∀ a, Tracks after bound (least' - least) (k a) (rk a)) :
    TracksAt least' (watched >>= k) (reader >>= rk) point := by
  obtain ⟨outcome, tokens, stretches, middle, hrun, hmatches, hlively, hmoves, hok⟩ := hp
  cases hreader : point.read reader with
  | error error =>
    have herror : point.read (reader >>= rk) = .error error := Reader.run_bind_error hreader rk
    rw [hreader] at hmatches
    cases hmatches
    refine ⟨.error error, tokens, stretches, middle, run_bind_error hrun, ?_, hlively, hmoves, ?_⟩
    · rw [herror]
      exact .error
    · intro result next hresult
      rw [herror] at hresult
      cases hresult
  | ok result =>
    obtain ⟨a, next⟩ := result
    obtain ⟨rfl, hlength⟩ := hok a next hreader
    rw [hreader] at hmatches
    cases hmatches with
    | @ok _ lexer _ hfollows =>
      have hgoes : point.read (reader >>= rk) =
          (point.behind tokens stretches next lexer).read (rk a) := Reader.run_bind hreader
      obtain ⟨outcome, others, more, last, hlater, hmatches', hlively', hmoves', hok'⟩ :=
        hk a _ (hready tokens stretches next lexer hmoves hfollows hlength)
      refine ⟨outcome, tokens ++ others, stretches ++ more, last, ?_, ?_, ?_,
        hmoves.append hmoves', ?_⟩
      · rw [← Record.extend_extend]
        exact (run_bind hrun).trans hlater
      · rw [hgoes]
        exact hmatches'
      · exact List.forall_mem_append.mpr ⟨hlively, hlively'⟩
      · intro result end' hresult
        rw [hgoes] at hresult
        obtain ⟨hend, hmore⟩ := hok' result end' hresult
        refine ⟨hend, ?_⟩
        rw [List.length_append]
        omega

theorem TracksAt.bind (h : Ready condition bound point) (hp : TracksAt least watched reader point)
    (hk : ∀ a, Tracks condition bound (least' - least) (k a) (rk a)) :
    TracksAt least' (watched >>= k) (reader >>= rk) point :=
  hp.bind_of_ready
    (fun _ stretches _ _ hmoves hfollows _ => h.moves hmoves hfollows stretches) hk

theorem Tracks.bind (hp : Tracks condition bound least watched reader)
    (hk : ∀ a, Tracks condition bound (least' - least) (k a) (rk a)) :
    Tracks condition bound least' (watched >>= k) (reader >>= rk) :=
  fun point h => .bind h (hp point h) hk

/-- What comes behind a token that has been consumed has a token less in front of it. -/
theorem Tracks.step (hleads : before.Leads after) (hp : Tracks before bound 1 watched reader)
    (hk : ∀ a, Tracks after (bound - 1) (least' - 1) (k a) (rk a)) :
    Tracks before bound least' (watched >>= k) (reader >>= rk) :=
  fun point h => (hp point h).bind_of_ready
    (fun _ stretches _ _ hmoves hfollows hsome => h.step hleads hmoves hfollows hsome stretches) hk

/-- Nothing happens to the record, and the cursor stays. -/
theorem tracksAt_of_stays {outcome : Except SyntaxError (α × Lexer)}
    (hrun : point.watch watched = some (outcome, point.record))
    (hmatches : Stepper.Matches point.setting outcome (point.read reader))
    (hstays : ∀ result next, point.read reader = .ok (result, next) →
      next = point.cursor ∧ least = 0) : TracksAt least watched reader point := by
  refine ⟨outcome, [], [], point.cursor, ?_, hmatches, by simp, .stay, ?_⟩
  · rw [Record.extend_nil, hrun]
  · intro result next hresult
    obtain ⟨hnext, hleast⟩ := hstays result next hresult
    exact ⟨hnext, Nat.le_of_eq hleast⟩

theorem TracksAt.pure (h : Ready condition bound point) (a : α) :
    TracksAt 0 (pure a) (pure a) point := by
  refine tracksAt_of_stays rfl (.ok h.follows) fun result next hresult => ?_
  cases hresult
  exact ⟨rfl, rfl⟩

theorem Tracks.pure (a : α) : Tracks condition bound 0 (pure a) (pure a) :=
  fun _ h => .pure h a

theorem Tracks.map {f : α → β} (hp : Tracks condition bound least watched reader) :
    Tracks condition bound least (f <$> watched) (f <$> reader) := by
  rw [map_eq_pure_bind, map_eq_pure_bind]
  refine hp.bind fun a => ?_
  rw [Nat.sub_self]
  exact .pure (f a)

/-! Looking and consuming -/

theorem look_tracks {stepper : Stepper α} (hstep : stepper.Simulates reader) (h : reader.Stays) :
    Tracks condition bound 0 (look stepper) reader := by
  intro point hready
  refine tracksAt_of_stays rfl (hstep _ _ _ hready.follows) fun result next hresult => ?_
  exact ⟨h point.setting point.cursor result next hresult, rfl⟩

theorem refuse_tracksAt (token : Token) (fault : SyntaxFault) :
    TracksAt least (refuse token fault : Watched α) (refuse token fault : Reader α) point := by
  refine tracksAt_of_stays rfl .error fun result next hresult => ?_
  cases hresult

theorem refuse_tracks (token : Token) (fault : SyntaxFault) :
    Tracks condition bound least (refuse token fault : Watched α) (refuse token fault : Reader α) :=
  fun _ _ => refuse_tracksAt token fault

theorem unexpected_tracks (token : Token) :
    Tracks condition bound least (unexpected token : Watched α) (unexpected token : Reader α) :=
  refuse_tracks token _

/-- What the lexer gives away is the token under the cursor. -/
theorem watch_advance (hfollows : point.lexer.Follows point.setting point.cursor)
    (h : Reader.advance point.setting point.cursor = .ok ((), last)) :
    ∃ next, next.Follows point.setting last ∧ point.watch Watched.advance =
      some (.ok ((), next), point.record.extend [point.cursor.token] []) := by
  have hmatches := Stepper.advance_simulates _ _ _ hfollows
  rw [h] at hmatches
  cases hstep : Stepper.advance point.setting.located point.lexer with
  | error error =>
    rw [hstep] at hmatches
    cases hmatches
  | ok result =>
    rw [hstep] at hmatches
    cases hmatches with
    | @ok _ next _ hnext =>
      refine ⟨next, hnext, ?_⟩
      rw [Point.watch, Watched.advance, hstep, hfollows.token]

theorem watch_advance_error {error : SyntaxError}
    (hfollows : point.lexer.Follows point.setting point.cursor)
    (h : Reader.advance point.setting point.cursor = .error error) :
    point.watch Watched.advance = some (.error error, point.record) := by
  have hmatches := Stepper.advance_simulates _ _ _ hfollows
  rw [h] at hmatches
  cases hstep : Stepper.advance point.setting.located point.lexer with
  | error other =>
    rw [hstep] at hmatches
    cases hmatches
    rw [Point.watch, Watched.advance, hstep]
  | ok result =>
    rw [hstep] at hmatches
    cases hmatches

theorem advance_tracksAt (hfollows : point.lexer.Follows point.setting point.cursor)
    (hinside : point.cursor.token.lexeme ≠ .eof) : TracksAt 1 advance advance point := by
  cases hadvance : Reader.advance point.setting point.cursor with
  | error error =>
    have herror : point.read advance = .error error := hadvance
    refine tracksAt_of_stays (watch_advance_error hfollows hadvance) ?_ fun result next hok => ?_
    · rw [herror]
      exact .error
    · rw [herror] at hok
      cases hok
  | ok result =>
    obtain ⟨⟨⟩, last⟩ := result
    have hread : point.read advance = .ok ((), last) := hadvance
    obtain ⟨next, hnext, hwatch⟩ := watch_advance hfollows hadvance
    refine ⟨.ok ((), next), [point.cursor.token], [], last, hwatch, ?_, by simp,
      .step hinside hadvance .stay, ?_⟩
    · rw [hread]
      exact .ok hnext
    · intro result last' hok
      rw [hread] at hok
      cases hok
      exact ⟨rfl, Nat.le_refl 1⟩

/-- Consuming the current token and going on. -/
theorem advance_bind_tracksAt {k : Unit → Watched β} {rk : Unit → Reader β}
    (h : Ready before bound point) (hleads : before.Leads after)
    (hinside : point.cursor.token.lexeme ≠ .eof)
    (hk : Tracks after (bound - 1) (least - 1) (k ()) (rk ())) :
    TracksAt least (advance >>= k) (advance >>= rk) point :=
  (advance_tracksAt h.follows hinside).bind_of_ready
    (fun _ stretches _ _ hmoves hfollows hsome => h.step hleads hmoves hfollows hsome stretches)
    fun _ => hk

/-- What is read from the current token on may depend on that token. -/
theorem current_bind_tracks {k : Token → Watched β} {rk : Token → Reader β}
    (h : ∀ point, Ready condition bound point →
      TracksAt least (k point.cursor.token) (rk point.cursor.token) point) :
    Tracks condition bound least (current >>= k) (current >>= rk) := by
  intro point hready
  rw [TracksAt, point.watch_current, point.read_current, hready.follows.token]
  exact h point hready

theorem peek_bind_tracks {kind : TokenKind} {k : Bool → Watched β} {rk : Bool → Reader β}
    (h : ∀ point, Ready condition bound point → TracksAt least
      (k (point.cursor.token.kind == kind)) (rk (point.cursor.token.kind == kind)) point) :
    Tracks condition bound least (peek kind >>= k) (peek kind >>= rk) := by
  rw [peek, peek, bind_assoc, bind_assoc]
  exact current_bind_tracks h

theorem lexeme_ne_eof {token : Token} {kind : TokenKind} (h : token.kind = kind)
    (hkind : kind ≠ .eof) : token.lexeme ≠ .eof := by
  intro hend
  apply hkind
  rw [← h, Token.kind, hend]
  rfl

/-- If the current token is consumed, what comes next has a token less in front of it. -/
theorem advanceIf_tracksAt {found : Bool} {k : Bool → Watched β} {rk : Bool → Reader β}
    (h : Ready before bound point) (hleads : before.Leads after)
    (hinside : found = true → point.cursor.token.lexeme ≠ .eof)
    (hfound : Tracks after (bound - 1) (least - 1) (k true) (rk true))
    (hmissing : Tracks before bound least (k false) (rk false)) :
    TracksAt least ((if found = true then do advance; return true else return false) >>= k)
      ((if found = true then do advance; return true else return false) >>= rk) point := by
  cases found with
  | true =>
    rw [if_pos rfl, if_pos rfl, bind_assoc, bind_assoc]
    exact advance_bind_tracksAt h hleads (hinside rfl) hfound
  | false => exact hmissing point h

theorem skip_bind_tracks {kind : TokenKind} {k : Bool → Watched β} {rk : Bool → Reader β}
    (hkind : kind ≠ .eof) (hleads : before.Leads after)
    (hfound : Tracks after (bound - 1) (least - 1) (k true) (rk true))
    (hmissing : Tracks before bound least (k false) (rk false)) :
    Tracks before bound least (skip kind >>= k) (skip kind >>= rk) := by
  rw [skip, skip, bind_assoc, bind_assoc]
  refine peek_bind_tracks fun point h => ?_
  exact advanceIf_tracksAt h hleads (fun hsame => lexeme_ne_eof (beq_iff_eq.mp hsame) hkind) hfound
    hmissing

theorem skipKeyword_bind_tracks {keyword : String} {k : Bool → Watched β} {rk : Bool → Reader β}
    (hleads : before.Leads after)
    (hfound : Tracks after (bound - 1) (least - 1) (k true) (rk true))
    (hmissing : Tracks before bound least (k false) (rk false)) :
    Tracks before bound least (skipKeyword keyword >>= k) (skipKeyword keyword >>= rk) := by
  rw [skipKeyword, skipKeyword, bind_assoc, bind_assoc]
  refine current_bind_tracks fun point h => ?_
  refine advanceIf_tracksAt h hleads (fun hsame hend => ?_) hfound hmissing
  rw [hend] at hsame
  cases hsame

theorem skip_tracks {kind : TokenKind} (hkind : kind ≠ .eof) :
    Tracks condition bound 0 (skip kind) (skip kind) := by
  rw [← bind_pure (skip kind : Watched Bool), ← bind_pure (skip kind : Reader Bool)]
  exact skip_bind_tracks hkind condition.leads_self (.pure true) (.pure false)

theorem skipKeyword_tracks (keyword : String) :
    Tracks condition bound 0 (skipKeyword keyword) (skipKeyword keyword) := by
  rw [← bind_pure (skipKeyword keyword : Watched Bool),
    ← bind_pure (skipKeyword keyword : Reader Bool)]
  exact skipKeyword_bind_tracks condition.leads_self (.pure true) (.pure false)

theorem current_tracks : Tracks condition bound 0 current current :=
  look_tracks Stepper.current_simulates Reader.current_stays

theorem peek_tracks (kind : TokenKind) :
    Tracks condition bound 0 (peek kind) (peek kind) :=
  current_tracks.bind fun _ => .pure _

theorem lookahead_tracks : Tracks condition bound 0 lookahead lookahead :=
  look_tracks Stepper.lookahead_simulates Reader.lookahead_stays

theorem lastEnd_tracks : Tracks condition bound 0 lastEnd lastEnd :=
  look_tracks Stepper.lastEnd_simulates Reader.lastEnd_stays

theorem slice_tracks (start stop : Nat) :
    Tracks condition bound 0 (slice start stop) (slice start stop) :=
  look_tracks (Stepper.slice_simulates start stop) (Reader.slice_stays start stop)

theorem spanFrom_tracks (start : Token) :
    Tracks condition bound 0 (spanFrom start) (spanFrom start) :=
  look_tracks (Stepper.spanFrom_simulates start) (Reader.spanFrom_stays start)

theorem expect_tracks {kind : TokenKind} (hkind : kind ≠ .eof) :
    Tracks condition bound 1 (expect kind) (expect kind) := by
  refine current_bind_tracks fun point h => ?_
  by_cases hsame : point.cursor.token.kind = kind
  · rw [if_pos (beq_iff_eq.mpr hsame), if_pos (beq_iff_eq.mpr hsame)]
    exact advance_bind_tracksAt h condition.leads_self (lexeme_ne_eof hsame hkind) (.pure _)
  · rw [if_neg (by simpa using hsame), if_neg (by simpa using hsame)]
    exact refuse_tracksAt _ _

theorem expectKeyword_tracks (keyword : String) :
    Tracks condition bound 1 (expectKeyword keyword) (expectKeyword keyword) :=
  skipKeyword_bind_tracks condition.leads_self (.pure ())
    (current_tracks.bind fun token => refuse_tracks token _)

theorem optionalItem_tracks {item : Watched α} {item' : Reader α} (kind : TokenKind)
    (hitem : Tracks condition bound least item item') :
    Tracks condition bound 0 (optionalItem kind item) (optionalItem kind item') := by
  refine (peek_tracks kind).bind fun found => ?_
  cases found with
  | true => exact (hitem.mono (Nat.zero_le _) (Nat.le_refl _)).bind fun a => .pure (some a)
  | false => exact .pure none

/-! Repetition -/

/-- An item that consumes a token leaves a lively stretch. -/
theorem round_tracks (hp : Tracks condition bound 1 watched reader) :
    Tracks condition bound 1 (round watched) (round reader) := by
  rw [Reader.round_eq]
  intro point h
  obtain ⟨outcome, tokens, stretches, last, hrun, hmatches, hlively, hmoves, hok⟩ := hp point h
  have hcount : point.watch (round watched) = point.watch (watched >>= fun result =>
      noteSince point.record.consumed.length >>= fun _ => pure result) := rfl
  cases hreader : point.read reader with
  | error error =>
    rw [hreader] at hmatches
    cases hmatches
    refine ⟨.error error, tokens, stretches, last, hcount.trans (run_bind_error hrun), ?_, hlively,
      hmoves, hok⟩
    rw [hreader]
    exact .error
  | ok result =>
    obtain ⟨a, next⟩ := result
    have hsome := (hok a next hreader).2
    rw [hreader] at hmatches
    cases hmatches with
    | @ok _ lexer _ hfollows =>
      refine ⟨.ok (a, lexer), tokens, stretches ++ [tokens], last, ?_, ?_, ?_, hmoves, hok⟩
      · rw [hcount, ← Record.note_extend]
        exact run_bind hrun
      · rw [hreader]
        exact .ok hfollows
      · exact List.forall_mem_append.mpr
          ⟨hlively, List.forall_mem_singleton.mpr (hmoves.lively hsome)⟩

/-- Inside the call around it there has been progress. -/
theorem nested_tracks {mark : Nat}
    (hp : Tracks (.movedSince mark) bound least watched reader) :
    Tracks (.movedSince mark) bound least (nested mark watched) reader := by
  intro point h
  let stretch := point.record.consumed.drop mark
  obtain ⟨outcome, tokens, stretches, last, hrun, hmatches, hlively, hmoves, hok⟩ :=
    hp (point.behind [] [stretch] point.cursor point.lexer) (h.moves .stay h.follows [stretch])
  refine ⟨outcome, tokens, [stretch] ++ stretches, last, ?_, hmatches, ?_, hmoves, hok⟩
  · refine Eq.trans hrun ?_
    rw [Point.behind, Record.extend_extend, List.nil_append]
  · exact List.forall_mem_cons.mpr ⟨h.holds, hlively⟩

/-- A call sets a mark, behind which it has yet to move. -/
theorem enclosing_tracks {body : (Watched α → Watched α) → Watched α}
    {body' : (Reader α → Reader α) → Reader α}
    (hbody : ∀ mark, Tracks (.begun mark) bound least (body (nested mark)) (body' fun p => p)) :
    Tracks condition bound least (enclosing body) (enclosing body') := by
  intro point h
  have hbegun : Ready (.begun point.record.consumed.length) bound point :=
    ⟨h.fits, h.follows, h.inTime, h.bounded, Nat.le_refl _⟩
  exact hbody point.record.consumed.length point hbegun

/-- A watched loop is given the time on the clock, and a reader more rounds than tokens are left. -/
theorem budget_bind_tracks {k : Nat → Watched α} {rk : Nat → Reader α}
    (h : ∀ rounds rounds', Tracks condition (min bound (min rounds rounds')) least (k rounds)
      (rk rounds')) :
    Tracks condition bound least (budget >>= k) (budget >>= rk) := by
  intro point hready
  have hbudget := Reader.Cursor.left_lt_budget point.cursor
  have hbounded := hready.bounded
  have htime := hready.inTime
  exact h point.time (point.cursor.rest.length + 2) point
    { hready with bounded := by omega }

theorem tracks_zero : Tracks condition 0 least watched reader :=
  fun _ h => absurd h.bounded (Nat.not_lt_zero _)

/-- A loop or a nesting tracks if each round or level does, provided that what is inside has a token
less in front of it. Then there are enough of them if there are more than tokens. -/
theorem spending_tracks {ι : Type} (conditions : ι → Condition) {watched : Nat → Watched α}
    {reader : Nat → Reader α}
    (hstep : ∀ rounds rounds' bound', bound' ≤ bound →
      (∀ i, Tracks (conditions i) (bound' - 1) least (watched rounds) (reader rounds')) →
      ∀ i, Tracks (conditions i) bound' least (watched (rounds + 1)) (reader (rounds' + 1)))
    (rounds rounds' : Nat) (i : ι) :
    Tracks (conditions i) (min bound (min rounds rounds')) least (watched rounds)
      (reader rounds') := by
  induction rounds generalizing rounds' i with
  | zero => exact tracks_zero.mono (Nat.le_refl _) (by omega)
  | succ rounds ih =>
    cases rounds' with
    | zero => exact tracks_zero.mono (Nat.le_refl _) (by omega)
    | succ rounds' =>
      refine hstep rounds rounds' _ (Nat.min_le_left _ _) (fun i => ?_) i
      exact (ih rounds' i).mono (Nat.le_refl _) (by omega)

section Items

variable {item : Watched α} {item' : Reader α} {closing delimiter : TokenKind}

theorem itemsUntil_tracks (hclosing : closing ≠ .eof)
    (hitem : Tracks condition bound 1 item item') (rounds rounds' : Nat) :
    Tracks condition (min bound (min rounds rounds')) 1 (itemsUntil closing item rounds)
      (itemsUntil closing item' rounds') := by
  refine spending_tracks (fun _ : Unit => condition) ?_ rounds rounds' ()
  intro rounds rounds' bound' hbound hothers _
  refine skip_bind_tracks hclosing condition.leads_self (.pure []) ?_
  refine (round_tracks (hitem.mono (Nat.le_refl _) hbound)).step condition.leads_self ?_
  intro first
  exact ((hothers ()).mono (Nat.zero_le _) (Nat.le_refl _)).bind fun others =>
    .pure (first :: others)

theorem itemsAfter_tracks (hdelimiter : delimiter ≠ .eof)
    (hitem : Tracks condition bound 1 item item') (rounds rounds' : Nat) :
    Tracks condition (min bound (min rounds rounds')) 0 (itemsAfter delimiter item rounds)
      (itemsAfter delimiter item' rounds') := by
  refine spending_tracks (fun _ : Unit => condition) ?_ rounds rounds' ()
  intro rounds rounds' bound' hbound hothers _
  refine skip_bind_tracks hdelimiter condition.leads_self ?_ (.pure [])
  refine (round_tracks (hitem.mono (Nat.le_refl _) (by omega))).bind fun first => ?_
  exact (hothers ()).bind fun others => .pure (first :: others)

theorem many_tracks {opening : TokenKind} (hopening : opening ≠ .eof) (hclosing : closing ≠ .eof)
    (hleads : before.Leads after) (hitem : Tracks after (bound - 1) 1 item item') :
    Tracks before bound 1 (many opening item closing) (many opening item' closing) := by
  refine (expect_tracks hopening).step hleads fun _ => ?_
  refine (round_tracks hitem).bind fun first => ?_
  refine budget_bind_tracks fun rounds rounds' => ?_
  refine (itemsUntil_tracks hclosing hitem rounds rounds').bind fun others => ?_
  exact .pure (first :: others)

theorem optionalMany_tracks {opening : TokenKind} (hopening : opening ≠ .eof)
    (hclosing : closing ≠ .eof) (hitem : Tracks condition (bound - 1) 1 item item') :
    Tracks condition bound 0 (optionalMany opening item closing)
      (optionalMany opening item' closing) := by
  refine (peek_tracks opening).bind fun found => ?_
  cases found with
  | true =>
    exact (many_tracks hopening hclosing condition.leads_self hitem).mono (Nat.zero_le _)
      (Nat.le_refl _)
  | false => exact .pure []

theorem delimited_tracks (hdelimiter : delimiter ≠ .eof)
    (hitem : Tracks condition bound 1 item item') :
    Tracks condition bound 1 (delimited delimiter item) (delimited delimiter item') := by
  refine (skip_tracks hdelimiter).bind fun _ => (round_tracks hitem).bind fun first => ?_
  refine budget_bind_tracks fun rounds rounds' => ?_
  refine (itemsAfter_tracks hdelimiter hitem rounds rounds').bind fun others => ?_
  exact .pure (first :: others)

end Items

end

end Watched

end QueryLint
