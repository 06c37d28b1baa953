import QueryLint.Proofs.FirstMisfit
import QueryLint.Proofs.GrammarProgress

/-!
Parsing makes progress and ends. With a clock that shows more than the number of tokens, watching a
source comes to the result of parsing it. In every round of a loop and before every nested call a
token other than the end of the source has been consumed. The end of the source is consumed once,
behind all other tokens, if the source has a document, and otherwise not at all.
-/

namespace QueryLint

/-! Up to the end of the source -/

namespace Watched

open Reading Grammar

variable {condition : Condition} {bound : Nat}

instance : Ending Watched where
  exhausted_bind _ := rfl

theorem itemsBeforeEnd_tracks {α : Type} {item : Watched α} {item' : Reader α}
    (hitem : Tracks condition bound 1 item item') (rounds rounds' : Nat) :
    Tracks condition (min bound (min rounds rounds')) 0 (itemsBeforeEnd item rounds)
      (itemsBeforeEnd item' rounds') := by
  refine spending_tracks (fun _ : Unit => condition) ?_ rounds rounds' ()
  intro rounds rounds' bound' hbound hothers _
  refine (peek_tracks .eof).bind fun found => ?_
  cases found with
  | true => exact .pure []
  | false =>
    refine (round_tracks (hitem.mono (Nat.le_refl _) hbound)).step condition.leads_self ?_
    intro first
    exact (hothers ()).bind fun others => .pure (first :: others)

theorem definitions_tracks : Tracks condition bound 1 definitions definitions := by
  refine (round_tracks definition_tracks).bind fun first => ?_
  refine budget_bind_tracks fun rounds rounds' => ?_
  refine (itemsBeforeEnd_tracks definition_tracks rounds rounds').bind fun others => ?_
  exact .pure (first :: others)

end Watched

namespace Grammar

open Reading

variable {m : Type → Type} [Monad m] [Reading m]

/-- The start of the source and its definitions. -/
def opening : m (List Definition) := do
  advance
  definitions

/-- What is left to do behind the definitions: to consume the end of the source. -/
def finish (found : List Definition) : m Document := do
  advance
  return ⟨found, ← spanFrom .sof⟩

end Grammar

/-! The whole source -/

/-- Watches the reading of a whole source by a lexer at its start. The clock says how often a loop
may go on and how deep calls may be nested. -/
def Source.watch (source : Source) (located : Bool) (time : Nat) :
    Option (Except SyntaxError Document × Record) := do
  let document : Watched Document := Grammar.document
  let (outcome, record) ← document time located (.ofSource source) {}
  return (outcome.map (·.1), record)

namespace Source

open Grammar Reading Watched

variable {source : Source} {located : Bool}

/-- In front of the first token. -/
def entry (source : Source) : Cursor := ⟨.sof, 0, source.lex.tokens⟩

/-- The entry itself is in front of the source, and behind it are the tokens of the source. -/
theorem moves_from_entry {tokens : List Token} {last : Cursor}
    (h : (source.setting located).Moves source.entry tokens last) (hsome : 1 ≤ tokens.length) :
    (source.setting located).Fits last ∧ .sof :: source.lex.tokens = tokens ++ last.left := by
  cases h with
  | stay => cases hsome
  | step _ hadvance hrest =>
    obtain ⟨hfits, hleft, -⟩ := Setting.fits_of_advance rfl (List.suffix_refl _) hadvance
    obtain ⟨hlast, hsplit⟩ := hrest.fits hfits
    refine ⟨hlast, ?_⟩
    rw [List.cons_append, ← hsplit, hleft]
    rfl

/-- A lexer at the start of the source, beside the entry. -/
def point (source : Source) (located : Bool) (time : Nat) : Point :=
  ⟨time, source.setting located, source.entry, .ofSource source, {}⟩

variable {time : Nat}

/-- The start of the source and its definitions are read from the entry. -/
theorem opening_tracksAt (source : Source) (located : Bool)
    (htime : source.lex.tokens.length < time) :
    TracksAt 2 opening opening (source.point located time) := by
  have hinside : source.entry.token.lexeme ≠ .eof := Lexeme.noConfusion
  have hready (tokens : List Token) (stretches : List (List Token)) (last : Cursor) (next : Lexer)
      (hmoves : (source.setting located).Moves source.entry tokens last)
      (hfollows : next.Follows (source.setting located) last) (hsome : 1 ≤ tokens.length) :
      Ready (.begun 0) time ((source.point located time).behind tokens stretches last next) := by
    obtain ⟨hfits, hsplit⟩ := moves_from_entry hmoves hsome
    have hlength := congrArg List.length hsplit
    rw [List.length_cons, List.length_append] at hlength
    have hless : last.left.length < time := by omega
    exact ⟨hfits, hfollows, hless, hless, Nat.zero_le _⟩
  have hfollows := Lexer.follows_ofSource source located
  exact (advance_tracksAt hfollows hinside).bind_of_ready hready fun _ => definitions_tracks

theorem finish_run (point : Point) (hfits : point.setting.Fits point.cursor)
    (hfollows : point.lexer.Follows point.setting point.cursor)
    (hend : point.cursor.token.lexeme = .eof) (found : List Definition) :
    ∃ document last next, point.read (finish found) = .ok (document, last) ∧
      point.watch (finish found) =
        some (.ok (document, next), point.record.extend [point.cursor.token] []) := by
  obtain ⟨hrest, hending⟩ := hfits.atEnd hend
  let last : Cursor := ⟨point.cursor.token, point.cursor.token.stop, []⟩
  have hadvance : Reader.advance point.setting point.cursor = .ok ((), last) := by
    rw [Reader.advance, hrest, hending]
    rfl
  obtain ⟨next, hnext, hwatched⟩ := watch_advance hfollows hadvance
  obtain ⟨loc, hloc⟩ := Reader.spanFrom_looks .sof point.setting last
  have hspan := Stepper.spanFrom_simulates .sof _ _ _ hnext
  rw [hloc] at hspan
  cases hstep : Stepper.spanFrom .sof point.setting.located next with
  | error error =>
    rw [hstep] at hspan
    cases hspan
  | ok result =>
    rw [hstep] at hspan
    cases hspan with
    | @ok _ lexer _ _ =>
      refine ⟨⟨found, loc⟩, last, lexer, ?_, ?_⟩
      · rw [Point.read, finish, Reader.run_bind (p := advance) hadvance,
          Reader.run_bind (p := spanFrom _) hloc]
        rfl
      · have hlook : look (Stepper.spanFrom .sof) point.time point.setting.located next
            (point.record.extend [point.cursor.token] []) =
            some (.ok (loc, lexer), point.record.extend [point.cursor.token] []) := by
          rw [look, hstep]
        rw [Point.watch, finish, run_bind (w := advance) hwatched,
          run_bind (w := spanFrom _) hlook]
        rfl

theorem document_from_entry :
    (source.point located time).read document =
      (source.point located time).read (opening >>= finish) := by
  have hkind : source.entry.token.lexeme.kind = .sof := rfl
  change (document : Reader Document) (source.setting located) source.entry =
    (opening >>= finish : Reader Document) (source.setting located) source.entry
  rw [document_eq, run_current, ← run_advance_bind hkind, opening, bind_assoc]
  rfl

theorem watched_from_entry :
    (source.point located time).watch document =
      (source.point located time).watch (opening >>= finish) := by
  have hexpect {β : Type} (k : Token → Watched β) :
      (source.point located time).watch (expect .sof >>= k) =
        (source.point located time).watch (advance >>= fun _ => k .sof) := by
    rw [expect, bind_assoc, Point.watch_current]
    change (source.point located time).watch ((advance >>= fun _ => pure Token.sof) >>= k) = _
    rw [bind_assoc]
    rfl
  rw [document_eq, Point.watch_current, hexpect, opening, bind_assoc]
  rfl

/-- Where the definitions are refused, what has been consumed stands in front of the end. -/
theorem document_refused (htime : source.lex.tokens.length < time) {error : SyntaxError}
    (h : (source.point located time).read opening = .error error) :
    (source.point located time).read document = .error error ∧
    ∃ record, (source.point located time).watch document = some (.error error, record) ∧
      (∀ stretch ∈ record.stretches, Lively stretch) ∧
      record.consumed <+: .sof :: source.lex.tokens := by
  obtain ⟨outcome, tokens, stretches, last, hrun, hmatches, hlively, hmoves, -⟩ :=
    source.opening_tracksAt located htime
  rw [h] at hmatches
  cases hmatches
  refine ⟨?_, Record.extend {} tokens stretches, ?_, hlively, ?_⟩
  · rw [document_from_entry]
    exact Reader.run_bind_error h finish
  · rw [watched_from_entry]
    exact run_bind_error hrun
  · cases tokens with
    | nil => exact List.nil_prefix
    | cons token tokens =>
      obtain ⟨-, hsplit⟩ := moves_from_entry hmoves (Nat.succ_le_succ (Nat.zero_le _))
      rw [hsplit]
      exact List.prefix_append _ _

/-- Behind the definitions nothing is left but the end of the source. -/
theorem document_finished (htime : source.lex.tokens.length < time) {found : List Definition}
    {last : Cursor} (h : (source.point located time).read opening = .ok (found, last)) :
    ∃ result end' next record eof,
      (source.point located time).read document = .ok (result, end') ∧
      (source.point located time).watch document = some (.ok (result, next), record) ∧
      (∀ stretch ∈ record.stretches, Lively stretch) ∧ source.lex.ending = .ok eof ∧
      record.consumed = .sof :: (source.lex.tokens ++ [eof]) := by
  obtain ⟨outcome, tokens, stretches, last', hrun, hmatches, hlively, hmoves, hok⟩ :=
    source.opening_tracksAt located htime
  obtain ⟨rfl, hlength⟩ := hok found last h
  rw [h] at hmatches
  cases hmatches with
  | @ok _ lexer _ hfollows =>
    obtain ⟨-, opened, -, hdefinitions⟩ := Reader.bind_eq_ok h
    have hend := definitions_atEnd hdefinitions
    obtain ⟨hfits, hsplit⟩ := moves_from_entry hmoves (Nat.le_of_succ_le hlength)
    rw [Cursor.left, if_pos hend, List.append_nil] at hsplit
    obtain ⟨result, end', next, hfinish, hwatched⟩ :=
      finish_run ((source.point located time).behind tokens stretches last lexer) hfits hfollows
        hend found
    rw [Point.behind, Record.extend_extend, List.append_nil] at hwatched
    refine ⟨result, end', next, Record.extend {} (tokens ++ [last.token]) stretches, last.token, ?_,
      ?_, hlively, (hfits.atEnd hend).2, ?_⟩
    · rw [document_from_entry]
      exact (Reader.run_bind h).trans hfinish
    · rw [watched_from_entry]
      exact (run_bind hrun).trans hwatched
    · rw [← List.cons_append, hsplit]
      rfl

theorem parse_of_document {outcome : Except SyntaxError (Document × Cursor)}
    (h : (source.point located time).read document = outcome) :
    source.parse located = outcome.map Prod.fst := by
  change ((source.point located time).read document >>= fun result => pure result.1) = _
  rw [h]
  cases outcome <;> rfl

theorem watch_of_document {outcome : Except SyntaxError (Document × Lexer)} {record : Record}
    (h : (source.point located time).watch document = some (outcome, record)) :
    source.watch located time = some (outcome.map Prod.fst, record) := by
  change ((source.point located time).watch document >>= fun result =>
    some (result.1.map Prod.fst, result.2)) = _
  rw [h]
  rfl

/-- With more time than tokens the watched parse of any source ends, and with the result of the
parse. There is progress wherever there must be, the whole of a source with a document is consumed,
and the end of the source is consumed last or not at all. -/
theorem parse_progresses (source : Source) (located : Bool) {time : Nat}
    (htime : source.lex.tokens.length < time) :
    ∃ record, source.watch located time = some (source.parse located, record) ∧
      (∀ stretch ∈ record.stretches, ∃ token ∈ stretch, token.kind ≠ .eof) ∧
      (∀ token ∈ source.lex.tokens, token.kind ≠ .eof) ∧
      (∀ document, source.parse located = .ok document → ∃ eof, source.lex.ending = .ok eof ∧
        eof.kind = .eof ∧ record.consumed = .sof :: (source.lex.tokens ++ [eof])) ∧
      ∀ error, source.parse located = .error error →
        record.consumed <+: .sof :: source.lex.tokens := by
  obtain ⟨hinner, heof⟩ := lexFrom_eof .start source.body
  have hkinds (token : Token) (htoken : token ∈ source.lex.tokens) : token.kind ≠ .eof :=
    fun hkind => hinner token htoken (Token.lexeme_of_kind_eof hkind)
  cases hread : (source.point located time).read opening with
  | error error =>
    obtain ⟨hdocument, record, hwatched, hlively, hconsumed⟩ := document_refused htime hread
    have hparse : source.parse located = .error error := parse_of_document hdocument
    rw [hparse]
    refine ⟨record, watch_of_document hwatched, hlively, hkinds, fun document hok => ?_,
      fun _ _ => hconsumed⟩
    cases hok
  | ok result =>
    obtain ⟨found, last⟩ := result
    obtain ⟨document, end', next, record, eof, hdocument, hwatched, hlively, hending, hconsumed⟩ :=
      document_finished htime hread
    have hparse : source.parse located = .ok document := parse_of_document hdocument
    have hkind : eof.kind = .eof := by
      rw [Token.kind, heof eof hending]
      rfl
    rw [hparse]
    refine ⟨record, watch_of_document hwatched, hlively, hkinds,
      fun _ _ => ⟨eof, hending, hkind, hconsumed⟩, fun error herror => ?_⟩
    cases herror

/-- All kinds of loops and nested calls, read in full. -/
theorem parse_progresses_nested :
    let source : Source :=
      { body := "query($a:[Int!])@skip(if:[true])\x7bb\x7bc ...on T\x7bd\x7d\x7d\x7d" }
    source.lex.tokens.length < 32 ∧
    ∃ record eof, source.watch true 32 = some (source.parse, record) ∧
      record.stretches.map List.length = [1, 7, 1, 1, 5, 9, 2, 1, 5, 1, 6, 10, 31] ∧
      (∀ stretch ∈ record.stretches, ∃ token ∈ stretch, token.kind ≠ .eof) ∧
      source.lex.ending = .ok eof ∧ record.consumed = .sof :: (source.lex.tokens ++ [eof]) := by
  intro source
  have htime : source.lex.tokens.length < 32 := by decide +kernel
  have hlengths : (source.watch true 32).map (·.2.stretches.map List.length) =
      some [1, 7, 1, 1, 5, 9, 2, 1, 5, 1, 6, 10, 31] := by decide +kernel
  have hparse : source.parse.isOk = true := by decide +kernel
  obtain ⟨record, hwatch, hlively, -, hread, -⟩ := parse_progresses source true htime
  rw [hwatch] at hlengths
  cases hdocument : source.parse with
  | error error => rw [hdocument] at hparse; cases hparse
  | ok document =>
    obtain ⟨eof, hending, -, hconsumed⟩ := hread document hdocument
    rw [hdocument] at hwatch
    exact ⟨htime, record, eof, hwatch, Option.some.inj hlengths, hlively, hending, hconsumed⟩

end Source

end QueryLint
