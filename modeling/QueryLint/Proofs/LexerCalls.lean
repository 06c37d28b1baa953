import QueryLint.Proofs.Tokenising

/-!
Stepping through a source. A lexer reads a token when it is first asked for and keeps it if that was
by looking ahead, so its counters can be one token ahead of where it stands, and a fault in the text
moves some of them and not others. What is still to come is a view of this state: looking ahead
leaves it alone, moving on takes its first token away, and a fault leaves it as it is for ever.
-/

namespace QueryLint

theorem Token.kind_eq_eof_iff {token : Token} : token.kind = .eof ↔ token.lexeme = .eof := by
  rw [kind]
  cases token.lexeme <;> simp [Lexeme.kind]

namespace Lexed

/-- What comes at a place of the list. The ending stands at all places behind the tokens. -/
def entry (lexed : Lexed) (count : Nat) : Except SyntaxError Token :=
  match lexed.tokens[count]? with
  | some token => .ok token
  | none => lexed.ending

def tail (lexed : Lexed) : Lexed := { lexed with tokens := lexed.tokens.tail }

/-- The list with one more token in front; nothing comes behind the end of the source. -/
def push (token : Token) (lexed : Lexed) : Lexed :=
  if token.kind = .eof then ⟨[], .ok token⟩ else { lexed with tokens := token :: lexed.tokens }

theorem entry_tail (lexed : Lexed) (count : Nat) :
    lexed.tail.entry count = lexed.entry (count + 1) := by
  simp only [entry, tail, List.getElem?_tail]

theorem entry_push_zero (token : Token) (lexed : Lexed) :
    (lexed.push token).entry 0 = .ok token := by
  unfold push
  split <;> rfl

theorem eq_fault_of_entry_zero {lexed : Lexed} {error : SyntaxError}
    (h : lexed.entry 0 = .error error) : lexed = ⟨[], .error error⟩ := by
  obtain ⟨tokens, ending⟩ := lexed
  cases tokens with
  | nil =>
    have hending : ending = .error error := h
    rw [hending]
  | cons token tokens => cases h

end Lexed

/-! Reading a token -/

/-- Which text is passed over, and how much, does not depend on the lines counted before. -/
theorem skipIgnored_of_offset_eq {mark other : Mark} (h : mark.offset = other.offset)
    (inComment : Bool) (body : Text) :
    (skipIgnored inComment mark body).2 = (skipIgnored inComment other body).2 ∧
      (skipIgnored inComment mark body).1.offset =
        (skipIgnored inComment other body).1.offset := by
  fun_induction skipIgnored inComment mark body generalizing other with
  | case1 inComment mark => exact ⟨rfl, h⟩
  | case2 inComment mark rest ih =>
    rw [skipIgnored]
    apply ih
    rw [Mark.offset_nextLine, Mark.offset_nextLine, h]
  | case3 inComment mark point rest hpair hbreak ih =>
    rw [skipIgnored_cons hpair, if_pos hbreak]
    apply ih
    rw [Mark.offset_nextLine, Mark.offset_nextLine, h]
  | case4 inComment mark point rest hpair hbreak hpass ih =>
    rw [skipIgnored_cons hpair, if_neg hbreak, if_pos hpass]
    apply ih
    rw [Mark.offset_forward, Mark.offset_forward, h]
  | case5 inComment mark rest hpair hbreak hpass ih =>
    rw [skipIgnored_cons hpair, if_neg hbreak, if_neg hpass, if_pos rfl]
    apply ih
    rw [Mark.offset_forward, Mark.offset_forward, h]
  | case6 inComment mark point rest hpair hbreak hpass hhash =>
    rw [skipIgnored_cons hpair, if_neg hbreak, if_neg hpass, if_neg hhash]
    exact ⟨rfl, h⟩

/-- A fault is found at the same place whatever lines were counted before. -/
theorem lexFrom_fault_of_offset_eq {mark other : Mark} (h : mark.offset = other.offset)
    {body : Text} {error : SyntaxError} (hfault : lexFrom mark body = ⟨[], .error error⟩) :
    lexFrom other body = ⟨[], .error error⟩ := by
  obtain ⟨hleft, hoffset⟩ := skipIgnored_of_offset_eq h false body
  rcases hskip : skipIgnored false mark body with ⟨here, _ | ⟨first, rest⟩⟩
  · rw [lexFrom_eq_end hskip] at hfault
    cases hfault
  · rcases hother : skipIgnored false other body with ⟨there, left⟩
    rw [hskip, hother] at hleft hoffset
    have hsame : here.offset = there.offset := hoffset
    have hrest : first :: rest = left := hleft
    rw [← hrest] at hother
    rcases hscan : scan first rest with misfit | ⟨lexeme, more⟩
    · rw [lexFrom_eq_fault hother hscan, ← hsame, ← lexFrom_eq_fault hskip hscan]
      exact hfault
    · rw [lexFrom_eq_cons hskip hscan] at hfault
      cases hfault

namespace Lexer

/-- The tokens of the text behind all that was read. -/
def unread (lexer : Lexer) : Lexed :=
  lexFrom lexer.mark (lexer.source.body.drop lexer.mark.offset)

/-- The tokens behind the current one: one that was read ahead, and those not read yet. -/
def ahead (lexer : Lexer) : Lexed :=
  if lexer.token.kind = .eof then ⟨[], .ok lexer.token⟩
  else
    match lexer.peeked with
    | some token => lexer.unread.push token
    | none => lexer.unread

def moved (lexer : Lexer) (mark : Mark) : Lexer := { lexer with mark := mark }

/-- Reading takes the first token off the unread text. A fault stays in front of it. -/
theorem readToken_cases (lexer : Lexer) :
    (∃ token mark, lexer.readToken = (.ok token, lexer.moved mark) ∧
      lexer.unread = (lexer.moved mark).unread.push token) ∨
    (∃ error mark, lexer.readToken = (.error error, lexer.moved mark) ∧
      lexer.unread = ⟨[], .error error⟩ ∧ (lexer.moved mark).unread = ⟨[], .error error⟩) := by
  obtain ⟨gap, ended, hbody, hoffset, -, -⟩ :=
    skipIgnored_split false lexer.mark (lexer.source.body.drop lexer.mark.offset)
  rcases hskip : skipIgnored false lexer.mark (lexer.source.body.drop lexer.mark.offset) with
    ⟨here, _ | ⟨first, rest⟩⟩
  · left
    refine ⟨here.token .eof 0, here, ?_, ?_⟩
    · rw [readToken, hskip]
      rfl
    · rw [unread, lexFrom_eq_end hskip]
      rfl
  · rw [hskip] at hbody hoffset
    rcases hscan : scan first rest with misfit | ⟨lexeme, more⟩
    · right
      have hunread : lexer.unread = _ := lexFrom_eq_fault hskip hscan
      let back : Mark := { here with offset := lexer.mark.offset }
      have hback : lexer.mark.offset = back.offset := rfl
      refine ⟨_, back, ?_, hunread, lexFrom_fault_of_offset_eq hback hunread⟩
      simp only [readToken, hskip, hscan]
      rfl
    · left
      have hrest : lexer.source.body.drop (here.offset + (more + 1)) = rest.drop more := by
        have hhere : lexer.source.body.drop here.offset = first :: rest := by
          rw [hoffset, ← List.drop_drop, hbody, List.drop_left]
        rw [← List.drop_drop, hhere, List.drop_succ_cons]
      have hinside : (here.token lexeme (more + 1)).kind ≠ .eof := by
        intro heof
        apply scan_ne_eof hscan
        cases lexeme <;> first | rfl | cases heof
      refine ⟨here.token lexeme (more + 1), here.forward (more + 1), ?_, ?_⟩
      · simp only [readToken, hskip, hscan]
        rfl
      · rw [unread, lexFrom_eq_cons hskip hscan, Lexed.push, if_neg hinside, unread, moved,
          Mark.offset_forward, hrest]

/-! Calls -/

section Ahead

variable {lexer : Lexer}

theorem ahead_of_eof (h : lexer.token.kind = .eof) : lexer.ahead = ⟨[], .ok lexer.token⟩ := by
  rw [ahead, if_pos h]

theorem ahead_of_peeked (hinside : lexer.token.kind ≠ .eof) {token : Token}
    (hpeeked : lexer.peeked = some token) : lexer.ahead = lexer.unread.push token := by
  rw [ahead, if_neg hinside, hpeeked]

theorem ahead_of_unpeeked (hinside : lexer.token.kind ≠ .eof) (hpeeked : lexer.peeked = none) :
    lexer.ahead = lexer.unread := by
  rw [ahead, if_neg hinside, hpeeked]

/-- Once a token is the current one, what comes is what stood behind it. -/
theorem ahead_of_token (lexer : Lexer) (token : Token) :
    ({ lexer with token := token, peeked := none } : Lexer).ahead =
      (lexer.unread.push token).tail := by
  by_cases heof : token.kind = .eof
  · rw [ahead_of_eof heof, Lexed.push, if_pos heof]
    rfl
  · rw [ahead_of_unpeeked heof rfl, Lexed.push, if_neg heof]
    rfl

end Ahead

/-- Looking ahead shows the first token to come, and all of them are still to come. -/
theorem lookahead_cases (lexer : Lexer) :
    (∃ token next, lexer.lookahead = (.ok token, next) ∧ lexer.ahead.entry 0 = .ok token ∧
      next.ahead = lexer.ahead ∧ next.token = lexer.token ∧ next.lastToken = lexer.lastToken ∧
      ({ next with token := token, peeked := none } : Lexer).ahead = lexer.ahead.tail) ∨
    (∃ error next, lexer.lookahead = (.error error, next) ∧ lexer.ahead = ⟨[], .error error⟩ ∧
      next.ahead = lexer.ahead ∧ next.token = lexer.token ∧
      next.lastToken = lexer.lastToken) := by
  by_cases heof : lexer.token.kind = .eof
  · left
    have hcall : lexer.lookahead = (.ok lexer.token, lexer) := by rw [lookahead, if_pos heof]
    refine ⟨lexer.token, lexer, hcall, ?_, rfl, rfl, rfl, ?_⟩
    · rw [ahead_of_eof heof]
      rfl
    · rw [ahead_of_token, ahead_of_eof heof, Lexed.push, if_pos heof]
  · cases hpeeked : lexer.peeked with
    | some token =>
      left
      have hcall : lexer.lookahead = (.ok token, lexer) := by
        rw [lookahead, if_neg heof, hpeeked]
      have hahead := ahead_of_peeked heof hpeeked
      refine ⟨token, lexer, hcall, ?_, rfl, rfl, rfl, ?_⟩
      · rw [hahead, Lexed.entry_push_zero]
      · rw [hahead, ahead_of_token]
    | none =>
      have hahead := ahead_of_unpeeked heof hpeeked
      rcases lexer.readToken_cases with ⟨token, mark, hread, hunread⟩ |
        ⟨error, mark, hread, hunread, hback⟩
      · left
        let next : Lexer := { lexer.moved mark with peeked := some token }
        have hcall : lexer.lookahead = (.ok token, next) := by
          rw [lookahead, if_neg heof, hpeeked, hread]
        have hinside : next.token.kind ≠ .eof := heof
        have hnext : next.ahead = next.unread.push token := ahead_of_peeked hinside rfl
        refine ⟨token, next, hcall, ?_, ?_, rfl, rfl, ?_⟩
        · rw [hahead, hunread, Lexed.entry_push_zero]
        · rw [hahead, hunread, hnext]
          rfl
        · rw [hahead, hunread]
          exact ahead_of_token next token
      · right
        have hcall : lexer.lookahead = (.error error, lexer.moved mark) := by
          rw [lookahead, if_neg heof, hpeeked, hread]
        have hinside : (lexer.moved mark).token.kind ≠ .eof := heof
        have hnext := ahead_of_unpeeked hinside hpeeked
        rw [hunread] at hahead
        rw [hback] at hnext
        exact ⟨error, lexer.moved mark, hcall, hahead, hnext.trans hahead.symm, rfl, rfl⟩

/-- Looking ahead shows the first token to come and changes nothing else that can be seen. -/
theorem lookahead_spec (lexer : Lexer) :
    lexer.lookahead.1 = lexer.ahead.entry 0 ∧ lexer.lookahead.2.ahead = lexer.ahead ∧
      lexer.lookahead.2.token = lexer.token ∧ lexer.lookahead.2.lastToken = lexer.lastToken := by
  rcases lexer.lookahead_cases with ⟨token, next, hcall, hfirst, hahead, htoken, hlast, -⟩ |
    ⟨error, next, hcall, hfault, hahead, htoken, hlast⟩
  · rw [hcall, hfirst]
    exact ⟨rfl, hahead, htoken, hlast⟩
  · rw [hcall, hfault]
    exact ⟨rfl, hahead.trans hfault, htoken, hlast⟩

/-- Moving on shows the first token to come, makes it the current one and takes it from those to
come. At a fault nothing moves but the last token. -/
theorem advance_spec (lexer : Lexer) :
    lexer.advance.1 = lexer.ahead.entry 0 ∧
      (∀ later, lexer.advance.2.ahead.entry later = lexer.ahead.entry (later + 1)) ∧
      (∀ token, lexer.ahead.entry 0 = .ok token → lexer.advance.2.token = token ∧
        lexer.advance.2.lastToken = lexer.token) ∧
      (∀ error, lexer.ahead.entry 0 = .error error → lexer.advance.2.token = lexer.token) := by
  let leaving : Lexer := { lexer with lastToken := lexer.token }
  have hview : leaving.ahead = lexer.ahead := rfl
  rcases leaving.lookahead_cases with ⟨token, next, hcall, hfirst, -, htoken, hlast, hmoved⟩ |
    ⟨error, next, hcall, hfault, hahead, htoken, -⟩
  · have hadvance : lexer.advance = (.ok token, { next with token := token, peeked := none }) := by
      rw [advance, hcall]
    rw [hview] at hfirst hmoved
    rw [hadvance, hfirst]
    refine ⟨rfl, fun later => ?_, fun token' hsame => ?_, fun error hfault => ?_⟩
    · rw [hmoved, Lexed.entry_tail]
    · cases hsame
      exact ⟨rfl, hlast⟩
    · cases hfault
  · have hadvance : lexer.advance = (.error error, next) := by rw [advance, hcall]
    rw [hview] at hfault hahead
    rw [hadvance, hahead, hfault]
    refine ⟨rfl, fun later => rfl, fun token htoken => ?_, fun error hsame => htoken⟩
    cases htoken

theorem call_fst (lexer : Lexer) (call : LexerCall) :
    (lexer.call call).1 = lexer.ahead.entry 0 := by
  cases call with
  | advance => exact lexer.advance_spec.1
  | lookahead => exact lexer.lookahead_spec.1

theorem call_ahead (lexer : Lexer) (call : LexerCall) (later : Nat) :
    (lexer.call call).2.ahead.entry later =
      lexer.ahead.entry (later + [call].count .advance) := by
  cases call with
  | advance => exact lexer.advance_spec.2.1 later
  | lookahead =>
    have hahead : (lexer.call .lookahead).2.ahead = lexer.ahead := lexer.lookahead_spec.2.1
    rw [hahead]
    rfl

theorem call_token_of_fault {lexer : Lexer} {error : SyntaxError}
    (h : lexer.ahead.entry 0 = .error error) (call : LexerCall) :
    (lexer.call call).2.token = lexer.token := by
  cases call with
  | advance => exact lexer.advance_spec.2.2.2 error h
  | lookahead => exact lexer.lookahead_spec.2.2.1

/-! Sequences of calls -/

/-- The answers to a sequence of calls, and the lexer behind them. -/
def run (lexer : Lexer) : List LexerCall → List (Except SyntaxError Token) × Lexer
  | [] => ([], lexer)
  | call :: calls =>
    let (answer, next) := lexer.call call
    let (answers, last) := next.run calls
    (answer :: answers, last)

theorem run_cons (lexer : Lexer) (call : LexerCall) (calls : List LexerCall) :
    lexer.run (call :: calls) =
      ((lexer.call call).1 :: ((lexer.call call).2.run calls).1,
        ((lexer.call call).2.run calls).2) := rfl

/-- Each call that moves on takes one token from those to come, and no other call takes any. -/
theorem run_ahead (lexer : Lexer) (calls : List LexerCall) (later : Nat) :
    (lexer.run calls).2.ahead.entry later =
      lexer.ahead.entry (later + calls.count .advance) := by
  induction calls generalizing lexer with
  | nil => rfl
  | cons call calls ih =>
    have hcount : ([call] ++ calls).count .advance =
        [call].count .advance + calls.count .advance := List.count_append
    change _ = lexer.ahead.entry (later + ([call] ++ calls).count .advance)
    rw [run_cons, ih, call_ahead, hcount, Nat.add_comm ([call].count _), Nat.add_assoc]

/-- In front of a fault every call meets it. -/
theorem run_of_fault {lexer : Lexer} {error : SyntaxError}
    (h : lexer.ahead.entry 0 = .error error) (calls : List LexerCall) :
    (∀ answer ∈ (lexer.run calls).1, answer = .error error) ∧
      (lexer.run calls).2.token = lexer.token := by
  induction calls generalizing lexer with
  | nil => exact ⟨by simp [run], rfl⟩
  | cons call calls ih =>
    have hnext : (lexer.call call).2.ahead.entry 0 = .error error := by
      rw [call_ahead, Lexed.eq_fault_of_entry_zero h]
      rfl
    obtain ⟨hanswers, htoken⟩ := ih hnext
    rw [run_cons, List.forall_mem_cons]
    exact ⟨⟨(lexer.call_fst call).trans h, hanswers⟩,
      htoken.trans (call_token_of_fault h call)⟩

/-- A fault that was met once stands in front of all later calls. -/
theorem ahead_of_mem_run {lexer : Lexer} {error : SyntaxError} {calls : List LexerCall}
    (h : .error error ∈ (lexer.run calls).1) :
    (lexer.run calls).2.ahead.entry 0 = .error error := by
  induction calls generalizing lexer with
  | nil => simp [run] at h
  | cons call calls ih =>
    rw [run_cons] at h ⊢
    rcases List.mem_cons.mp h with hfirst | hlater
    · have hfault : lexer.ahead.entry 0 = .error error := (hfirst.trans (lexer.call_fst call)).symm
      have hrun := run_ahead lexer (call :: calls) 0
      rw [run_cons, Lexed.eq_fault_of_entry_zero hfault] at hrun
      exact hrun
    · exact ih hlater

end Lexer

/-- What the calls of a lexer that do nothing but move on yield, one after the other. At place zero
is the start of the source. -/
def Source.advances (source : Source) : Nat → Except SyntaxError Token
  | 0 => .ok .sof
  | count + 1 => ((Lexer.ofSource source).run (List.replicate count .advance)).2.advance.1

namespace Lexer

variable {source : Source}

theorem ahead_ofSource (source : Source) : (ofSource source).ahead = source.lex := by
  have hinside : (ofSource source).token.kind ≠ .eof := fun h => by cases h
  exact ahead_of_unpeeked hinside rfl

/-- Behind the start come the tokens of the source, and behind them for ever what ends them. -/
theorem advances_succ (source : Source) (count : Nat) :
    source.advances (count + 1) = source.lex.entry count := by
  rw [Source.advances, (advance_spec _).1, run_ahead, ahead_ofSource, List.count_replicate_self,
    Nat.zero_add]

/-- The lexer stands on the token that so many moves lead to. -/
structure StandsAt (source : Source) (count : Nat) (lexer : Lexer) : Prop where
  token : source.advances count = .ok lexer.token
  lastToken : source.advances (count - 1) = .ok lexer.lastToken
  ahead : ∀ later, lexer.ahead.entry later = source.advances (count + later + 1)

theorem standsAt_ofSource (source : Source) : StandsAt source 0 (ofSource source) := by
  refine ⟨rfl, rfl, fun later => ?_⟩
  rw [ahead_ofSource, advances_succ, Nat.zero_add]

theorem StandsAt.call {count : Nat} {lexer : Lexer} (h : StandsAt source count lexer)
    {call : LexerCall} {token : Token} (hanswer : (lexer.call call).1 = .ok token) :
    StandsAt source (count + [call].count .advance) (lexer.call call).2 := by
  have hahead (later : Nat) : (lexer.call call).2.ahead.entry later =
      source.advances (count + [call].count .advance + later + 1) := by
    rw [call_ahead, h.ahead, Nat.add_comm later, ← Nat.add_assoc]
  rw [call_fst] at hanswer
  cases call with
  | advance =>
    obtain ⟨hcurrent, hlast⟩ := lexer.advance_spec.2.2.1 token hanswer
    have hfirst : source.advances (count + 1) = .ok token := (h.ahead 0).symm.trans hanswer
    exact ⟨hfirst.trans (congrArg _ hcurrent.symm), h.token.trans (congrArg _ hlast.symm), hahead⟩
  | lookahead =>
    obtain ⟨-, -, hcurrent, hlast⟩ := lexer.lookahead_spec
    exact ⟨h.token.trans (congrArg _ hcurrent.symm), h.lastToken.trans (congrArg _ hlast.symm),
      hahead⟩

theorem StandsAt.run {count : Nat} {lexer : Lexer} (h : StandsAt source count lexer)
    {calls : List LexerCall} (hcalm : ∀ answer ∈ (lexer.run calls).1, answer.isOk = true) :
    StandsAt source (count + calls.count .advance) (lexer.run calls).2 := by
  induction calls generalizing lexer count with
  | nil => exact h
  | cons call calls ih =>
    rw [run_cons, List.forall_mem_cons] at hcalm
    rcases hanswer : (lexer.call call).1 with error | token
    · rw [hanswer] at hcalm
      cases hcalm.1
    · have hcount : ([call] ++ calls).count .advance =
          [call].count .advance + calls.count .advance := List.count_append
      change StandsAt source (count + ([call] ++ calls).count .advance) _
      rw [hcount, ← Nat.add_assoc]
      exact ih (h.call hanswer) hcalm.2

/-- Looking ahead and failing never disturb the stream of tokens. Calls that only move on yield the
tokens of the source and then, for ever, the end of the source or the first fault. In any other
sequence of calls, as long as none has failed, so many moves lead to the token that they lead to
alone, with the one before as the last, and every further call shows the next. Once a call has
failed every later one fails the same way, and the current token does not change again. -/
theorem run_undisturbed (source : Source) (calls : List LexerCall) :
    let ran := (ofSource source).run calls
    let moves := calls.count .advance
    (∀ count, source.advances (count + 1) = source.lex.entry count) ∧
      (∀ token ∈ source.lex.tokens, token.kind ≠ .eof) ∧
      (∀ eof, source.lex.ending = .ok eof → eof.kind = .eof) ∧
    ((∀ answer ∈ ran.1, answer.isOk = true) →
      source.advances moves = .ok ran.2.token ∧
      source.advances (moves - 1) = .ok ran.2.lastToken ∧
      ∀ call, (ran.2.call call).1 = source.advances (moves + 1)) ∧
    ∀ error, .error error ∈ ran.1 → ∀ later,
      (∀ answer ∈ (ran.2.run later).1, answer = .error error) ∧
      (ran.2.run later).2.token = ran.2.token := by
  intro ran moves
  obtain ⟨hinside, hend⟩ := lexFrom_eof .start source.body
  refine ⟨advances_succ source, fun token htoken hkind => ?_, fun eof heof => ?_, fun hcalm => ?_,
    fun error hfailed later => run_of_fault (ahead_of_mem_run hfailed) later⟩
  · exact hinside token htoken (Token.kind_eq_eof_iff.mp hkind)
  · exact Token.kind_eq_eof_iff.mpr (hend eof heof)
  · have hstands := (standsAt_ofSource source).run hcalm
    rw [Nat.zero_add] at hstands
    refine ⟨hstands.token, hstands.lastToken, fun call => ?_⟩
    rw [call_fst]
    exact hstands.ahead 0

/-- Two tokens and a fault: looking ahead in front of the second token makes no difference, and once
looking ahead behind it has found the fault, no call leads away from it. -/
theorem run_undisturbed_at_fault :
    let source : Source := { body := "a\n#b\n&?" }
    let ran := (ofSource source).run [.lookahead, .advance, .lookahead, .advance]
    let failed := (ofSource source).run [.advance, .advance, .lookahead]
    (source.advances 2 = .ok ran.2.token ∧
      ran.2.token = ⟨.punctuator .amp, 5, 6, 3, 1⟩) ∧
    failed.1[2]? = some (.error ⟨6, .unexpectedCharacter '?'⟩) ∧
      (failed.2.run [.advance]).2.token = failed.2.token := by
  have hcalm : ∀ answer ∈ ((ofSource { body := "a\n#b\n&?" }).run
      [.lookahead, .advance, .lookahead, .advance]).1, answer.isOk = true := by decide
  have hlast : ((ofSource { body := "a\n#b\n&?" }).run [.advance, .advance, .lookahead]).1[2]? =
      some (.error ⟨6, .unexpectedCharacter '?'⟩) := rfl
  have hfailed := List.mem_of_getElem? hlast
  exact ⟨⟨((run_undisturbed _ _).2.2.2.1 hcalm).1, rfl⟩, hlast,
    ((run_undisturbed _ _).2.2.2.2 _ hfailed [.advance]).2⟩

end Lexer

end QueryLint
