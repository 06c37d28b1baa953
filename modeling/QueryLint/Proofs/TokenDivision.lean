import QueryLint.Proofs.LexerCalls
import QueryLint.Proofs.TokenGrammar
import QueryLint.Proofs.TokenOrder

/-!
Dividing a text into tokens. A division puts ignored text and the texts of tokens in turn, where a
comment reaches to the end of its line and no name or number is cut short. A lexer comes to the end
of a source exactly if there is a division of its text; there is never more than one, and the
tokens that the lexer yields are those of the division.
-/

namespace QueryLint

/-! Ignored text -/

/-- Text between tokens, given what follows it: code points without meaning, and comments up to the
end of their line. -/
inductive Ignored (after : Text) : Text → Prop where
  | none : Ignored after []
  | blank {point : CodePoint} {gap : Text}
      (hpoint : point ∈ ([' ', '\t', ',', '\ufeff'] : Text) ∨ IsLineBreak point)
      (hgap : Ignored after gap) : Ignored after (point :: gap)
  | comment {text gap : Text} (htext : ∀ point ∈ text, ¬IsLineBreak point)
      (hend : ∀ point ∈ (gap ++ after).head?, IsLineBreak point) (hgap : Ignored after gap) :
      Ignored after (.scalar '#' :: (text ++ gap))

theorem isBlank_iff {point : CodePoint} :
    isBlank point = true ↔ point ∈ ([' ', '\t', ',', '\ufeff'] : Text) := by
  simp [isBlank, or_assoc]

theorem gapEnd?_cons (inComment : Bool) (point : CodePoint) (gap : Text) :
    gapEnd? inComment (point :: gap) =
      if IsLineBreak point then gapEnd? false gap
      else if inComment || isBlank point then gapEnd? inComment gap
      else if point = '#' then gapEnd? true gap
      else none := rfl

theorem gapEnd?_comment {text : Text} (htext : ∀ point ∈ text, ¬IsLineBreak point)
    (gap : Text) : gapEnd? true (text ++ gap) = gapEnd? true gap := by
  induction text with
  | nil => rfl
  | cons point text ih =>
    obtain ⟨hpoint, htext⟩ := List.forall_mem_cons.mp htext
    rw [List.cons_append, gapEnd?_cons, if_neg hpoint, Bool.true_or, if_pos rfl, ih htext]

theorem Ignored.gapEnd? {after gap : Text} (h : Ignored after gap) :
    ∃ ended, QueryLint.gapEnd? false gap = some ended ∧
      (ended = true → ∀ point ∈ after.head?, IsLineBreak point) := by
  induction h with
  | none => exact ⟨false, rfl, fun htrue => by cases htrue⟩
  | blank hpoint hgap ih =>
    obtain ⟨ended, hended, hafter⟩ := ih
    refine ⟨ended, ?_, hafter⟩
    rw [gapEnd?_cons]
    split
    · exact hended
    · rename_i hbreak
      rw [isBlank_iff.mpr (hpoint.resolve_right hbreak), Bool.or_true, if_pos rfl, hended]
  | @comment text gap htext hend hgap ih =>
    obtain ⟨ended, hended, hafter⟩ := ih
    have hstart : QueryLint.gapEnd? false (.scalar '#' :: (text ++ gap)) =
        QueryLint.gapEnd? true (text ++ gap) := rfl
    rw [hstart, gapEnd?_comment htext]
    cases gap with
    | nil => exact ⟨true, rfl, fun _ => hend⟩
    | cons point gap =>
      have hbreak : IsLineBreak point := hend point rfl
      rw [gapEnd?_cons, if_pos hbreak] at hended ⊢
      exact ⟨ended, hended, hafter⟩

/-- What is passed over is ignored text, behind the rest of a comment if it starts inside one. -/
theorem ignored_of_gapEnd? {after : Text} {ended : Bool}
    (hafter : ended = true → ∀ point ∈ after.head?, IsLineBreak point) (gap : Text) :
    (gapEnd? false gap = some ended → Ignored after gap) ∧
      (gapEnd? true gap = some ended → ∃ text left, gap = text ++ left ∧
        (∀ point ∈ text, ¬IsLineBreak point) ∧
        (∀ point ∈ (left ++ after).head?, IsLineBreak point) ∧ Ignored after left) := by
  induction gap with
  | nil =>
    refine ⟨fun _ => .none, fun h => ⟨[], [], rfl, by simp, hafter ?_, .none⟩⟩
    exact (Option.some.inj h).symm
  | cons point gap ih =>
    simp only [gapEnd?_cons, Bool.false_or, Bool.true_or, if_true]
    by_cases hbreak : IsLineBreak point
    · have hnext (h : gapEnd? false gap = some ended) : Ignored after (point :: gap) :=
        .blank (.inr hbreak) (ih.1 h)
      simp only [hbreak, if_true]
      refine ⟨hnext, fun h => ⟨[], point :: gap, rfl, by simp, fun other hother => ?_, hnext h⟩⟩
      obtain rfl : point = other := by simpa using hother
      exact hbreak
    · simp only [hbreak, if_false]
      constructor
      · intro h
        split at h
        · rename_i hblank
          exact .blank (.inl (isBlank_iff.mp hblank)) (ih.1 h)
        · split at h
          · rename_i hhash
            obtain ⟨text, left, rfl, hclear, hend, hleft⟩ := ih.2 h
            rw [hhash]
            exact .comment hclear hend hleft
          · cases h
      · intro h
        obtain ⟨text, left, rfl, hclear, hend, hleft⟩ := ih.2 h
        exact ⟨point :: text, left, rfl, List.forall_mem_cons.mpr ⟨hbreak, hclear⟩, hend, hleft⟩

theorem ignored_iff {after gap : Text} :
    Ignored after gap ↔ ∃ ended, gapEnd? false gap = some ended ∧
      (ended = true → ∀ point ∈ after.head?, IsLineBreak point) :=
  ⟨Ignored.gapEnd?, fun ⟨_, hgap, hafter⟩ => (ignored_of_gapEnd? hafter gap).1 hgap⟩

/-! Divisions -/

/-- The text of a token with the ignored text in front of it. -/
structure Segment where
  gap : Text
  lexeme : Lexeme
  text : Text

/-- The text is that of the segments, with the ignored rest behind them. -/
inductive Divided : Text → List Segment → Text → Prop where
  | rest {rest : Text} (hrest : Ignored [] rest) : Divided rest [] rest
  | token {gap text after rest : Text} {lexeme : Lexeme} {segments : List Segment}
      (hgap : Ignored (text ++ after) gap) (htext : TokenText lexeme text)
      (hafter : ∀ point ∈ after.head?, ¬lexeme.GoesOn point) (hmore : Divided after segments rest) :
      Divided (gap ++ (text ++ after)) (⟨gap, lexeme, text⟩ :: segments) rest

/-- The tokens of segments that start at an offset, with their own starts and ends. -/
def places (offset : Nat) : List Segment → List (Lexeme × Nat × Nat)
  | [] => []
  | segment :: segments =>
    let start := offset + segment.gap.length
    let stop := start + segment.text.length
    (segment.lexeme, start, stop) :: places stop segments

def Token.place (token : Token) : Lexeme × Nat × Nat := (token.lexeme, token.start, token.stop)

/-- A text that is listed up to its end can be divided. -/
theorem Tokenised.divided {offset : Nat} {body rest : Text} {tokens : List Token}
    (h : Tokenised offset body tokens rest) {ended : Bool}
    (hrest : gapEnd? false rest = some ended) : ∃ segments, Divided body segments rest := by
  induction h with
  | done => exact ⟨[], .rest (ignored_iff.mpr ⟨ended, hrest, by simp⟩)⟩
  | @token offset gap text after rest first token tokens hgap htext hafter hstart hstop _ ih =>
    obtain ⟨segments, hsegments⟩ := ih hrest
    have hignored : Ignored (first :: text ++ after) gap :=
      ignored_iff.mpr ⟨false, hgap, fun hfalse => by cases hfalse⟩
    exact ⟨⟨gap, token.lexeme, first :: text⟩ :: segments,
      .token hignored htext.tokenText (Lexeme.mayPrecede_iff.mp hafter) hsegments⟩

/-- A comment does not reach into a token. -/
theorem Ignored.gapEnd?_of_writes {gap text after : Text} {first : CodePoint} {lexeme : Lexeme}
    (hgap : Ignored (first :: text ++ after) gap) (hwrites : lexeme.Writes first text)
    (hafter : lexeme.MayPrecede after) : QueryLint.gapEnd? false gap = some false := by
  obtain ⟨ended, hended, hbreak⟩ := hgap.gapEnd?
  cases ended with
  | false => exact hended
  | true =>
    have hstart := isIgnorable_of_scan (hwrites after hafter)
    rcases hbreak rfl first rfl with rfl | rfl <;> exact absurd hstart (by decide)

/-- A text that is divided is listed as its tokens, up to its end. -/
theorem Divided.lexFrom_eq {body rest : Text} {segments : List Segment}
    (h : Divided body segments rest) (mark : Mark) :
    (lexFrom mark body).tokens.map Token.place = places mark.offset segments ∧
      ∃ eof, (lexFrom mark body).ending = .ok eof := by
  induction h generalizing mark with
  | rest hrest =>
    obtain ⟨ended, hended, -⟩ := hrest.gapEnd?
    obtain ⟨eof, heof⟩ := lexFrom_of_gap hended mark
    exact ⟨by rw [heof]; rfl, eof, by rw [heof]⟩
  | @token gap text after rest lexeme segments hgap htext hafter hmore ih =>
    obtain ⟨first, text, rfl, hwrites⟩ := htext.writes
    have hfollows := Lexeme.mayPrecede_iff.mpr hafter
    have hended := hgap.gapEnd?_of_writes hwrites hfollows
    obtain ⟨token, next, hlexeme, hstart, hstop, hnext, hlex⟩ :=
      lexFrom_of_token hended hwrites hfollows mark
    obtain ⟨htokens, heof⟩ := ih next
    rw [List.cons_append, hlex]
    refine ⟨?_, heof⟩
    rw [List.map_cons, htokens, hnext, hstop, hstart]
    simp only [places, Token.place, hlexeme, hstart, hstop, List.length_cons]

/-- The tokens with their places tell the division. -/
theorem Divided.eq_of_places {body rest rest' : Text} {segments segments' : List Segment}
    (h : Divided body segments rest) (h' : Divided body segments' rest') {offset : Nat}
    (hplaces : places offset segments = places offset segments') :
    segments = segments' ∧ rest = rest' := by
  induction h generalizing segments' offset with
  | rest hrest =>
    cases h' with
    | rest hrest' => exact ⟨rfl, rfl⟩
    | token hgap' htext' hafter' hmore' => cases hplaces
  | @token gap text after rest lexeme segments hgap htext hafter hmore ih =>
    generalize hbody : gap ++ (text ++ after) = body at h'
    cases h' with
    | rest hrest' => cases hplaces
    | @token gap' text' after' _ lexeme' segments' hgap' htext' hafter' hmore' =>
      simp only [places, List.cons.injEq, Prod.mk.injEq] at hplaces
      obtain ⟨⟨rfl, hstart, hstop⟩, hlater⟩ := hplaces
      obtain ⟨rfl, hbehind⟩ := List.append_inj hbody (by omega)
      obtain ⟨rfl, rfl⟩ := List.append_inj hbehind (by omega)
      obtain ⟨rfl, rfl⟩ := ih hmore' hlater
      exact ⟨rfl, rfl⟩

theorem Divided.unique {body rest rest' : Text} {segments segments' : List Segment}
    (h : Divided body segments rest) (h' : Divided body segments' rest') :
    segments = segments' ∧ rest = rest' :=
  h.eq_of_places h' ((h.lexFrom_eq .start).1.symm.trans (h'.lexFrom_eq .start).1)

/-! Single tokens -/

/-- Each token of a text stands where it says, with a text of its form. -/
theorem Tokenised.tokenText {offset : Nat} {body rest : Text} {tokens : List Token}
    (h : Tokenised offset body tokens rest) {token : Token} (htoken : token ∈ tokens) :
    ∃ front text after, body = front ++ (text ++ after) ∧
      token.start = offset + front.length ∧ token.stop = token.start + text.length ∧
      TokenText token.lexeme text := by
  obtain ⟨before, later, rfl⟩ := List.append_of_mem htoken
  obtain ⟨front, left, rfl, hstart, hleft⟩ := h.behind
  generalize htokens : token :: later = tokens at hleft
  cases hleft with
  | done => cases htokens
  | @token _ gap text after _ first other _ hgap htext hafter hgapped hstop hrest =>
    obtain ⟨rfl, rfl⟩ := List.cons.inj htokens
    obtain rfl : gap = [] := List.length_eq_zero_iff.mp (by omega)
    exact ⟨front, first :: text, after, rfl, hstart, hstop, htext.tokenText⟩

theorem Source.tokenText_of_mem_lex {source : Source} {token : Token}
    (h : token ∈ source.lex.tokens) :
    ∃ front text after, source.body = front ++ (text ++ after) ∧ token.start = front.length ∧
      token.stop = token.start + text.length ∧ TokenText token.lexeme text := by
  obtain ⟨rest, hwhole, -⟩ := lexFrom_tokenised .start source.body
  obtain ⟨front, text, after, hbody, hstart, hstop, htext⟩ := hwhole.tokenText h
  have hzero : Mark.start.offset = 0 := rfl
  exact ⟨front, text, after, hbody, by omega, hstop, htext⟩

/-- A source that is the text of one token is listed as that token. -/
theorem TokenText.lex_eq {lexeme : Lexeme} {source : Source} (h : TokenText lexeme source.body) :
    let size := source.body.length
    source.lex = ⟨[⟨lexeme, 0, size, 1, 1⟩], .ok ⟨.eof, size, size, 1, size + 1⟩⟩ := by
  intro size
  obtain ⟨first, more, hbody, hwrites⟩ := h.writes
  have hscan := hwrites [] lexeme.mayPrecede_nil
  rw [List.append_nil] at hscan
  have hskip : skipIgnored false .start (first :: more) = (.start, first :: more) :=
    skipIgnored_of_not_ignorable (isIgnorable_of_scan hscan) _ _
  have hend (mark : Mark) : lexFrom mark (more.drop more.length) =
      ⟨[], .ok (mark.token .eof 0)⟩ := by
    rw [List.drop_length]
    exact lexFrom_eq_end rfl
  have hsize : size = more.length + 1 := by rw [← List.length_cons, ← hbody]
  rw [Source.lex, hbody, lexFrom_eq_cons hskip hscan, hend, hsize]
  simp [Mark.token, Mark.forward, Mark.start]

/-! Lexing up to the end of the source -/

theorem Lexed.entry_of_ending {lexed : Lexed} {eof : Token} (h : lexed.ending = .ok eof)
    (count : Nat) : lexed.entry count = .ok (lexed.tokens.getD count eof) := by
  rw [entry, List.getD_eq_getElem?_getD]
  cases lexed.tokens[count]? with
  | none => exact h
  | some token => rfl

namespace Source

variable (source : Source)

/-- A walk that comes to the end of the source has met no fault. -/
theorem exists_advances_eof_iff :
    (∃ count token, source.advances count = .ok token ∧ token.kind = .eof) ↔
      ∃ eof, source.lex.ending = .ok eof := by
  obtain ⟨hinside, hend⟩ := lexFrom_eof .start source.body
  constructor
  · rintro ⟨count, token, hanswer, hkind⟩
    cases count with
    | zero =>
      cases hanswer
      cases hkind
    | succ count =>
      rw [Lexer.advances_succ, Lexed.entry] at hanswer
      split at hanswer
      · rename_i found hfound
        cases hanswer
        exact absurd (Token.kind_eq_eof_iff.mp hkind) (hinside _ (List.mem_of_getElem? hfound))
      · exact ⟨token, hanswer⟩
  · rintro ⟨eof, heof⟩
    refine ⟨source.lex.tokens.length + 1, eof, ?_, Token.kind_eq_eof_iff.mpr (hend eof heof)⟩
    rw [Lexer.advances_succ, Lexed.entry_of_ending heof]
    simp

/-- Lexing is exact. Moving on comes to the end of a source if and only if its text can be divided
into ignored text and the texts of tokens. The division is then unique, and moving on yields its
tokens in order, each with the kind and value of its form and with its text's start and end, and
then for ever the end of the source, which stands at the end of the text. -/
theorem lex_exact :
    ((∃ count token, source.advances count = .ok token ∧ token.kind = .eof) ↔
      ∃ segments rest, Divided source.body segments rest) ∧
    ∀ segments rest, Divided source.body segments rest →
      (∀ segments' rest', Divided source.body segments' rest' →
        segments' = segments ∧ rest' = rest) ∧
      ∃ (tokens : List Token) (eof : Token), tokens.map Token.place = places 0 segments ∧
        eof.place = (.eof, source.body.length, source.body.length) ∧
        ∀ count, source.advances (count + 1) = .ok (tokens.getD count eof) := by
  rw [source.exists_advances_eof_iff]
  refine ⟨⟨?_, ?_⟩, fun segments rest hdivided => ⟨fun segments' rest' hother => ?_, ?_⟩⟩
  · rintro ⟨eof, heof⟩
    obtain ⟨rest, htokens, hrest⟩ := lexFrom_tokenised .start source.body
    obtain ⟨ended, hended⟩ := hrest eof heof
    obtain ⟨segments, hsegments⟩ := htokens.divided hended
    exact ⟨segments, rest, hsegments⟩
  · rintro ⟨segments, rest, hdivided⟩
    exact (hdivided.lexFrom_eq .start).2
  · exact hother.unique hdivided
  · obtain ⟨htokens, eof, heof⟩ := hdivided.lexFrom_eq .start
    obtain ⟨hstart, hstop⟩ := source.lex_ending heof
    have hlexeme := (lexFrom_eof .start source.body).2 eof heof
    refine ⟨source.lex.tokens, eof, htokens, ?_, fun count => ?_⟩
    · rw [Token.place, hlexeme, hstart, hstop]
    · rw [Lexer.advances_succ]
      exact Lexed.entry_of_ending heof count

/-- A name, a comment up to the end of its line and a number. -/
theorem lex_exact_around_comment :
    let source : Source := { body := "a#b\n-1.5," }
    let segments : List Segment := [⟨[], .name "a", "a"⟩, ⟨"#b\n", .float "-1.5", "-1.5"⟩]
    Divided source.body segments "," ∧
      (∃ count token, source.advances count = .ok token ∧ token.kind = .eof) ∧
      ∃ (tokens : List Token) (eof : Token),
        tokens.map Token.place = [(.name "a", 0, 1), (.float "-1.5", 4, 8)] ∧
          eof.place = (.eof, 9, 9) ∧
          ∀ count, source.advances (count + 1) = .ok (tokens.getD count eof) := by
  have hinteger : IsInteger ['1'] := .inr ⟨⟨by simp, by simp⟩, by simp⟩
  have hfraction : IsFraction ['.', '5'] := .inr ⟨['5'], rfl, by simp, by simp⟩
  have hnumber : TokenText (.float "-1.5") "-1.5" :=
    .float rfl (.inr rfl) hinteger hfraction (.inl rfl) (.inl (by simp))
  have hname : TokenText (.name "a") "a" := .name ⟨'a', [], rfl, .inr rfl, by simp⟩
  have hblank : Ignored [] [','] := .blank (.inl (by simp)) .none
  have hclear : ∀ point ∈ (['b'] : Text), ¬IsLineBreak point :=
    List.forall_mem_singleton.mpr (by decide)
  have hcomment : Ignored ['-', '1', '.', '5', ','] ['#', 'b', '\n'] :=
    .comment hclear (fun point hpoint => by cases hpoint; exact .inl rfl)
      (.blank (.inr (.inl rfl)) .none)
  have hfirst : ∀ point ∈ (['#', 'b', '\n', '-', '1', '.', '5', ','] : Text).head?,
      ¬Lexeme.GoesOn (.name "a") point :=
    Lexeme.mayPrecede_iff.mp fun point hpoint => by cases hpoint; rfl
  have hsecond : ∀ point ∈ ([','] : Text).head?, ¬Lexeme.GoesOn (.float "-1.5") point :=
    Lexeme.mayPrecede_iff.mp fun point hpoint => by cases hpoint; rfl
  have hdivided : Divided ['a', '#', 'b', '\n', '-', '1', '.', '5', ',']
      [⟨[], .name "a", "a"⟩, ⟨['#', 'b', '\n'], .float "-1.5", "-1.5"⟩] [','] :=
    .token .none hname hfirst (.token hcomment hnumber hsecond (.rest hblank))
  have hexact := lex_exact { body := "a#b\n-1.5," }
  exact ⟨hdivided, hexact.1.mpr ⟨_, _, hdivided⟩, (hexact.2 _ _ hdivided).2⟩

end Source

end QueryLint
