import QueryLint.Proofs.Reading

/-!
Where the tokens of a source stand: one behind the other, each with a text of its own, and the end
of the source behind all of them.
-/

namespace QueryLint

/-- All tokens, with the end of the source unless a fault comes before it. -/
def Lexed.all (lexed : Lexed) : List Token :=
  lexed.tokens ++ lexed.ending.toOption.toList

theorem Tokenised.ordered {offset : Nat} {body rest : Text} {tokens : List Token}
    (h : Tokenised offset body tokens rest) :
    (∀ token ∈ tokens, offset ≤ token.start ∧ token.start < token.stop ∧
      token.stop ≤ offset + body.length) ∧
      tokens.Pairwise fun first second => first.stop ≤ second.start := by
  induction h with
  | done => exact ⟨nofun, .nil⟩
  | @token offset gap text after rest first token tokens hgap htext hafter hstart hstop _ ih =>
    simp only [List.length_append, List.length_cons]
    refine ⟨fun other hother => ?_, .cons (fun other hother => (ih.1 other hother).1) ih.2⟩
    rcases List.mem_cons.mp hother with rfl | hlater
    · omega
    · have hbounds := ih.1 other hlater
      omega

/-- The end of the source stands at the end of its text. -/
theorem lexFrom_ending (mark : Mark) (body : Text) {eof : Token}
    (h : (lexFrom mark body).ending = .ok eof) :
    eof.start = mark.offset + body.length ∧ eof.stop = mark.offset + body.length := by
  fun_induction lexFrom mark body with
  | case1 mark body here hskip =>
    obtain ⟨gap, ended, hbody, hoffset, -, -⟩ := skipIgnored_split false mark body
    rw [hskip, List.append_nil] at hbody
    rw [hskip, ← hbody] at hoffset
    cases h
    exact ⟨hoffset, hoffset⟩
  | case2 mark body here first rest hskip misfit hscan => cases h
  | case3 mark body here first rest hskip lexeme more hscan following ih =>
    obtain ⟨gap, ended, hbody, hoffset, -, -⟩ := skipIgnored_split false mark body
    rw [hskip] at hbody hoffset
    obtain ⟨text, after, rfl, rfl, -, -⟩ := scan_local hscan
    have hlength := congrArg List.length hbody
    obtain ⟨hstart, hstop⟩ := ih h
    simp only [Mark.offset_forward, List.drop_left, List.length_append, List.length_cons]
      at hstart hstop hlength hoffset
    omega

namespace Source

variable (source : Source)

theorem lex_tokens_ordered :
    (∀ token ∈ source.lex.tokens, token.start < token.stop ∧
      token.stop ≤ source.body.length) ∧
      source.lex.tokens.Pairwise fun first second => first.stop ≤ second.start := by
  obtain ⟨rest, hwhole, -⟩ := lexFrom_tokenised .start source.body
  obtain ⟨hbounds, hordered⟩ := hwhole.ordered
  refine ⟨fun token htoken => ?_, hordered⟩
  have hbound := hbounds token htoken
  have hzero : Mark.start.offset = 0 := rfl
  omega

theorem lex_ending {eof : Token} (h : source.lex.ending = .ok eof) :
    eof.start = source.body.length ∧ eof.stop = source.body.length := by
  have hending := lexFrom_ending .start source.body h
  have hzero : Mark.start.offset = 0 := rfl
  omega

/-- Two tokens of a source start at different places. -/
theorem lex_all_increasing :
    source.lex.all.Pairwise fun first second => first.start < second.start := by
  obtain ⟨hbounds, hordered⟩ := source.lex_tokens_ordered
  refine List.pairwise_append.mpr ⟨?_, ?_, ?_⟩
  · refine hordered.imp_of_mem fun hfirst _ hbehind => ?_
    exact Nat.lt_of_lt_of_le (hbounds _ hfirst).1 hbehind
  · cases source.lex.ending <;> simp [Except.toOption]
  · intro token htoken eof heof
    have hbound := hbounds token htoken
    have hok : source.lex.ending = .ok eof := by
      cases hcase : source.lex.ending <;> simp_all [Except.toOption]
    have hending := source.lex_ending hok
    omega

theorem lex_all_start_lt {before after : List Token} {earlier token : Token}
    (h : source.lex.all = before ++ token :: after) (hearlier : earlier ∈ before) :
    earlier.start < token.start := by
  have hincreasing := source.lex_all_increasing
  rw [h] at hincreasing
  exact (List.pairwise_append.mp hincreasing).2.2 earlier hearlier token List.mem_cons_self

/-- A token of a source is told by its start. -/
theorem lex_all_split_unique {before after before' after' : List Token} {token token' : Token}
    (h : source.lex.all = before ++ token :: after)
    (h' : source.lex.all = before' ++ token' :: after') (hstart : token.start = token'.start) :
    before = before' ∧ token = token' := by
  rcases List.append_eq_append_iff.mp (h.symm.trans h') with
    ⟨more, hbefore, hrest⟩ | ⟨more, hbefore, hrest⟩
  · cases more with
    | nil => exact ⟨by simpa using hbefore.symm, (List.cons.inj hrest).1⟩
    | cons other others =>
      obtain rfl : token = other := (List.cons.inj hrest).1
      have hless := source.lex_all_start_lt h' (by rw [hbefore]; simp : token ∈ before')
      omega
  · cases more with
    | nil => exact ⟨by simpa using hbefore, (List.cons.inj hrest).1.symm⟩
    | cons other others =>
      obtain rfl : token' = other := (List.cons.inj hrest).1
      have hless := source.lex_all_start_lt h (by rw [hbefore]; simp : token' ∈ before)
      omega

end Source

/-! Moving over the tokens of a source -/

namespace Setting

variable {setting : Setting} {cursor last last' : Cursor} {tokens tokens' : List Token}

/-- The token behind a move stands behind the consumed ones among all tokens of the source. -/
theorem Moves.lex_all_eq (h : setting.Moves cursor tokens last) (hfits : setting.Fits cursor)
    {before : List Token} (hbefore : setting.source.lex.tokens = before ++ cursor.left) :
    ∃ after, setting.source.lex.all = before ++ tokens ++ last.token :: after := by
  obtain ⟨hlast, hleft⟩ := h.fits hfits
  rw [Lexed.all, hbefore, hleft, ← List.append_assoc, List.append_assoc]
  by_cases hend : last.token.lexeme = .eof
  · refine ⟨[], ?_⟩
    rw [Cursor.left, if_pos hend, ← hlast.ending, (hlast.atEnd hend).2]
    rfl
  · refine ⟨last.rest ++ setting.source.lex.ending.toOption.toList, ?_⟩
    rw [Cursor.left, if_neg hend]
    rfl

theorem Moves.eq_of_tokens (h : setting.Moves cursor tokens last)
    (h' : setting.Moves cursor tokens last') : last = last' := by
  induction h with
  | stay =>
    cases h'
    rfl
  | step hinside hadvance hrest ih =>
    cases h' with
    | step hinside' hadvance' hrest' =>
      rw [hadvance] at hadvance'
      cases hadvance'
      exact ih hrest'

/-- Two moves from one place that stop at the same offset are the same. -/
theorem Moves.eq_of_start (h : setting.Moves cursor tokens last)
    (h' : setting.Moves cursor tokens' last') (hfits : setting.Fits cursor)
    (hstart : last.token.start = last'.token.start) : tokens = tokens' ∧ last = last' := by
  obtain ⟨before, hbefore⟩ := hfits.left
  obtain ⟨after, hall⟩ := h.lex_all_eq hfits hbefore.symm
  obtain ⟨after', hall'⟩ := h'.lex_all_eq hfits hbefore.symm
  obtain ⟨hsame, -⟩ := Source.lex_all_split_unique _ hall hall' hstart
  obtain rfl : tokens = tokens' := List.append_cancel_left hsame
  exact ⟨rfl, h.eq_of_tokens h'⟩

end Setting

end QueryLint
