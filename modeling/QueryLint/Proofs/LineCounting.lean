import QueryLint.Proofs.LexerCalls
import QueryLint.Proofs.TokenGrammar
import QueryLint.Proofs.TokenOrder

/-!
Lines and columns. The place of an offset is found by going through all the text in front of it; a
lexer counts as it goes, line breaks in ignored text and nothing in tokens. Both come to the same
place, since a lexer never stops inside a line break and no token holds one.
-/

namespace QueryLint

namespace LineColumn

theorem advance_cons {point : CodePoint} {rest : Text}
    (hpair : ∀ tail, point = '\r' → rest = .scalar '\n' :: tail → False) (place : LineColumn) :
    place.advance (point :: rest) =
      if IsLineBreak point then place.nextLine.advance rest else place.nextColumn.advance rest := by
  rw [advance]
  · rfl
  · exact hpair

theorem not_pair_append {point : CodePoint} {rest after : Text}
    (hpair : ∀ tail, point = '\r' → rest = .scalar '\n' :: tail → False)
    (hwhole : (point :: rest).getLast? = some (.scalar '\r') → after.head? ≠ some (.scalar '\n')) :
    ∀ tail, point = '\r' → rest ++ after = .scalar '\n' :: tail → False := by
  intro tail hreturn hfeed
  cases rest with
  | nil => exact hwhole (by simp [hreturn]) (by simpa using congrArg List.head? hfeed)
  | cons next rest => exact hpair rest hreturn (by rw [(List.cons.inj hfeed).1])

/-- A text can be gone through in two parts unless they divide a line break. -/
theorem advance_append {before after : Text}
    (hwhole : before.getLast? = some (.scalar '\r') → after.head? ≠ some (.scalar '\n'))
    (place : LineColumn) :
    place.advance (before ++ after) = (place.advance before).advance after := by
  induction place, before using advance.induct with
  | case1 place => rfl
  | case2 place rest ih => exact ih fun hlast => hwhole (by simp [List.getLast?_cons, hlast])
  | case3 place point rest hpair hbreak ih =>
    have hbreak : IsLineBreak point := hbreak
    have hlater := ih fun hlast => hwhole (by simp [List.getLast?_cons, hlast])
    rw [List.cons_append, advance_cons (not_pair_append hpair hwhole), advance_cons hpair,
      if_pos hbreak, if_pos hbreak, hlater]
  | case4 place point rest hpair hbreak ih =>
    have hbreak : ¬IsLineBreak point := hbreak
    have hlater := ih fun hlast => hwhole (by simp [List.getLast?_cons, hlast])
    rw [List.cons_append, advance_cons (not_pair_append hpair hwhole), advance_cons hpair,
      if_neg hbreak, if_neg hbreak, hlater]

theorem advance_of_clear {text : Text} (h : ∀ point ∈ text, ¬IsLineBreak point)
    (place : LineColumn) : place.advance text = ⟨place.line, place.column + text.length⟩ := by
  induction text generalizing place with
  | nil => rfl
  | cons point text ih =>
    obtain ⟨hpoint, htext⟩ := List.forall_mem_cons.mp h
    rw [advance_cons fun _ hreturn _ => hpoint (.inr hreturn), if_neg hpoint, ih htext,
      List.length_cons, Nat.add_comm text.length, ← Nat.add_assoc]
    rfl

end LineColumn

namespace Mark

/-- The mark counts the lines of the text in front of it, and does not stand inside a line break. -/
structure Between (mark : Mark) (before after : Text) : Prop where
  offset : mark.offset = before.length
  lineStart : mark.lineStart ≤ mark.offset
  place : LineColumn.start.advance before = ⟨mark.line, mark.offset - mark.lineStart + 1⟩
  whole : before.getLast? = some (.scalar '\r') → after.head? ≠ some (.scalar '\n')

variable {mark : Mark} {before after : Text}

theorem between_start (body : Text) : Mark.start.Between [] body :=
  ⟨rfl, Nat.le_refl 0, rfl, by simp⟩

theorem Between.forward (text : Text) (h : mark.Between before (text ++ after))
    (htext : ∀ point ∈ text, ¬IsLineBreak point) :
    (mark.forward text.length).Between (before ++ text) after := by
  obtain ⟨hoffset, hlineStart, hplace, hwhole⟩ := h
  refine ⟨?_, ?_, ?_, fun hlast => ?_⟩
  · rw [offset_forward, hoffset, List.length_append]
  · exact Nat.le_trans hlineStart (Nat.le_add_right _ _)
  · rw [LineColumn.advance_append fun hlast => ?_, hplace, LineColumn.advance_of_clear htext]
    · simp only [Mark.forward, LineColumn.mk.injEq, true_and]
      omega
    · cases text with
      | nil => simp
      | cons point text => exact hwhole hlast
  · cases text with
    | nil => exact hwhole (by simpa using hlast)
    | cons point text =>
      have hreturn : .scalar '\r' ∈ point :: text := List.mem_of_getLast? (by simpa using hlast)
      exact absurd (.inr rfl) (htext _ hreturn)

theorem Between.nextLine (lineBreak : Text) (h : mark.Between before (lineBreak ++ after))
    (hbreak : ∀ place : LineColumn, place.advance lineBreak = place.nextLine)
    (hwhole : lineBreak.getLast? = some (.scalar '\r') → after.head? ≠ some (.scalar '\n')) :
    (mark.nextLine lineBreak.length).Between (before ++ lineBreak) after := by
  obtain ⟨point, more, rfl⟩ : ∃ point more, lineBreak = point :: more := by
    cases lineBreak with
    | nil => exact absurd (hbreak .start) (by decide)
    | cons point more => exact ⟨point, more, rfl⟩
  have hfits : before.getLast? = some (.scalar '\r') →
      (point :: more).head? ≠ some (.scalar '\n') := h.whole
  refine ⟨?_, Nat.le_refl _, ?_, fun hlast => ?_⟩
  · rw [offset_nextLine, h.offset, List.length_append]
  · rw [LineColumn.advance_append hfits, hbreak, h.place]
    simp [Mark.nextLine, LineColumn.nextLine]
  · exact hwhole (by simpa [List.getLast?_append, List.getLast?_cons] using hlast)

/-- Passing over ignored text keeps the count. -/
theorem Between.skipIgnored {body : Text} (h : mark.Between before body)
    (inComment : Bool) :
    ∃ gap, body = gap ++ (QueryLint.skipIgnored inComment mark body).2 ∧
      (QueryLint.skipIgnored inComment mark body).1.Between (before ++ gap)
        (QueryLint.skipIgnored inComment mark body).2 := by
  have hgrow {before passed body rest : Text} {here : Mark}
      (h : ∃ gap, body = gap ++ rest ∧ here.Between (before ++ passed ++ gap) rest) :
      ∃ gap, passed ++ body = gap ++ rest ∧ here.Between (before ++ gap) rest := by
    obtain ⟨gap, rfl, hgap⟩ := h
    exact ⟨passed ++ gap, by simp, by simpa using hgap⟩
  -- in each step a line break or another code point goes over to the text in front
  fun_induction QueryLint.skipIgnored inComment mark body generalizing before with
  | case1 inComment mark => exact ⟨[], rfl, by simpa using h⟩
  | case2 inComment mark rest ih =>
    exact hgrow (ih (h.nextLine (['\r', '\n'] : Text) (fun _ => rfl) (by simp)))
  | case3 inComment mark point rest hpair hbreak ih =>
    have hbreak : IsLineBreak point := hbreak
    have hline (place : LineColumn) : place.advance [point] = place.nextLine := by
      rw [LineColumn.advance_cons (by simp), if_pos hbreak]
      rfl
    have hwhole : [point].getLast? = some (.scalar '\r') → rest.head? ≠ some (.scalar '\n') := by
      intro hlast hfeed
      obtain ⟨tail, hrest⟩ := List.head?_eq_some_iff.mp hfeed
      exact hpair tail (by simpa using hlast) hrest
    exact hgrow (ih (h.nextLine [point] hline hwhole))
  | case4 inComment mark point rest hpair hbreak hpass ih =>
    exact hgrow (ih (h.forward [point] (List.forall_mem_singleton.mpr hbreak)))
  | case5 inComment mark rest hpair hbreak hpass ih =>
    exact hgrow (ih (h.forward [.scalar '#'] (List.forall_mem_singleton.mpr hbreak)))
  | case6 inComment mark point rest hpair hbreak hpass hhash => exact ⟨[], rfl, by simpa using h⟩

/-- A token says where it starts. -/
theorem Between.token (h : mark.Between before after) (lexeme : Lexeme) (size : Nat) :
    LineColumn.start.advance ((before ++ after).take (mark.token lexeme size).start) =
      ⟨(mark.token lexeme size).line, (mark.token lexeme size).column⟩ := by
  have hstart : (mark.token lexeme size).start = before.length := h.offset
  rw [hstart, List.take_left, h.place]
  rfl

end Mark

/-- Listing the tokens of a text keeps the count from token to token. -/
theorem lexFrom_places (mark : Mark) (body : Text) :
    ∀ before, mark.Between before body → ∀ token ∈ (lexFrom mark body).all,
      LineColumn.start.advance ((before ++ body).take token.start) =
        ⟨token.line, token.column⟩ := by
  fun_induction lexFrom mark body with
  | case1 mark body here hskip =>
    intro before h token htoken
    obtain ⟨gap, hbody, hhere⟩ := h.skipIgnored false
    rw [hskip] at hbody hhere
    obtain rfl : token = here.token .eof 0 := by simpa [Lexed.all, Except.toOption] using htoken
    rw [hbody, ← List.append_assoc]
    exact hhere.token .eof 0
  | case2 mark body here first rest hskip misfit hscan => simp [Lexed.all, Except.toOption]
  | case3 mark body here first rest hskip lexeme more hscan following ih =>
    intro before h token htoken
    obtain ⟨gap, hbody, hhere⟩ := h.skipIgnored false
    rw [hskip] at hbody hhere
    obtain ⟨text, after, rfl, rfl, -, hwrites⟩ := scan_local hscan
    rw [List.drop_left] at ih
    have hsplit : before ++ body = before ++ gap ++ (first :: text ++ after) := by
      rw [hbody, List.append_assoc]
      rfl
    rw [hsplit]
    rcases List.mem_cons.mp htoken with rfl | hlater
    · exact hhere.token lexeme (text.length + 1)
    · rw [← List.append_assoc]
      simp only [following, List.drop_left] at hlater
      exact ih _ (hhere.forward (first :: text) hwrites.tokenText.clear) token hlater

theorem Lexed.mem_all_of_entry {lexed : Lexed} {count : Nat} {token : Token}
    (h : lexed.entry count = .ok token) : token ∈ lexed.all := by
  rw [entry] at h
  rw [all, List.mem_append]
  split at h
  · rename_i found hfound
    cases h
    exact .inl (List.mem_of_getElem? hfound)
  · rw [h]
    exact .inr (by simp [Except.toOption])

/-- Every call is answered from what was to come at the start. -/
theorem Lexer.exists_entry_of_mem_run {lexer : Lexer} {answer : Except SyntaxError Token}
    {calls : List LexerCall} (h : answer ∈ (lexer.run calls).1) :
    ∃ count, lexer.ahead.entry count = answer := by
  induction calls generalizing lexer with
  | nil => simp [run] at h
  | cons call calls ih =>
    rw [run_cons] at h
    rcases List.mem_cons.mp h with rfl | hlater
    · exact ⟨0, (lexer.call_fst call).symm⟩
    · obtain ⟨count, hcount⟩ := ih hlater
      rw [call_ahead] at hcount
      exact ⟨_, hcount⟩

namespace Source

/-- Whatever a lexer is asked, all tokens that it yields, the end of the source among them, stand on
the line and in the column of their start. -/
theorem locate_start_of_mem_run (source : Source) (calls : List LexerCall) (token : Token)
    (h : .ok token ∈ ((Lexer.ofSource source).run calls).1) :
    source.locate token.start = ⟨token.line, token.column⟩ := by
  obtain ⟨count, hentry⟩ := Lexer.exists_entry_of_mem_run h
  rw [Lexer.ahead_ofSource] at hentry
  have hoffset : source.offsetOf token.start = token.start := by
    rw [offsetOf, if_neg (by omega), Int.toNat_natCast]
  rw [locate, hoffset]
  exact lexFrom_places .start source.body [] (Mark.between_start source.body) token
    (Lexed.mem_all_of_entry hentry)

/-- Line breaks of all three forms, in front of a comment and behind it. -/
theorem locate_start_of_mem_run_between_breaks :
    let source : Source := { body := "\ufeff\r\n#é\r,\n\r a" }
    let answers := ((Lexer.ofSource source).run [.lookahead, .advance, .advance]).1
    answers = [.ok ⟨.name "a", 10, 11, 5, 2⟩, .ok ⟨.name "a", 10, 11, 5, 2⟩,
        .ok ⟨.eof, 11, 11, 5, 3⟩] ∧
      source.locate 10 = ⟨5, 2⟩ ∧ source.locate 11 = ⟨5, 3⟩ := by
  have hanswers : ((Lexer.ofSource { body := "\ufeff\r\n#é\r,\n\r a" }).run
      [.lookahead, .advance, .advance]).1 = [.ok ⟨.name "a", 10, 11, 5, 2⟩,
        .ok ⟨.name "a", 10, 11, 5, 2⟩, .ok ⟨.eof, 11, 11, 5, 3⟩] := rfl
  have hlocate := locate_start_of_mem_run { body := "\ufeff\r\n#é\r,\n\r a" }
    [.lookahead, .advance, .advance]
  rw [hanswers] at hlocate
  exact ⟨hanswers, hlocate _ (.head _), hlocate _ (.tail _ (.tail _ (.head _)))⟩

end Source

end QueryLint
