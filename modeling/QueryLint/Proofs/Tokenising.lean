import QueryLint.Proofs.TokenText

/-!
How a source is divided into tokens. Gaps of ignored text alternate with the texts of tokens, and
the same token texts behind other gaps write the same tokens. So a part of a source from one token
to another is divided as it is in the whole, and tokens can be written with blanks between them.
-/

namespace QueryLint

/-! Gaps between tokens -/

/-- Code points that are passed over between tokens. A comment starts with one of them. -/
def isIgnorable (point : CodePoint) : Bool :=
  point == '\n' || point == '\r' || isBlank point || point == '#'

/-- Whether ignored text ends inside a comment; nothing for other text. -/
def gapEnd? (inComment : Bool) : Text → Option Bool
  | [] => some inComment
  | point :: rest =>
    if point = '\n' ∨ point = '\r' then gapEnd? false rest
    else if inComment || isBlank point then gapEnd? inComment rest
    else if point = '#' then gapEnd? true rest
    else none

theorem isIgnorable_iff {point : CodePoint} :
    isIgnorable point = true ↔
      point ∈ (['\n', '\r', ' ', '\t', ',', '\ufeff', '#'] : Text) := by
  simp [isIgnorable, isBlank, or_assoc]

/-- No token starts with a code point that is passed over. -/
theorem isIgnorable_of_scan {first : CodePoint} {rest : Text} {result : Lexeme × Nat}
    (h : scan first rest = .ok result) : isIgnorable first = false := by
  have hstart : ∀ point ∈ (['\n', '\r', ' ', '\t', ',', '\ufeff', '#'] : Text),
      Punctuator.ofPoint? point = none ∧ point ≠ '.' ∧ point ≠ '"' ∧ isNameStart point = false ∧
        point ≠ '-' ∧ point.isDigit = false := by
    simp only [List.forall_mem_cons, List.not_mem_nil, false_imp_iff, implies_true, and_true]
    decide
  apply Bool.eq_false_iff.mpr
  intro hignorable
  obtain ⟨hmark, hdot, hquote, hname, hminus, hdigit⟩ :=
    hstart first (isIgnorable_iff.mp hignorable)
  simp [scan, hmark, hdot, hquote, hname, hminus, hdigit] at h

theorem Mark.offset_forward (mark : Mark) (count : Nat) :
    (mark.forward count).offset = mark.offset + count := rfl

theorem Mark.offset_nextLine (mark : Mark) (size : Nat) :
    (mark.nextLine size).offset = mark.offset + size := rfl

theorem skipIgnored_cons {point : CodePoint} {rest : Text}
    (hpair : ∀ tail, point = '\r' → rest = .scalar '\n' :: tail → False) (inComment : Bool)
    (mark : Mark) :
    skipIgnored inComment mark (point :: rest) =
      if point = '\n' ∨ point = '\r' then skipIgnored false (mark.nextLine 1) rest
      else if inComment || isBlank point then skipIgnored inComment (mark.forward 1) rest
      else if point = '#' then skipIgnored true (mark.forward 1) rest
      else (mark, point :: rest) := by
  rw [skipIgnored]
  exact hpair

theorem skipIgnored_of_not_ignorable {point : CodePoint} (h : isIgnorable point = false)
    (mark : Mark) (rest : Text) :
    skipIgnored false mark (point :: rest) = (mark, point :: rest) := by
  simp only [isIgnorable, Bool.or_eq_false_iff, beq_eq_false_iff_ne] at h
  rw [skipIgnored_cons fun _ hreturn => absurd hreturn h.1.1.2]
  simp [h]

/-- Ignored text is passed over, in front of a token or at the end. -/
theorem skipIgnored_append {inComment ended : Bool} {gap : Text}
    (hgap : gapEnd? inComment gap = some ended) {after : Text}
    (hafter : after = [] ∨ ended = false ∧ ∀ point ∈ after.head?, isIgnorable point = false)
    (mark : Mark) : ∃ here, skipIgnored inComment mark (gap ++ after) = (here, after) ∧
      here.offset = mark.offset + gap.length := by
  have hnewline : ∀ tail, after ≠ .scalar '\n' :: tail := by
    rintro tail rfl
    rcases hafter with hnil | ⟨_, hhead⟩
    · cases hnil
    · exact absurd (hhead '\n' rfl) (by decide)
  -- the induction goes along the gap as if nothing followed: what follows starts with no line feed
  induction inComment, mark, gap using skipIgnored.induct with
  | case1 inComment mark =>
    obtain rfl : inComment = ended := Option.some.inj hgap
    refine ⟨mark, ?_, rfl⟩
    rcases hafter with rfl | ⟨rfl, hhead⟩
    · rfl
    · cases after with
      | nil => rfl
      | cons point rest => exact skipIgnored_of_not_ignorable (hhead point rfl) mark rest
  | case2 inComment mark rest ih =>
    obtain ⟨here, hskip, hoffset⟩ := ih (by simpa [gapEnd?] using hgap)
    refine ⟨here, by simpa [skipIgnored] using hskip, ?_⟩
    rw [hoffset, Mark.offset_nextLine, List.length_cons, List.length_cons]
    omega
  | case3 inComment mark point rest hpair hbreak ih =>
    obtain ⟨here, hskip, hoffset⟩ := ih (by simpa [gapEnd?, hbreak] using hgap)
    have hpair : ∀ tail, point = '\r' → rest ++ after = .scalar '\n' :: tail → False := by
      intro tail hreturn hrest
      cases rest with
      | nil => exact hnewline tail hrest
      | cons next rest => exact hpair rest hreturn (by rw [(List.cons.inj hrest).1])
    refine ⟨here, ?_, ?_⟩
    · rw [List.cons_append, skipIgnored_cons hpair, if_pos hbreak, hskip]
    · rw [hoffset, Mark.offset_nextLine, List.length_cons]
      omega
  | case4 inComment mark point rest _ hbreak hpass ih =>
    obtain ⟨here, hskip, hoffset⟩ := ih (by simpa [gapEnd?, hbreak, hpass] using hgap)
    have hpair (tail : Text) (hreturn : point = '\r') : rest ++ after ≠ .scalar '\n' :: tail :=
      absurd (.inr hreturn) hbreak
    refine ⟨here, ?_, ?_⟩
    · rw [List.cons_append, skipIgnored_cons hpair, if_neg hbreak, if_pos hpass, hskip]
    · rw [hoffset, Mark.offset_forward, List.length_cons]
      omega
  | case5 inComment mark rest _ _ hpass ih =>
    obtain ⟨here, hskip, hoffset⟩ := ih (by simpa [gapEnd?, hpass] using hgap)
    have hpair (tail : Text) (hreturn : CodePoint.scalar '#' = '\r') :
        rest ++ after ≠ .scalar '\n' :: tail :=
      absurd hreturn (by decide)
    refine ⟨here, ?_, ?_⟩
    · rw [List.cons_append, skipIgnored_cons hpair, if_neg (by decide), if_neg hpass, if_pos rfl,
        hskip]
    · rw [hoffset, Mark.offset_forward, List.length_cons]
      omega
  | case6 inComment mark point rest hpair hbreak hpass hhash =>
    simp [gapEnd?, hbreak, hpass, hhash] at hgap

/-- All that is passed over is ignored text. -/
theorem skipIgnored_split (inComment : Bool) (mark : Mark) (body : Text) :
    ∃ gap ended, body = gap ++ (skipIgnored inComment mark body).2 ∧
      (skipIgnored inComment mark body).1.offset = mark.offset + gap.length ∧
      gapEnd? inComment gap = some ended ∧
      ((skipIgnored inComment mark body).2 ≠ [] → ended = false) := by
  fun_induction skipIgnored inComment mark body with
  | case1 inComment mark => exact ⟨[], inComment, rfl, rfl, rfl, by simp⟩
  | case2 inComment mark rest ih =>
    obtain ⟨gap, ended, hrest, hoffset, hgap, hended⟩ := ih
    refine ⟨.scalar '\r' :: .scalar '\n' :: gap, ended, by simp [← hrest], ?_,
      by simp [gapEnd?, hgap], hended⟩
    rw [hoffset, Mark.offset_nextLine, List.length_cons, List.length_cons]
    omega
  | case3 inComment mark point rest hpair hbreak ih =>
    obtain ⟨gap, ended, hrest, hoffset, hgap, hended⟩ := ih
    refine ⟨point :: gap, ended, by simp [← hrest], ?_, by simp [gapEnd?, hbreak, hgap], hended⟩
    rw [hoffset, Mark.offset_nextLine, List.length_cons]
    omega
  | case4 inComment mark point rest hpair hbreak hpass ih =>
    obtain ⟨gap, ended, hrest, hoffset, hgap, hended⟩ := ih
    refine ⟨point :: gap, ended, by simp [← hrest], ?_, ?_, hended⟩
    · rw [hoffset, Mark.offset_forward, List.length_cons]
      omega
    · simp [gapEnd?, hbreak, hpass, hgap]
  | case5 inComment mark rest hpair hbreak hpass ih =>
    obtain ⟨gap, ended, hrest, hoffset, hgap, hended⟩ := ih
    refine ⟨.scalar '#' :: gap, ended, by simp [← hrest], ?_, by simp [gapEnd?, hpass, hgap],
      hended⟩
    rw [hoffset, Mark.offset_forward, List.length_cons]
    omega
  | case6 inComment mark point rest hpair hbreak hpass hhash =>
    exact ⟨[], inComment, rfl, rfl, rfl, fun _ => by simp_all⟩

/-! Texts divided into tokens -/

/-- The text from an offset on, up to the rest, is divided into gaps and the texts of the tokens,
which stand where they say. -/
inductive Tokenised : Nat → Text → List Token → Text → Prop where
  | done {offset : Nat} {rest : Text} : Tokenised offset rest [] rest
  | token {offset : Nat} {gap text after rest : Text} {first : CodePoint} {token : Token}
      {tokens : List Token} (hgap : gapEnd? false gap = some false)
      (htext : token.lexeme.Writes first text) (hafter : token.lexeme.MayPrecede after)
      (hstart : token.start = offset + gap.length)
      (hstop : token.stop = token.start + (text.length + 1))
      (hrest : Tokenised token.stop after tokens rest) :
      Tokenised offset (gap ++ first :: (text ++ after)) (token :: tokens) rest

section Equations

variable {mark here : Mark} {body rest : Text} {first : CodePoint}

theorem lexFrom_eq_end (hskip : skipIgnored false mark body = (here, [])) :
    lexFrom mark body = ⟨[], .ok (here.token .eof 0)⟩ := by
  rw [lexFrom]
  split <;> simp_all

theorem lexFrom_eq_fault (hskip : skipIgnored false mark body = (here, first :: rest))
    {misfit : Misfit} (hscan : scan first rest = .error misfit) :
    lexFrom mark body = ⟨[], .error ⟨here.offset + misfit.distance, misfit.fault⟩⟩ := by
  rw [lexFrom]
  split <;> simp_all

theorem lexFrom_eq_cons (hskip : skipIgnored false mark body = (here, first :: rest))
    {lexeme : Lexeme} {more : Nat} (hscan : scan first rest = .ok (lexeme, more)) :
    let following := lexFrom (here.forward (more + 1)) (rest.drop more)
    lexFrom mark body =
      { following with tokens := here.token lexeme (more + 1) :: following.tokens } := by
  intro following
  rw [lexFrom]
  split
  · simp_all
  · rename_i hsame
    rw [hskip] at hsame
    cases hsame
    rw [hscan]

end Equations

/-- Listing the tokens of a text divides it, as far as they go. -/
theorem lexFrom_tokenised (mark : Mark) (body : Text) :
    ∃ rest, Tokenised mark.offset body (lexFrom mark body).tokens rest ∧
      ∀ eof, (lexFrom mark body).ending = .ok eof → ∃ ended, gapEnd? false rest = some ended := by
  fun_induction lexFrom mark body with
  | case1 mark body here hskip =>
    obtain ⟨gap, ended, hbody, -, hgap, -⟩ := skipIgnored_split false mark body
    rw [hskip, List.append_nil] at hbody
    exact ⟨body, .done, fun _ _ => ⟨ended, hbody ▸ hgap⟩⟩
  | case2 mark body here first rest hskip misfit hscan =>
    exact ⟨body, .done, fun _ hok => by cases hok⟩
  | case3 mark body here first rest hskip lexeme more hscan following ih =>
    obtain ⟨gap, ended, hbody, hoffset, hgap, hended⟩ := skipIgnored_split false mark body
    rw [hskip] at hbody hoffset hended
    obtain rfl := hended (List.cons_ne_nil _ _)
    obtain ⟨text, after, rfl, rfl, hafter, hwrites⟩ := scan_local hscan
    obtain ⟨left, htokens, hleft⟩ := ih
    refine ⟨left, ?_, hleft⟩
    simp only [following, List.drop_left] at htokens ⊢
    rw [hbody]
    exact .token hgap hwrites hafter hoffset rfl htokens

theorem lexFrom_of_gap {gap : Text} {ended : Bool} (hgap : gapEnd? false gap = some ended)
    (mark : Mark) : ∃ eof, lexFrom mark gap = ⟨[], .ok eof⟩ := by
  obtain ⟨here, hskip, -⟩ := skipIgnored_append hgap (.inl rfl) mark
  rw [List.append_nil] at hskip
  exact ⟨_, lexFrom_eq_end hskip⟩

theorem lexFrom_of_token {gap text after : Text} {first : CodePoint} {lexeme : Lexeme}
    (hgap : gapEnd? false gap = some false) (hwrites : lexeme.Writes first text)
    (hafter : lexeme.MayPrecede after) (mark : Mark) :
    ∃ token next, token.lexeme = lexeme ∧ token.start = mark.offset + gap.length ∧
      token.stop = token.start + (text.length + 1) ∧ next.offset = token.stop ∧
      lexFrom mark (gap ++ first :: (text ++ after)) =
        { lexFrom next after with tokens := token :: (lexFrom next after).tokens } := by
  have hscan := hwrites after hafter
  have hfirst : ∀ point ∈ (first :: (text ++ after)).head?, isIgnorable point = false := by
    intro point hpoint
    obtain rfl : first = point := by simpa using hpoint
    exact isIgnorable_of_scan hscan
  obtain ⟨here, hskip, hoffset⟩ := skipIgnored_append hgap (.inr ⟨rfl, hfirst⟩) mark
  refine ⟨here.token lexeme (text.length + 1), here.forward (text.length + 1), rfl, hoffset, rfl,
    rfl, ?_⟩
  rw [lexFrom_eq_cons hskip hscan, List.drop_left]

/-- Text that is divided into tokens and a gap is listed as these tokens. -/
theorem Tokenised.lexFrom_eq {offset : Nat} {body rest : Text} {tokens : List Token}
    (h : Tokenised offset body tokens rest) {ended : Bool}
    (hrest : gapEnd? false rest = some ended) (mark : Mark) :
    (lexFrom mark body).tokens.map Token.lexeme = tokens.map Token.lexeme ∧
      ∃ eof, (lexFrom mark body).ending = .ok eof := by
  induction h generalizing mark with
  | done =>
    obtain ⟨eof, heof⟩ := lexFrom_of_gap hrest mark
    exact ⟨by rw [heof], eof, by rw [heof]⟩
  | token hgap htext hafter hstart hstop _ ih =>
    obtain ⟨token, next, hlexeme, -, -, -, hlex⟩ := lexFrom_of_token hgap htext hafter mark
    rw [hlex]
    exact ⟨by simp [hlexeme, (ih hrest next).1], (ih hrest next).2⟩

/-- The end of the source stands behind its tokens, and only there. -/
theorem lexFrom_eof (mark : Mark) (body : Text) :
    (∀ token ∈ (lexFrom mark body).tokens, token.lexeme ≠ .eof) ∧
      ∀ eof, (lexFrom mark body).ending = .ok eof → eof.lexeme = .eof := by
  fun_induction lexFrom mark body with
  | case1 mark body here hskip =>
    refine ⟨by simp, fun eof heof => ?_⟩
    cases heof
    rfl
  | case2 mark body here first rest hskip misfit hscan =>
    exact ⟨by simp, fun eof heof => by cases heof⟩
  | case3 mark body here first rest hskip lexeme more hscan following ih =>
    refine ⟨fun token htoken => ?_, ih.2⟩
    rcases List.mem_cons.mp htoken with rfl | hlater
    · exact scan_ne_eof hscan
    · exact ih.1 token hlater

/-! Parts of a divided text -/

/-- Behind earlier tokens the text goes on with the next one. -/
theorem Tokenised.behind {offset : Nat} {body rest : Text} {before tokens : List Token}
    {token : Token} (h : Tokenised offset body (before ++ token :: tokens) rest) :
    ∃ front left, body = front ++ left ∧ token.start = offset + front.length ∧
      Tokenised token.start left (token :: tokens) rest := by
  induction before generalizing offset body with
  | nil =>
    cases h with
    | @token _ gap text after _ first _ _ hgap htext hafter hstart hstop hrest =>
      have hhere : Tokenised token.start ([] ++ first :: (text ++ after)) (token :: tokens) rest :=
        .token rfl htext hafter rfl hstop hrest
      exact ⟨gap, _, rfl, hstart, hhere⟩
  | cons earlier before ih =>
    cases h with
    | @token _ gap text after _ first _ _ hgap htext hafter hstart hstop hrest =>
      obtain ⟨front, left, rfl, hfront, hleft⟩ := ih hrest
      refine ⟨gap ++ first :: (text ++ front), left, by simp, ?_, hleft⟩
      simp only [List.length_append, List.length_cons]
      omega

/-- The text up to the end of a token is divided as it is in the whole. -/
theorem Tokenised.upTo {offset : Nat} {body rest : Text} {tokens later : List Token}
    (h : Tokenised offset body (tokens ++ later) rest) {last : Token}
    (hlast : tokens.getLast? = some last) :
    ∃ front left, body = front ++ left ∧ last.stop = offset + front.length ∧
      Tokenised offset front tokens [] := by
  induction tokens generalizing offset body with
  | nil => cases hlast
  | cons token tokens ih =>
    cases h with
    | @token _ gap text after _ first _ _ hgap htext hafter hstart hstop hrest =>
      cases tokens with
      | nil =>
        obtain rfl : token = last := by simpa using hlast
        refine ⟨gap ++ first :: (text ++ []), after, by simp, ?_, ?_⟩
        · simp only [List.length_append, List.length_cons, List.length_nil]
          omega
        · exact .token hgap htext (Lexeme.mayPrecede_nil _) hstart hstop .done
      | cons next tokens =>
        obtain ⟨front, left, rfl, hfront, hleft⟩ := ih hrest (by simpa using hlast)
        refine ⟨gap ++ first :: (text ++ front), left, by simp, ?_, ?_⟩
        · simp only [List.length_append, List.length_cons]
          omega
        · exact .token hgap htext hafter.of_append hstart hstop hleft

/-- The tokens of a text. -/
def lexemesOf (text : Text) : List Lexeme :=
  (lexFrom .start text).tokens.map Token.lexeme

/-- The text of a source from the start of one token to the end of another has the tokens in
between. -/
theorem Source.lexemesOf_slice {source : Source} {before tokens later : List Token}
    (hlex : source.lex.tokens = before ++ (tokens ++ later)) {first last : Token}
    (hfirst : tokens.head? = some first) (hlast : tokens.getLast? = some last) :
    lexemesOf (source.slice first.start last.stop) = tokens.map Token.lexeme := by
  obtain ⟨rest, hwhole, -⟩ := lexFrom_tokenised .start source.body
  obtain ⟨others, rfl⟩ := List.head?_eq_some_iff.mp hfirst
  change Tokenised 0 source.body source.lex.tokens rest at hwhole
  rw [hlex, List.cons_append] at hwhole
  obtain ⟨front, left, hbody, hstart, hleft⟩ := hwhole.behind
  rw [← List.cons_append] at hleft
  obtain ⟨text, tail, rfl, hstop, htext⟩ := hleft.upTo hlast
  have hslice : source.slice first.start last.stop = text := by
    rw [Source.slice, hbody, hstop, hstart]
    simp
  have hended : gapEnd? false [] = some false := rfl
  rw [hslice, lexemesOf]
  exact (htext.lexFrom_eq hended .start).1

/-! Tokens with blanks between them -/

/-- The texts of tokens, each behind one blank. -/
def spaced (body : Text) (tokens : List Token) : Text :=
  tokens.flatMap fun token => .scalar ' ' :: (body.drop token.start).take (token.stop - token.start)

theorem Lexeme.mayPrecede_spaced (lexeme : Lexeme) (body : Text) (tokens : List Token) :
    lexeme.MayPrecede (spaced body tokens) := by
  cases tokens with
  | nil => exact lexeme.mayPrecede_nil
  | cons token tokens => exact lexeme.mayPrecede_blank _

theorem Tokenised.spaced {offset : Nat} {body rest : Text} {tokens : List Token}
    (h : Tokenised offset body tokens rest) (front : Text) (hfront : front.length = offset)
    (start : Nat) : ∃ moved : List Token, moved.map Token.lexeme = tokens.map Token.lexeme ∧
      Tokenised start (QueryLint.spaced (front ++ body) tokens) moved [] := by
  induction h generalizing front start with
  | done => exact ⟨[], rfl, .done⟩
  | @token offset gap text after rest first token tokens hgap htext hafter hstart hstop _ ih =>
    have hslice : ((front ++ (gap ++ first :: (text ++ after))).drop token.start).take
        (token.stop - token.start) = first :: text := by
      rw [hstop, hstart, ← hfront]
      simp
    have hbefore : (front ++ (gap ++ first :: text)).length = token.stop := by
      simp only [List.length_append, List.length_cons]
      omega
    obtain ⟨moved, hlexemes, hmoved⟩ := ih _ hbefore (start + 1 + (text.length + 1))
    have hbody : front ++ (gap ++ first :: text) ++ after =
        front ++ (gap ++ first :: (text ++ after)) := by simp
    rw [hbody] at hmoved
    let copy : Token := ⟨token.lexeme, start + 1, start + 1 + (text.length + 1), 0, 0⟩
    have hcopy : Tokenised start ([.scalar ' '] ++ first :: (text ++ _)) (copy :: moved) [] :=
      .token rfl htext (token.lexeme.mayPrecede_spaced _ _) rfl rfl hmoved
    refine ⟨copy :: moved, by simp [copy, hlexemes], ?_⟩
    rw [QueryLint.spaced, List.flatMap_cons, hslice]
    exact hcopy

/-- A text with one blank in front of each token and no other ignored text. A text that has other
parts than tokens is left as it is. -/
def respaced (text : Text) : Text :=
  let lexed := lexFrom .start text
  match lexed.ending with
  | .ok _ => spaced text lexed.tokens
  | .error _ => text

theorem lexemesOf_respaced (text : Text) : lexemesOf (respaced text) = lexemesOf text := by
  obtain ⟨rest, hwhole, -⟩ := lexFrom_tokenised .start text
  rw [respaced]
  split
  · obtain ⟨moved, hlexemes, hmoved⟩ := hwhole.spaced [] rfl 0
    have hended : gapEnd? false [] = some false := rfl
    rw [lexemesOf, lexemesOf, ← hlexemes]
    exact (hmoved.lexFrom_eq hended .start).1
  · rfl

end QueryLint
