import Mathlib.Data.List.Forall2
import QueryLint.Document.Reader
import QueryLint.Proofs.Printing

/-!
What a reader consumes. A successful reading moves over tokens of the source one by one, and a
reader is described by a relation between the tokens it moves over and what it returns. The rules
follow the way readers are put together, so the description of a production is read off its text.
-/

namespace QueryLint

/-! Moving over tokens -/

/-- The tokens from the current one on, without the end of the source. -/
def Cursor.left (cursor : Cursor) : List Token :=
  if cursor.token.lexeme = .eof then [] else cursor.token :: cursor.rest

/-- The cursor stands in front of tokens of the source, or at its end. -/
structure Setting.Fits (setting : Setting) (cursor : Cursor) : Prop where
  ending : setting.ending = setting.source.lex.ending
  left : cursor.left <:+ setting.source.lex.tokens
  atEnd : cursor.token.lexeme = .eof → cursor.rest = [] ∧ setting.ending = .ok cursor.token

/-- The tokens between two cursors are consumed one by one. -/
inductive Setting.Moves (setting : Setting) : Cursor → List Token → Cursor → Prop where
  | stay {cursor : Cursor} : Setting.Moves setting cursor [] cursor
  | step {cursor next last : Cursor} {tokens : List Token} (hinside : cursor.token.lexeme ≠ .eof)
      (hadvance : Reader.advance setting cursor = .ok ((), next))
      (hrest : Setting.Moves setting next tokens last) :
      Setting.Moves setting cursor (cursor.token :: tokens) last

namespace Setting

variable {setting : Setting} {cursor next last : Cursor} {tokens : List Token}

/-- Behind the current token the tokens go on, up to the end of the source. -/
theorem fits_of_advance (hending : setting.ending = setting.source.lex.ending)
    (hrest : cursor.rest <:+ setting.source.lex.tokens)
    (hadvance : Reader.advance setting cursor = .ok ((), next)) :
    setting.Fits next ∧ next.left = cursor.rest ∧ next.lastEnd = cursor.token.stop := by
  obtain ⟨hinner, heof⟩ := lexFrom_eof .start setting.source.body
  unfold Reader.advance at hadvance
  cases hcase : cursor.rest with
  | nil =>
    cases hok : setting.ending with
    | error error => simp [hcase, hok, bind, Except.bind] at hadvance
    | ok eof =>
      obtain rfl : ⟨eof, cursor.token.stop, []⟩ = next := by
        simpa [hcase, hok, bind, Except.bind, pure, Except.pure] using hadvance
      have hkind : eof.lexeme = .eof := heof eof (hending ▸ hok)
      have hleft : Cursor.left ⟨eof, cursor.token.stop, []⟩ = [] := if_pos hkind
      refine ⟨⟨hending, ?_, fun _ => ⟨rfl, hok⟩⟩, hleft, rfl⟩
      rw [hleft]
      exact List.nil_suffix
  | cons following rest =>
    obtain rfl : ⟨following, cursor.token.stop, rest⟩ = next := by simpa [hcase] using hadvance
    rw [hcase] at hrest
    have hkind : following.lexeme ≠ .eof := hinner following (hrest.subset List.mem_cons_self)
    have hleft : Cursor.left ⟨following, cursor.token.stop, rest⟩ = following :: rest :=
      if_neg hkind
    refine ⟨⟨hending, ?_, fun hend => absurd hend hkind⟩, hleft, rfl⟩
    rwa [hleft]

/-- Consuming a token leaves those behind it. -/
theorem Fits.advance (h : setting.Fits cursor) (hinside : cursor.token.lexeme ≠ .eof)
    (hadvance : Reader.advance setting cursor = .ok ((), next)) :
    setting.Fits next ∧ cursor.left = cursor.token :: next.left ∧
      next.lastEnd = cursor.token.stop := by
  have hleft : cursor.left = cursor.token :: cursor.rest := if_neg hinside
  have hsuffix := h.left
  rw [hleft] at hsuffix ⊢
  obtain ⟨hnext, hrest, hend⟩ :=
    fits_of_advance h.ending ((List.suffix_cons _ _).trans hsuffix) hadvance
  exact ⟨hnext, by rw [hrest], hend⟩

theorem Fits.token_mem (h : setting.Fits cursor) (hinside : cursor.token.lexeme ≠ .eof) :
    cursor.token ∈ setting.source.lex.tokens := by
  apply h.left.subset
  rw [Cursor.left, if_neg hinside]
  exact List.mem_cons_self

theorem Moves.append {middle : Cursor} {later : List Token}
    (hfirst : setting.Moves cursor tokens middle) (hsecond : setting.Moves middle later last) :
    setting.Moves cursor (tokens ++ later) last := by
  induction hfirst with
  | stay => exact hsecond
  | step hinside hadvance _ ih => exact .step hinside hadvance (ih hsecond)

theorem Moves.fits (h : setting.Moves cursor tokens last) (hfits : setting.Fits cursor) :
    setting.Fits last ∧ cursor.left = tokens ++ last.left := by
  induction h with
  | stay => exact ⟨hfits, rfl⟩
  | step hinside hadvance _ ih =>
    obtain ⟨hnext, hleft, -⟩ := hfits.advance hinside hadvance
    obtain ⟨hlast, hrest⟩ := ih hnext
    exact ⟨hlast, by rw [hleft, hrest, List.cons_append]⟩

theorem Moves.head?_eq (h : setting.Moves cursor tokens last) (hne : tokens ≠ []) :
    tokens.head? = some cursor.token := by
  cases h with
  | stay => exact absurd rfl hne
  | step hinside hadvance hrest => rfl

theorem Moves.getLast?_stop (h : setting.Moves cursor tokens last) (hfits : setting.Fits cursor)
    {token : Token} (hlast : tokens.getLast? = some token) : last.lastEnd = token.stop := by
  induction h with
  | stay => cases hlast
  | @step cursor next last tokens hinside hadvance hrest ih =>
    obtain ⟨hnext, -, hend⟩ := hfits.advance hinside hadvance
    cases tokens with
    | nil =>
      cases hrest
      obtain rfl : cursor.token = token := by simpa using hlast
      exact hend
    | cons following tokens => exact ih hnext (by simpa using hlast)

/-- The text from the first token of a move to its last one has the tokens of the move. -/
theorem Moves.lexemesOf_slice (h : setting.Moves cursor tokens last) (hfits : setting.Fits cursor)
    (hne : tokens ≠ []) :
    lexemesOf (setting.source.slice cursor.token.start last.lastEnd) =
      tokens.map Token.lexeme := by
  obtain ⟨before, hbefore⟩ := hfits.left
  obtain ⟨-, hleft⟩ := h.fits hfits
  obtain ⟨token, htoken⟩ : ∃ token, tokens.getLast? = some token :=
    ⟨_, List.getLast?_eq_some_getLast hne⟩
  rw [hleft] at hbefore
  rw [h.getLast?_stop hfits htoken]
  exact Source.lexemesOf_slice hbefore.symm (h.head?_eq hne) htoken

end Setting

theorem Token.lexeme_of_kind {token : Token} {mark : Punctuator}
    (h : token.kind = .punctuator mark) : token.lexeme = .punctuator mark := by
  unfold Token.kind at h
  cases hlexeme : token.lexeme <;> simp_all [Lexeme.kind]

theorem Token.lexeme_of_kind_eof {token : Token} (h : token.kind = .eof) :
    token.lexeme = .eof := by
  unfold Token.kind at h
  cases hlexeme : token.lexeme <;> simp_all [Lexeme.kind]

/-! Readers -/

namespace Reader

open Reading

variable {α β : Type}

theorem bind_eq_ok {p : Reader α} {k : α → Reader β} {setting : Setting} {cursor : Cursor}
    {result : β × Cursor} (h : (p >>= k) setting cursor = .ok result) :
    ∃ first middle, p setting cursor = .ok (first, middle) ∧
      k first setting middle = .ok result := by
  change (p setting cursor >>= fun r => k r.1 setting r.2) = .ok result at h
  cases hp : p setting cursor with
  | error error => rw [hp] at h; cases h
  | ok r => exact ⟨r.1, r.2, rfl, by rw [hp] at h; exact h⟩

/-- From this cursor on, a successful reading relates the tokens it consumes to its result. -/
def ConsumesAt (p : Reader α) (setting : Setting) (cursor : Cursor)
    (post : List Lexeme → α → Prop) : Prop :=
  ∀ result last, p setting cursor = .ok (result, last) →
    ∃ tokens, setting.Moves cursor tokens last ∧ post (tokens.map Token.lexeme) result

def Consumes (p : Reader α) (post : List Lexeme → α → Prop) : Prop :=
  ∀ setting cursor, setting.Fits cursor → p.ConsumesAt setting cursor post

/-- The tokens consumed are a function of the result. -/
def Prints (p : Reader α) (lexemes : α → List Lexeme) : Prop :=
  p.Consumes fun consumed result => consumed = lexemes result

/-- The reader looks, but consumes nothing. -/
def Stays (p : Reader α) : Prop :=
  ∀ setting cursor result last, p setting cursor = .ok (result, last) → last = cursor

variable {p : Reader α} {k : α → Reader β} {setting : Setting} {cursor : Cursor}
  {first : List Lexeme → α → Prop} {post : List Lexeme → β → Prop}

theorem ConsumesAt.mono {weaker : List Lexeme → α → Prop} (hp : p.ConsumesAt setting cursor first)
    (h : ∀ consumed a, first consumed a → weaker consumed a) :
    p.ConsumesAt setting cursor weaker := by
  intro result last hrun
  obtain ⟨tokens, hmoves, hfirst⟩ := hp result last hrun
  exact ⟨tokens, hmoves, h _ result hfirst⟩

theorem Consumes.mono {weaker : List Lexeme → α → Prop} (hp : p.Consumes first)
    (h : ∀ consumed a, first consumed a → weaker consumed a) : p.Consumes weaker :=
  fun setting cursor hfits => (hp setting cursor hfits).mono h

theorem ConsumesAt.bind (hfits : setting.Fits cursor) (hp : p.ConsumesAt setting cursor first)
    (hk : ∀ consumed a, first consumed a →
      (k a).Consumes fun later result => post (consumed ++ later) result) :
    (p >>= k).ConsumesAt setting cursor post := by
  intro result last h
  obtain ⟨a, middle, ha, hresult⟩ := bind_eq_ok h
  obtain ⟨tokens, hmoves, hfirst⟩ := hp a middle ha
  obtain ⟨later, hlater, hpost⟩ := hk _ a hfirst setting middle (hmoves.fits hfits).1 _ _ hresult
  exact ⟨tokens ++ later, hmoves.append hlater, by rwa [List.map_append]⟩

theorem Consumes.bind (hp : p.Consumes first)
    (hk : ∀ consumed a, first consumed a →
      (k a).Consumes fun later result => post (consumed ++ later) result) :
    (p >>= k).Consumes post :=
  fun setting cursor hfits => .bind hfits (hp setting cursor hfits) hk

theorem Prints.bind {lexemes : α → List Lexeme} (hp : p.Prints lexemes)
    (hk : ∀ a, (k a).Consumes fun later result => post (lexemes a ++ later) result) :
    (p >>= k).Consumes post :=
  Consumes.bind hp fun _ a hconsumed => hconsumed ▸ hk a

theorem Stays.bind (hp : p.Stays) (hk : ∀ a, (k a).Consumes post) : (p >>= k).Consumes post := by
  intro setting cursor hfits result last h
  obtain ⟨a, middle, ha, hresult⟩ := bind_eq_ok h
  obtain rfl := hp setting cursor a middle ha
  exact hk a setting middle hfits result last hresult

theorem Consumes.pure {result : β} (h : post [] result) :
    (pure result : Reader β).Consumes post := by
  intro setting cursor _ result' last hrun
  obtain ⟨rfl, rfl⟩ : result = result' ∧ cursor = last := by
    cases hrun
    exact ⟨rfl, rfl⟩
  exact ⟨[], .stay, h⟩

theorem Consumes.refuse (token : Token) (fault : SyntaxFault) :
    (Reader.refuse token fault : Reader β).Consumes post := by
  intro setting cursor _ result last hrun
  cases hrun

theorem Consumes.map {f : α → β} (hp : p.Consumes fun consumed a => post consumed (f a)) :
    (f <$> p).Consumes post := by
  rw [map_eq_pure_bind]
  exact Consumes.bind hp fun consumed a ha => .pure (by rwa [List.append_nil])

/-- What is read from the current token on may depend on that token. -/
theorem Consumes.current {k : Token → Reader β}
    (hk : ∀ setting cursor, setting.Fits cursor →
      (k cursor.token).ConsumesAt setting cursor post) : Consumes (current >>= k) post :=
  fun setting cursor hfits => hk setting cursor hfits

/-! Looking at tokens and consuming them -/

theorem current_stays : Stays current := by
  intro setting cursor result last h
  cases h
  rfl

theorem budget_stays : Stays budget := by
  intro setting cursor result last h
  cases h
  rfl

theorem peek_stays (kind : TokenKind) : Stays (peek kind) := by
  intro setting cursor result last h
  cases h
  rfl

theorem lastEnd_stays : Stays lastEnd := by
  intro setting cursor result last h
  cases h
  rfl

theorem slice_stays (start stop : Nat) : Stays (slice start stop) := by
  intro setting cursor result last h
  cases h
  rfl

theorem spanFrom_stays (start : Token) : Stays (spanFrom start) := by
  intro setting cursor result last h
  unfold spanFrom at h
  obtain ⟨setting', middle, hread, hspan⟩ := bind_eq_ok h
  cases hread
  split at hspan <;> cases hspan <;> rfl

theorem lookahead_stays : Stays lookahead := by
  intro setting cursor result last h
  change Reader.lookahead setting cursor = _ at h
  obtain ⟨place, middle, hget, hrest⟩ := bind_eq_ok h
  cases hget
  cases hcase : cursor.rest with
  | cons following rest =>
    rw [hcase] at hrest
    cases hrest
    rfl
  | nil =>
    rw [hcase] at hrest
    obtain ⟨here, _, hread, hending⟩ := bind_eq_ok hrest
    cases hread
    cases hok : setting.ending with
    | error error =>
      rw [hok] at hending
      cases hending
    | ok eof =>
      rw [hok] at hending
      cases hending
      rfl

/-- A token other than the end of the source is consumed. -/
theorem ConsumesAt.advance (hinside : cursor.token.lexeme ≠ .eof) :
    ConsumesAt Reader.advance setting cursor fun consumed _ => consumed = [cursor.token.lexeme] :=
  fun _ _ h => ⟨[cursor.token], .step hinside h .stay, rfl⟩

/-- Consuming the current token and going on. -/
theorem ConsumesAt.advance_bind {k : Unit → Reader β} (hfits : setting.Fits cursor)
    (hinside : cursor.token.lexeme ≠ .eof)
    (hk : (k ()).Consumes fun later result => post (cursor.token.lexeme :: later) result) :
    ConsumesAt (Reader.advance >>= k) setting cursor post := by
  refine .bind hfits (.advance hinside) fun consumed _ hconsumed => ?_
  subst hconsumed
  exact hk

theorem Consumes.peek {k : Bool → Reader β} {kind : TokenKind}
    (hk : ∀ setting cursor, setting.Fits cursor →
      (k (cursor.token.kind == kind)).ConsumesAt setting cursor post) :
    Consumes (Reading.peek kind >>= k) post :=
  fun setting cursor hfits => hk setting cursor hfits

theorem skip_punctuator (mark : Punctuator) :
    Prints (skip (.punctuator mark)) fun found => if found then [.punctuator mark] else [] := by
  refine .peek fun setting cursor hfits => ?_
  by_cases hkind : cursor.token.kind = .punctuator mark
  · have hlexeme := Token.lexeme_of_kind hkind
    rw [if_pos (beq_iff_eq.mpr hkind)]
    refine .advance_bind hfits (by simp [hlexeme]) (.pure ?_)
    rw [hlexeme]
    rfl
  · rw [if_neg (by simpa using hkind)]
    refine Consumes.pure ?_ setting cursor hfits
    rfl

theorem expect_punctuator (mark : Punctuator) :
    Prints (expect (.punctuator mark)) fun _ => [.punctuator mark] := by
  refine .current fun setting cursor hfits => ?_
  by_cases hkind : cursor.token.kind = .punctuator mark
  · have hlexeme := Token.lexeme_of_kind hkind
    rw [if_pos (beq_iff_eq.mpr hkind)]
    refine .advance_bind hfits (by simp [hlexeme]) (.pure ?_)
    rw [hlexeme]
  · rw [if_neg (by simpa using hkind)]
    exact Consumes.refuse _ _ setting cursor hfits

theorem expect_name :
    Consumes (expect .name) fun consumed token =>
      ∃ text, token.lexeme = .name text ∧ consumed = [.name text] := by
  refine .current fun setting cursor hfits => ?_
  cases hlexeme : cursor.token.lexeme with
  | name text =>
    have hkind : cursor.token.kind = .name := by rw [Token.kind, hlexeme]; rfl
    rw [if_pos (beq_iff_eq.mpr hkind)]
    refine .advance_bind hfits (by simp [hlexeme]) (.pure ?_)
    exact ⟨text, hlexeme, by rw [hlexeme]⟩
  | _ =>
    have hkind : cursor.token.kind ≠ .name := by simp [Token.kind, hlexeme, Lexeme.kind]
    rw [if_neg (by simpa using hkind)]
    exact Consumes.refuse _ _ setting cursor hfits

theorem skipKeyword_prints (keyword : String) :
    Prints (skipKeyword keyword) fun found => if found then [.name keyword] else [] := by
  refine .current fun setting cursor hfits => ?_
  by_cases hlexeme : cursor.token.lexeme = .name keyword
  · rw [if_pos (beq_iff_eq.mpr hlexeme)]
    refine .advance_bind hfits (by simp [hlexeme]) (.pure ?_)
    rw [hlexeme]
    rfl
  · rw [if_neg (by simpa using hlexeme)]
    refine Consumes.pure ?_ setting cursor hfits
    rfl

theorem expectKeyword_prints (keyword : String) :
    Prints (expectKeyword keyword) fun _ => [.name keyword] := by
  apply (skipKeyword_prints keyword).bind
  intro found
  cases found with
  | false => exact current_stays.bind fun token => .refuse token _
  | true => exact .pure rfl

theorem optionalItem_prints {item : Reader α} {lexemes : α → List Lexeme}
    (hitem : item.Prints lexemes) (kind : TokenKind) :
    Prints (optionalItem kind item) fun found => found.elim [] lexemes := by
  apply (peek_stays _).bind
  intro found
  cases found with
  | true => exact hitem.bind fun a => .pure (by simp)
  | false => exact .pure rfl

/-! Repetition -/

theorem skip_run {kind : TokenKind} {found : Bool} {last : Cursor}
    (h : (skip kind : Reader Bool) setting cursor = .ok (found, last)) :
    (found = true ∧ cursor.token.kind = kind ∧ Reader.advance setting cursor = .ok ((), last)) ∨
      (found = false ∧ last = cursor) := by
  unfold skip at h
  obtain ⟨here, middle, hpeek, hrest⟩ := bind_eq_ok h
  cases hpeek
  split at hrest
  · rename_i hkind
    obtain ⟨_, next, hadvance, hpure⟩ := bind_eq_ok hrest
    cases hpure
    exact .inl ⟨rfl, by simpa using hkind, hadvance⟩
  · cases hrest
    exact .inr ⟨rfl, rfl⟩

theorem expect_run {kind : TokenKind} {token : Token} {last : Cursor}
    (h : (expect kind : Reader Token) setting cursor = .ok (token, last)) :
    Reader.advance setting cursor = .ok ((), last) := by
  unfold expect at h
  obtain ⟨here, middle, hcurrent, hrest⟩ := bind_eq_ok h
  cases hcurrent
  split at hrest
  · obtain ⟨_, next, hadvance, hpure⟩ := bind_eq_ok hrest
    cases hpure
    exact hadvance
  · cases hrest

section Items

variable {item : Reader α} {each : List Lexeme → α → Prop} {lexemes : α → List Lexeme}

/-- Items up to a closing token: what is consumed in front of it is divided among the items. -/
theorem itemsUntil_run (hitem : item.Consumes each) {closing : TokenKind} (rounds : Nat)
    {setting : Setting} {cursor last : Cursor} {items : List α} (hfits : setting.Fits cursor)
    (h : itemsUntil closing item rounds setting cursor = .ok (items, last)) :
    ∃ (tokens : List Token) (middle : Cursor) (parts : List (List Lexeme)),
      setting.Moves cursor tokens middle ∧ middle.token.kind = closing ∧
      Reader.advance setting middle = .ok ((), last) ∧
      tokens.map Token.lexeme = parts.flatten ∧ List.Forall₂ each parts items := by
  induction rounds generalizing cursor items with
  | zero =>
    obtain ⟨token, middle, hcurrent, hrefuse⟩ := bind_eq_ok h
    cases hrefuse
  | succ rounds ih =>
    obtain ⟨found, middle, hskip, hrest⟩ := bind_eq_ok h
    rcases skip_run hskip with ⟨rfl, hkind, hadvance⟩ | ⟨rfl, rfl⟩
    · cases hrest
      exact ⟨[], cursor, [], .stay, hkind, hadvance, rfl, .nil⟩
    · obtain ⟨first, next, hfirst, hothers⟩ := bind_eq_ok hrest
      obtain ⟨others, final, hitems, hpure⟩ := bind_eq_ok hothers
      cases hpure
      obtain ⟨consumed, hmoves, hconsumed⟩ := hitem setting _ hfits first next hfirst
      obtain ⟨tokens, closed, parts, hlater, hkind, hadvance, hflat, hparts⟩ :=
        ih (hmoves.fits hfits).1 hitems
      refine ⟨consumed ++ tokens, closed, consumed.map Token.lexeme :: parts,
        hmoves.append hlater, hkind, hadvance, ?_, .cons hconsumed hparts⟩
      rw [List.map_append, hflat, List.flatten_cons]

theorem itemsUntil_consumes (hitem : item.Consumes each) (closing : Punctuator) (rounds : Nat) :
    Consumes (itemsUntil (.punctuator closing) item rounds) fun consumed items =>
      ∃ parts, List.Forall₂ each parts items ∧
        consumed = parts.flatten ++ [.punctuator closing] := by
  intro setting cursor hfits items last h
  obtain ⟨tokens, middle, parts, hmoves, hkind, hadvance, hflat, hparts⟩ :=
    itemsUntil_run hitem rounds hfits h
  have hlexeme := Token.lexeme_of_kind hkind
  have hclose : setting.Moves middle [middle.token] last :=
    .step (by simp [hlexeme]) hadvance .stay
  refine ⟨tokens ++ [middle.token], hmoves.append hclose, parts, hparts, ?_⟩
  rw [List.map_append, hflat, List.map_singleton, hlexeme]

/-- At least one item between an opening and a closing token. -/
theorem many_consumes (hitem : item.Consumes each) (opening closing : Punctuator) :
    Consumes (many (.punctuator opening) item (.punctuator closing)) fun consumed items =>
      ∃ parts, List.Forall₂ each parts items ∧ parts ≠ [] ∧
        consumed = enclosed opening closing parts := by
  apply (expect_punctuator opening).bind
  intro _
  apply Consumes.bind hitem
  intro consumed first hfirst
  apply budget_stays.bind
  intro rounds
  refine (itemsUntil_consumes hitem closing rounds).bind fun later others hothers => .pure ?_
  obtain ⟨parts, hparts, rfl⟩ := hothers
  refine ⟨consumed :: parts, .cons hfirst hparts, List.cons_ne_nil _ _, ?_⟩
  simp [enclosed]

/-- Items from the start of the source to its end: all tokens are divided among them. -/
theorem many_whole (hitem : item.Consumes each)
    (hending : setting.ending = setting.source.lex.ending) {items : List α} {last : Cursor}
    (h : many .sof item .eof setting ⟨.sof, 0, setting.source.lex.tokens⟩ = .ok (items, last)) :
    (∃ eof, setting.ending = .ok eof) ∧ ∃ parts, List.Forall₂ each parts items ∧
      setting.source.lex.tokens.map Token.lexeme = parts.flatten := by
  obtain ⟨_, opened, hexpect, hrest⟩ := bind_eq_ok h
  obtain ⟨first, next, hfirst, hcounted⟩ := bind_eq_ok hrest
  obtain ⟨rounds, _, hbudget, hlist⟩ := bind_eq_ok hcounted
  obtain rfl := budget_stays _ _ _ _ hbudget
  obtain ⟨others, _, hothers, hpure⟩ := bind_eq_ok hlist
  cases hpure
  obtain ⟨hopened, hleft, -⟩ :=
    Setting.fits_of_advance hending (List.suffix_refl _) (expect_run hexpect)
  obtain ⟨consumed, hmoves, hconsumed⟩ := hitem setting opened hopened first _ hfirst
  obtain ⟨tokens, middle, parts, hlater, hkind, -, hflat, hparts⟩ :=
    itemsUntil_run hitem rounds (hmoves.fits hopened).1 hothers
  obtain ⟨hmiddle, hall⟩ := (hmoves.append hlater).fits hopened
  have hlexeme : middle.token.lexeme = .eof := Token.lexeme_of_kind_eof hkind
  have hnone : middle.left = [] := if_pos hlexeme
  have htokens : setting.source.lex.tokens = consumed ++ tokens := by
    rw [← List.append_nil (consumed ++ tokens), ← hnone, ← hall, hleft]
  refine ⟨⟨_, (hmiddle.atEnd hlexeme).2⟩, consumed.map Token.lexeme :: parts,
    .cons hconsumed hparts, ?_⟩
  rw [htokens, List.map_append, hflat, List.flatten_cons]

theorem optionalMany_consumes (hitem : item.Consumes each) (opening closing : Punctuator) :
    Consumes (optionalMany (.punctuator opening) item (.punctuator closing)) fun consumed items =>
      ∃ parts, List.Forall₂ each parts items ∧
        consumed = enclosedIfAny opening closing parts := by
  apply (peek_stays _).bind
  intro found
  cases found with
  | false => exact .pure ⟨[], .nil, rfl⟩
  | true =>
    apply (many_consumes hitem opening closing).mono
    intro consumed items hitems
    obtain ⟨parts, hparts, hne, rfl⟩ := hitems
    exact ⟨parts, hparts, (if_neg (by simpa using hne)).symm⟩

theorem parts_eq_map {parts : List (List Lexeme)} {items : List α}
    (h : List.Forall₂ (fun consumed a => consumed = lexemes a) parts items) :
    parts = items.map lexemes := by
  rwa [← List.forall₂_eq_eq_eq, List.forall₂_map_right_iff]

theorem many_prints (hitem : item.Prints lexemes) (opening closing : Punctuator) :
    Prints (many (.punctuator opening) item (.punctuator closing)) fun items =>
      enclosed opening closing (items.map lexemes) := by
  apply (many_consumes hitem opening closing).mono
  intro consumed items hitems
  obtain ⟨parts, hparts, -, rfl⟩ := hitems
  rw [parts_eq_map hparts]

theorem optionalMany_prints (hitem : item.Prints lexemes) (opening closing : Punctuator) :
    Prints (optionalMany (.punctuator opening) item (.punctuator closing)) fun items =>
      enclosedIfAny opening closing (items.map lexemes) := by
  apply (optionalMany_consumes hitem opening closing).mono
  intro consumed items hitems
  obtain ⟨parts, hparts, rfl⟩ := hitems
  rw [parts_eq_map hparts]

theorem itemsAfter_prints (hitem : item.Prints lexemes) (delimiter : Punctuator) (rounds : Nat) :
    Prints (itemsAfter (.punctuator delimiter) item rounds) fun items =>
      (items.map lexemes).flatMap (.punctuator delimiter :: ·) := by
  induction rounds with
  | zero => exact current_stays.bind fun token => .refuse token _
  | succ rounds ih =>
    apply (skip_punctuator delimiter).bind
    intro found
    cases found with
    | false => exact .pure rfl
    | true =>
      refine hitem.bind fun first => ih.bind fun others => .pure ?_
      simp

/-- Items with delimiters between them, and perhaps one in front. -/
theorem delimited_prints (hitem : item.Prints lexemes) (delimiter : Punctuator) :
    Consumes (delimited (.punctuator delimiter) item) fun consumed items =>
      items ≠ [] ∧ (consumed = delimitedBy delimiter (items.map lexemes) ∨
        consumed = .punctuator delimiter :: delimitedBy delimiter (items.map lexemes)) := by
  refine (skip_punctuator delimiter).bind fun found => hitem.bind fun first => ?_
  apply budget_stays.bind
  intro rounds
  refine (itemsAfter_prints hitem delimiter rounds).bind fun others => .pure ⟨by simp, ?_⟩
  cases found with
  | false => exact .inl (by simp [delimitedBy])
  | true => exact .inr (by simp [delimitedBy])

end Items

end Reader

end QueryLint
