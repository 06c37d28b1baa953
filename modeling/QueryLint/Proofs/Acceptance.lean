import QueryLint.Proofs.Reading
import QueryLint.Proofs.Words

/-!
What a reader accepts. In front of the tokens of given words a reader succeeds, moves over exactly
these tokens and returns a given result, provided that what follows cannot go on with them. The
rules follow the way readers are put together, one token ahead at a time.
-/

namespace QueryLint

/-- The text has no faults, and no spans are recorded. -/
structure Setting.Plain (setting : Setting) : Prop where
  unlocated : setting.located = false
  ending : ∃ eof, setting.ending = .ok eof

/-- The first of the tokens, or the end of the source. -/
def upcoming (tokens : List Token) : Lexeme := (tokens.head?.map Token.lexeme).getD .eof

/-- The first token of the words, or what follows them. -/
def leading : List Word → Lexeme → Lexeme
  | [], next => next
  | word :: _, _ => word.lexemes.headD .eof

theorem leading_append (first second : List Word) (next : Lexeme) :
    leading (first ++ second) next = leading first (leading second next) := by
  cases first <;> rfl

/-- The words start with the token only if what follows them does. -/
def Evades (words : List Word) (lexeme : Lexeme) : Prop :=
  ∀ next, next ≠ lexeme → leading words next ≠ lexeme

theorem Evades.append {first second : List Word} {lexeme : Lexeme} (hfirst : Evades first lexeme)
    (hsecond : Evades second lexeme) : Evades (first ++ second) lexeme := by
  intro next hnext
  rw [leading_append]
  exact hfirst _ (hsecond next hnext)

theorem evades_nil (lexeme : Lexeme) : Evades [] lexeme := fun _ hnext => hnext

theorem evades_encloseIfAny {opening : Punctuator} {lexeme : Lexeme}
    (h : .punctuator opening ≠ lexeme) (closing : Punctuator) (parts : List (List Word)) :
    Evades (Word.encloseIfAny opening closing parts) lexeme := by
  rw [Word.encloseIfAny]
  split
  · exact evades_nil lexeme
  · exact fun _ _ => h

theorem Lexeme.eq_of_kind {lexeme : Lexeme} {sign : Punctuator}
    (h : lexeme.kind = .punctuator sign) : lexeme = .punctuator sign := by
  cases lexeme <;> simp_all [Lexeme.kind]

/-- Whether an item of a list may start with the token. -/
def Lexeme.startsItem : Lexeme → Bool
  | .name _ | .string _ | .punctuator .dollar | .punctuator .spread => true
  | _ => false

/-- Whether the token may stand behind an item of a list. -/
def Lexeme.endsItem : Lexeme → Bool
  | .eof | .punctuator .parenR | .punctuator .braceR => true
  | lexeme => lexeme.startsItem

theorem Lexeme.endsItem_of_startsItem {lexeme : Lexeme} (h : lexeme.startsItem = true) :
    lexeme.endsItem = true := by
  unfold Lexeme.endsItem
  split
  · rfl
  · rfl
  · rfl
  · exact h

theorem Lexeme.ne_of_endsItem {lexeme other : Lexeme} (h : lexeme.endsItem = true)
    (hother : other.endsItem = false) : lexeme ≠ other := by
  rintro rfl
  rw [h] at hother
  cases hother

theorem Cursor.lexeme_eq (cursor : Cursor) : cursor.token.lexeme = upcoming cursor.left := by
  by_cases hend : cursor.token.lexeme = .eof
  · rw [Cursor.left, if_pos hend, hend]
    rfl
  · rw [Cursor.left, if_neg hend]
    rfl

theorem Cursor.length_left_le (cursor : Cursor) : cursor.left.length ≤ cursor.rest.length + 1 := by
  rw [Cursor.left]
  split
  · exact Nat.zero_le _
  · exact Nat.le_refl _

theorem Cursor.of_left_cons {cursor : Cursor} {token : Token} {later : List Token}
    (h : cursor.left = token :: later) :
    cursor.token = token ∧ cursor.rest = later ∧ cursor.token.lexeme ≠ .eof := by
  by_cases hend : cursor.token.lexeme = .eof
  · rw [Cursor.left, if_pos hend] at h
    cases h
  · rw [Cursor.left, if_neg hend] at h
    exact ⟨(List.cons.inj h).1, (List.cons.inj h).2, hend⟩

theorem Spells.upcoming_eq {source : Source} {words : List Word} {tokens : List Token}
    (h : Spells source words tokens) (later : List Token) :
    upcoming (tokens ++ later) = leading words (upcoming later) := by
  cases h with
  | nil => rfl
  | @cons word words own others start stop hlexemes hstart hstop htext hothers =>
    obtain ⟨first, hfirst, -⟩ := Option.map_eq_some_iff.mp hstart
    obtain ⟨rest, rfl⟩ := List.head?_eq_some_iff.mp hfirst
    rw [leading, ← hlexemes]
    rfl

theorem length_le_flatten {γ : Type} {parts : List (List γ)} (h : ∀ part ∈ parts, part ≠ []) :
    parts.length ≤ parts.flatten.length := by
  induction parts with
  | nil => exact Nat.le_refl _
  | cons part parts ih =>
    have hfirst := List.length_pos_of_ne_nil (h part List.mem_cons_self)
    have hothers := ih fun other hother => h other (List.mem_cons_of_mem _ hother)
    simp only [List.flatten_cons, List.length_append, List.length_cons]
    omega

namespace Reader

open Reading

variable {α β : Type}

theorem run_bind {p : Reader α} {k : α → Reader β} {setting : Setting} {cursor middle : Cursor}
    {a : α} (h : p setting cursor = .ok (a, middle)) :
    (p >>= k) setting cursor = k a setting middle := by
  change (p setting cursor >>= fun r => k r.1 setting r.2) = k a setting middle
  rw [h]
  rfl

theorem run_advance {setting : Setting} (h : setting.Plain) (cursor : Cursor) :
    ∃ next, Reader.advance setting cursor = .ok ((), next) := by
  obtain ⟨eof, heof⟩ := h.ending
  rw [Reader.advance]
  cases cursor.rest with
  | nil => exact ⟨_, by rw [heof]; rfl⟩
  | cons following rest => exact ⟨_, rfl⟩

theorem run_spanFrom {setting : Setting} (h : setting.Plain) (start : Token) (cursor : Cursor) :
    Reader.spanFrom start setting cursor = .ok (none, cursor) := by
  change (if setting.located then _ else _ : Reader (Option Location)) setting cursor = _
  rw [h.unlocated]
  rfl

/-! Tokens that a reader takes -/

/-- In front of the tokens and later ones the reader moves over the tokens and returns the
result. -/
def Takes (p : Reader α) (setting : Setting) (tokens later : List Token) (result : α) : Prop :=
  ∀ cursor, setting.Fits cursor → cursor.left = tokens ++ later →
    ∃ last, p setting cursor = .ok (result, last) ∧ setting.Moves cursor tokens last

namespace Takes

variable {p : Reader α} {k : α → Reader β} {setting : Setting}
  {tokens first second later : List Token} {token : Token} {a : α} {result : β}

theorem pure (result : α) : (pure result : Reader α).Takes setting [] later result :=
  fun cursor _ _ => ⟨cursor, rfl, .stay⟩

theorem bind (hp : p.Takes setting first (second ++ later) a)
    (hk : (k a).Takes setting second later result) :
    (p >>= k).Takes setting (first ++ second) later result := by
  intro cursor hfits hleft
  rw [List.append_assoc] at hleft
  obtain ⟨middle, hrun, hmoves⟩ := hp cursor hfits hleft
  obtain ⟨hmiddle, hsplit⟩ := hmoves.fits hfits
  have hrest : middle.left = second ++ later := List.append_cancel_left (hsplit.symm.trans hleft)
  obtain ⟨last, hlast, hlater⟩ := hk middle hmiddle hrest
  exact ⟨last, (run_bind hrun).trans hlast, hmoves.append hlater⟩

/-- The second reader takes nothing. -/
theorem bind_last (hp : p.Takes setting tokens later a) (hk : (k a).Takes setting [] later result) :
    (p >>= k).Takes setting tokens later result := by
  rw [← List.append_nil tokens]
  exact bind hp hk

/-- A reader that only looks at the cursor. -/
theorem look {p : Reader α} {k : α → Reader β}
    (h : ∀ cursor, setting.Fits cursor → cursor.left = tokens ++ later →
      ∃ a, p setting cursor = .ok (a, cursor) ∧ (k a).Takes setting tokens later result) :
    (p >>= k).Takes setting tokens later result := by
  intro cursor hfits hleft
  obtain ⟨a, hrun, hk⟩ := h cursor hfits hleft
  obtain ⟨last, hlast, hmoves⟩ := hk cursor hfits hleft
  exact ⟨last, (run_bind hrun).trans hlast, hmoves⟩

theorem current {k : Token → Reader β}
    (hk : ∀ token, token.lexeme = upcoming (tokens ++ later) →
      (k token).Takes setting tokens later result) :
    Takes (Reader.current >>= k) setting tokens later result := by
  apply look
  intro cursor _ hleft
  refine ⟨cursor.token, rfl, hk _ ?_⟩
  rw [cursor.lexeme_eq, hleft]

/-- The current token is the first of those that are taken. -/
theorem current_cons {k : Token → Reader β}
    (hk : (k token).Takes setting (token :: tokens) later result) :
    Takes (Reader.current >>= k) setting (token :: tokens) later result := by
  apply look
  intro cursor _ hleft
  obtain ⟨htoken, -, -⟩ := Cursor.of_left_cons hleft
  exact ⟨token, by rw [← htoken]; rfl, hk⟩

theorem peek {k : Bool → Reader β} {kind : TokenKind}
    (hk : (k ((upcoming (tokens ++ later)).kind == kind)).Takes setting tokens later result) :
    Takes (Reading.peek kind >>= k) setting tokens later result := by
  apply look
  intro cursor _ hleft
  refine ⟨_, rfl, ?_⟩
  rwa [Token.kind, cursor.lexeme_eq, hleft]

/-- The token behind the current one, if both are taken. -/
theorem lookahead {k : Token → Reader β} {current following : Token}
    (hk : (k following).Takes setting (current :: following :: tokens) later result) :
    Takes (Reader.lookahead >>= k) setting (current :: following :: tokens) later result := by
  apply look
  rintro ⟨token, lastEnd, rest⟩ _ hleft
  obtain ⟨-, rfl, -⟩ := Cursor.of_left_cons hleft
  exact ⟨following, rfl, hk⟩

theorem budget {k : Nat → Reader β}
    (hk : ∀ rounds, tokens.length < rounds → (k rounds).Takes setting tokens later result) :
    Takes (Reader.budget >>= k) setting tokens later result := by
  apply look
  intro cursor _ hleft
  have hlength := cursor.length_left_le
  rw [hleft, List.length_append] at hlength
  exact ⟨_, rfl, hk _ (by omega)⟩

section

variable (hplain : setting.Plain)
include hplain

theorem advance (token : Token) (later : List Token) :
    Takes Reader.advance setting [token] later () := by
  intro cursor hfits hleft
  obtain ⟨rfl, -, hinside⟩ := Cursor.of_left_cons hleft
  obtain ⟨next, hnext⟩ := run_advance hplain cursor
  exact ⟨next, hnext, .step hinside hnext .stay⟩

theorem spanFrom (start : Token) : Takes (Reader.spanFrom start) setting [] later none :=
  fun cursor _ _ => ⟨cursor, run_spanFrom hplain start cursor, .stay⟩

/-- A token of the expected kind is consumed. -/
theorem expect {kind : TokenKind} (hkind : token.kind = kind) :
    Takes (Reading.expect kind) setting [token] later token := by
  apply current_cons
  rw [if_pos (beq_iff_eq.mpr hkind)]
  exact (advance hplain token later).bind_last (.pure token)

theorem skip_found {kind : TokenKind} (hkind : token.kind = kind) :
    Takes (Reading.skip kind) setting [token] later true := by
  apply peek
  have hfound : (upcoming ([token] ++ later)).kind = kind := hkind
  rw [if_pos (beq_iff_eq.mpr hfound)]
  exact (advance hplain token later).bind_last (.pure true)

omit hplain in
theorem skip_missing {kind : TokenKind} (hkind : (upcoming later).kind ≠ kind) :
    Takes (Reading.skip kind) setting [] later false := by
  apply peek
  rw [if_neg (by simpa using hkind)]
  exact .pure false

end

end Takes

/-! Words that a reader reads -/

/-- In front of the words, with the next token behind them, the reader moves over the tokens of the
words and returns the result. -/
structure Reads (p : Reader α) (words : List Word) (next : Lexeme) (result : α) : Prop where
  proper : ∀ word ∈ words, word.Proper
  takes : ∀ (setting : Setting) (tokens later : List Token), setting.Plain →
    Spells setting.source words tokens → upcoming later = next →
      p.Takes setting tokens later result

namespace Reads

variable {p : Reader α} {k : α → Reader β} {words first second : List Word} {word : Word}
  {next : Lexeme} {a : α} {result : β}

theorem pure (next : Lexeme) (result : α) : (pure result : Reader α).Reads [] next result where
  proper := by simp
  takes setting tokens later _ hspells _ := by
    cases hspells
    exact .pure result

theorem bind (hp : p.Reads first (leading second next) a) (hk : (k a).Reads second next result) :
    (p >>= k).Reads (first ++ second) next result where
  proper := List.forall_mem_append.mpr ⟨hp.proper, hk.proper⟩
  takes setting tokens later hplain hspells hnext := by
    obtain ⟨early, late, rfl, hearly, hlate⟩ := hspells.split
    have hbetween : upcoming (late ++ later) = leading second next := by
      rw [hlate.upcoming_eq, hnext]
    exact (hp.takes setting early _ hplain hearly hbetween).bind
      (hk.takes setting late later hplain hlate hnext)

/-- The first reader reads one word. -/
theorem bind_cons (hp : p.Reads [word] (leading second next) a)
    (hk : (k a).Reads second next result) : (p >>= k).Reads (word :: second) next result :=
  bind hp hk

/-- The first reader reads nothing. -/
theorem bind_nil (hp : p.Reads [] (leading words next) a) (hk : (k a).Reads words next result) :
    (p >>= k).Reads words next result :=
  bind hp hk

/-- The second reader reads nothing. -/
theorem bind_last (hp : p.Reads words next a) (hk : (k a).Reads [] next result) :
    (p >>= k).Reads words next result := by
  rw [← List.append_nil words]
  exact bind hp hk

theorem map {f : α → β} (hp : p.Reads words next a) : (f <$> p).Reads words next (f a) := by
  rw [map_eq_pure_bind]
  exact hp.bind_last (.pure next (f a))

theorem current {k : Token → Reader β} (hk : ∀ token, token.lexeme = leading words next →
      (k token).Reads words next result) : Reads (Reader.current >>= k) words next result where
  proper := (hk ⟨leading words next, 0, 0, 0, 0⟩ rfl).proper
  takes setting tokens later hplain hspells hnext := by
    apply Takes.current
    intro token htoken
    rw [hspells.upcoming_eq, hnext] at htoken
    exact (hk token htoken).takes setting tokens later hplain hspells hnext

theorem peek_found {k : Bool → Reader β} {kind : TokenKind}
    (hkind : (leading words next).kind = kind) (hk : (k true).Reads words next result) :
    Reads (Reading.peek kind >>= k) words next result where
  proper := hk.proper
  takes setting tokens later hplain hspells hnext := by
    apply Takes.peek
    rw [hspells.upcoming_eq, hnext, beq_iff_eq.mpr hkind]
    exact hk.takes setting tokens later hplain hspells hnext

theorem peek_missing {k : Bool → Reader β} {kind : TokenKind}
    (hkind : (leading words next).kind ≠ kind) (hk : (k false).Reads words next result) :
    Reads (Reading.peek kind >>= k) words next result where
  proper := hk.proper
  takes setting tokens later hplain hspells hnext := by
    apply Takes.peek
    rw [hspells.upcoming_eq, hnext, beq_eq_false_iff_ne.mpr hkind]
    exact hk.takes setting tokens later hplain hspells hnext

theorem budget {k : Nat → Reader β}
    (hk : ∀ rounds, words.length < rounds → (k rounds).Reads words next result) :
    Reads (Reader.budget >>= k) words next result where
  proper := (hk _ (Nat.lt_succ_self _)).proper
  takes setting tokens later hplain hspells hnext := by
    apply Takes.budget
    intro rounds hrounds
    have hwords : words.length < rounds := Nat.lt_of_le_of_lt hspells.length_le hrounds
    exact (hk rounds hwords).takes setting tokens later hplain hspells hnext

/-- No spans are recorded. -/
theorem spanFrom (start : Token) (next : Lexeme) : Reads (Reader.spanFrom start) [] next none where
  proper := by simp
  takes setting tokens later hplain hspells _ := by
    cases hspells
    exact .spanFrom hplain start

/-- What is returned with the span. -/
theorem spanned {start : Token} {build : Option Location → β} :
    Reads (Reader.spanFrom start >>= fun loc => Pure.pure (build loc)) [] next (build none) :=
  (spanFrom start next).bind_last (.pure next (build none))

/-! Single tokens -/

theorem advance {lexeme : Lexeme} (hproper : word.Proper) (hword : word.lexemes = [lexeme])
    (next : Lexeme) : Reads Reader.advance [word] next () where
  proper := List.forall_mem_singleton.mpr hproper
  takes setting tokens later hplain hspells _ := by
    obtain ⟨token, others, rfl, -, -, hothers⟩ := hspells.single hword
    cases hothers
    exact .advance hplain token later

theorem expect {k : Token → Reader β} {sign : Punctuator}
    (hk : ∀ token, (k token).Reads words next result) :
    Reads (Reading.expect (.punctuator sign) >>= k) (.mark sign :: words) next result where
  proper := List.forall_mem_cons.mpr ⟨Word.proper_mark sign, (hk .sof).proper⟩
  takes setting tokens later hplain hspells hnext := by
    obtain ⟨token, others, rfl, hlexeme, -, hothers⟩ := hspells.single rfl
    have hkind : token.kind = .punctuator sign := by rw [Token.kind, hlexeme]; rfl
    exact (Takes.expect hplain hkind).bind
      ((hk token).takes setting others later hplain hothers hnext)

theorem expect_name {k : Token → Reader β} {text : String} (hname : IsName text)
    (hk : ∀ token, token.lexeme = .name text → (k token).Reads words next result) :
    Reads (Reading.expect .name >>= k) (.name text :: words) next result where
  proper :=
    List.forall_mem_cons.mpr ⟨Word.proper_name hname, (hk ⟨.name text, 0, 0, 0, 0⟩ rfl).proper⟩
  takes setting tokens later hplain hspells hnext := by
    obtain ⟨token, others, rfl, hlexeme, -, hothers⟩ := hspells.single rfl
    have hkind : token.kind = .name := by rw [Token.kind, hlexeme]; rfl
    exact (Takes.expect hplain hkind).bind
      ((hk token hlexeme).takes setting others later hplain hothers hnext)

theorem skip_found (sign : Punctuator) (next : Lexeme) :
    Reads (Reading.skip (.punctuator sign)) [.mark sign] next true := by
  apply peek_found
  · rfl
  · exact (advance (Word.proper_mark sign) rfl next).bind_last (.pure next true)

theorem skip_missing {sign : Punctuator} (hnext : next ≠ .punctuator sign) :
    Reads (Reading.skip (.punctuator sign)) [] next false := by
  apply peek_missing
  · exact fun hkind => hnext (Lexeme.eq_of_kind hkind)
  · exact .pure next false

theorem skipKeyword_found {keyword : String} (hname : IsName keyword) (next : Lexeme) :
    Reads (Reading.skipKeyword keyword) [.name keyword] next true := by
  apply current
  intro token htoken
  have hlexeme : token.lexeme = .name keyword := htoken
  rw [if_pos (beq_iff_eq.mpr hlexeme)]
  exact (advance (Word.proper_name hname) rfl next).bind_last (.pure next true)

theorem skipKeyword_missing {keyword : String} (hnext : next ≠ .name keyword) :
    Reads (Reading.skipKeyword keyword) [] next false := by
  apply current
  intro token htoken
  have hlexeme : token.lexeme ≠ .name keyword := fun hname => hnext (htoken.symm.trans hname)
  rw [if_neg (by simpa using hlexeme)]
  exact .pure next false

theorem expectKeyword {keyword : String} (hname : IsName keyword) (next : Lexeme) :
    Reads (Reading.expectKeyword keyword) [.name keyword] next () :=
  (skipKeyword_found hname next).bind_last (.pure next ())

theorem lookahead {k : Token → Reader β} {second : Word} {lexeme other : Lexeme}
    (hword : word.lexemes = [lexeme]) (hsecond : second.lexemes = [other])
    (hk : ∀ token, token.lexeme = other → (k token).Reads (word :: second :: words) next result) :
    Reads (Reader.lookahead >>= k) (word :: second :: words) next result where
  proper := (hk ⟨other, 0, 0, 0, 0⟩ rfl).proper
  takes setting tokens later hplain hspells hnext := by
    obtain ⟨token, others, rfl, -, -, hothers⟩ := hspells.single hword
    obtain ⟨following, rest, rfl, hlexeme, -, -⟩ := hothers.single hsecond
    apply Takes.lookahead
    exact (hk following hlexeme).takes setting _ later hplain hspells hnext

/-! Optional parts and repetition -/

theorem optionalItem_found {kind : TokenKind} {item : Reader α} {a : α}
    (hkind : (leading words next).kind = kind) (hitem : item.Reads words next a) :
    Reads (optionalItem kind item) words next (some a) := by
  apply peek_found hkind
  exact hitem.bind_last (.pure next (some a))

theorem optionalItem_missing {kind : TokenKind} (item : Reader α) (hnext : next.kind ≠ kind) :
    Reads (optionalItem kind item) [] next none := by
  apply peek_missing
  · exact hnext
  · exact .pure next none

end Reads

/-- An item of a list is known by its first word and read in front of another item or of the end of
the list. -/
structure ReadsItem (item : Reader α) (words : List Word) (result : α) : Prop where
  starts : ∀ next, (leading words next).startsItem = true
  reads : ∀ next, next.endsItem = true → item.Reads words next result

section Items

variable {γ : Type} {item : Reader α} {items : List γ} {wordsOf : γ → List Word} {value : γ → α}
  {opening closing : Punctuator} {next : Lexeme}

theorem ReadsItem.ne_nil {words : List Word} {result : α} (h : ReadsItem item words result) :
    words ≠ [] := by
  rintro rfl
  cases h.starts .eof

/-- A token that ends a list: no item starts with it. -/
structure Closes (closing : Punctuator) : Prop where
  ends : (Lexeme.punctuator closing).endsItem = true
  not_starts : (Lexeme.punctuator closing).startsItem = false

/-- Behind items there is another one or the end of the list. -/
theorem leading_items (hclosing : Closes closing)
    (hitems : ∀ x ∈ items, ReadsItem item (wordsOf x) (value x)) (next : Lexeme) :
    (leading ((items.map wordsOf).flatten ++ [.mark closing]) next).endsItem = true := by
  cases items with
  | nil => exact hclosing.ends
  | cons x items =>
    rw [List.map_cons, List.flatten_cons, List.append_assoc, leading_append]
    exact Lexeme.endsItem_of_startsItem ((hitems x List.mem_cons_self).starts _)

theorem Reads.itemsUntil (hclosing : Closes closing)
    (hitems : ∀ x ∈ items, ReadsItem item (wordsOf x) (value x)) {rounds : Nat}
    (hrounds : items.length < rounds) (next : Lexeme) :
    Reads (Reading.itemsUntil (.punctuator closing) item rounds)
      ((items.map wordsOf).flatten ++ [.mark closing]) next (items.map value) := by
  induction items generalizing rounds with
  | nil =>
    obtain ⟨rounds, rfl⟩ := Nat.exists_eq_succ_of_ne_zero (Nat.ne_of_gt hrounds)
    exact (skip_found closing next).bind_last (.pure next [])
  | cons x items ih =>
    obtain ⟨rounds, rfl⟩ := Nat.exists_eq_succ_of_ne_zero (Nat.ne_zero_of_lt hrounds)
    have hfirst := hitems x List.mem_cons_self
    have hothers : ∀ y ∈ items, ReadsItem item (wordsOf y) (value y) := fun y hy =>
      hitems y (List.mem_cons_of_mem _ hy)
    have hrest := ih hothers (Nat.lt_of_succ_lt_succ hrounds)
    rw [List.map_cons, List.flatten_cons, List.append_assoc]
    have hopen : leading (wordsOf x ++ ((items.map wordsOf).flatten ++ [.mark closing])) next ≠
        .punctuator closing := by
      intro hclosed
      have hstarts := hfirst.starts
        (leading ((items.map wordsOf).flatten ++ [.mark closing]) next)
      rw [← leading_append, hclosed, hclosing.not_starts] at hstarts
      cases hstarts
    apply (skip_missing hopen).bind_nil
    apply (hfirst.reads _ (leading_items hclosing hothers next)).bind
    exact hrest.bind_last (.pure next _)

theorem Reads.many (hclosing : Closes closing) (hne : items ≠ [])
    (hitems : ∀ x ∈ items, ReadsItem item (wordsOf x) (value x)) (next : Lexeme) :
    Reads (Reading.many (.punctuator opening) item (.punctuator closing))
      (Word.enclose opening closing (items.map wordsOf)) next (items.map value) := by
  obtain ⟨x, others, rfl⟩ := List.exists_cons_of_ne_nil hne
  have hfirst := hitems x List.mem_cons_self
  have hothers : ∀ y ∈ others, ReadsItem item (wordsOf y) (value y) := fun y hy =>
    hitems y (List.mem_cons_of_mem _ hy)
  rw [Word.enclose, List.map_cons, List.flatten_cons, List.append_assoc]
  apply Reads.expect
  intro _
  apply (hfirst.reads _ (leading_items hclosing hothers next)).bind
  apply Reads.budget
  intro rounds hrounds
  have hcount : others.length < rounds := by
    have hparts : ∀ part ∈ others.map wordsOf, part ≠ [] := by
      intro part hpart
      obtain ⟨y, hy, rfl⟩ := List.mem_map.mp hpart
      exact (hothers y hy).ne_nil
    have hlength := length_le_flatten hparts
    simp only [List.length_append, List.length_cons, List.length_nil, List.length_map]
      at hrounds hlength
    omega
  exact (Reads.itemsUntil hclosing hothers hcount next).bind_last (.pure next _)

theorem Reads.optionalMany (hclosing : Closes closing)
    (hitems : ∀ x ∈ items, ReadsItem item (wordsOf x) (value x))
    (hnext : next ≠ .punctuator opening) :
    Reads (Reading.optionalMany (.punctuator opening) item (.punctuator closing))
      (Word.encloseIfAny opening closing (items.map wordsOf)) next (items.map value) := by
  cases items with
  | nil =>
    apply Reads.peek_missing
    · exact fun hkind => hnext (Lexeme.eq_of_kind hkind)
    · exact .pure next []
  | cons x others =>
    apply Reads.peek_found
    · rfl
    · exact Reads.many hclosing (List.cons_ne_nil _ _) hitems next

/-- Items that each follow a delimiter, one word each. -/
theorem Reads.itemsAfter {wordOf : γ → Word} {delimiter : Punctuator}
    (hitems : ∀ x ∈ items, ∀ next, item.Reads [wordOf x] next (value x))
    (hnext : next ≠ .punctuator delimiter) {rounds : Nat} (hrounds : items.length < rounds) :
    Reads (Reading.itemsAfter (.punctuator delimiter) item rounds)
      (items.flatMap fun x => [.mark delimiter, wordOf x]) next (items.map value) := by
  induction items generalizing rounds with
  | nil =>
    obtain ⟨rounds, rfl⟩ := Nat.exists_eq_succ_of_ne_zero (Nat.ne_of_gt hrounds)
    exact (skip_missing hnext).bind_last (.pure next [])
  | cons x items ih =>
    obtain ⟨rounds, rfl⟩ := Nat.exists_eq_succ_of_ne_zero (Nat.ne_zero_of_lt hrounds)
    have hothers := ih (fun y hy => hitems y (List.mem_cons_of_mem _ hy))
      (Nat.lt_of_succ_lt_succ hrounds)
    apply (skip_found delimiter _).bind_cons
    apply (hitems x List.mem_cons_self _).bind_cons
    exact hothers.bind_last (.pure next _)

theorem Reads.delimited {wordOf : γ → Word} {delimiter : Punctuator} {x : γ}
    (hitems : ∀ y ∈ x :: items, ∀ next, item.Reads [wordOf y] next (value y))
    (hfirst : (wordOf x).lexemes.headD .eof ≠ .punctuator delimiter)
    (hnext : next ≠ .punctuator delimiter) :
    Reads (Reading.delimited (.punctuator delimiter) item)
      (wordOf x :: items.flatMap fun y => [.mark delimiter, wordOf y]) next
      ((x :: items).map value) := by
  have hothers : ∀ y ∈ items, ∀ next, item.Reads [wordOf y] next (value y) := fun y hy =>
    hitems y (List.mem_cons_of_mem _ hy)
  have hopen : leading (wordOf x :: items.flatMap fun y => [.mark delimiter, wordOf y]) next ≠
      .punctuator delimiter := hfirst
  apply (skip_missing hopen).bind_nil
  apply (hitems x List.mem_cons_self _).bind_cons
  apply Reads.budget
  intro rounds hrounds
  have hcount : items.length < rounds := by
    simp only [List.length_flatMap, List.length_cons, List.length_nil, List.map_const',
      List.sum_replicate_nat] at hrounds
    omega
  exact (Reads.itemsAfter hothers hnext hcount).bind_last (.pure next _)

end Items

end Reader

end QueryLint
