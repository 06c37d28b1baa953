import QueryLint.Proofs.Acceptance

/-!
How far a reader looks ahead. What a reader does is decided by the tokens it consumes and the one
behind them: in front of the same tokens of another source it does the same, and an error is about
the one token at which it stops. Tokens that are consumed before an error can be completed to
something the reader takes.

Readers come in families, whose members differ in what was read before. A family has bounds for the
number of tokens in front of a reader that is run, and limits for that in front of the readers it is
compared with.
-/

namespace QueryLint

/-- The token that a fault is about. -/
def SyntaxFault.found? : SyntaxFault → Option Lexeme
  | .expectedToken _ found | .expectedKeyword _ found | .unexpectedToken found => some found
  | _ => none

/-- A brace with operation types of a schema behind it, in front of where the next one may stand. -/
def AtOperationType (lexemes : List Lexeme) : Prop :=
  ∃ before, ∃ operations : List OperationTypeDefinition,
    lexemes = before ++ .punctuator .braceL :: operations.flatMap OperationTypeDefinition.lexemes

theorem AtOperationType.behind {lexemes : List Lexeme} (h : AtOperationType lexemes)
    (early : List Lexeme) : AtOperationType (early ++ lexemes) := by
  obtain ⟨before, operations, rfl⟩ := h
  exact ⟨early ++ before, operations, (List.append_assoc _ _ _).symm⟩

theorem headD_append {γ : Type} (first second : List γ) (next : γ) :
    (first ++ second).headD next = first.headD (second.headD next) := by
  cases first <;> rfl

/-! The tokens ahead -/

namespace Setting

variable {setting : Setting} {cursor next last : Cursor} {tokens : List Token} {lexeme : Lexeme}
  {lexemes rest : List Lexeme}

/-- The end of the source, unless a fault comes before it. -/
def closing (setting : Setting) : List Lexeme :=
  match setting.ending with
  | .ok _ => [.eof]
  | .error _ => []

/-- The tokens from the current one on, with the end of the source unless a fault comes first. -/
def ahead (setting : Setting) (cursor : Cursor) : List Lexeme :=
  cursor.left.map Token.lexeme ++ setting.closing

theorem Moves.ahead_eq (h : setting.Moves cursor tokens last) (hfits : setting.Fits cursor) :
    setting.ahead cursor = tokens.map Token.lexeme ++ setting.ahead last := by
  rw [ahead, (h.fits hfits).2, List.map_append, List.append_assoc, ahead]

theorem Moves.length_left (h : setting.Moves cursor tokens last) (hfits : setting.Fits cursor) :
    cursor.left.length = tokens.length + last.left.length := by
  rw [(h.fits hfits).2, List.length_append]

/-- The first token of a move, or the one it ends in front of, is the current one. -/
theorem Moves.headD_eq (h : setting.Moves cursor tokens last) :
    (tokens.map Token.lexeme).headD last.token.lexeme = cursor.token.lexeme := by
  cases h <;> rfl

theorem Fits.ahead_eq (h : setting.Fits cursor) :
    ∃ behind, setting.ahead cursor = cursor.token.lexeme :: behind ∧
      (cursor.token.lexeme ≠ .eof → behind = cursor.rest.map Token.lexeme ++ setting.closing) ∧
      (cursor.token.lexeme = .eof → behind = []) := by
  by_cases hend : cursor.token.lexeme = .eof
  · refine ⟨[], ?_, fun hinside => absurd hend hinside, fun _ => rfl⟩
    rw [ahead, Cursor.left, if_pos hend, closing, (h.atEnd hend).2, hend]
    rfl
  · refine ⟨_, ?_, fun _ => rfl, fun hend' => absurd hend' hend⟩
    rw [ahead, Cursor.left, if_neg hend]
    rfl

theorem Fits.lexeme_eq (h : setting.Fits cursor) (hahead : setting.ahead cursor = lexeme :: rest) :
    cursor.token.lexeme = lexeme := by
  obtain ⟨behind, hcursor, -⟩ := h.ahead_eq
  exact (List.cons.inj (hcursor.symm.trans hahead)).1

/-- The current token heads the tokens ahead. -/
theorem Fits.headD_eq (h : setting.Fits cursor) {misfit : Lexeme}
    (hahead : setting.ahead cursor = lexemes ++ misfit :: rest) :
    cursor.token.lexeme = lexemes.headD misfit := by
  cases lexemes with
  | nil => exact h.lexeme_eq hahead
  | cons first others => exact h.lexeme_eq hahead

/-- A token with another one behind it can be consumed. -/
theorem Fits.advance_ok (h : setting.Fits cursor) {following : Lexeme}
    (hahead : setting.ahead cursor = lexeme :: following :: rest) :
    cursor.token.lexeme ≠ .eof ∧ ∃ next, Reader.advance setting cursor = .ok ((), next) := by
  obtain ⟨behind, hcursor, hinside, hend⟩ := h.ahead_eq
  obtain rfl : behind = following :: rest := (List.cons.inj (hcursor.symm.trans hahead)).2
  have hne : cursor.token.lexeme ≠ .eof := fun heof => by cases hend heof
  refine ⟨hne, ?_⟩
  have hbehind := hinside hne
  rw [Reader.advance]
  cases hcase : cursor.rest with
  | cons token others => exact ⟨_, rfl⟩
  | nil =>
    cases hok : setting.ending with
    | ok eof => exact ⟨_, rfl⟩
    | error error => simp [hcase, closing, hok] at hbehind

/-- A token with nothing behind it is followed by a fault. -/
theorem Fits.advance_error (h : setting.Fits cursor) (hinside : lexeme ≠ .eof)
    (hahead : setting.ahead cursor = [lexeme]) :
    ∃ error, setting.ending = .error error ∧ Reader.advance setting cursor = .error error := by
  obtain ⟨behind, hcursor, hbehind, -⟩ := h.ahead_eq
  obtain ⟨rfl, rfl⟩ := List.cons.inj (hcursor.symm.trans hahead)
  obtain ⟨hrest, hclosing⟩ := List.append_eq_nil_iff.mp (hbehind hinside).symm
  rw [Reader.advance, List.map_eq_nil_iff.mp hrest]
  cases hok : setting.ending with
  | ok eof => simp [closing, hok] at hclosing
  | error error => exact ⟨error, rfl, rfl⟩

theorem ending_of_advance {error : SyntaxError}
    (h : Reader.advance setting cursor = .error error) : setting.ending = .error error := by
  rw [Reader.advance] at h
  cases hcase : cursor.rest with
  | cons token others => rw [hcase] at h; cases h
  | nil =>
    rw [hcase] at h
    cases hok : setting.ending with
    | ok eof => rw [hok] at h; cases h
    | error other => rw [hok] at h; cases h; rfl

end Setting

/-- The tokens can be written as words. -/
def Writable (lexemes : List Lexeme) : Prop :=
  ∃ words : List Word, (∀ word ∈ words, word.Proper) ∧ words.flatMap Word.lexemes = lexemes

theorem writable_nil : Writable [] := ⟨[], by simp, rfl⟩

theorem Writable.append {first second : List Lexeme} (hfirst : Writable first)
    (hsecond : Writable second) : Writable (first ++ second) := by
  obtain ⟨early, hearly, rfl⟩ := hfirst
  obtain ⟨late, hlate, rfl⟩ := hsecond
  exact ⟨early ++ late, List.forall_mem_append.mpr ⟨hearly, hlate⟩, List.flatMap_append⟩

theorem writable_mark (sign : Punctuator) : Writable [.punctuator sign] :=
  ⟨[.mark sign], List.forall_mem_singleton.mpr (Word.proper_mark sign), rfl⟩

theorem writable_name {text : String} (h : IsName text) : Writable [.name text] :=
  ⟨[.name text], List.forall_mem_singleton.mpr (Word.proper_name h), rfl⟩

namespace Reader

open Reading

variable {κ α β : Type}

theorem bind_eq_error {p : Reader α} {k : α → Reader β} {setting : Setting} {cursor : Cursor}
    {error : SyntaxError} (h : (p >>= k) setting cursor = .error error) :
    p setting cursor = .error error ∨ ∃ a middle, p setting cursor = .ok (a, middle) ∧
      k a setting middle = .error error := by
  change (p setting cursor >>= fun r => k r.1 setting r.2) = .error error at h
  cases hp : p setting cursor with
  | error other => rw [hp] at h; cases h; exact .inl rfl
  | ok r => exact .inr ⟨r.1, r.2, rfl, by rw [hp] at h; exact h⟩

theorem run_bind_error {p : Reader α} {setting : Setting} {cursor : Cursor} {error : SyntaxError}
    (h : p setting cursor = .error error) (k : α → Reader β) :
    (p >>= k) setting cursor = .error error := by
  change (p setting cursor >>= fun r => k r.1 setting r.2) = .error error
  rw [h]
  rfl

/-! What a reader does in front of given tokens -/

/-- In front of these tokens and a next one, with fewer tokens left than the limit, the reader moves
over the tokens. -/
def Passes (p : Reader α) (limit : Nat) (lexemes : List Lexeme) (next : Lexeme → Prop) : Prop :=
  ∀ setting cursor, setting.Fits cursor → cursor.left.length < limit →
    ∀ following rest, setting.ahead cursor = lexemes ++ following :: rest → next following →
      ∃ result last tokens, p setting cursor = .ok (result, last) ∧
        setting.Moves cursor tokens last ∧ tokens.map Token.lexeme = lexemes

/-- In front of these tokens and one that does not fit, the reader fails at the latter. A reader
that is late consumes it first, and a fault in the text behind it is found instead. -/
def Refuses (p : Reader α) (limit : Nat) (lexemes : List Lexeme) (misfit : Lexeme)
    (fault : SyntaxFault) (late : Bool) : Prop :=
  ∀ setting cursor, setting.Fits cursor → cursor.left.length < limit →
    ∀ rest, setting.ahead cursor = lexemes ++ misfit :: rest →
      (late = true → rest = [] →
        ∃ error, setting.ending = .error error ∧ p setting cursor = .error error) ∧
      ((late = true → rest ≠ []) → ∃ tokens last, setting.Moves cursor tokens last ∧
        tokens.map Token.lexeme = lexemes ∧ p setting cursor = .error ⟨last.token.start, fault⟩)

section

variable {p q : Reader α} {k : α → Reader β} {limit limit' : Nat} {lexemes later : List Lexeme}
  {next next' : Lexeme → Prop} {misfit : Lexeme} {fault : SyntaxFault} {late : Bool}

theorem Passes.mono (h : p.Passes limit lexemes next) (hlimit : limit' ≤ limit)
    (hnext : ∀ following, next' following → next following) : p.Passes limit' lexemes next' :=
  fun setting cursor hfits hleft following rest hahead hfollowing =>
    h setting cursor hfits (Nat.lt_of_lt_of_le hleft hlimit) following rest hahead
      (hnext following hfollowing)

theorem Refuses.mono (h : p.Refuses limit lexemes misfit fault late) (hlimit : limit' ≤ limit) :
    p.Refuses limit' lexemes misfit fault late :=
  fun setting cursor hfits hleft => h setting cursor hfits (Nat.lt_of_lt_of_le hleft hlimit)

/-- Readers that agree at the first of the tokens. -/
theorem Passes.congr (h : q.Passes limit lexemes next) (hsame : ∀ following, next following →
      ∀ setting cursor, 0 < limit → cursor.token.lexeme = lexemes.headD following →
        p setting cursor = q setting cursor) :
    p.Passes limit lexemes next := by
  intro setting cursor hfits hleft following rest hahead hfollowing
  rw [hsame following hfollowing setting cursor (Nat.zero_lt_of_lt hleft) (hfits.headD_eq hahead)]
  exact h setting cursor hfits hleft following rest hahead hfollowing

theorem Refuses.congr (h : q.Refuses limit lexemes misfit fault late)
    (hsame : ∀ setting cursor, 0 < limit → cursor.token.lexeme = lexemes.headD misfit →
      p setting cursor = q setting cursor) :
    p.Refuses limit lexemes misfit fault late := by
  intro setting cursor hfits hleft rest hahead
  rw [hsame setting cursor (Nat.zero_lt_of_lt hleft) (hfits.headD_eq hahead)]
  exact h setting cursor hfits hleft rest hahead

theorem Passes.bind (hp : p.Passes limit lexemes next)
    (hk : ∀ a, (k a).Passes limit' later next')
    (hnext : ∀ following, next' following → next (later.headD following))
    (hlimit : limit ≤ limit' + lexemes.length) :
    (p >>= k).Passes limit (lexemes ++ later) next' := by
  intro setting cursor hfits hleft following rest hahead hfollowing
  rw [List.append_assoc] at hahead
  have hbehind : later ++ following :: rest =
      later.headD following :: (later ++ following :: rest).tail := by cases later <;> rfl
  rw [hbehind] at hahead
  obtain ⟨a, middle, tokens, hrun, hmoves, rfl⟩ :=
    hp setting cursor hfits hleft _ _ hahead (hnext following hfollowing)
  obtain ⟨hmiddle, -⟩ := hmoves.fits hfits
  have hlength := hmoves.length_left hfits
  rw [List.length_map] at hlimit
  rw [← hbehind, hmoves.ahead_eq hfits] at hahead
  obtain ⟨result, last, others, hlast, hlater, rfl⟩ :=
    hk a setting middle hmiddle (by omega) following rest (List.append_cancel_left hahead)
      hfollowing
  exact ⟨result, last, tokens ++ others, (run_bind hrun).trans hlast, hmoves.append hlater,
    List.map_append⟩

theorem Refuses.bind (hp : p.Refuses limit lexemes misfit fault late) (k : α → Reader β) :
    (p >>= k).Refuses limit lexemes misfit fault late := by
  intro setting cursor hfits hleft rest hahead
  obtain ⟨hlate, hrefuse⟩ := hp setting cursor hfits hleft rest hahead
  refine ⟨fun hlates hrest => ?_, fun hopen => ?_⟩
  · obtain ⟨error, hending, herror⟩ := hlate hlates hrest
    exact ⟨error, hending, run_bind_error herror k⟩
  · obtain ⟨tokens, last, hmoves, htokens, herror⟩ := hrefuse hopen
    exact ⟨tokens, last, hmoves, htokens, run_bind_error herror k⟩

/-- The first reader passes, and the second one fails. -/
theorem Passes.refuses (hp : p.Passes limit lexemes next)
    (hk : ∀ a, (k a).Refuses limit' later misfit fault late) (hnext : next (later.headD misfit))
    (hlimit : limit ≤ limit' + lexemes.length) :
    (p >>= k).Refuses limit (lexemes ++ later) misfit fault late := by
  intro setting cursor hfits hleft rest hahead
  rw [List.append_assoc] at hahead
  have hbehind : later ++ misfit :: rest =
      later.headD misfit :: (later ++ misfit :: rest).tail := by cases later <;> rfl
  rw [hbehind] at hahead
  obtain ⟨a, middle, tokens, hrun, hmoves, rfl⟩ :=
    hp setting cursor hfits hleft _ _ hahead hnext
  obtain ⟨hmiddle, -⟩ := hmoves.fits hfits
  have hlength := hmoves.length_left hfits
  rw [List.length_map] at hlimit
  rw [← hbehind, hmoves.ahead_eq hfits] at hahead
  obtain ⟨hlate, hrefuse⟩ :=
    hk a setting middle hmiddle (by omega) rest (List.append_cancel_left hahead)
  rw [run_bind hrun]
  refine ⟨hlate, fun hopen => ?_⟩
  obtain ⟨others, last, hlater, rfl, herror⟩ := hrefuse hopen
  exact ⟨tokens ++ others, last, hmoves.append hlater, List.map_append, herror⟩

theorem Passes.pure (result : α) (limit : Nat) (next : Lexeme → Prop) :
    (pure result : Reader α).Passes limit [] next :=
  fun _ cursor _ _ _ _ _ _ => ⟨result, cursor, [], rfl, .stay, rfl⟩

end

/-! Families of readers -/

section

variable (p : κ → Reader α) (limit : κ → Nat) (first follow : Lexeme → Prop)

/-- The error is about the token at which the reading stops, and no reader of the family gets
further in front of the same tokens. Those before it can be completed. -/
structure Objects (setting : Setting) (cursor : Cursor) (error : SyntaxError) (tokens : List Token)
    (last : Cursor) (late : Bool) : Prop where
  moves : setting.Moves cursor tokens last
  position : error.position = last.token.start
  found : error.fault.found? = some last.token.lexeme
  atName : late = true → (∃ text, last.token.lexeme = .name text) ∧
    error.fault = .unexpectedToken last.token.lexeme ∧ AtOperationType (tokens.map Token.lexeme)
  refuses : ∀ y,
    (p y).Refuses (limit y) (tokens.map Token.lexeme) last.token.lexeme error.fault late
  completion : tokens ≠ [] → ∃ later, Writable later ∧
    ∀ y, (p y).Passes (limit y) (tokens.map Token.lexeme ++ later) follow

/-- What the reader does here is decided by the tokens up to where it stops. It consumes nothing
only if all that may follow it is among what may be first. -/
structure Decided (x : κ) (setting : Setting) (cursor : Cursor) : Prop where
  onward : ∀ result last, p x setting cursor = .ok (result, last) →
    ∃ tokens, setting.Moves cursor tokens last ∧
      (tokens = [] → ∀ next, follow next → first next) ∧
      ∀ y, (p y).Passes (limit y) (tokens.map Token.lexeme) fun next =>
        next = last.token.lexeme ∨ follow next
  refusal : ∀ error, p x setting cursor = .error error → setting.ending = .error error ∨
    ∃ tokens last late, Objects p limit follow setting cursor error tokens last late

def Decides (bound : κ → Nat) : Prop :=
  ∀ x setting cursor, setting.Fits cursor → cursor.left.length < bound x →
    Decided p limit first follow x setting cursor

/-- There are tokens that all readers of the family pass. -/
def Samples : Prop :=
  ∃ lexemes, Writable lexemes ∧ (∀ next, follow next → first (lexemes.headD next)) ∧
    ∀ y, (p y).Passes (limit y) lexemes follow

/-- The readers are decided within their bounds, and there is something that they pass. -/
structure Foresees (bound : κ → Nat) : Prop where
  samples : Samples p limit first follow
  decides : Decides p limit first follow bound

end

section

variable {p q : κ → Reader α} {k : κ → α → Reader β} {bound bound' limit limit' : κ → Nat}
  {first first' middle follow follow' : Lexeme → Prop} {x : κ} {setting : Setting}
  {cursor : Cursor}

theorem Decided.congr (h : Decided q limit first follow x setting cursor) (on : Lexeme → Prop)
    (hsame : ∀ y setting cursor, 0 < limit y → on cursor.token.lexeme →
      p y setting cursor = q y setting cursor)
    (hhere : p x setting cursor = q x setting cursor) (hon : on cursor.token.lexeme)
    (hfirst : ∀ next, first next → on next) : Decided p limit first follow x setting cursor := by
  constructor
  · intro result last hrun
    rw [hhere] at hrun
    obtain ⟨tokens, hmoves, hidle, hpasses⟩ := h.onward result last hrun
    refine ⟨tokens, hmoves, hidle, fun y => (hpasses y).congr ?_⟩
    intro following hfollowing setting' cursor' hlimit hhead
    apply hsame y setting' cursor' hlimit
    rw [hhead]
    cases hmoves with
    | step hinside hadvance hrest => exact hon
    | stay =>
      rcases hfollowing with rfl | hfollow
      · exact hon
      · exact hfirst _ (hidle rfl following hfollow)
  · intro error hrun
    rw [hhere] at hrun
    rcases h.refusal error hrun with hending | ⟨tokens, last, late, hobjects⟩
    · exact .inl hending
    · have hhead := hobjects.moves.headD_eq
      refine .inr ⟨tokens, last, late, { hobjects with refuses := ?_, completion := ?_ }⟩
      · intro y
        refine (hobjects.refuses y).congr fun setting' cursor' hlimit hlexeme => ?_
        exact hsame y setting' cursor' hlimit (by rwa [hlexeme, hhead])
      · intro hne
        obtain ⟨later, hlater, hpasses⟩ := hobjects.completion hne
        refine ⟨later, hlater, fun y => (hpasses y).congr ?_⟩
        intro following _ setting' cursor' hlimit hlexeme
        apply hsame y setting' cursor' hlimit
        obtain ⟨token, others, rfl⟩ := List.exists_cons_of_ne_nil hne
        rw [hlexeme]
        rw [← hhead] at hon
        exact hon

theorem Samples.congr (h : Samples q limit first follow)
    (hsame : ∀ y, 0 < limit y → p y = q y) : Samples p limit first follow := by
  obtain ⟨lexemes, hwritable, hfirst, hpasses⟩ := h
  refine ⟨lexemes, hwritable, hfirst, fun y => (hpasses y).congr ?_⟩
  intro _ _ _ _ hlimit _
  rw [hsame y hlimit]

/-- The readers agree with others on what those may start with. -/
theorem Samples.on (h : Samples q limit first follow)
    (hsame : ∀ y setting cursor, first cursor.token.lexeme →
      p y setting cursor = q y setting cursor) : Samples p limit first follow := by
  obtain ⟨lexemes, hwritable, hfirst, hpasses⟩ := h
  refine ⟨lexemes, hwritable, hfirst, fun y => (hpasses y).congr ?_⟩
  intro following hfollowing setting cursor _ hhead
  exact hsame y setting cursor (by rw [hhead]; exact hfirst _ hfollowing)

theorem Samples.weaken (h : Samples p limit first follow)
    (hfirst : ∀ next, first next → first' next) : Samples p limit first' follow := by
  obtain ⟨lexemes, hwritable, hheads, hpasses⟩ := h
  exact ⟨lexemes, hwritable, fun next hnext => hfirst _ (hheads next hnext), hpasses⟩

theorem Samples.anti (h : Samples p limit first follow) (hlimit : ∀ y, limit' y ≤ limit y) :
    Samples p limit' first follow := by
  obtain ⟨lexemes, hwritable, hfirst, hpasses⟩ := h
  exact ⟨lexemes, hwritable, hfirst, fun y => (hpasses y).mono (hlimit y) fun _ => id⟩

/-- Readers that are not run are decided. -/
theorem Samples.foresees (h : Samples p limit first follow) :
    Foresees p limit first follow fun _ => 0 :=
  ⟨h, fun _ _ _ _ hleft => absurd hleft (Nat.not_lt_zero _)⟩

theorem Decides.congr (h : Decides q limit first follow bound)
    (hsame : ∀ y, 0 < limit y → p y = q y) (hhere : ∀ x, 0 < bound x → p x = q x) :
    Decides p limit first follow bound := by
  intro x setting cursor hfits hleft
  have hrun : p x setting cursor = q x setting cursor := by rw [hhere x (Nat.zero_lt_of_lt hleft)]
  refine (h x setting cursor hfits hleft).congr (fun _ => True) ?_ hrun trivial fun _ _ => trivial
  intro y _ _ hy _
  rw [hsame y hy]

/-- Less may follow, and the bounds and limits are lowered. -/
theorem Decides.anti (h : Decides p limit first follow bound)
    (hfollow : ∀ next, follow' next → follow next) (hlimit : ∀ y, limit' y ≤ limit y)
    (hbound : ∀ x, bound' x ≤ bound x) : Decides p limit' first follow' bound' := by
  intro x setting cursor hfits hleft
  have hdecided := h x setting cursor hfits (Nat.lt_of_lt_of_le hleft (hbound x))
  constructor
  · intro result last hrun
    obtain ⟨tokens, hmoves, hidle, hpasses⟩ := hdecided.onward result last hrun
    refine ⟨tokens, hmoves, fun hnil next hnext => hidle hnil next (hfollow next hnext), ?_⟩
    exact fun y => (hpasses y).mono (hlimit y) fun _ => Or.imp_right (hfollow _)
  · intro error hrun
    rcases hdecided.refusal error hrun with hending | ⟨tokens, last, late, hobjects⟩
    · exact .inl hending
    · refine .inr ⟨tokens, last, late, { hobjects with refuses := ?_, completion := ?_ }⟩
      · exact fun y => (hobjects.refuses y).mono (hlimit y)
      · intro hne
        obtain ⟨later, hlater, hpasses⟩ := hobjects.completion hne
        exact ⟨later, hlater, fun y => (hpasses y).mono (hlimit y) hfollow⟩

theorem Decided.weaken (h : Decided p limit first follow x setting cursor)
    (hfirst : ∀ next, follow next → first next → first' next) :
    Decided p limit first' follow x setting cursor := by
  refine ⟨fun result last hrun => ?_, h.refusal⟩
  obtain ⟨tokens, hmoves, hidle, hpasses⟩ := h.onward result last hrun
  exact ⟨tokens, hmoves, fun hnil next hnext => hfirst next hnext (hidle hnil next hnext), hpasses⟩

/-- A reader that always consumes a token may have anything as its first one. -/
theorem Decides.weaken (h : Decides p limit (fun _ => False) follow bound) :
    Decides p limit first follow bound :=
  fun x setting cursor hfits hleft => (h x setting cursor hfits hleft).weaken fun _ _ => False.elim

theorem Foresees.anti (h : Foresees p limit first follow bound)
    (hlimit : ∀ y, limit' y ≤ limit y) (hbound : ∀ x, bound' x ≤ bound x) :
    Foresees p limit' first follow bound' where
  samples := h.samples.anti hlimit
  decides := h.decides.anti (fun _ => id) hlimit hbound

theorem Foresees.mono (h : Foresees p limit first follow bound)
    (hfollow : ∀ next, follow' next → follow next) : Foresees p limit first follow' bound where
  samples := by
    obtain ⟨lexemes, hwritable, hfirst, hpasses⟩ := h.samples
    exact ⟨lexemes, hwritable, fun next hnext => hfirst next (hfollow next hnext),
      fun y => (hpasses y).mono (Nat.le_refl _) hfollow⟩
  decides := h.decides.anti hfollow (fun _ => Nat.le_refl _) fun _ => Nat.le_refl _

/-- What was read in between does not matter to readers that do not depend on it. -/
theorem Foresees.after {γ : Type} (h : Foresees p limit first follow bound) :
    Foresees (fun z : κ × γ => p z.1) (fun z => limit z.1) first follow fun z => bound z.1 where
  samples := by
    obtain ⟨lexemes, hwritable, hfirst, hpasses⟩ := h.samples
    exact ⟨lexemes, hwritable, hfirst, fun y => hpasses y.1⟩
  decides x setting cursor hfits hleft := by
    have hdecided := h.decides x.1 setting cursor hfits hleft
    constructor
    · intro result last hrun
      obtain ⟨tokens, hmoves, hidle, hpasses⟩ := hdecided.onward result last hrun
      exact ⟨tokens, hmoves, hidle, fun y => hpasses y.1⟩
    · intro error hrun
      refine (hdecided.refusal error hrun).imp_right ?_
      rintro ⟨tokens, last, late, hobjects⟩
      refine ⟨tokens, last, late, { hobjects with refuses := ?_, completion := ?_ }⟩
      · exact fun y => hobjects.refuses y.1
      · intro hne
        obtain ⟨later, hlater, hpasses⟩ := hobjects.completion hne
        exact ⟨later, hlater, fun y => hpasses y.1⟩

theorem Foresees.pure (result : κ → α) (limit bound : κ → Nat) (follow : Lexeme → Prop) :
    Foresees (fun x => (Pure.pure (result x) : Reader α)) limit follow follow bound where
  samples := ⟨[], writable_nil, fun _ hnext => hnext, fun y => .pure (result y) _ _⟩
  decides x setting cursor _ _ := by
    constructor
    · intro result' last hrun
      obtain rfl : cursor = last := by cases hrun; rfl
      exact ⟨[], .stay, fun _ _ hnext => hnext, fun y => .pure (result y) _ _⟩
    · intro error hrun
      cases hrun

/-! One reader after the other -/

/-- Tokens that are certainly consumed: none, or one if something that may follow cannot be
first. -/
def Gains (first follow : Lexeme → Prop) (gain : Nat) : Prop :=
  gain = 0 ∨ gain = 1 ∧ ∃ next, follow next ∧ ¬first next

theorem Gains.le_length {gain : Nat} (h : Gains first follow gain) {γ : Type} {consumed : List γ}
    (hidle : consumed = [] → ∀ next, follow next → first next) : gain ≤ consumed.length := by
  rcases h with rfl | ⟨rfl, next, hnext, hfirst⟩
  · exact Nat.zero_le _
  · exact List.length_pos_of_ne_nil fun hnil => hfirst (hidle hnil next hnext)

theorem Samples.bind_gain (hp : Samples p limit first middle) (limit' : κ → Nat)
    (hk : Samples (fun z : κ × α => k z.1 z.2) (fun z => limit' z.1) middle follow) {gain : Nat}
    (hgain : Gains first middle gain) (hlimit : ∀ y, limit y ≤ limit' y + gain) :
    Samples (fun y => p y >>= k y) limit first follow := by
  obtain ⟨early, hearly, hfirst, hpasses⟩ := hp
  obtain ⟨late, hlate, hmiddle, hlater⟩ := hk
  have hlength : gain ≤ early.length := hgain.le_length fun hnil next hnext => by
    have := hfirst next hnext
    rwa [hnil] at this
  refine ⟨early ++ late, hearly.append hlate, fun next hnext => ?_, fun y => ?_⟩
  · rw [headD_append]
    exact hfirst _ (hmiddle next hnext)
  · have hpassed (a : α) : (k y a).Passes (limit' y) late follow := hlater (y, a)
    have hroom := hlimit y
    exact (hpasses y).bind hpassed hmiddle (by omega)

section Objections

variable {error : SyntaxError} {early tokens : List Token} {between last : Cursor} {late : Bool}

/-- What the first of two readers objects to, both object to. -/
theorem Objects.bind (h : Objects p limit middle setting cursor error tokens last late)
    (hk : Samples (fun z : κ × α => k z.1 z.2) (fun z => limit' z.1) middle follow) {gain : Nat}
    (hgain : Gains first middle gain) (hlimit : ∀ y, limit y ≤ limit' y + gain) :
    Objects (fun y => p y >>= k y) limit follow setting cursor error tokens last late := by
  obtain ⟨sample, hsample, hmiddle, hsamples⟩ := hk
  refine { h with refuses := fun y => (h.refuses y).bind (k y), completion := fun hne => ?_ }
  obtain ⟨later, hlater, hpasses⟩ := h.completion hne
  have hgained : gain ≤ tokens.length := hgain.le_length fun hnil => absurd hnil hne
  refine ⟨later ++ sample, hlater.append hsample, fun y => ?_⟩
  have hsampled (b : α) : (k y b).Passes (limit' y) sample follow := hsamples (y, b)
  have hspace := hlimit y
  rw [← List.append_assoc]
  refine (hpasses y).bind hsampled hmiddle ?_
  rw [List.length_append, List.length_map]
  omega

/-- What the second of two readers objects to, both object to behind what the first consumes. -/
theorem Objects.behind
    (h : Objects (fun z : κ × α => k z.1 z.2) (fun z => limit' z.1) follow setting between error
      tokens last late)
    (hmoves : setting.Moves cursor early between)
    (hpasses : ∀ y, (p y).Passes (limit y) (early.map Token.lexeme) fun next =>
      next = between.token.lexeme ∨ middle next)
    (hk : Samples (fun z : κ × α => k z.1 z.2) (fun z => limit' z.1) middle follow)
    (hspace : ∀ y, limit y ≤ limit' y + early.length) :
    Objects (fun y => p y >>= k y) limit follow setting cursor error (early ++ tokens) last
      late := by
  have hhead := h.moves.headD_eq
  have hroom (y : κ) : limit y ≤ limit' y + (early.map Token.lexeme).length := by
    rw [List.length_map]
    exact hspace y
  refine ⟨hmoves.append h.moves, h.position, h.found, fun hlate => ?_, fun y => ?_, fun _ => ?_⟩
  · obtain ⟨hname, hfault, hplace⟩ := h.atName hlate
    rw [List.map_append]
    exact ⟨hname, hfault, hplace.behind _⟩
  · rw [List.map_append]
    exact (hpasses y).refuses (fun b => h.refuses (y, b)) (.inl hhead) (hroom y)
  · rw [List.map_append]
    cases tokens with
    | nil =>
      obtain ⟨sample, hsample, hmiddle, hsamples⟩ := hk
      refine ⟨sample, hsample, fun y => ?_⟩
      rw [List.map_nil, List.append_nil]
      exact (hpasses y).bind (fun b => hsamples (y, b))
        (fun next hnext => .inr (hmiddle next hnext)) (hroom y)
    | cons token others =>
      obtain ⟨later, hlater, hcompletes⟩ := h.completion (List.cons_ne_nil _ _)
      refine ⟨later, hlater, fun y => ?_⟩
      rw [List.append_assoc]
      exact (hpasses y).bind (fun b => hcompletes (y, b)) (fun _ _ => .inl hhead) (hroom y)

end Objections

/-- What two readers do one after the other. -/
theorem Decides.bind_gain (hp : Decides p limit first middle bound) (limit' bound' : κ → Nat)
    (hk : Foresees (fun z : κ × α => k z.1 z.2) (fun z => limit' z.1) middle follow
      fun z => bound' z.1) {gain : Nat} (hgain : Gains first middle gain)
    (hlimit : ∀ y, limit y ≤ limit' y + gain) (hbound : ∀ x, bound x ≤ bound' x + gain) :
    Decides (fun x => p x >>= k x) limit first follow bound := by
  intro x setting cursor hfits hleft
  have hroom := hbound x
  have hdecided := hp x setting cursor hfits hleft
  constructor
  · intro result last hrun
    obtain ⟨a, between, ha, hresult⟩ := bind_eq_ok hrun
    obtain ⟨early, hmoves, hidle, hpasses⟩ := hdecided.onward a between ha
    have hgained := hgain.le_length hidle
    have hlength := hmoves.length_left hfits
    have hbetween : between.left.length < bound' x := by omega
    obtain ⟨late, hlater, hlateIdle, hlatePasses⟩ :=
      (hk.decides (x, a) setting between (hmoves.fits hfits).1 hbetween).onward result last hresult
    have hhead := hlater.headD_eq
    refine ⟨early ++ late, hmoves.append hlater, fun hnil next hnext => ?_, fun y => ?_⟩
    · obtain ⟨rfl, rfl⟩ := List.append_eq_nil_iff.mp hnil
      exact hidle rfl next (hlateIdle rfl next hnext)
    · have hpassed (b : α) : (k y b).Passes (limit' y) (late.map Token.lexeme) fun next =>
          next = last.token.lexeme ∨ follow next := hlatePasses (y, b)
      have hspace := hlimit y
      rw [List.map_append]
      refine (hpasses y).bind hpassed (fun next hnext => ?_) ?_
      · cases late with
        | cons token others => exact .inl hhead
        | nil => exact hnext.imp (fun hlast => hlast.trans hhead) (hlateIdle rfl next)
      · rw [List.length_map]
        omega
  · intro error hrun
    rcases bind_eq_error hrun with herror | ⟨a, between, ha, herror⟩
    · refine (hdecided.refusal error herror).imp_right ?_
      rintro ⟨tokens, last, late, hobjects⟩
      exact ⟨tokens, last, late, hobjects.bind hk.samples hgain hlimit⟩
    · obtain ⟨early, hmoves, hidle, hpasses⟩ := hdecided.onward a between ha
      have hgained := hgain.le_length hidle
      have hlength := hmoves.length_left hfits
      have hbetween : between.left.length < bound' x := by omega
      refine ((hk.decides (x, a) setting between (hmoves.fits hfits).1 hbetween).refusal error
        herror).imp_right ?_
      rintro ⟨tokens, last, late, hobjects⟩
      refine ⟨early ++ tokens, last, late, hobjects.behind hmoves hpasses hk.samples fun y => ?_⟩
      exact Nat.le_trans (hlimit y) (Nat.add_le_add_left hgained _)

theorem Decides.bind (hp : Decides p limit first middle bound)
    (hk : Foresees (fun z : κ × α => k z.1 z.2) (fun z => limit z.1) middle follow
      fun z => bound z.1) : Decides (fun x => p x >>= k x) limit first follow bound :=
  hp.bind_gain limit bound hk (.inl rfl) (fun _ => Nat.le_refl _) fun _ => Nat.le_refl _

theorem Foresees.bind (hp : Foresees p limit first middle bound)
    (hk : Foresees (fun z : κ × α => k z.1 z.2) (fun z => limit z.1) middle follow
      fun z => bound z.1) : Foresees (fun x => p x >>= k x) limit first follow bound where
  samples := hp.samples.bind_gain limit hk.samples (.inl rfl) fun _ => Nat.le_refl _
  decides := hp.decides.bind hk

/-- The first reader consumes a token, and the second has fewer of them in front of it. -/
theorem Decides.bind_step (hp : Decides p limit first middle bound) {next : Lexeme}
    (hmiddle : middle next) (hfirst : ¬first next)
    (hk : Foresees (fun z : κ × α => k z.1 z.2) (fun z => limit z.1 - 1) middle follow
      fun z => bound z.1 - 1) : Decides (fun x => p x >>= k x) limit first follow bound :=
  hp.bind_gain (fun y => limit y - 1) (fun x => bound x - 1) hk
    (.inr ⟨rfl, next, hmiddle, hfirst⟩) (fun _ => Nat.le_add_of_sub_le (Nat.le_refl _))
    fun _ => Nat.le_add_of_sub_le (Nat.le_refl _)

theorem Foresees.bind_step (hp : Foresees p limit first middle bound) {next : Lexeme}
    (hmiddle : middle next) (hfirst : ¬first next)
    (hk : Foresees (fun z : κ × α => k z.1 z.2) (fun z => limit z.1 - 1) middle follow
      fun z => bound z.1 - 1) : Foresees (fun x => p x >>= k x) limit first follow bound where
  samples := hp.samples.bind_gain (fun y => limit y - 1) hk.samples
    (.inr ⟨rfl, next, hmiddle, hfirst⟩) fun _ => Nat.le_add_of_sub_le (Nat.le_refl _)
  decides := hp.decides.bind_step hmiddle hfirst hk

theorem Foresees.map {f : κ → α → β} (hp : Foresees p limit first follow bound) :
    Foresees (fun x => f x <$> p x) limit first follow bound := by
  simp only [map_eq_pure_bind]
  exact hp.bind (.pure _ _ _ _)

/-- A reader that only looks does nothing that others could notice. -/
theorem Foresees.look (h : ∀ x setting cursor, ∃ a, p x setting cursor = .ok (a, cursor))
    (limit bound : κ → Nat) (follow : Lexeme → Prop) :
    Foresees p limit follow follow bound where
  samples := by
    refine ⟨[], writable_nil, fun _ hnext => hnext, fun y setting cursor _ _ _ _ _ _ => ?_⟩
    obtain ⟨a, ha⟩ := h y setting cursor
    exact ⟨a, cursor, [], ha, .stay, rfl⟩
  decides x setting cursor _ _ := by
    obtain ⟨a, ha⟩ := h x setting cursor
    constructor
    · intro result last hrun
      obtain rfl : cursor = last := by
        rw [ha] at hrun
        cases hrun
        rfl
      refine ⟨[], .stay, fun _ _ hnext => hnext, fun y setting cursor _ _ _ _ _ _ => ?_⟩
      obtain ⟨b, hb⟩ := h y setting cursor
      exact ⟨b, cursor, [], hb, .stay, rfl⟩
    · intro error hrun
      rw [ha] at hrun
      cases hrun

theorem current_foresees (limit bound : κ → Nat) (follow : Lexeme → Prop) :
    Foresees (fun _ => current) limit follow follow bound :=
  .look (fun _ _ cursor => ⟨cursor.token, rfl⟩) limit bound follow

theorem spanFrom_looks (start : Token) (setting : Setting) (cursor : Cursor) :
    ∃ loc, Reader.spanFrom start setting cursor = .ok (loc, cursor) := by
  change ∃ loc, (if setting.located then _ else _ : Reader (Option Location)) setting cursor = _
  split
  · exact ⟨_, rfl⟩
  · exact ⟨_, rfl⟩

/-- What is returned with the span. -/
theorem Foresees.spanned (start : κ → Token) (build : κ → Option Location → β)
    (limit bound : κ → Nat) (follow : Lexeme → Prop) :
    Foresees (fun x => spanFrom (start x) >>= fun loc => Pure.pure (build x loc)) limit follow
      follow bound :=
  .bind (.look (fun x => spanFrom_looks (start x)) limit bound follow) (.pure _ _ _ _)

/-! Budgets -/

theorem Cursor.left_lt_budget (cursor : Cursor) : cursor.left.length < cursor.rest.length + 2 :=
  Nat.lt_succ_of_le cursor.length_left_le

/-- The budget of a loop or a nested part is more than the number of tokens left. -/
theorem Foresees.budget {k : κ → Nat → Reader β}
    (hk : Foresees (fun z : κ × Nat => k z.1 z.2) (fun z => min (limit z.1) z.2) first follow
      fun z => min (bound z.1) z.2) :
    Foresees (fun x => Reader.budget >>= k x) limit first follow bound := by
  have hpasses {lexemes : List Lexeme} {next : Lexeme → Prop}
      (h : ∀ z : κ × Nat, (k z.1 z.2).Passes (min (limit z.1) z.2) lexemes next) (y : κ) :
      Passes (Reader.budget >>= k y) (limit y) lexemes next := fun setting cursor hfits hleft =>
    h (y, _) setting cursor hfits (Nat.lt_min.mpr ⟨hleft, Cursor.left_lt_budget cursor⟩)
  have hrefuses {lexemes : List Lexeme} {misfit : Lexeme} {fault : SyntaxFault} {late : Bool}
      (h : ∀ z : κ × Nat, (k z.1 z.2).Refuses (min (limit z.1) z.2) lexemes misfit fault late)
      (y : κ) : Refuses (Reader.budget >>= k y) (limit y) lexemes misfit fault late :=
    fun setting cursor hfits hleft =>
      h (y, _) setting cursor hfits (Nat.lt_min.mpr ⟨hleft, Cursor.left_lt_budget cursor⟩)
  constructor
  · obtain ⟨lexemes, hwritable, hfirst, hpassed⟩ := hk.samples
    exact ⟨lexemes, hwritable, hfirst, hpasses hpassed⟩
  · intro x setting cursor hfits hleft
    have hdecided := hk.decides (x, cursor.rest.length + 2) setting cursor hfits
      (Nat.lt_min.mpr ⟨hleft, Cursor.left_lt_budget cursor⟩)
    constructor
    · intro result last hrun
      obtain ⟨tokens, hmoves, hidle, hpassed⟩ := hdecided.onward result last hrun
      exact ⟨tokens, hmoves, hidle, hpasses hpassed⟩
    · intro error hrun
      refine (hdecided.refusal error hrun).imp_right ?_
      rintro ⟨tokens, last, late, hobjects⟩
      refine ⟨tokens, last, late, { hobjects with refuses := ?_, completion := ?_ }⟩
      · exact hrefuses hobjects.refuses
      · intro hne
        obtain ⟨later, hlater, hpassed⟩ := hobjects.completion hne
        exact ⟨later, hlater, hpasses hpassed⟩

/-- A reader that is given a budget and spends one of it on each round or level. -/
theorem Foresees.spending (P : κ → Nat → Reader α)
    (hsamples : ∀ rounds : κ → Nat, Samples (fun x => P x (rounds x + 1)) limit first follow)
    (hdecides : ∀ rounds limit' bound' : κ → Nat, (∀ y, limit' y ≤ limit y) →
      (∀ x, bound' x ≤ bound x) →
      Foresees (fun x => P x (rounds x)) (fun x => limit' x - 1) first follow
          (fun x => bound' x - 1) →
        Decides (fun x => P x (rounds x + 1)) limit' first follow bound')
    (rounds : κ → Nat) (hlimit : ∀ y, limit y ≤ rounds y) (hbound : ∀ x, bound x ≤ rounds x) :
    Foresees (fun x => P x (rounds x)) limit first follow bound := by
  have hunfold (rounds : κ → Nat) (x : κ) (hpos : 0 < rounds x) :
      P x (rounds x) = P x (rounds x - 1 + 1) := by
    rw [Nat.sub_add_cancel hpos]
  have hsampled (rounds limit' : κ → Nat) (hlimit : ∀ y, limit' y ≤ limit y)
      (hrounds : ∀ y, limit' y ≤ rounds y) :
      Samples (fun x => P x (rounds x)) limit' first follow :=
    ((hsamples fun x => rounds x - 1).anti hlimit).congr fun y hy =>
      hunfold rounds y (Nat.lt_of_lt_of_le hy (hrounds y))
  -- the induction is on the bound of the reader that is run; the limits of the others stay free
  have hwithin (depth : Nat) : ∀ rounds limit' bound' : κ → Nat, (∀ y, limit' y ≤ limit y) →
      (∀ y, limit' y ≤ rounds y) → (∀ x, bound' x ≤ bound x) → (∀ x, bound' x ≤ rounds x) →
      (∀ x, bound' x ≤ depth) → Decides (fun x => P x (rounds x)) limit' first follow bound' := by
    induction depth with
    | zero =>
      intro rounds limit' bound' _ _ _ _ hnone x _ _ _ hleft
      exact absurd (Nat.lt_of_lt_of_le hleft (hnone x)) (Nat.not_lt_zero _)
    | succ depth ih =>
      intro rounds limit' bound' hlimit hlimits hbound hbounds hdepth
      have hless (y : κ) : limit' y - 1 ≤ limit y := Nat.le_trans (Nat.sub_le _ _) (hlimit y)
      have hround (y : κ) : limit' y - 1 ≤ rounds y - 1 := Nat.sub_le_sub_right (hlimits y) 1
      have hinner := ih (fun x => rounds x - 1) (fun y => limit' y - 1) (fun x => bound' x - 1)
        hless hround (fun x => Nat.le_trans (Nat.sub_le _ _) (hbound x))
        (fun x => Nat.sub_le_sub_right (hbounds x) 1) (fun x => Nat.sub_le_of_le_add (hdepth x))
      refine (hdecides _ limit' bound' hlimit hbound
        ⟨hsampled (fun x => rounds x - 1) _ hless hround, hinner⟩).congr ?_ ?_
      · exact fun y hy => hunfold rounds y (Nat.lt_of_lt_of_le hy (hlimits y))
      · exact fun x hx => hunfold rounds x (Nat.lt_of_lt_of_le hx (hbounds x))
  refine ⟨hsampled rounds limit (fun _ => Nat.le_refl _) hlimit, ?_⟩
  intro x setting cursor hfits hleft
  have hhere := hwithin (bound x) rounds limit (fun z => min (bound z) (bound x))
    (fun _ => Nat.le_refl _) hlimit (fun _ => Nat.min_le_left _ _)
    (fun z => Nat.le_trans (Nat.min_le_left _ _) (hbound z)) fun _ => Nat.min_le_right _ _
  exact hhere x setting cursor hfits (Nat.lt_min.mpr ⟨hleft, hleft⟩)

end

end Reader

end QueryLint
