import QueryLint.Proofs.GrammarForesight
import QueryLint.Proofs.GrammarTokens
import QueryLint.Proofs.TokenOrder

/-!
Operation types. Their reader is the only one that consumes a token before it refuses it. It is
compared with a reader that looks first: the two differ only in front of a name that is no operation
type, and only if the text behind this name has a fault. In a schema definition such a name stands
behind the brace and the operation types before it.
-/

namespace QueryLint

/-- The error about the current token. -/
def Cursor.surprise (cursor : Cursor) : SyntaxError :=
  ⟨cursor.token.start, .unexpectedToken cursor.token.lexeme⟩

/-- The error of a reader that first consumes the current token. -/
def Setting.lateSurprise (setting : Setting) (cursor : Cursor) : SyntaxError :=
  match Reader.advance setting cursor with
  | .error error => error
  | .ok _ => cursor.surprise

theorem Setting.lateSurprise_eq (setting : Setting) (cursor : Cursor) :
    setting.ending = .error (setting.lateSurprise cursor) ∨
      setting.lateSurprise cursor = cursor.surprise := by
  unfold Setting.lateSurprise
  cases hadvance : Reader.advance setting cursor with
  | error error => exact .inl (Setting.ending_of_advance hadvance)
  | ok result => exact .inr rfl

namespace Reader

open Reading

variable {κ α β : Type}

/-! Readers that consume an unexpected name -/

/-- No name is unexpected. -/
def Calm (p : Reader α) : Prop :=
  ∀ setting cursor error text, p setting cursor = .error error →
    error.fault = .unexpectedToken (.name text) → setting.ending = .error error

/-- At this cursor the first reader does what the second does, or both stop at an unexpected name
and the first consumes it. -/
def HastyAt (p q : Reader α) (place : List Lexeme → Prop) (setting : Setting)
    (cursor : Cursor) : Prop :=
  (p setting cursor = q setting cursor ∧ ∀ error text, q setting cursor = .error error →
    error.fault = .unexpectedToken (.name text) → setting.ending = .error error) ∨
  ∃ tokens last, setting.Moves cursor tokens last ∧ place (tokens.map Token.lexeme) ∧
    (∃ text, last.token.lexeme = .name text) ∧ q setting cursor = .error last.surprise ∧
    p setting cursor = .error (setting.lateSurprise last)

def Hasty (p q : Reader α) (place : List Lexeme → Prop) : Prop :=
  ∀ setting cursor, setting.Fits cursor → HastyAt p q place setting cursor

section

variable {p q : Reader α} {k k' : α → Reader β} {setting : Setting} {cursor : Cursor}
  {place place' : List Lexeme → Prop}

theorem Calm.bind (hp : Calm p) (hk : ∀ a, Calm (k a)) : Calm (p >>= k) := by
  intro setting cursor error text herror hfault
  rcases bind_eq_error herror with hfirst | ⟨a, middle, -, hlater⟩
  · exact hp setting cursor error text hfirst hfault
  · exact hk a setting middle error text hlater hfault

theorem Calm.of_ok (h : ∀ setting cursor error, p setting cursor ≠ .error error) : Calm p :=
  fun setting cursor error _ herror _ => absurd herror (h setting cursor error)

theorem pure_calm (result : α) : Calm (pure result : Reader α) :=
  .of_ok fun _ _ _ herror => by cases herror

theorem current_calm : Calm current := .of_ok fun _ _ _ herror => by cases herror

theorem budget_calm : Calm budget := .of_ok fun _ _ _ herror => by cases herror

theorem spanFrom_calm (start : Token) : Calm (spanFrom start) := by
  refine .of_ok fun setting cursor error => ?_
  obtain ⟨loc, hloc⟩ := spanFrom_looks start setting cursor
  change Reader.spanFrom start setting cursor ≠ _
  rw [hloc]
  simp

theorem advance_calm : Calm advance := fun _ _ _ _ herror _ => Setting.ending_of_advance herror

theorem refuse_calm {token : Token} {fault : SyntaxFault}
    (h : ∀ text, fault ≠ .unexpectedToken (.name text)) : Calm (refuse token fault : Reader α) := by
  intro setting cursor error text herror hfault
  obtain rfl : ⟨token.start, fault⟩ = error := Except.error.inj herror
  exact absurd hfault (h text)

theorem expect_calm (kind : TokenKind) : Calm (expect kind) := by
  refine current_calm.bind fun token => ?_
  split
  · exact advance_calm.bind fun _ => pure_calm _
  · exact refuse_calm nofun

theorem skip_calm (kind : TokenKind) : Calm (skip kind) := by
  refine Calm.bind (current_calm.bind fun _ => pure_calm _) fun found => ?_
  split
  · exact advance_calm.bind fun _ => pure_calm _
  · exact pure_calm _

theorem Calm.hastyAt (h : Calm p) : HastyAt p p place setting cursor :=
  .inl ⟨rfl, h setting cursor⟩

theorem HastyAt.mono (h : HastyAt p q place setting cursor)
    (hplace : ∀ lexemes, place lexemes → place' lexemes) : HastyAt p q place' setting cursor := by
  refine h.imp_right ?_
  rintro ⟨tokens, last, hmoves, hhere, hrest⟩
  exact ⟨tokens, last, hmoves, hplace _ hhere, hrest⟩

theorem HastyAt.bind (hp : HastyAt p q place setting cursor)
    (hk : ∀ a middle, q setting cursor = .ok (a, middle) → ∃ tokens,
      setting.Moves cursor tokens middle ∧
        HastyAt (k a) (k' a) (fun later => place (tokens.map Token.lexeme ++ later)) setting
          middle) :
    HastyAt (p >>= k) (q >>= k') place setting cursor := by
  rcases hp with ⟨hsame, hcalm⟩ | ⟨tokens, last, hmoves, hplace, hname, hprompt, hlate⟩
  · cases hrun : q setting cursor with
    | error error =>
      rw [hrun] at hsame
      refine .inl ⟨(run_bind_error hsame k).trans (run_bind_error hrun k').symm, ?_⟩
      intro other text hother
      obtain rfl : error = other := Except.error.inj ((run_bind_error hrun k').symm.trans hother)
      exact hcalm error text hrun
    | ok result =>
      obtain ⟨a, middle⟩ := result
      obtain ⟨tokens, hmoves, hlater⟩ := hk a middle hrun
      rw [hrun] at hsame
      unfold HastyAt
      rw [run_bind hsame, run_bind hrun]
      refine hlater.imp_right ?_
      rintro ⟨others, last, hothers, hplace, hrest⟩
      exact ⟨tokens ++ others, last, hmoves.append hothers, by rwa [List.map_append], hrest⟩
  · exact .inr ⟨tokens, last, hmoves, hplace, hname, run_bind_error hprompt k',
      run_bind_error hlate k⟩

/-- Nothing unexpected comes behind. -/
theorem HastyAt.bind_calm (hp : HastyAt p q place setting cursor) (hk : ∀ a, Calm (k a)) :
    HastyAt (p >>= k) (q >>= k) place setting cursor := by
  rcases hp with ⟨hsame, hcalm⟩ | ⟨tokens, last, hmoves, hplace, hname, hprompt, hlate⟩
  · refine .inl ⟨run_bind_congr hsame k, fun error text herror hfault => ?_⟩
    rcases bind_eq_error herror with hfirst | ⟨a, middle, -, hlater⟩
    · exact hcalm error text hfirst hfault
    · exact hk a setting middle error text hlater hfault
  · exact .inr ⟨tokens, last, hmoves, hplace, hname, run_bind_error hprompt k,
      run_bind_error hlate k⟩

/-- What both return is consumed alike. -/
theorem HastyAt.consumesAt {each : List Lexeme → α → Prop} (h : HastyAt p q place setting cursor)
    (hp : p.ConsumesAt setting cursor each) : q.ConsumesAt setting cursor each := by
  intro result last hrun
  rcases h with ⟨hsame, -⟩ | ⟨_, _, -, -, -, hprompt, -⟩
  · exact hp result last (hsame.trans hrun)
  · rw [hprompt] at hrun
    cases hrun

end

section

variable {item item' : Reader α} {lexemes : α → List Lexeme} {setting : Setting} {cursor : Cursor}

theorem hastyAt_itemsUntil (h : Hasty item item' (· = [])) (hitem : item.Prints lexemes)
    (hne : ∀ a, lexemes a ≠ []) (closing : Punctuator) (rounds : Nat) (hfits : setting.Fits cursor)
    (hrounds : cursor.left.length < rounds) :
    HastyAt (itemsUntil (.punctuator closing) item rounds)
      (itemsUntil (.punctuator closing) item' rounds)
      (fun consumed => ∃ items : List α, consumed = items.flatMap lexemes) setting cursor := by
  induction rounds generalizing cursor with
  | zero => exact absurd hrounds (Nat.not_lt_zero _)
  | succ rounds ih =>
    refine (skip_calm _).hastyAt.bind fun found middle hskip => ?_
    rcases skip_run hskip with ⟨rfl, hkind, hadvance⟩ | ⟨rfl, rfl⟩
    · have hinside : cursor.token.lexeme ≠ .eof := by
        rw [Token.lexeme_of_kind hkind]
        simp
      exact ⟨[cursor.token], .step hinside hadvance .stay, (pure_calm _).hastyAt⟩
    · refine ⟨[], .stay, ?_⟩
      have hhere := h setting middle hfits
      refine HastyAt.bind (hhere.mono fun _ hnil => ⟨[], hnil⟩) fun first next hfirst => ?_
      obtain ⟨tokens, hmoves, hprints⟩ :=
        hhere.consumesAt (hitem setting middle hfits) first next hfirst
      have hconsumed : tokens ≠ [] := by
        rintro rfl
        exact hne first hprints.symm
      have hlength := hmoves.length_left hfits
      have hpos := List.length_pos_of_ne_nil hconsumed
      have hnext := ih (hmoves.fits hfits).1 (by omega)
      refine ⟨tokens, hmoves, HastyAt.bind_calm (hnext.mono ?_) fun others => pure_calm _⟩
      rintro _ ⟨items, rfl⟩
      exact ⟨first :: items, by rw [hprints]; rfl⟩

theorem hasty_many (h : Hasty item item' (· = [])) (hitem : item.Prints lexemes)
    (hne : ∀ a, lexemes a ≠ []) (opening closing : Punctuator) :
    Hasty (many (.punctuator opening) item (.punctuator closing))
      (many (.punctuator opening) item' (.punctuator closing)) fun consumed =>
        ∃ items : List α, consumed = .punctuator opening :: items.flatMap lexemes := by
  intro setting cursor hfits
  refine (expect_calm _).hastyAt.bind fun token opened hopened => ?_
  obtain ⟨tokens, hmoves, hmark⟩ :=
    expect_punctuator opening setting cursor hfits token opened hopened
  have hfitsOpened := (hmoves.fits hfits).1
  have hhere := h setting opened hfitsOpened
  refine ⟨tokens, hmoves, HastyAt.bind (hhere.mono ?_) fun first next hfirst => ?_⟩
  · rintro _ rfl
    exact ⟨[], by rw [hmark]; rfl⟩
  · obtain ⟨others, hothers, hprints⟩ :=
      hhere.consumesAt (hitem setting opened hfitsOpened) first next hfirst
    refine ⟨others, hothers, budget_calm.hastyAt.bind fun rounds middle hbudget => ?_⟩
    cases hbudget
    refine ⟨[], .stay, HastyAt.bind_calm ?_ fun _ => pure_calm _⟩
    refine (hastyAt_itemsUntil h hitem hne closing _ (hothers.fits hfitsOpened).1
      (Cursor.left_lt_budget _)).mono ?_
    rintro _ ⟨items, rfl⟩
    exact ⟨first :: items, by rw [hmark, hprints]; simp⟩

end

/-! What is foreseen of the reader that looks first -/

section

variable {p q : Reader α} {place : List Lexeme → Prop} {setting : Setting} {cursor last : Cursor}
  {tokens : List Token} {fault : SyntaxFault} {limit : Nat} {lexemes : List Lexeme} {late : Bool}

theorem Hasty.passes {next : Lexeme → Prop} (h : Hasty p q place)
    (hq : q.Passes limit lexemes next) : p.Passes limit lexemes next := by
  intro setting cursor hfits hleft following rest hahead hfollowing
  obtain ⟨result, last, tokens, hrun, hmoves⟩ :=
    hq setting cursor hfits hleft following rest hahead hfollowing
  rcases h setting cursor hfits with ⟨hsame, -⟩ | ⟨_, _, -, -, -, hprompt, -⟩
  · exact ⟨result, last, tokens, hsame.trans hrun, hmoves⟩
  · rw [hprompt] at hrun
    cases hrun

/-- A fault in the text is found by both. -/
theorem HastyAt.of_ending {error : SyntaxError} (h : HastyAt p q place setting cursor)
    (hending : setting.ending = .error error) (hq : q setting cursor = .error error) :
    p setting cursor = .error error := by
  rcases h with ⟨hsame, -⟩ | ⟨_, last, -, -, -, hprompt, hlate⟩
  · exact hsame.trans hq
  · rcases setting.lateSurprise_eq last with hfirst | hsurprise
    · exact hlate.trans (congrArg _ (Except.error.inj (hfirst.symm.trans hending)))
    · rw [hlate, hsurprise, ← hprompt, hq]

/-- The token at which the second reader stops is the one that the first consumes. -/
theorem HastyAt.of_moves (h : HastyAt p q place setting cursor) (hfits : setting.Fits cursor)
    (hmoves : setting.Moves cursor tokens last)
    (hq : q setting cursor = .error ⟨last.token.start, fault⟩) :
    (p setting cursor = q setting cursor ∧ ∀ text, fault = .unexpectedToken (.name text) →
      setting.ending = .error ⟨last.token.start, fault⟩) ∨
    (fault = .unexpectedToken last.token.lexeme ∧ (∃ text, last.token.lexeme = .name text) ∧
      place (tokens.map Token.lexeme) ∧ p setting cursor = .error (setting.lateSurprise last)) := by
  rcases h with ⟨hsame, hcalm⟩ | ⟨others, other, hothers, hplace, hname, hprompt, hlate⟩
  · exact .inl ⟨hsame, fun text => hcalm _ text hq⟩
  · have herror : other.surprise = ⟨last.token.start, fault⟩ :=
      Except.error.inj (hprompt.symm.trans hq)
    obtain ⟨rfl, rfl⟩ := hothers.eq_of_start hmoves hfits (congrArg SyntaxError.position herror)
    exact .inr ⟨(congrArg SyntaxError.fault herror).symm, hname, hplace, hlate⟩

theorem Hasty.refuses_calm {misfit : Lexeme} (h : Hasty p q place)
    (hcalm : ∀ text, fault ≠ .unexpectedToken (.name text))
    (hq : q.Refuses limit lexemes misfit fault late) :
    p.Refuses limit lexemes misfit fault late := by
  intro setting cursor hfits hleft rest hahead
  obtain ⟨hlate, hrefuse⟩ := hq setting cursor hfits hleft rest hahead
  have hhere := h setting cursor hfits
  refine ⟨fun hlates hrest => ?_, fun hopen => ?_⟩
  · obtain ⟨error, hending, herror⟩ := hlate hlates hrest
    exact ⟨error, hending, hhere.of_ending hending herror⟩
  · obtain ⟨tokens, last, hmoves, hlexemes, herror⟩ := hrefuse hopen
    rcases hhere.of_moves hfits hmoves herror with ⟨hsame, -⟩ | ⟨hfault, ⟨text, htext⟩, -⟩
    · exact ⟨tokens, last, hmoves, hlexemes, hsame.trans herror⟩
    · rw [htext] at hfault
      exact absurd hfault (hcalm text)

/-- Where the second reader refuses a name, the first is late. -/
theorem Hasty.refuses_name {text : String} (h : Hasty p q place)
    (hq : q.Refuses limit lexemes (.name text) (.unexpectedToken (.name text)) late) :
    p.Refuses limit lexemes (.name text) (.unexpectedToken (.name text)) true := by
  intro setting cursor hfits hleft rest hahead
  obtain ⟨hlate, hrefuse⟩ := hq setting cursor hfits hleft rest hahead
  have hhere := h setting cursor hfits
  refine ⟨?_, fun hopen => ?_⟩
  · rintro - rfl
    cases late with
    | true =>
      obtain ⟨error, hending, herror⟩ := hlate rfl rfl
      exact ⟨error, hending, hhere.of_ending hending herror⟩
    | false =>
      obtain ⟨tokens, last, hmoves, rfl, herror⟩ := hrefuse nofun
      rcases hhere.of_moves hfits hmoves herror with ⟨hsame, hending⟩ | ⟨-, -, -, hconsumed⟩
      · exact ⟨_, hending text rfl, hsame.trans herror⟩
      · rw [hmoves.ahead_eq hfits] at hahead
        obtain ⟨error, hending, hadvance⟩ :=
          (hmoves.fits hfits).1.advance_error (by simp) (List.append_cancel_left hahead)
        refine ⟨error, hending, hconsumed.trans ?_⟩
        rw [Setting.lateSurprise, hadvance]
  · obtain ⟨tokens, last, hmoves, rfl, herror⟩ := hrefuse fun _ => hopen rfl
    refine ⟨tokens, last, hmoves, rfl, ?_⟩
    rcases hhere.of_moves hfits hmoves herror with ⟨hsame, -⟩ | ⟨hfault, -, -, hconsumed⟩
    · exact hsame.trans herror
    · obtain ⟨following, others, rfl⟩ := List.exists_cons_of_ne_nil (hopen rfl)
      rw [hmoves.ahead_eq hfits] at hahead
      obtain ⟨-, next, hadvance⟩ :=
        (hmoves.fits hfits).1.advance_ok (List.append_cancel_left hahead)
      rw [hconsumed, Setting.lateSurprise, hadvance, hfault]
      rfl

end

/-- A reader that consumes unexpected operation types is decided if the one that looks first is. -/
theorem Foresees.hasty {p q : Reader α} {limit bound : κ → Nat} {first follow : Lexeme → Prop}
    (hq : Foresees (fun _ => q) limit first follow bound) (h : Hasty p q AtOperationType) :
    Foresees (fun _ => p) limit first follow bound := by
  constructor
  · obtain ⟨lexemes, hwritable, hfirst, hpasses⟩ := hq.samples
    exact ⟨lexemes, hwritable, hfirst, fun y => h.passes (hpasses y)⟩
  intro x setting cursor hfits hleft
  obtain ⟨honward, hrefusal⟩ := hq.decides x setting cursor hfits hleft
  have hcompletion {tokens : List Token} (hq : tokens ≠ [] → ∃ later, Writable later ∧
      ∀ y, q.Passes (limit y) (tokens.map Token.lexeme ++ later) follow) (hne : tokens ≠ []) :
      ∃ later, Writable later ∧
        ∀ y, p.Passes (limit y) (tokens.map Token.lexeme ++ later) follow := by
    obtain ⟨later, hlater, hpasses⟩ := hq hne
    exact ⟨later, hlater, fun y => h.passes (hpasses y)⟩
  constructor
  · intro result last hrun
    rcases h setting cursor hfits with ⟨hsame, -⟩ | ⟨_, _, -, -, -, -, hlate⟩
    · obtain ⟨tokens, hmoves, hidle, hpasses⟩ := honward result last (hsame.symm.trans hrun)
      exact ⟨tokens, hmoves, hidle, fun y => h.passes (hpasses y)⟩
    · rw [hlate] at hrun
      cases hrun
  · intro error hrun
    rcases h setting cursor hfits with
      ⟨hsame, hcalm⟩ | ⟨others, other, hothers, hplace, ⟨text, htext⟩, hprompt, hlate⟩
    · have herror := hsame.symm.trans hrun
      rcases hrefusal error herror with hending | ⟨tokens, last, late, hobjects⟩
      · exact .inl hending
      by_cases hname : ∃ text, error.fault = .unexpectedToken (.name text)
      · obtain ⟨text, htext⟩ := hname
        exact .inl (hcalm error text herror htext)
      · refine .inr ⟨tokens, last, late, { hobjects with refuses := ?_, completion := ?_ }⟩
        · exact fun y => h.refuses_calm (fun text htext => hname ⟨text, htext⟩) (hobjects.refuses y)
        · exact hcompletion hobjects.completion
    · obtain rfl : setting.lateSurprise other = error := Except.error.inj (hlate.symm.trans hrun)
      rcases setting.lateSurprise_eq other with hending | hsurprise
      · exact .inl hending
      rw [hsurprise]
      rcases hrefusal _ hprompt with hending | ⟨tokens, last, late, hobjects⟩
      · exact .inl hending
      obtain ⟨rfl, rfl⟩ := hothers.eq_of_start hobjects.moves hfits hobjects.position
      refine .inr ⟨others, other, true,
        { hobjects with atName := ?_, refuses := ?_, completion := ?_ }⟩
      · exact fun _ => ⟨⟨text, htext⟩, rfl, hplace⟩
      · intro y
        have hrefuses := hobjects.refuses y
        rw [Cursor.surprise, htext] at hrefuses ⊢
        exact h.refuses_name hrefuses
      · exact hcompletion hobjects.completion

end Reader

/-! Operation types -/

namespace Grammar

open Reader Reading

variable {κ : Type} {limit bound : κ → Nat} {follow : Lexeme → Prop} {setting : Setting}
  {cursor : Cursor}

/-- Reads an operation type that is looked at before it is consumed. -/
def promptOperationType : Reader OperationType := do
  let token ← current
  match token.lexeme with
  | .name text =>
    match OperationType.ofText? text with
    | some operation => advance; return operation
    | none => unexpected token
  | found => refuse token (.expectedToken .name found)

theorem run_prompt_known {text : String} {operation : OperationType}
    (hknown : OperationType.ofText? text = some operation)
    (h : cursor.token.lexeme = .name text) :
    promptOperationType setting cursor =
      (expect .name >>= fun _ => pure operation : Reader OperationType) setting cursor := by
  have hkind : cursor.token.lexeme.kind = .name := by rw [h]; rfl
  rw [promptOperationType, run_current, h, ← run_advance_bind hkind]
  dsimp only
  rw [hknown]

theorem run_prompt_unknown {text : String} (hnone : OperationType.ofText? text = none)
    (h : cursor.token.lexeme = .name text) :
    promptOperationType setting cursor = .error cursor.surprise := by
  rw [promptOperationType, run_current, Cursor.surprise, h]
  dsimp only
  rw [hnone, ← h]
  rfl

theorem run_prompt_missing (h : cursor.token.lexeme.kind ≠ .name) :
    promptOperationType setting cursor =
      .error ⟨cursor.token.start, .expectedToken .name cursor.token.lexeme⟩ := by
  rw [promptOperationType, run_current]
  cases hlexeme : cursor.token.lexeme with
  | name text => exact absurd (by rw [hlexeme]; rfl) h
  | _ => rfl

theorem promptOperationType_decides (limit bound : κ → Nat) (follow : Lexeme → Prop) :
    Decides (fun _ => promptOperationType) limit (fun _ => False) follow bound := by
  intro x setting cursor hfits hleft
  by_cases hkind : cursor.token.lexeme.kind = .name
  · obtain ⟨text, htext⟩ := name_of_kind hkind
    cases hoperation : OperationType.ofText? text with
    | none =>
      exact .refuse (· = .name text) .unexpectedToken (fun _ _ _ => run_prompt_unknown hoperation)
        (fun _ => rfl) htext
    | some operation =>
      have hknown : Decides (fun _ : κ => expect .name >>= fun _ => pure operation) limit
          (fun _ => False) follow bound :=
        (expect_decides .name (by simp) limit bound follow).bind (.pure _ _ _ _)
      exact hknown.on_strict (· = .name text) (fun _ _ _ => run_prompt_known hoperation) hfits hleft
        htext
  · exact .refuse (·.kind ≠ .name) (.expectedToken .name) (fun _ _ _ => run_prompt_missing)
      (fun _ => rfl) hkind

theorem promptOperationType_foresees (limit bound : κ → Nat) (follow : Lexeme → Prop) :
    Foresees (fun _ => promptOperationType) limit (· = .name "query") follow bound where
  samples := by
    have hquery : IsName "query" := ⟨'q', ['u', 'e', 'r', 'y'], rfl, rfl, rfl⟩
    have hknown : Foresees (fun _ : κ => expect .name >>= fun _ => pure OperationType.query) limit
        (· = .name "query") follow bound :=
      (expect_foresees (writable_name hquery) (by simp) limit bound follow).bind (.pure _ _ _ _)
    exact hknown.samples.on fun _ _ _ => run_prompt_known rfl
  decides := (promptOperationType_decides limit bound follow).weaken

/-- The reader that consumes first does the same in front of all but unknown names. -/
theorem run_operationType_eq
    (h : ∀ text, cursor.token.lexeme = .name text → OperationType.ofText? text ≠ none) :
    (operationType : Reader OperationType) setting cursor = promptOperationType setting cursor := by
  by_cases hkind : cursor.token.lexeme.kind = .name
  · obtain ⟨text, htext⟩ := name_of_kind hkind
    obtain ⟨operation, hknown⟩ := Option.ne_none_iff_exists'.mp (h text htext)
    rw [run_prompt_known hknown htext, operationType, ← run_advance_bind hkind,
      ← run_advance_bind hkind, htext]
    dsimp only
    rw [hknown]
  · rw [run_prompt_missing hkind]
    exact run_bind_error (run_expect_missing hkind) _

theorem run_operationType_unknown {text : String} (hnone : OperationType.ofText? text = none)
    (h : cursor.token.lexeme = .name text) :
    (operationType : Reader OperationType) setting cursor =
      .error (setting.lateSurprise cursor) := by
  have hkind : cursor.token.lexeme.kind = .name := by rw [h]; rfl
  rw [operationType, ← run_advance_bind hkind, Setting.lateSurprise]
  cases hadvance : Reader.advance setting cursor with
  | error error => exact run_bind_error hadvance _
  | ok result =>
    rw [run_bind (p := advance) hadvance, h]
    dsimp only
    rw [hnone]
    rfl

theorem promptOperationType_calm (h : ∀ text, cursor.token.lexeme = .name text →
    OperationType.ofText? text ≠ none) {error : SyntaxError} {text : String}
    (herror : promptOperationType setting cursor = .error error)
    (hfault : error.fault = .unexpectedToken (.name text)) : setting.ending = .error error := by
  by_cases hkind : cursor.token.lexeme.kind = .name
  · obtain ⟨other, htext⟩ := name_of_kind hkind
    obtain ⟨operation, hknown⟩ := Option.ne_none_iff_exists'.mp (h other htext)
    rw [run_prompt_known hknown htext] at herror
    exact (expect_calm .name).bind (fun _ => pure_calm operation) setting cursor error text herror
      hfault
  · rw [run_prompt_missing hkind] at herror
    cases herror
    cases hfault

theorem operationType_hasty : Hasty operationType promptOperationType (· = []) := by
  intro setting cursor _
  by_cases hunknown : ∃ text, cursor.token.lexeme = .name text ∧ OperationType.ofText? text = none
  · obtain ⟨text, htext, hnone⟩ := hunknown
    exact .inr ⟨[], cursor, .stay, rfl, ⟨text, htext⟩, run_prompt_unknown hnone htext,
      run_operationType_unknown hnone htext⟩
  · have hknown (text : String) (htext : cursor.token.lexeme = .name text) :
        OperationType.ofText? text ≠ none := fun hnone => hunknown ⟨text, htext, hnone⟩
    exact .inl ⟨run_operationType_eq hknown, fun _ _ => promptOperationType_calm hknown⟩

/-! Operation types of a schema -/

def promptOperationTypeDefinition : Reader OperationTypeDefinition := do
  let start ← current
  let operation ← promptOperationType
  let _ ← expect (.punctuator .colon)
  let type ← typeName
  return ⟨operation, type, ← spanFrom start⟩

theorem promptOperationTypeDefinition_foresees :
    Foresees (fun _ => promptOperationTypeDefinition) limit (· = .name "query") follow bound :=
  (current_foresees limit bound _).bind <| (promptOperationType_foresees _ _ _).bind <|
    (mark_foresees .colon _ _ _).bind <| (typeName_foresees _ _ _).bind <| .spanned _ _ _ _ _

theorem name_calm : Calm name := by
  refine current_calm.bind fun token => ?_
  split
  · exact advance_calm.bind fun _ => (spanFrom_calm _).bind fun _ => pure_calm _
  · exact refuse_calm nofun

theorem typeName_calm : Calm typeName :=
  current_calm.bind fun _ => name_calm.bind fun _ => (spanFrom_calm _).bind fun _ => pure_calm _

theorem operationTypeDefinition_hasty :
    Hasty operationTypeDefinition promptOperationTypeDefinition (· = []) := by
  intro setting cursor hfits
  refine current_calm.hastyAt.bind fun start middle hstart => ?_
  cases hstart
  have hhasty := operationType_hasty setting cursor hfits
  refine ⟨[], .stay, HastyAt.bind_calm hhasty fun operation => ?_⟩
  exact (expect_calm _).bind fun _ => typeName_calm.bind fun _ =>
    (spanFrom_calm _).bind fun _ => pure_calm _

/-- The operation types of a schema definition. -/
theorem operationTypes_foresees (follow : Lexeme → Prop) :
    Foresees (fun _ => many (.punctuator .braceL) operationTypeDefinition (.punctuator .braceR))
      limit (· = .punctuator .braceL) follow bound := by
  have hprompt : Foresees (fun _ : κ =>
      many (.punctuator .braceL) promptOperationTypeDefinition (.punctuator .braceR)) limit
        (· = .punctuator .braceL) follow bound :=
    many_foresees promptOperationTypeDefinition_foresees (by simp) rfl (by simp) follow
  have hne (definition : OperationTypeDefinition) : definition.lexemes ≠ [] := by
    simp [OperationTypeDefinition.lexemes]
  have hhasty := hasty_many operationTypeDefinition_hasty operationTypeDefinition_prints hne
    .braceL .braceR
  refine hprompt.hasty fun setting cursor hfits => (hhasty setting cursor hfits).mono ?_
  rintro _ ⟨operations, rfl⟩
  exact ⟨[], operations, rfl⟩

end Grammar

end QueryLint
