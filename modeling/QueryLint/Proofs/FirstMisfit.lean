import QueryLint.Proofs.DefinitionForesight
import QueryLint.Proofs.TokenOrder

/-!
Where the error of a source stands. A source that is refused although all of it has tokens is
refused at the first token with which no document goes on: the tokens before it are the start of a
document, and together with it they are not. What follows the token does not matter, with one
exception: the name of an operation type in a schema definition is consumed before it is looked at.
-/

namespace QueryLint

/-! Faults in the text are about no token -/

theorem NumberText.misfit?_found {number : NumberText} {after : Text} {misfit : Misfit}
    (h : number.misfit? after = some misfit) : misfit.fault.found? = none := by
  unfold NumberText.misfit? at h
  split at h
  · cases h
  · split_ifs at h <;> cases h <;> rfl

theorem scanNumber_found {first : CodePoint} {rest : Text} {misfit : Misfit}
    (h : scanNumber first rest = .error misfit) : misfit.fault.found? = none := by
  simp only [scanNumber] at h
  split_ifs at h with hempty
  · cases h
    rfl
  · split at h
    next other hother =>
      cases h
      exact NumberText.misfit?_found hother
    next hnone => cases h

theorem scanString_found {rest : Text} {misfit : Misfit}
    (h : scanString rest = .error misfit) : misfit.fault.found? = none := by
  simp only [scanString] at h
  split at h
  · cases h
    rfl
  · split_ifs at h <;> cases h <;> rfl

theorem strayFault_found (point : CodePoint) : (strayFault point).found? = none := by
  unfold strayFault
  split_ifs <;> rfl

theorem scan_found {first : CodePoint} {rest : Text} {misfit : Misfit}
    (h : scan first rest = .error misfit) : misfit.fault.found? = none := by
  unfold scan at h
  split at h
  · cases h
  · split_ifs at h with hspread hquote hname hnumber
    · exact scanString_found h
    · exact scanNumber_found h
    · cases h
      exact strayFault_found first

theorem lexFrom_found (mark : Mark) (body : Text) {error : SyntaxError}
    (h : (lexFrom mark body).ending = .error error) : error.fault.found? = none := by
  fun_induction lexFrom mark body with
  | case1 mark body here hskip => cases h
  | case2 mark body here first rest hskip misfit hscan =>
    cases h
    exact scan_found hscan
  | case3 mark body here first rest hskip lexeme more hscan following ih => exact ih h

/-! Items up to the end of the source -/

/-- Readings in which nothing comes behind a budget that has run out. -/
class Reading.Ending (m : Type → Type) [Monad m] [Reading m] : Prop where
  exhausted_bind {α β : Type} (k : α → m β) : exhausted >>= k = exhausted

namespace Reading

variable {m : Type → Type} [Monad m] [Reading m] {α : Type}

/-- Items up to the end of the source, which is not consumed. -/
def itemsBeforeEnd (item : m α) : Nat → m (List α)
  | 0 => exhausted
  | rounds + 1 => do
    if ← peek .eof then return []
    else
      let first ← round item
      return first :: (← itemsBeforeEnd item rounds)

/-- The end of the source is consumed apart from the items. -/
theorem itemsUntil_eof_eq [LawfulMonad m] [Ending m] (item : m α) (rounds : Nat) :
    itemsUntil .eof item rounds =
      itemsBeforeEnd item rounds >>= fun items => advance >>= fun _ => pure items := by
  induction rounds with
  | zero => rw [itemsUntil, itemsBeforeEnd, Ending.exhausted_bind]
  | succ rounds ih =>
    rw [itemsUntil, itemsBeforeEnd, skip, bind_assoc, bind_assoc]
    congr 1
    funext found
    cases found with
    | true => simp
    | false => simp [ih]

end Reading

namespace Reader

open Reading

variable {κ α : Type}

instance : Ending Reader where
  exhausted_bind _ := rfl

theorem itemsBeforeEnd_atEnd {item : Reader α} {rounds : Nat} {setting : Setting} {cursor : Cursor}
    {items : List α} {last : Cursor}
    (h : itemsBeforeEnd item rounds setting cursor = .ok (items, last)) :
    last.token.lexeme = .eof := by
  induction rounds generalizing cursor items with
  | zero => cases h
  | succ rounds ih =>
    obtain ⟨found, _, hpeek, hrest⟩ := bind_eq_ok h
    cases hpeek
    cases hkind : cursor.token.kind == .eof with
    | true =>
      rw [hkind, if_pos rfl] at hrest
      cases hrest
      exact Token.lexeme_of_kind_eof (beq_iff_eq.mp hkind)
    | false =>
      rw [hkind, if_neg (by decide)] at hrest
      obtain ⟨first, next, -, hmore⟩ := bind_eq_ok hrest
      obtain ⟨others, _, hothers, hpure⟩ := bind_eq_ok hmore
      cases hpure
      exact ih hothers

theorem kind_eof_iff {lexeme : Lexeme} : (lexeme.kind == .eof) = true ↔ lexeme = .eof := by
  cases lexeme <;> simp [Lexeme.kind]

theorem itemsBeforeEnd_foresees {item : κ → Reader α} {limit bound : κ → Nat}
    {first : Lexeme → Prop} (hitem : Foresees item limit first (· = .eof) bound)
    (hend : ¬first .eof) (rounds : κ → Nat) (hlimit : ∀ y, limit y ≤ rounds y)
    (hbound : ∀ x, bound x ≤ rounds x) :
    Foresees (fun x => itemsBeforeEnd (item x) (rounds x)) limit (· = .eof) (· = .eof) bound := by
  have hchooses (rounds : κ → Nat) := chooses_peek .eof fun x found =>
    if found then pure [] else item x >>= fun first =>
      itemsBeforeEnd (item x) (rounds x) >>= fun others => pure (first :: others)
  have hend? (lexeme : Lexeme) (h : lexeme = .eof) : (lexeme.kind == .eof) = true :=
    kind_eof_iff.mpr h
  refine Foresees.spending (fun x => itemsBeforeEnd (item x)) (fun rounds => ?_)
    (fun rounds limit' bound' hlimit' hbound' hinner => ?_) rounds hlimit hbound
  · exact (hchooses rounds).samples_found (Foresees.pure _ limit bound _).samples hend?
  · have hstrict := (hitem.anti hlimit' hbound').decides.strict _ rfl hend
    have hmore : Decides (fun x => item x >>= fun first =>
        itemsBeforeEnd (item x) (rounds x) >>= fun others => pure (first :: others)) limit'
        (fun _ => False) (· = .eof) bound' :=
      hstrict.bind_step rfl id (hinner.after.bind (.pure _ _ _ _))
    exact (hchooses rounds).decides (Foresees.pure _ limit' bound' _).decides hmore hend? nofun
      fun _ _ hfirst => hfirst.elim id False.elim

end Reader

/-! All definitions of a source -/

namespace Grammar

open Reader Reading

section

variable {m : Type → Type} [Monad m] [Reading m]

/-- Definitions up to the end of the source, at least one. -/
def definitions : m (List Definition) := do
  let first ← round definition
  return first :: (← itemsBeforeEnd definition (← budget))

/-- The end of the source is consumed apart from the definitions. -/
theorem document_eq [LawfulMonad m] [Ending m] :
    (document : m Document) = (current >>= fun start => expect .sof >>= fun _ => definitions >>=
      fun found => advance >>= fun _ => spanFrom start >>= fun loc => pure ⟨found, loc⟩) := by
  unfold document many definitions
  simp only [itemsUntil_eof_eq, bind_assoc, pure_bind]

end

theorem definitions_foresees {κ : Type} {limit bound : κ → Nat} :
    Foresees (fun _ => definitions) limit (· = .punctuator .braceL) (· = .eof) bound := by
  refine definition_foresees.bind (.budget ?_)
  refine Foresees.bind (itemsBeforeEnd_foresees definition_foresees nofun Prod.snd
    (fun _ => Nat.min_le_right _ _) fun _ => Nat.min_le_right _ _) (.pure _ _ _ _)

theorem definitions_atEnd {setting : Setting} {cursor last : Cursor} {result : List Definition}
    (h : (definitions : Reader (List Definition)) setting cursor = .ok (result, last)) :
    last.token.lexeme = .eof := by
  obtain ⟨first, middle, -, hcounted⟩ := bind_eq_ok h
  obtain ⟨rounds, _, -, hlist⟩ := bind_eq_ok hcounted
  obtain ⟨others, _, hothers, hpure⟩ := bind_eq_ok hlist
  cases hpure
  exact itemsBeforeEnd_atEnd hothers

end Grammar

/-! Parsing a source -/

namespace Source

variable {source : Source} {located : Bool}

/-- What stays the same while the source is parsed. -/
def setting (source : Source) (located : Bool) : Setting := ⟨source, located, source.lex.ending⟩

theorem map_lexeme_all (source : Source) (located : Bool) :
    source.lex.all.map Token.lexeme =
      source.lex.tokens.map Token.lexeme ++ (source.setting located).closing := by
  rw [Lexed.all, List.map_append, Setting.closing, setting]
  cases hending : source.lex.ending with
  | error error => rfl
  | ok eof =>
    have heof : eof.lexeme = .eof := (lexFrom_eof .start source.body).2 eof hending
    simp [Except.toOption, heof]

/-- The definitions of a source end where it ends. -/
theorem advance_behind_definitions {setting : Setting} {opened last : Cursor}
    {found : List Definition} (hfits : setting.Fits opened)
    (h : (Grammar.definitions : Reader (List Definition)) setting opened = .ok (found, last)) :
    ∃ next, Reader.advance setting last = .ok ((), next) := by
  have hdecides : Reader.Decides (fun _ : Unit => Grammar.definitions) (fun _ => 0)
      (· = .punctuator .braceL) (· = .eof) fun _ => opened.left.length + 1 :=
    Grammar.definitions_foresees.decides
  obtain ⟨tokens, hmoves, -⟩ :=
    (hdecides () setting opened hfits (Nat.lt_succ_self _)).onward found last h
  obtain ⟨hrest, hending⟩ := (hmoves.fits hfits).1.atEnd (Grammar.definitions_atEnd h)
  rw [Reader.advance, hrest, hending]
  exact ⟨_, rfl⟩

/-- A source without any token has a fault, and otherwise its definitions decide whether it has a
document. -/
theorem parse_cases (source : Source) (located : Bool) :
    (source.lex.all = [] ∧ ∃ error, source.lex.ending = .error error ∧
      source.parse located = .error error) ∨
    ∃ opened, (source.setting located).Fits opened ∧ opened.left = source.lex.tokens ∧
      (∀ error, (Grammar.definitions : Reader (List Definition)) (source.setting located) opened =
        .error error → source.parse located = .error error) ∧
      ∀ result, (Grammar.definitions : Reader (List Definition)) (source.setting located) opened =
        .ok result → ∃ document, source.parse located = .ok document := by
  let entry : Cursor := ⟨.sof, 0, source.lex.tokens⟩
  have hparse : source.parse located =
      ((Grammar.document : Reader Document) (source.setting located) entry).map Prod.fst := by
    change ((Grammar.document : Reader Document) (source.setting located) entry >>=
      fun result => pure result.1) = _
    cases (Grammar.document : Reader Document) (source.setting located) entry <;> rfl
  have hentry : (Grammar.document : Reader Document) (source.setting located) entry =
      (Reader.advance >>= fun _ => Grammar.definitions >>= fun found => Reader.advance >>=
        fun _ => Reader.spanFrom .sof >>= fun loc => pure ⟨found, loc⟩)
        (source.setting located) entry := by
    have hkind : entry.token.lexeme.kind = .sof := rfl
    rw [Grammar.document_eq, Grammar.run_current, ← Grammar.run_advance_bind hkind]
    rfl
  cases hadvance : Reader.advance (source.setting located) entry with
  | error error =>
    have hending := Setting.ending_of_advance hadvance
    have hnone : source.lex.tokens = [] := by
      cases htokens : source.lex.tokens with
      | nil => rfl
      | cons token tokens =>
        have hsome : entry.rest = token :: tokens := htokens
        rw [Reader.advance, hsome] at hadvance
        cases hadvance
    refine .inl ⟨?_, error, hending, ?_⟩
    · have hfault : source.lex.ending = .error error := hending
      rw [Lexed.all, hnone, hfault]
      rfl
    · rw [hparse, hentry, Reader.run_bind_error hadvance]
      rfl
  | ok result =>
    obtain ⟨⟨⟩, opened⟩ := result
    obtain ⟨hfits, hleft, -⟩ := Setting.fits_of_advance rfl (List.suffix_refl _) hadvance
    rw [hparse, hentry, Reader.run_bind hadvance]
    refine .inr ⟨opened, hfits, hleft, fun error herror => ?_, fun result hresult => ?_⟩
    · rw [Reader.run_bind_error herror]
      rfl
    · obtain ⟨next, hnext⟩ := advance_behind_definitions hfits hresult
      obtain ⟨loc, hloc⟩ := Reader.spanFrom_looks .sof (source.setting located) next
      rw [Reader.run_bind hresult, Reader.run_bind hnext, Reader.run_bind hloc]
      exact ⟨_, rfl⟩

end Source

/-! Completing the start of a source -/

theorem Spells.map_lexeme {source : Source} {words : List Word} {tokens : List Token}
    (h : Spells source words tokens) : tokens.map Token.lexeme = words.flatMap Word.lexemes := by
  induction h with
  | nil => rfl
  | cons hlexemes _ _ _ _ ih => rw [List.map_append, hlexemes, ih, List.flatMap_cons]

/-- The first tokens of a source can be followed by any that can be written. -/
theorem Source.exists_completed {source : Source} {before : List Token}
    (hbefore : before <+: source.lex.tokens) {lexemes : List Lexeme}
    (hwritable : Writable lexemes) :
    ∃ other : Source, (∃ eof, other.lex.ending = .ok eof) ∧
      other.lex.tokens.map Token.lexeme = before.map Token.lexeme ++ lexemes := by
  obtain ⟨words, hproper, rfl⟩ := hwritable
  cases hlast : before.getLast? with
  | none =>
    obtain rfl := List.getLast?_eq_none_iff.mp hlast
    let other : Source := { body := Word.join words }
    obtain ⟨hspells, hending⟩ : ListedAs other words other.lex := Word.lex_join hproper rfl
    exact ⟨other, hending, hspells.map_lexeme⟩
  | some last =>
    obtain ⟨later, hlater⟩ := hbefore
    obtain ⟨rest, hwhole, -⟩ := lexFrom_tokenised .start source.body
    change Tokenised 0 source.body source.lex.tokens rest at hwhole
    rw [← hlater] at hwhole
    obtain ⟨front, left, -, -, hfront⟩ := hwhole.upTo hlast
    let after := Word.join words
    let other : Source := { body := front ++ .scalar ' ' :: after }
    have hbody : other.body = front ++ .scalar ' ' :: after := rfl
    have hblank : AtBlank (.scalar ' ' :: after) := .inr ⟨after, rfl⟩
    have hmark : Mark.start.offset = 0 + 0 := rfl
    obtain ⟨moved, next, hmoved, hnext, hlex⟩ := hfront.lexFrom_append hblank hmark
    have hsplit : other.body = (front ++ [.scalar ' ']) ++ after := by rw [hbody]; simp
    have hplace : (next.forward 1).offset = (front ++ [CodePoint.scalar ' ']).length := by
      rw [Mark.offset_forward, hnext, List.length_append]
      simp [Mark.start]
    obtain ⟨hspells, hending⟩ := Word.lexFrom_join hproper hsplit hplace
    have hwritten : other.lex = { lexFrom (next.forward 1) after with
        tokens := moved ++ (lexFrom (next.forward 1) after).tokens } := by
      rw [Source.lex, hbody, hlex, lexFrom_blank]
    refine ⟨other, by rw [hwritten]; exact hending, ?_⟩
    rw [hwritten, List.map_append, hmoved.lexemes, hspells.map_lexeme]

/-! The token at which a source is refused -/

namespace Source

variable {source : Source} {located : Bool} {error : SyntaxError}

theorem parse_of_passes {lexemes : List Lexeme}
    (h : ∀ limit, Reader.Passes Grammar.definitions limit lexemes (· = .eof)) {other : Source}
    (hending : ∃ eof, other.lex.ending = .ok eof)
    (htokens : other.lex.tokens.map Token.lexeme = lexemes) (located : Bool) :
    ∃ document, other.parse located = .ok document := by
  obtain ⟨eof, heof⟩ := hending
  rcases other.parse_cases located with ⟨-, error, herror, -⟩ | ⟨opened, hfits, hleft, -, hparse⟩
  · rw [heof] at herror
    cases herror
  · have hahead : (other.setting located).ahead opened = lexemes ++ .eof :: [] := by
      rw [Setting.ahead, hleft, htokens, Setting.closing, setting, heof]
    obtain ⟨result, last, -, hrun, -⟩ :=
      h _ _ opened hfits (Nat.lt_succ_self _) .eof [] hahead rfl
    exact hparse _ hrun

theorem parse_of_refuses {lexemes rest : List Lexeme} {misfit : Lexeme} {fault : SyntaxFault}
    {late : Bool} (h : ∀ limit, Reader.Refuses Grammar.definitions limit lexemes misfit fault late)
    {other : Source} (hall : other.lex.all.map Token.lexeme = lexemes ++ misfit :: rest)
    (located : Bool) :
    (late = true → rest = [] →
      ∃ error, other.lex.ending = .error error ∧ other.parse located = .error error) ∧
    ((late = true → rest ≠ []) → ∃ before token after,
      other.lex.all = before ++ token :: after ∧ before.map Token.lexeme = lexemes ∧
        other.parse located = .error ⟨token.start, fault⟩) := by
  rcases other.parse_cases located with ⟨hnone, -⟩ | ⟨opened, hfits, hleft, hparse, -⟩
  · rw [hnone] at hall
    simp at hall
  · have hahead : (other.setting located).ahead opened = lexemes ++ misfit :: rest := by
      rw [Setting.ahead, hleft, ← map_lexeme_all, hall]
    obtain ⟨hlate, hrefuse⟩ := h _ _ opened hfits (Nat.lt_succ_self _) rest hahead
    refine ⟨fun hlates hrest => ?_, fun hopen => ?_⟩
    · obtain ⟨error, hending, herror⟩ := hlate hlates hrest
      exact ⟨error, hending, hparse error herror⟩
    · obtain ⟨tokens, last, hmoves, hlexemes, herror⟩ := hrefuse hopen
      have hfront : (other.setting located).source.lex.tokens = [] ++ opened.left := hleft.symm
      obtain ⟨after, hafter⟩ := hmoves.lex_all_eq hfits hfront
      exact ⟨tokens, last.token, after, hafter, hlexemes, hparse _ herror⟩

/-- The error is about one token. No source with the same tokens up to this one has a document, but
the tokens before it are the start of one that has. -/
structure RefusedAt (source : Source) (error : SyntaxError) (before : List Token) (token : Token)
    (late : Bool) : Prop where
  all_eq : ∃ after, source.lex.all = before ++ token :: after
  position : error.position = token.start
  found : error.fault.found? = some token.lexeme
  atName : late = true → (∃ text, token.lexeme = .name text) ∧
    error.fault = .unexpectedToken token.lexeme ∧ AtOperationType (before.map Token.lexeme)
  refuses : ∀ limit, Reader.Refuses Grammar.definitions limit (before.map Token.lexeme) token.lexeme
    error.fault late
  completion : ∃ (other : Source) (document : Document), other.parse = .ok document ∧
    before.map Token.lexeme <+: other.lex.all.map Token.lexeme

theorem parse_refusal (h : source.parse located = .error error) :
    source.lex.ending = .error error ∨
      ∃ before token late, source.RefusedAt error before token late := by
  rcases source.parse_cases located with
    ⟨-, other, hending, hother⟩ | ⟨opened, hfits, hleft, hparse, hdocument⟩
  · obtain rfl : other = error := Except.error.inj (hother.symm.trans h)
    exact .inl hending
  -- one reader for each limit, so that what is foreseen holds of sources of any length
  have hforesees : Reader.Foresees (fun _ : Nat => Grammar.definitions) id
      (· = .punctuator .braceL) (· = .eof) id := Grammar.definitions_foresees
  have hrun : (Grammar.definitions : Reader (List Definition)) (source.setting located) opened =
      .error error := by
    cases hcase :
        (Grammar.definitions : Reader (List Definition)) (source.setting located) opened with
    | ok result =>
      obtain ⟨document, hok⟩ := hdocument result hcase
      rw [hok] at h
      cases h
    | error other =>
      obtain rfl : other = error := Except.error.inj ((hparse other hcase).symm.trans h)
      rfl
  refine ((hforesees.decides _ _ opened hfits (Nat.lt_succ_self _)).refusal error hrun).imp_right ?_
  rintro ⟨tokens, last, late, hobjects⟩
  obtain ⟨-, htokens⟩ := hobjects.moves.fits hfits
  have hprefix : tokens <+: source.lex.tokens := ⟨last.left, by rw [← htokens, hleft]⟩
  have hpasses : ∃ later, Writable later ∧ ∀ limit, Reader.Passes Grammar.definitions limit
      (tokens.map Token.lexeme ++ later) (· = .eof) := by
    cases tokens with
    | cons token others => exact hobjects.completion (List.cons_ne_nil _ _)
    | nil =>
      obtain ⟨sample, hsample, -, hpassed⟩ := hforesees.samples
      exact ⟨sample, hsample, hpassed⟩
  obtain ⟨later, hlater, hcompleted⟩ := hpasses
  obtain ⟨other, hending, hother⟩ := exists_completed hprefix hlater
  obtain ⟨document, hok⟩ := parse_of_passes hcompleted hending hother true
  have hfront : (source.setting located).source.lex.tokens = [] ++ opened.left := hleft.symm
  refine ⟨tokens, last.token, late, hobjects.moves.lex_all_eq hfits hfront, hobjects.position,
    hobjects.found, hobjects.atName, hobjects.refuses, other, document, hok, ?_⟩
  rw [map_lexeme_all other true, hother, List.append_assoc]
  exact List.prefix_append _ _

/-- A source that has tokens up to its end and is refused is refused at the first token that fits no
document: those before it are the start of a document, and with it they are not. -/
theorem parse_error_first_misfit {eof : Token} (hlex : source.lex.ending = .ok eof)
    (h : source.parse located = .error error) :
    ∃ before token after, source.lex.all = before ++ token :: after ∧
      error.position = token.start ∧
      (∃ (other : Source) (document : Document), other.parse = .ok document ∧
        before.map Token.lexeme <+: other.lex.all.map Token.lexeme) ∧
      ∀ (other : Source) (located' : Bool) (document : Document),
        other.parse located' = .ok document →
          ¬(before ++ [token]).map Token.lexeme <+: other.lex.all.map Token.lexeme := by
  rcases parse_refusal h with hending | ⟨before, token, late, hrefused⟩
  · rw [hlex] at hending
    cases hending
  obtain ⟨after, hall⟩ := hrefused.all_eq
  refine ⟨before, token, after, hall, hrefused.position, hrefused.completion, ?_⟩
  rintro other located' document hok ⟨rest, hrest⟩
  have hsame : other.lex.all.map Token.lexeme =
      before.map Token.lexeme ++ token.lexeme :: rest := by
    rw [← hrest, List.map_append, List.append_assoc]
    rfl
  obtain ⟨hlate, hrefuse⟩ := parse_of_refuses hrefused.refuses hsame located'
  by_cases hopen : late = true → rest ≠ []
  · obtain ⟨_, _, _, -, -, herror⟩ := hrefuse hopen
    rw [hok] at herror
    cases herror
  · obtain ⟨hlates, hnil⟩ := Classical.not_imp.mp hopen
    obtain ⟨_, -, herror⟩ := hlate hlates (not_not.mp hnil)
    rw [hok] at herror
    cases herror

theorem parse_eq_error (h : (source.parse located).map (fun _ => ()) = .error error) :
    source.parse located = .error error := by
  cases hparse : source.parse located with
  | error other =>
    rw [hparse] at h
    exact congrArg _ (Except.error.inj h)
  | ok document =>
    rw [hparse] at h
    cases h

/-- A type condition is missing behind its keyword. -/
theorem parse_error_first_misfit_condition :
    let source : Source := { body := "\x7b a ... on \x7b b \x7d \x7d" }
    source.parse = .error ⟨11, .expectedToken .name (.punctuator .braceL)⟩ ∧
    ∃ before token after, source.lex.all = before ++ token :: after ∧ 11 = token.start ∧
      (∃ (other : Source) (document : Document), other.parse = .ok document ∧
        before.map Token.lexeme <+: other.lex.all.map Token.lexeme) ∧
      ∀ (other : Source) (located' : Bool) (document : Document),
        other.parse located' = .ok document →
          ¬(before ++ [token]).map Token.lexeme <+: other.lex.all.map Token.lexeme := by
  intro source
  have hlex : source.lex.ending = .ok ⟨.eof, 18, 18, 1, 19⟩ := by decide +kernel
  have herror : source.parse = .error ⟨11, .expectedToken .name (.punctuator .braceL)⟩ :=
    parse_eq_error (by decide +kernel)
  exact ⟨herror, parse_error_first_misfit hlex herror⟩

/-- What follows the token that an error is about does not matter, unless the token is a name that
stands for an operation type of a schema: then a fault in the text right behind it comes first. -/
theorem parse_error_of_same_tokens {before after : List Token} {token : Token}
    (h : source.parse located = .error error)
    (htokens : source.lex.all = before ++ token :: after) (hposition : error.position = token.start)
    (hfound : error.fault.found? = some token.lexeme) :
    (∀ (other : Source) (located' : Bool) (rest : List Token),
      other.lex.all = before ++ token :: rest → other.parse located' = .error error) ∨
    ((∃ text, token.lexeme = .name text) ∧ error.fault = .unexpectedToken token.lexeme ∧
      AtOperationType (before.map Token.lexeme) ∧
      ∀ (other : Source) (located' : Bool) (rest : List Token),
        other.lex.all = before ++ token :: rest →
          (other.parse located' = .error error ↔ rest ≠ [])) := by
  rcases parse_refusal h with hending | ⟨before', token', late, hrefused⟩
  · rw [lexFrom_found .start source.body hending] at hfound
    cases hfound
  obtain ⟨after', hall⟩ := hrefused.all_eq
  obtain ⟨rfl, rfl⟩ := source.lex_all_split_unique htokens hall
    (hposition.symm.trans hrefused.position)
  have hsame (other : Source) (located' : Bool) (rest : List Token)
      (hother : other.lex.all = before ++ token :: rest) :
      (late = true → rest = [] →
        ∃ fault, other.lex.ending = .error fault ∧ other.parse located' = .error fault) ∧
      ((late = true → rest ≠ []) → other.parse located' = .error error) := by
    have hlexemes : other.lex.all.map Token.lexeme =
        before.map Token.lexeme ++ token.lexeme :: rest.map Token.lexeme := by
      rw [hother, List.map_append, List.map_cons]
    obtain ⟨hlate, hrefuse⟩ := parse_of_refuses hrefused.refuses hlexemes located'
    refine ⟨fun hlates hnil => hlate hlates (by rw [hnil]; rfl), fun hopen => ?_⟩
    obtain ⟨before', token', after', hall', hbefore, herror⟩ :=
      hrefuse fun hlates hnil => hopen hlates (List.map_eq_nil_iff.mp hnil)
    have hlength : before.length = before'.length := by
      rw [← List.length_map Token.lexeme, ← hbefore, List.length_map]
    obtain ⟨-, hbehind⟩ := List.append_inj (hother.symm.trans hall') hlength
    rw [herror, ← (List.cons.inj hbehind).1, ← hposition]
  cases late with
  | false => exact .inl fun other located' rest hother => (hsame other located' rest hother).2 nofun
  | true =>
    obtain ⟨hname, hfault, hplace⟩ := hrefused.atName rfl
    refine .inr ⟨hname, hfault, hplace, fun other located' rest hother => ?_⟩
    obtain ⟨hlate, hrefuse⟩ := hsame other located' rest hother
    refine ⟨fun herror hnil => ?_, fun hne => hrefuse fun _ => hne⟩
    obtain ⟨fault, hending, hother⟩ := hlate rfl hnil
    obtain rfl : error = fault := Except.error.inj (herror.symm.trans hother)
    rw [lexFrom_found .start other.body hending] at hfound
    cases hfound

/-- A brace in place of a type condition is refused whatever follows it. -/
theorem parse_error_of_same_tokens_condition :
    let source : Source := { body := "\x7b a ... on \x7b b \x7d \x7d" }
    let brace : Token := ⟨.punctuator .braceL, 11, 12, 1, 12⟩
    let error : SyntaxError := ⟨11, .expectedToken .name (.punctuator .braceL)⟩
    source.parse = .error error ∧
    source.lex.all = source.lex.all.take 4 ++ brace :: source.lex.all.drop 5 ∧
    ∀ (other : Source) (located : Bool) (rest : List Token),
      other.lex.all = source.lex.all.take 4 ++ brace :: rest →
        other.parse located = .error error := by
  intro source brace error
  have htokens : source.lex.all = source.lex.all.take 4 ++ brace :: source.lex.all.drop 5 := by
    decide +kernel
  have herror : source.parse = .error error := parse_eq_error (by decide +kernel)
  refine ⟨herror, htokens, ?_⟩
  refine (parse_error_of_same_tokens herror htokens rfl rfl).resolve_right ?_
  rintro ⟨⟨text, htext⟩, -⟩
  cases htext

/-- The text is the same up to the end of a name that is no operation type, but behind it stands a
string without an end, and that is what the error is about. -/
theorem parse_error_hidden_by_fault :
    let source : Source := { body := "schema \x7b foo: A \x7d" }
    let other : Source := { body := "schema \x7b foo \"" }
    let name : Token := ⟨.name "foo", 9, 12, 1, 10⟩
    source.body.take 12 = other.body.take 12 ∧
    (∃ after, source.lex.all = source.lex.all.take 2 ++ name :: after) ∧
    other.lex.all = source.lex.all.take 2 ++ [name] ∧
    source.parse = .error ⟨9, .unexpectedToken (.name "foo")⟩ ∧
    other.parse = .error ⟨14, .unterminatedString⟩ := by
  intro source other name
  have hafter : source.lex.all = source.lex.all.take 2 ++ name :: source.lex.all.drop 3 := by
    decide +kernel
  refine ⟨by decide, ⟨_, hafter⟩, by decide +kernel, ?_, ?_⟩
  · exact parse_eq_error (by decide +kernel)
  · exact parse_eq_error (by decide +kernel)

end Source

end QueryLint
