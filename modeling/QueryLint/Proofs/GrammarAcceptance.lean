import QueryLint.Document.Parser
import QueryLint.Proofs.Acceptance
import QueryLint.Proofs.WrittenForm

/-!
Every production reads the written form of a well-formed part back, up to its locations. What may
follow a part is limited only where an optional piece at its end is missing: the next token must not
be taken for that piece.
-/

namespace QueryLint

/-- A value starts with none of the tokens that end a list or an object. -/
theorem IsValue.head {const : Bool} {lexemes : List Lexeme} (h : IsValue const lexemes) :
    ∃ first others, lexemes = first :: others ∧ first ≠ .punctuator .bracketR ∧
      first ≠ .punctuator .braceR := by
  cases h with
  | single hkind =>
    refine ⟨_, _, rfl, ?_, ?_⟩
    · rintro rfl
      simp [Lexeme.kind] at hkind
    · rintro rfl
      simp [Lexeme.kind] at hkind
  | reference text hconst => exact ⟨_, _, rfl, by simp, by simp⟩
  | list hitems => exact ⟨_, _, rfl, by simp, by simp⟩
  | object hentries => exact ⟨_, _, rfl, by simp, by simp⟩

theorem IsValue.eq_of_string {const : Bool} {value : Text} {others : List Lexeme}
    (h : IsValue const (.string value :: others)) : others = [] := by
  cases h
  rfl

theorem TypeExpr.words_length_pos (type : TypeExpr) : 0 < type.words.length := by
  cases type <;> simp [TypeExpr.words]

namespace Grammar

open Reader Reading Revision

variable {next : Lexeme}

theorem name_reads {n : Name} (h : n.WellFormed) (next : Lexeme) :
    Reads name [n.word] next (unlocated.name n) := by
  apply Reads.current
  intro token htoken
  have hlexeme : token.lexeme = .name n.value := htoken
  rw [hlexeme]
  apply (Reads.advance (Word.proper_name h) rfl next).bind_last
  exact .spanned

theorem typeName_reads {type : TypeName} (h : type.WellFormed) (next : Lexeme) :
    Reads typeName [type.word] next (unlocated.typeName type) := by
  apply Reads.current
  intro start _
  apply (name_reads h next).bind_last
  exact .spanned

/-! Values -/

/-- Items up to a closing token, told by their tokens. -/
theorem itemsUntil_takes {setting : Setting} (hplain : setting.Plain) {item : Reader Unit}
    {closing : Punctuator} {parts : List (List Lexeme)} {tokens later : List Token} {rounds : Nat}
    (hitem : ∀ part ∈ parts, ∀ tokens later, tokens.map Token.lexeme = part →
      item.Takes setting tokens later ())
    (hopen : ∀ part ∈ parts, ∃ first others, part = first :: others ∧
      first ≠ .punctuator closing)
    (hrounds : parts.length < rounds)
    (htokens : tokens.map Token.lexeme = parts.flatten ++ [.punctuator closing]) :
    Takes (itemsUntil (.punctuator closing) item rounds) setting tokens later
      (parts.map fun _ => ()) := by
  induction parts generalizing tokens rounds with
  | nil =>
    obtain ⟨rounds, rfl⟩ := Nat.exists_eq_succ_of_ne_zero (Nat.ne_of_gt hrounds)
    obtain ⟨token, rfl, hlexeme⟩ := List.map_eq_singleton_iff.mp htokens
    have hkind : token.kind = .punctuator closing := by rw [Token.kind, hlexeme]; rfl
    exact (Takes.skip_found hplain hkind).bind_last (.pure [])
  | cons part parts ih =>
    obtain ⟨rounds, rfl⟩ := Nat.exists_eq_succ_of_ne_zero (Nat.ne_zero_of_lt hrounds)
    rw [List.flatten_cons, List.append_assoc] at htokens
    obtain ⟨own, others, rfl, hown, hothers⟩ := List.map_eq_append_iff.mp htokens
    have hmissing : (upcoming (own ++ others ++ later)).kind ≠ .punctuator closing := by
      obtain ⟨first, rest, rfl, hfirst⟩ := hopen part List.mem_cons_self
      obtain ⟨token, tokens, rfl, hlexeme, -⟩ := List.map_eq_cons_iff.mp hown
      intro hkind
      exact hfirst (hlexeme.symm.trans (Lexeme.eq_of_kind hkind))
    have hrest := ih (fun other hother => hitem other (List.mem_cons_of_mem _ hother))
      (fun other hother => hopen other (List.mem_cons_of_mem _ hother))
      (Nat.lt_of_succ_lt_succ hrounds) hothers
    have hskip : Takes (skip (.punctuator closing)) setting [] (own ++ others ++ later) false :=
      Takes.skip_missing hmissing
    apply Takes.bind hskip
    apply (hitem part List.mem_cons_self own _ hown).bind
    exact hrest.bind_last (.pure _)

/-- Items between an opening and a closing token. -/
theorem enclosed_takes {setting : Setting} (hplain : setting.Plain) {item : Reader Unit}
    {opening closing : Punctuator} {parts : List (List Lexeme)} {tokens later : List Token}
    (hitem : ∀ part ∈ parts, ∀ tokens later, tokens.map Token.lexeme = part →
      item.Takes setting tokens later ())
    (hopen : ∀ part ∈ parts, ∃ first others, part = first :: others ∧
      first ≠ .punctuator closing)
    (htokens : tokens.map Token.lexeme = enclosed opening closing parts) :
    (do
      advance
      let _ ← itemsUntil (.punctuator closing) item (← budget) : Reader Unit).Takes
        setting tokens later () := by
  obtain ⟨token, others, rfl, -, hothers⟩ := List.map_eq_cons_iff.mp htokens
  apply Takes.bind (Takes.advance hplain token _)
  apply Takes.budget
  intro rounds hrounds
  have hcount : parts.length < rounds := by
    have hne : ∀ part ∈ parts, part ≠ [] := by
      intro part hpart
      obtain ⟨first, rest, rfl, -⟩ := hopen part hpart
      exact List.cons_ne_nil _ _
    have hle := length_le_flatten hne
    have hlength := congrArg List.length hothers
    rw [List.length_map, List.append_eq, List.length_append] at hlength
    omega
  exact (itemsUntil_takes hplain hitem hopen hcount hothers).bind_last (.pure ())

theorem length_le_of_mem_enclosed {opening closing : Punctuator} {parts : List (List Lexeme)}
    {part : List Lexeme} (hpart : part ∈ parts) {depth : Nat}
    (hdepth : (enclosed opening closing parts).length ≤ depth + 1) : part.length ≤ depth := by
  have hle := (List.sublist_flatten_of_mem hpart).length_le
  simp only [enclosed, List.length_append, List.length_cons, List.length_nil] at hdepth
  omega

/-- The tokens of a value are passed over, however deep its lists and objects nest. -/
theorem skipValue_takes {setting : Setting} (hplain : setting.Plain) {const : Bool}
    {lexemes : List Lexeme} (h : IsValue const lexemes) {depth : Nat}
    (hdepth : lexemes.length ≤ depth) {tokens later : List Token}
    (htokens : tokens.map Token.lexeme = lexemes) :
    Takes (skipValue const depth) setting tokens later () := by
  induction h generalizing depth tokens later with
  | single hkind =>
    obtain ⟨token, rfl, rfl⟩ := List.map_eq_singleton_iff.mp htokens
    obtain ⟨depth, rfl⟩ := Nat.exists_eq_succ_of_ne_zero (Nat.ne_zero_of_lt hdepth)
    apply Takes.current_cons
    cases hlexeme : token.lexeme with
    | int _ | float _ | string _ | name _ => exact .advance hplain token later
    | sof | eof | punctuator _ => simp [hlexeme, Lexeme.kind] at hkind
  | reference text hconst =>
    obtain ⟨dollar, others, rfl, hdollar, hothers⟩ := List.map_eq_cons_iff.mp htokens
    obtain ⟨token, rfl, hname⟩ := List.map_eq_singleton_iff.mp hothers
    obtain ⟨depth, rfl⟩ := Nat.exists_eq_succ_of_ne_zero (Nat.ne_zero_of_lt hdepth)
    have hkind : token.kind = .name := by rw [Token.kind, hname]; rfl
    apply Takes.current_cons
    rw [hdollar, hconst]
    apply Takes.bind (Takes.advance hplain dollar _)
    exact (Takes.expect hplain hkind).bind_last (.pure ())
  | @list items hitems ih =>
    obtain ⟨bracket, others, rfl, hbracket, -⟩ := List.map_eq_cons_iff.mp htokens
    obtain ⟨depth, rfl⟩ := Nat.exists_eq_succ_of_ne_zero (Nat.ne_zero_of_lt hdepth)
    apply Takes.current_cons
    rw [hbracket]
    apply enclosed_takes hplain _ _ htokens
    · intro item hitem tokens later hown
      exact ih item hitem (length_le_of_mem_enclosed hitem hdepth) hown
    · intro item hitem
      obtain ⟨first, rest, rfl, hfirst, -⟩ := (hitems item hitem).head
      exact ⟨first, rest, rfl, hfirst⟩
  | @object entries hentries ih =>
    obtain ⟨brace, others, rfl, hbrace, -⟩ := List.map_eq_cons_iff.mp htokens
    obtain ⟨depth, rfl⟩ := Nat.exists_eq_succ_of_ne_zero (Nat.ne_zero_of_lt hdepth)
    apply Takes.current_cons
    rw [hbrace]
    apply enclosed_takes hplain _ _ htokens
    · intro part hpart tokens later hown
      have hsize := length_le_of_mem_enclosed hpart hdepth
      obtain ⟨entry, hentry, rfl⟩ := List.mem_map.mp hpart
      obtain ⟨token, others, rfl, hname, hothers⟩ := List.map_eq_cons_iff.mp hown
      obtain ⟨colon, value, rfl, hcolon, hvalue⟩ := List.map_eq_cons_iff.mp hothers
      have htoken : token.kind = .name := by rw [Token.kind, hname]; rfl
      have hsign : colon.kind = .punctuator .colon := by rw [Token.kind, hcolon]; rfl
      apply Takes.bind (Takes.expect hplain htoken)
      apply Takes.bind (Takes.expect hplain hsign)
      simp only [List.length_cons] at hsize
      exact ih entry hentry (by omega) hvalue
    · intro part hpart
      obtain ⟨entry, hentry, rfl⟩ := List.mem_map.mp hpart
      exact ⟨_, _, rfl, by simp⟩

/-- The text of a value is cut out of the source. -/
theorem plainValue_takes {setting : Setting} (hplain : setting.Plain) {const : Bool}
    {tokens : List Token} {stop : Nat} (hvalue : IsValue const (tokens.map Token.lexeme))
    (hstop : tokens.getLast?.map Token.stop = some stop) (start : Token) (later : List Token) :
    Takes (plainValue const start) setting tokens later
      (.plain (setting.source.slice start.start stop) none) := by
  apply Takes.budget
  intro depth hdepth cursor hfits hleft
  have hsize : (tokens.map Token.lexeme).length ≤ depth := by
    rw [List.length_map]
    omega
  obtain ⟨last, hrun, hmoves⟩ := skipValue_takes hplain hvalue hsize rfl cursor hfits hleft
  obtain ⟨token, htoken, rfl⟩ := Option.map_eq_some_iff.mp hstop
  have hend : last.lastEnd = token.stop := hmoves.getLast?_stop hfits htoken
  refine ⟨last, ?_, hmoves⟩
  rw [run_bind hrun]
  change (spanFrom start >>= fun loc =>
    pure (.plain (setting.source.slice start.start last.lastEnd) loc) : Reader Value)
      setting last = _
  rw [run_bind (p := spanFrom start) (run_spanFrom hplain start last), hend]
  rfl

theorem stringValue_takes {setting : Setting} (hplain : setting.Plain) (token : Token)
    (later : List Token) (value : Text) :
    Takes (stringValue token value) setting [token] later
      ⟨setting.source.slice token.start token.stop, value, none⟩ := by
  apply (Takes.advance hplain token later).bind_last
  intro cursor _ _
  refine ⟨cursor, ?_, .stay⟩
  change (spanFrom token >>= fun loc =>
    pure ⟨setting.source.slice token.start token.stop, value, loc⟩ : Reader StringValue)
      setting cursor = _
  rw [run_bind (p := spanFrom token) (run_spanFrom hplain token cursor)]
  rfl

theorem value_reads {const : Bool} {v : Value} (h : v.WellFormed const) (next : Lexeme) :
    Reads (value const) [v.word] next (unlocated.value v) := by
  cases h with
  | @plain text loc htext hvalue hplainText =>
    refine ⟨List.forall_mem_singleton.mpr (Word.proper_literal htext), ?_⟩
    intro setting tokens later hplain hspells _
    cases hspells with
    | @cons _ _ own others start stop hlexemes hstart hstop hslice hothers =>
      cases hothers
      obtain ⟨first, hfirst, rfl⟩ := Option.map_eq_some_iff.mp hstart
      obtain ⟨rest, rfl⟩ := List.head?_eq_some_iff.mp hfirst
      have hown : IsValue const ((first :: rest).map Token.lexeme) := hlexemes ▸ hvalue
      have htakes := plainValue_takes hplain hown hstop first later
      rw [List.append_nil]
      rw [hslice] at htakes
      apply Takes.current_cons
      cases hlexeme : first.lexeme with
      | string decoded =>
        rw [List.map_cons, hlexeme] at hown hlexemes
        rw [hown.eq_of_string] at hlexemes
        exact absurd hlexemes.symm (hplainText decoded)
      | _ => exact htakes
  | @string literal hliteral =>
    refine ⟨List.forall_mem_singleton.mpr (Word.proper_literal hliteral.text), ?_⟩
    intro setting tokens later hplain hspells _
    obtain ⟨token, others, rfl, hlexeme, hslice, hothers⟩ := hspells.single hliteral.value
    cases hothers
    apply Takes.current_cons
    rw [hlexeme]
    have htakes := stringValue_takes hplain token later literal.value
    rw [hslice] at htakes
    exact htakes.bind_last (.pure _)

/-! Arguments, directives and type references -/

theorem closes_parenR : Closes .parenR := ⟨rfl, rfl⟩

theorem closes_braceR : Closes .braceR := ⟨rfl, rfl⟩

theorem argument_readsItem {const : Bool} {a : Argument} (h : a.WellFormed const) :
    ReadsItem (argument const) a.words (unlocated.argument a) := by
  refine ⟨fun _ => rfl, fun next _ => ?_⟩
  apply Reads.current
  intro start _
  apply (name_reads h.name _).bind_cons
  apply Reads.expect
  intro _
  apply (value_reads h.value next).bind_last
  exact .spanned

theorem arguments_reads {const : Bool} {list : List Argument}
    (h : ∀ a ∈ list, a.WellFormed const) (hnext : next ≠ .punctuator .parenL) :
    Reads (arguments const) (Argument.listWords list) next (list.map unlocated.argument) :=
  Reads.optionalMany closes_parenR (fun a ha => argument_readsItem (h a ha)) hnext

theorem evades_arguments {lexeme : Lexeme} (h : .punctuator .parenL ≠ lexeme)
    (list : List Argument) : Evades (Argument.listWords list) lexeme :=
  evades_encloseIfAny h _ _

theorem leading_directives (list : List Directive) (next : Lexeme) :
    leading (Directive.listWords list) next = .punctuator .at ∨
      leading (Directive.listWords list) next = next := by
  cases list with
  | nil => exact .inr rfl
  | cons directive list => exact .inl rfl

theorem evades_directives {lexeme : Lexeme} (h : .punctuator .at ≠ lexeme)
    (list : List Directive) : Evades (Directive.listWords list) lexeme := by
  intro next hnext
  rcases leading_directives list next with hlead | hlead
  · rwa [hlead]
  · rwa [hlead]

/-- What may follow directives: neither another one nor arguments of the last. -/
structure EndsDirectives (next : Lexeme) : Prop where
  ne_at : next ≠ .punctuator .at
  ne_parenL : next ≠ .punctuator .parenL

theorem EndsDirectives.of_endsItem (h : next.endsItem = true) : EndsDirectives next :=
  ⟨Lexeme.ne_of_endsItem h rfl, Lexeme.ne_of_endsItem h rfl⟩

theorem endsDirectives_braceL : EndsDirectives (.punctuator .braceL) := ⟨by simp, by simp⟩

theorem directive_reads {const : Bool} {d : Directive} (h : d.WellFormed const)
    (hnext : next ≠ .punctuator .parenL) :
    Reads (directive const) d.words next (unlocated.directive d) := by
  apply Reads.expect
  intro start
  apply (name_reads h.name _).bind_cons
  apply (arguments_reads h.arguments hnext).bind_last
  exact .spanned

theorem directivesWithin_reads {const : Bool} {list : List Directive}
    (h : ∀ directive ∈ list, directive.WellFormed const) (hnext : EndsDirectives next)
    {rounds : Nat} (hrounds : list.length < rounds) :
    Reads (directivesWithin const rounds) (Directive.listWords list) next
      (list.map unlocated.directive) := by
  induction list generalizing rounds with
  | nil =>
    obtain ⟨rounds, rfl⟩ := Nat.exists_eq_succ_of_ne_zero (Nat.ne_of_gt hrounds)
    apply Reads.peek_missing
    · exact fun hkind => hnext.ne_at (Lexeme.eq_of_kind hkind)
    · exact .pure next []
  | cons directive list ih =>
    obtain ⟨rounds, rfl⟩ := Nat.exists_eq_succ_of_ne_zero (Nat.ne_zero_of_lt hrounds)
    have hdirective := h directive List.mem_cons_self
    have hothers := ih (fun other hother => h other (List.mem_cons_of_mem _ hother))
      (Nat.lt_of_succ_lt_succ hrounds)
    have hbehind : leading (Directive.listWords list) next ≠ .punctuator .parenL :=
      evades_directives (by simp) list next hnext.ne_parenL
    apply Reads.peek_found
    · rfl
    apply (directive_reads hdirective hbehind).bind
    exact hothers.bind_last (.pure next _)

theorem directives_reads {const : Bool} {list : List Directive}
    (h : ∀ directive ∈ list, directive.WellFormed const) (hnext : EndsDirectives next) :
    Reads (directives const) (Directive.listWords list) next (list.map unlocated.directive) := by
  apply Reads.budget
  intro rounds hrounds
  have hne : ∀ part ∈ list.map Directive.words, part ≠ [] := by
    intro part hpart
    obtain ⟨directive, -, rfl⟩ := List.mem_map.mp hpart
    exact List.cons_ne_nil _ _
  have hle := length_le_flatten hne
  rw [List.length_map, ← List.flatMap_def] at hle
  exact directivesWithin_reads h hnext (Nat.lt_of_le_of_lt hle hrounds)

/-- A type that is not marked as non-null is read, whatever follows. -/
theorem nullableType_reads {item : Reader TypeExpr} {type : TypeExpr} (h : type.WellFormed)
    (hnullable : type.isNonNull = false)
    (hitem : ∀ inner, inner.WellFormed → inner.words.length < type.words.length →
      item.Reads inner.words (.punctuator .bracketR) (unlocated.typeExpr inner))
    (next : Lexeme) : Reads (nullableType item) type.words next (unlocated.typeExpr type) := by
  apply Reads.current
  intro start _
  cases h with
  | @named type htype =>
    apply Reads.bind_nil
    · apply Reads.skip_missing
      simp [leading, TypeExpr.words, TypeName.word, Name.word, Word.lexemes]
    · exact (typeName_reads htype next).bind_last (.pure next _)
  | @list inner loc hinner =>
    have hinside : inner.words.length < (TypeExpr.list inner loc).words.length := by
      simp only [TypeExpr.words, List.length_cons, List.length_append, List.length_nil]
      omega
    apply (Reads.skip_found .bracketL _).bind_cons
    apply Reads.bind (hitem inner hinner hinside)
    apply Reads.expect
    intro _
    exact .spanned
  | nonNull _ _ => cases hnullable

theorem typeExprWithin_reads {type : TypeExpr} (h : type.WellFormed) {depth : Nat}
    (hdepth : type.words.length ≤ depth) (hnext : next ≠ .punctuator .bang) :
    Reads (typeExprWithin depth) type.words next (unlocated.typeExpr type) := by
  induction depth generalizing type next with
  | zero => exact absurd hdepth (Nat.not_le.mpr type.words_length_pos)
  | succ depth ih =>
    have hnullable (type : TypeExpr) (h : type.WellFormed) (hkind : type.isNonNull = false)
        (hdepth : type.words.length ≤ depth + 1) (next : Lexeme) :
        Reads (nullableType (typeExprWithin depth)) type.words next (unlocated.typeExpr type) := by
      apply nullableType_reads h hkind
      intro inner hinner hinside
      exact ih hinner (by omega) (by simp)
    apply Reads.current
    intro start _
    by_cases hkind : type.isNonNull = false
    · apply (hnullable type h hkind hdepth next).bind_last
      apply (Reads.skip_missing hnext).bind_nil
      exact .pure next _
    · cases h with
      | named _ => exact absurd rfl hkind
      | list _ => exact absurd rfl hkind
      | @nonNull item loc hitem hinner =>
        have hsize : item.words.length ≤ depth + 1 := by
          simp only [TypeExpr.words, List.length_append] at hdepth
          omega
        apply (hnullable item hitem hinner hsize _).bind
        apply (Reads.skip_found .bang _).bind_cons
        exact .spanned

theorem typeExpr_reads {type : TypeExpr} (h : type.WellFormed)
    (hnext : next ≠ .punctuator .bang) :
    Reads typeExpr type.words next (unlocated.typeExpr type) := by
  apply Reads.budget
  intro depth hdepth
  exact typeExprWithin_reads h (Nat.le_of_lt hdepth) hnext

theorem defaultValue_reads {default : Option Value} (h : ∀ v ∈ default, v.WellFormed true)
    (hnext : next ≠ .punctuator .equals) :
    Reads defaultValue (Value.defaultWords default) next (default.map unlocated.value) := by
  cases default with
  | none =>
    apply (Reads.skip_missing hnext).bind_nil
    exact .pure next none
  | some v =>
    apply (Reads.skip_found .equals _).bind_cons
    exact (value_reads (h v rfl) next).bind_last (.pure next _)

theorem evades_defaultValue {lexeme : Lexeme} (h : .punctuator .equals ≠ lexeme)
    (default : Option Value) : Evades (Value.defaultWords default) lexeme := by
  cases default with
  | none => exact evades_nil lexeme
  | some v => exact fun _ _ => h

theorem variableDefinition_readsItem {definition : VariableDefinition}
    (h : definition.WellFormed) :
    ReadsItem variableDefinition definition.words (unlocated.variableDefinition definition) := by
  refine ⟨fun _ => rfl, fun next hnext => ?_⟩
  have hbang : leading (Value.defaultWords definition.defaultValue ++
      Directive.listWords definition.directives) next ≠ .punctuator .bang :=
    (evades_defaultValue (by simp) _).append (evades_directives (by simp) _) next
      (Lexeme.ne_of_endsItem hnext rfl)
  have hequals : leading (Directive.listWords definition.directives) next ≠
      .punctuator .equals :=
    evades_directives (by simp) _ next (Lexeme.ne_of_endsItem hnext rfl)
  apply Reads.expect
  intro start
  apply (name_reads h.name _).bind_cons
  apply Reads.expect
  intro _
  apply (typeExpr_reads h.type hbang).bind
  apply (defaultValue_reads h.defaultValue hequals).bind
  apply (directives_reads h.directives (.of_endsItem hnext)).bind_last
  exact .spanned

/-! Selections -/

theorem fieldName_reads {aliasName : Option Name} {n : Name}
    (halias : ∀ other ∈ aliasName, other.WellFormed) (hname : n.WellFormed)
    (hnext : next ≠ .punctuator .colon) :
    Reads fieldName (Name.aliasWords aliasName ++ [n.word]) next
      (aliasName.map unlocated.name, unlocated.name n) := by
  cases aliasName with
  | none =>
    apply (name_reads hname next).bind_last
    apply (Reads.skip_missing hnext).bind_nil
    exact .pure next _
  | some other =>
    apply (name_reads (halias other rfl) _).bind_cons
    apply (Reads.skip_found .colon _).bind_cons
    exact (name_reads hname next).bind_last (.pure next _)

theorem fragmentName_reads {n : Name} (h : n.NamesFragment) (next : Lexeme) :
    Reads fragmentName [n.word] next (unlocated.name n) := by
  apply Reads.current
  intro token htoken
  have hlexeme : token.lexeme = .name n.value := htoken
  have hon : token.lexeme.value? ≠ some (Text.ofString "on") := by
    rw [hlexeme]
    intro hvalue
    exact h.ne_on (Text.ofString_injective (Option.some.inj hvalue))
  rw [if_neg (by simpa using hon)]
  exact name_reads h.wellFormed next

theorem typeCondition_reads {type : TypeName} (h : type.WellFormed) (next : Lexeme) :
    Reads (typeCondition true) [type.word] next (some (unlocated.typeName type)) :=
  (typeName_reads h next).bind_last (.pure next _)

theorem evades_optionalSet {lexeme : Lexeme} (h : .punctuator .braceL ≠ lexeme)
    (set : Option SelectionSet) : Evades (SelectionSet.optionalWords set) lexeme := by
  cases set with
  | none =>
    rw [SelectionSet.optionalWords]
    exact evades_nil lexeme
  | some set =>
    obtain ⟨selections, loc⟩ := set
    rw [SelectionSet.optionalWords, SelectionSet.words]
    exact fun _ _ => h

theorem leading_selectionSet (set : SelectionSet) (next : Lexeme) :
    leading set.words next = .punctuator .braceL := by
  obtain ⟨selections, loc⟩ := set
  rw [SelectionSet.words]
  rfl

section Selections

variable {sets : Reader SelectionSet} {depth : Nat}
  (hsets : ∀ set : SelectionSet, set.WellFormed → set.words.length ≤ depth → ∀ next,
    sets.Reads set.words next (unlocated.selectionSet set))
include hsets

theorem optionalSet_reads {set : Option SelectionSet} (h : ∀ inner ∈ set, inner.WellFormed)
    (hdepth : (SelectionSet.optionalWords set).length ≤ depth)
    (hnext : next ≠ .punctuator .braceL) :
    Reads (optionalItem (.punctuator .braceL) sets) (SelectionSet.optionalWords set) next
      (unlocated.optionalSelectionSet set) := by
  cases set with
  | none =>
    rw [SelectionSet.optionalWords, Revision.optionalSelectionSet]
    exact Reads.optionalItem_missing sets fun hkind => hnext (Lexeme.eq_of_kind hkind)
  | some set =>
    rw [SelectionSet.optionalWords] at hdepth ⊢
    rw [Revision.optionalSelectionSet]
    apply Reads.optionalItem_found
    · rw [leading_selectionSet]
      rfl
    · exact hsets set (h set rfl) hdepth next

theorem field_reads {aliasName : Option Name} {n : Name} {list : List Argument}
    {tags : List Directive} {set : Option SelectionSet} {loc : Option Location}
    (halias : ∀ other ∈ aliasName, other.WellFormed) (hname : n.WellFormed)
    (harguments : ∀ a ∈ list, a.WellFormed false)
    (hdirectives : ∀ directive ∈ tags, directive.WellFormed false)
    (hset : ∀ inner ∈ set, inner.WellFormed)
    (hdepth : (SelectionSet.optionalWords set).length ≤ depth) (hnext : next.endsItem = true) :
    Reads (field sets) (Selection.field aliasName n list tags set loc).words next
      (unlocated.selection (.field aliasName n list tags set loc)) := by
  have hcolon : leading (Argument.listWords list ++
      (Directive.listWords tags ++ SelectionSet.optionalWords set)) next ≠ .punctuator .colon :=
    (evades_arguments (by simp) list).append ((evades_directives (by simp) tags).append
      (evades_optionalSet (by simp) set)) next (Lexeme.ne_of_endsItem hnext rfl)
  have hparen : leading (Directive.listWords tags ++ SelectionSet.optionalWords set) next ≠
      .punctuator .parenL :=
    (evades_directives (by simp) tags).append (evades_optionalSet (by simp) set) next
      (Lexeme.ne_of_endsItem hnext rfl)
  have hends : EndsDirectives (leading (SelectionSet.optionalWords set) next) :=
    ⟨evades_optionalSet (by simp) set next (Lexeme.ne_of_endsItem hnext rfl),
      evades_optionalSet (by simp) set next (Lexeme.ne_of_endsItem hnext rfl)⟩
  rw [Selection.words, Revision.selection, List.append_cons]
  apply Reads.current
  intro start _
  apply (fieldName_reads halias hname hcolon).bind
  apply (arguments_reads harguments hparen).bind
  apply (directives_reads hdirectives hends).bind
  apply (optionalSet_reads hsets hset hdepth (Lexeme.ne_of_endsItem hnext rfl)).bind_last
  exact .spanned

omit hsets in
theorem spread_reads {n : Name} {tags : List Directive} {loc : Option Location}
    (hname : n.NamesFragment) (hdirectives : ∀ directive ∈ tags, directive.WellFormed false)
    (hnext : next.endsItem = true) :
    Reads (fragment sets) (Selection.spread n tags loc).words next
      (unlocated.selection (.spread n tags loc)) := by
  have hon : leading (n.word :: Directive.listWords tags) next ≠ .name "on" := fun hkeyword =>
    hname.ne_on (Lexeme.name.inj hkeyword)
  rw [Selection.words, Revision.selection]
  apply Reads.expect
  intro start
  apply (Reads.skipKeyword_missing hon).bind_nil
  apply Reads.peek_found
  · rfl
  apply (fragmentName_reads hname _).bind_cons
  apply (directives_reads hdirectives (.of_endsItem hnext)).bind_last
  exact .spanned

theorem inline_reads {condition : Option TypeName} {tags : List Directive} {set : SelectionSet}
    {loc : Option Location} (hcondition : ∀ type ∈ condition, type.WellFormed)
    (hdirectives : ∀ directive ∈ tags, directive.WellFormed false) (hset : set.WellFormed)
    (hdepth : set.words.length ≤ depth) (next : Lexeme) :
    Reads (fragment sets) (Selection.inline condition tags set loc).words next
      (unlocated.selection (.inline condition tags set loc)) := by
  have hbehind : leading (Directive.listWords tags ++ set.words) next = .punctuator .at ∨
      leading (Directive.listWords tags ++ set.words) next = .punctuator .braceL := by
    have hlead := leading_directives tags (leading set.words next)
    rwa [leading_append, ← leading_selectionSet set next]
  have hends : EndsDirectives (leading set.words next) := by
    rw [leading_selectionSet]
    exact endsDirectives_braceL
  rw [Selection.words, Revision.selection]
  apply Reads.expect
  intro start
  cases condition with
  | some type =>
    apply (Reads.skipKeyword_found ⟨_, _, rfl, rfl, rfl⟩ _).bind_cons
    apply Reads.peek_found
    · rfl
    apply (typeCondition_reads (hcondition type rfl) _).bind_cons
    apply (directives_reads hdirectives hends).bind
    apply (hsets set hset hdepth next).bind_last
    exact .spanned
  | none =>
    apply Reads.bind_nil
    · apply Reads.skipKeyword_missing
      rcases hbehind with hlead | hlead <;> simp [TypeName.conditionWords, hlead]
    apply Reads.peek_missing
    · rcases hbehind with hlead | hlead <;> simp [TypeName.conditionWords, hlead, Lexeme.kind]
    apply Reads.bind_nil (.pure _ none)
    apply (directives_reads hdirectives hends).bind
    apply (hsets set hset hdepth next).bind_last
    exact .spanned

theorem selection_readsItem {s : Selection} (h : s.WellFormed) (hdepth : s.words.length ≤ depth) :
    ReadsItem (selection sets) s.words (unlocated.selection s) := by
  cases h with
  | @field aliasName n list tags set loc halias hname harguments hdirectives hset =>
    have hinner : (SelectionSet.optionalWords set).length ≤ depth := by
      rw [Selection.words] at hdepth
      simp only [List.length_append, List.length_cons] at hdepth
      omega
    have hstart (next : Lexeme) : ∃ text,
        leading (Selection.field aliasName n list tags set loc).words next = .name text := by
      rw [Selection.words]
      cases aliasName with
      | none => exact ⟨_, rfl⟩
      | some other => exact ⟨_, rfl⟩
    constructor
    · intro next
      obtain ⟨text, htext⟩ := hstart next
      rw [htext]
      rfl
    · intro next hnext
      apply Reads.peek_missing
      · obtain ⟨text, htext⟩ := hstart next
        rw [htext]
        simp [Lexeme.kind]
      · exact field_reads hsets halias hname harguments hdirectives hset hinner hnext
  | @spread n tags loc hname hdirectives =>
    have hstart (next : Lexeme) :
        leading (Selection.spread n tags loc).words next = .punctuator .spread := by
      rw [Selection.words]
      rfl
    constructor
    · intro next
      rw [hstart]
      rfl
    · intro next hnext
      apply Reads.peek_found
      · rw [hstart]
        rfl
      · exact spread_reads hname hdirectives hnext
  | @inline condition tags set loc hcondition hdirectives hset =>
    have hinner : set.words.length ≤ depth := by
      rw [Selection.words] at hdepth
      simp only [List.length_append, List.length_cons] at hdepth
      omega
    have hstart (next : Lexeme) :
        leading (Selection.inline condition tags set loc).words next = .punctuator .spread := by
      rw [Selection.words]
      rfl
    constructor
    · intro next
      rw [hstart]
      rfl
    · intro next hnext
      apply Reads.peek_found
      · rw [hstart]
        rfl
      · exact inline_reads hsets hcondition hdirectives hset hinner next

end Selections

/-- Selection sets are read, however deep they nest. -/
theorem selectionSetWithin_reads {set : SelectionSet} (h : set.WellFormed) {depth : Nat}
    (hdepth : set.words.length ≤ depth) (next : Lexeme) :
    Reads (selectionSetWithin depth) set.words next (unlocated.selectionSet set) := by
  induction depth generalizing set next with
  | zero =>
    obtain ⟨selections, loc⟩ := set
    rw [SelectionSet.words] at hdepth
    cases hdepth
  | succ depth ih =>
    cases h with
    | @mk selections loc hne hselections =>
      have hwords : (SelectionSet.mk selections loc).words =
          Word.enclose .braceL .braceR (selections.map Selection.words) := by
        rw [SelectionSet.words, Selection.listWords_eq, Word.enclose]
      have hitems : ∀ s ∈ selections,
          ReadsItem (selection (selectionSetWithin depth)) s.words (unlocated.selection s) := by
        intro s hs
        apply selection_readsItem (fun set hset hsize next => ih hset hsize next)
          (hselections s hs)
        have hmem : s.words ∈ selections.map Selection.words := List.mem_map_of_mem hs
        have hle := (List.sublist_flatten_of_mem hmem).length_le
        rw [hwords, Word.enclose] at hdepth
        simp only [List.length_append, List.length_cons] at hdepth
        omega
      rw [hwords, Revision.selectionSet, Revision.selections_eq]
      apply Reads.current
      intro start _
      apply (Reads.many closes_braceR hne hitems next).bind_last
      exact .spanned

theorem selectionSet_reads {set : SelectionSet} (h : set.WellFormed) (next : Lexeme) :
    Reads selectionSet set.words next (unlocated.selectionSet set) := by
  apply Reads.budget
  intro depth hdepth
  exact selectionSetWithin_reads h (Nat.le_of_lt hdepth) next

end Grammar

end QueryLint
