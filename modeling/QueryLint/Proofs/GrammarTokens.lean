import QueryLint.Document.Parser
import QueryLint.Proofs.Reading

/-!
What the productions of the grammar consume. Each one moves over exactly the tokens that its result
is printed with. Arguments and directives hold no equals sign, so the first one in the definition of
a union opens the list of its members.
-/

namespace QueryLint

open Reader Reading

namespace Grammar

/-! Names, values and directives -/

theorem name_prints : Prints name Name.lexemes := by
  refine .current fun setting cursor hfits => ?_
  cases hlexeme : cursor.token.lexeme with
  | name text =>
    refine .advance_bind hfits (by simp [hlexeme]) ?_
    refine (spanFrom_stays _).bind fun loc => .pure ?_
    rw [hlexeme]
    rfl
  | _ => exact Consumes.refuse _ _ setting cursor hfits

theorem typeName_prints : Prints typeName TypeName.lexemes := by
  refine current_stays.bind fun start => name_prints.bind fun name => ?_
  exact (spanFrom_stays _).bind fun loc => .pure rfl

/-- Tokens as a value has them: at least one, and no equals sign. -/
def AsValue (consumed : List Lexeme) : Prop := consumed ≠ [] ∧ .punctuator .equals ∉ consumed

theorem not_mem_flatten {α : Type} {each : List Lexeme → α → Prop} {parts : List (List Lexeme)}
    {items : List α} (hparts : List.Forall₂ each parts items)
    (heach : ∀ consumed a, each consumed a → .punctuator .equals ∉ consumed) :
    .punctuator .equals ∉ parts.flatten := by
  induction hparts with
  | nil => exact List.not_mem_nil
  | cons hpart _ ih =>
    rw [List.flatten_cons, List.mem_append]
    exact fun h => h.elim (heach _ _ hpart) ih

theorem asValue_enclosed {parts : List (List Lexeme)} {items : List Unit}
    (hparts : List.Forall₂ (fun consumed _ => AsValue consumed) parts items)
    {opening closing : Punctuator} (hopening : opening ≠ .equals) (hclosing : closing ≠ .equals) :
    AsValue (.punctuator opening :: (parts.flatten ++ [.punctuator closing])) := by
  have hinner := not_mem_flatten hparts fun _ _ hpart => hpart.2
  refine ⟨List.cons_ne_nil _ _, ?_⟩
  simp [hinner, hopening.symm, hclosing.symm]

theorem skipValue_consumes (const : Bool) (depth : Nat) :
    Consumes (skipValue const depth) fun consumed _ => AsValue consumed := by
  induction depth with
  | zero => exact current_stays.bind fun token => .refuse token _
  | succ depth ih =>
    refine .current fun setting cursor hfits => ?_
    have htoken (h : AsValue [cursor.token.lexeme]) (hinside : cursor.token.lexeme ≠ .eof) :
        ConsumesAt advance setting cursor fun consumed _ => AsValue consumed :=
      (ConsumesAt.advance hinside).mono fun consumed _ hconsumed => hconsumed ▸ h
    have hentry : Consumes (α := Unit) (do
          let _ ← expect .name
          let _ ← expect (.punctuator .colon)
          skipValue const depth) fun consumed _ => AsValue consumed := by
      refine expect_name.bind fun consumed _ hname => ?_
      refine (expect_punctuator .colon).bind fun _ => ih.mono fun later _ hlater => ?_
      obtain ⟨text, -, rfl⟩ := hname
      exact ⟨by simp, by simpa using hlater.2⟩
    cases hlexeme : cursor.token.lexeme with
    | punctuator mark =>
      cases mark with
      | bracketL =>
        refine .advance_bind hfits (by simp [hlexeme]) (budget_stays.bind fun rounds => ?_)
        refine (itemsUntil_consumes ih .bracketR rounds).bind fun consumed _ hconsumed => .pure ?_
        obtain ⟨parts, hparts, rfl⟩ := hconsumed
        rw [hlexeme, List.append_nil]
        exact asValue_enclosed hparts (by decide) (by decide)
      | braceL =>
        refine .advance_bind hfits (by simp [hlexeme]) (budget_stays.bind fun rounds => ?_)
        refine (itemsUntil_consumes hentry .braceR rounds).bind fun consumed _ hconsumed =>
          .pure ?_
        obtain ⟨parts, hparts, rfl⟩ := hconsumed
        rw [hlexeme, List.append_nil]
        exact asValue_enclosed hparts (by decide) (by decide)
      | dollar =>
        cases const with
        | true => exact Consumes.refuse _ _ setting cursor hfits
        | false =>
          refine .advance_bind hfits (by simp [hlexeme]) ?_
          refine expect_name.bind fun consumed _ hname => .pure ?_
          obtain ⟨text, -, rfl⟩ := hname
          rw [hlexeme]
          exact ⟨by simp, by simp⟩
      | _ => exact Consumes.refuse _ _ setting cursor hfits
    | sof => exact Consumes.refuse _ _ setting cursor hfits
    | eof => exact Consumes.refuse _ _ setting cursor hfits
    | _ => exact htoken (by simp [hlexeme, AsValue]) (by simp [hlexeme])

/-- The reader consumes the tokens of its result, and no equals sign among them. -/
def PrintsWithoutEquals {α : Type} (p : Reader α) (lexemes : α → List Lexeme) : Prop :=
  p.Consumes fun consumed a => consumed = lexemes a ∧ .punctuator .equals ∉ consumed

theorem PrintsWithoutEquals.prints {α : Type} {p : Reader α} {lexemes : α → List Lexeme}
    (h : PrintsWithoutEquals p lexemes) : p.Prints lexemes :=
  Consumes.mono h fun _ _ hconsumed => hconsumed.1

theorem stringValue_consumesAt {setting : Setting} {cursor : Cursor} (hfits : setting.Fits cursor)
    {decoded : Text} (hlexeme : cursor.token.lexeme = .string decoded) :
    ConsumesAt (stringValue cursor.token decoded) setting cursor fun consumed literal =>
      consumed = literal.lexemes ∧ consumed = [.string decoded] := by
  intro literal last h
  obtain ⟨_, next, hadvance, hrest⟩ := bind_eq_ok h
  obtain ⟨here, _, hread, hrest⟩ := bind_eq_ok hrest
  cases hread
  obtain ⟨loc, _, hspan, hpure⟩ := bind_eq_ok hrest
  obtain rfl := spanFrom_stays _ _ _ _ _ hspan
  cases hpure
  have hinside : cursor.token.lexeme ≠ .eof := by simp [hlexeme]
  have hmoves : setting.Moves cursor [cursor.token] last := .step hinside hadvance .stay
  have hslice := hmoves.lexemesOf_slice hfits (List.cons_ne_nil _ _)
  rw [(hfits.advance hinside hadvance).2.2] at hslice
  exact ⟨[cursor.token], hmoves, hslice.symm, by rw [List.map_singleton, hlexeme]⟩

/-- A value is kept as its text, and that has the tokens of the value. -/
theorem plainValue_consumesAt (const : Bool) {setting : Setting} {cursor : Cursor}
    (hfits : setting.Fits cursor) :
    ConsumesAt (plainValue const cursor.token) setting cursor fun consumed result =>
      consumed = result.lexemes ∧ .punctuator .equals ∉ consumed := by
  intro result last h
  obtain ⟨depth, _, hbudget, hrest⟩ := bind_eq_ok h
  cases hbudget
  obtain ⟨_, next, hskip, hrest⟩ := bind_eq_ok hrest
  obtain ⟨tokens, hmoves, hne, hequals⟩ :=
    skipValue_consumes const _ setting cursor hfits _ _ hskip
  obtain ⟨here, _, hread, hrest⟩ := bind_eq_ok hrest
  cases hread
  obtain ⟨place, _, hget, hrest⟩ := bind_eq_ok hrest
  cases hget
  obtain ⟨loc, _, hspan, hpure⟩ := bind_eq_ok hrest
  obtain rfl := spanFrom_stays _ _ _ _ _ hspan
  cases hpure
  have hslice := hmoves.lexemesOf_slice hfits (by simpa using hne)
  exact ⟨tokens, hmoves, hslice.symm, hequals⟩

theorem value_prints (const : Bool) : PrintsWithoutEquals (value const) Value.lexemes := by
  refine .current fun setting cursor hfits => ?_
  cases hlexeme : cursor.token.lexeme with
  | string decoded =>
    refine .bind hfits (stringValue_consumesAt hfits hlexeme) fun consumed literal hliteral => ?_
    refine .pure ?_
    rw [List.append_nil]
    exact ⟨hliteral.1, by simp [hliteral.2]⟩
  | _ => exact plainValue_consumesAt const hfits

theorem argument_prints (const : Bool) : PrintsWithoutEquals (argument const) Argument.lexemes := by
  refine current_stays.bind fun start => name_prints.bind fun name => ?_
  refine (expect_punctuator .colon).bind fun _ => Consumes.bind (value_prints const) ?_
  rintro consumed value ⟨rfl, hequals⟩
  refine (spanFrom_stays _).bind fun loc => .pure ⟨by simp [Argument.lexemes], ?_⟩
  simp [Name.lexemes, hequals]

theorem arguments_prints (const : Bool) :
    PrintsWithoutEquals (arguments const) Argument.listLexemes := by
  apply (optionalMany_consumes (argument_prints const) .parenL .parenR).mono
  rintro consumed items ⟨parts, hparts, rfl⟩
  have hlexemes : parts = items.map Argument.lexemes :=
    parts_eq_map (hparts.imp fun _ _ hpart => hpart.1)
  have hinner := not_mem_flatten hparts fun _ _ hpart => hpart.2
  refine ⟨by rw [hlexemes]; rfl, ?_⟩
  unfold enclosedIfAny enclosed
  split
  · exact List.not_mem_nil
  · simp [hinner]

theorem directive_prints (const : Bool) :
    PrintsWithoutEquals (directive const) Directive.lexemes := by
  refine (expect_punctuator .at).bind fun start => name_prints.bind fun name => ?_
  apply Consumes.bind (arguments_prints const)
  rintro consumed arguments ⟨rfl, harguments⟩
  refine (spanFrom_stays _).bind fun loc => .pure ⟨by simp [Directive.lexemes], ?_⟩
  simp [Name.lexemes, harguments]

theorem directivesWithin_prints (const : Bool) (rounds : Nat) :
    PrintsWithoutEquals (directivesWithin const rounds) Directive.listLexemes := by
  induction rounds with
  | zero => exact current_stays.bind fun token => .refuse token _
  | succ rounds ih =>
    refine (peek_stays _).bind fun found => ?_
    cases found with
    | false => exact .pure ⟨rfl, by simp⟩
    | true =>
      apply Consumes.bind (directive_prints const)
      rintro consumed first ⟨rfl, hfirst⟩
      apply Consumes.bind ih
      rintro later others ⟨rfl, hothers⟩
      refine .pure ⟨by simp [Directive.listLexemes], ?_⟩
      simp [hfirst, hothers]

theorem directives_prints (const : Bool) :
    PrintsWithoutEquals (directives const) Directive.listLexemes :=
  budget_stays.bind fun rounds => directivesWithin_prints const rounds

/-! Types -/

theorem nullableType_prints {item : Reader TypeExpr} (hitem : item.Prints TypeExpr.lexemes) :
    Prints (nullableType item) TypeExpr.lexemes := by
  refine current_stays.bind fun start => (skip_punctuator .bracketL).bind fun found => ?_
  cases found with
  | true =>
    refine hitem.bind fun item => (expect_punctuator .bracketR).bind fun _ => ?_
    exact (spanFrom_stays _).bind fun loc => .pure (by simp [TypeExpr.lexemes])
  | false => exact typeName_prints.bind fun type => .pure (by simp [TypeExpr.lexemes])

theorem typeExprWithin_prints (depth : Nat) : Prints (typeExprWithin depth) TypeExpr.lexemes := by
  induction depth with
  | zero => exact current_stays.bind fun token => .refuse token _
  | succ depth ih =>
    refine current_stays.bind fun start => (nullableType_prints ih).bind fun type => ?_
    refine (skip_punctuator .bang).bind fun found => ?_
    cases found with
    | true => exact (spanFrom_stays _).bind fun loc => .pure (by simp [TypeExpr.lexemes])
    | false => exact .pure (by simp)

theorem typeExpr_prints : Prints typeExpr TypeExpr.lexemes :=
  budget_stays.bind fun depth => typeExprWithin_prints depth

theorem defaultValue_prints : Prints defaultValue Value.defaultLexemes := by
  refine (skip_punctuator .equals).bind fun found => ?_
  cases found with
  | true =>
    exact (value_prints true).prints.bind fun value => .pure (by simp [Value.defaultLexemes])
  | false => exact .pure rfl

/-! Selections -/

theorem fieldName_prints :
    Prints fieldName fun names =>
      names.1.elim [] (fun other => other.lexemes ++ [.punctuator .colon]) ++ names.2.lexemes := by
  refine name_prints.bind fun first => (skip_punctuator .colon).bind fun found => ?_
  cases found with
  | true => exact name_prints.bind fun name => .pure (by simp)
  | false => exact .pure (by simp)

theorem fragmentName_prints : Prints fragmentName Name.lexemes := by
  refine current_stays.bind fun token => ?_
  split
  · exact .refuse token _
  · exact name_prints

theorem typeCondition_consumes (conditioned : Bool) :
    Consumes (typeCondition conditioned) fun consumed condition =>
      (if conditioned then [.name "on"] else []) ++ consumed =
        condition.elim [] fun type => .name "on" :: type.lexemes := by
  cases conditioned with
  | true => exact typeName_prints.bind fun type => .pure (by simp)
  | false => exact .pure rfl

section Nested

variable {selectionSet : Reader SelectionSet} (hset : Prints selectionSet SelectionSet.lexemes)
include hset

theorem field_prints : Prints (field selectionSet) Selection.lexemes := by
  refine current_stays.bind fun start => fieldName_prints.bind fun names => ?_
  refine (arguments_prints false).prints.bind fun arguments => ?_
  refine (directives_prints false).prints.bind fun directives => ?_
  refine (optionalItem_prints hset _).bind fun set => (spanFrom_stays _).bind fun loc => .pure ?_
  cases set <;> simp [Selection.lexemes, SelectionSet.optionalLexemes]

theorem fragment_prints : Prints (fragment selectionSet) Selection.lexemes := by
  refine (expect_punctuator .spread).bind fun start => ?_
  refine (skipKeyword_prints "on").bind fun conditioned => (peek_stays _).bind fun named => ?_
  split
  · rename_i hspread
    obtain rfl : conditioned = false := by simp_all
    refine fragmentName_prints.bind fun name => ?_
    refine (directives_prints false).prints.bind fun directives => ?_
    exact (spanFrom_stays _).bind fun loc => .pure (by simp [Selection.lexemes])
  · refine (typeCondition_consumes conditioned).bind fun consumed condition hcondition => ?_
    refine (directives_prints false).prints.bind fun directives => hset.bind fun set => ?_
    refine (spanFrom_stays _).bind fun loc => .pure ?_
    rw [Selection.lexemes, ← hcondition]
    simp

theorem selection_prints : Prints (selection selectionSet) Selection.lexemes := by
  refine (peek_stays _).bind fun found => ?_
  cases found with
  | true => exact fragment_prints hset
  | false => exact field_prints hset

end Nested

theorem selectionSetWithin_prints (depth : Nat) :
    Prints (selectionSetWithin depth) SelectionSet.lexemes := by
  induction depth with
  | zero => exact current_stays.bind fun token => .refuse token _
  | succ depth ih =>
    refine current_stays.bind fun start => ?_
    refine (many_prints (selection_prints ih) .braceL .braceR).bind fun selections => ?_
    refine (spanFrom_stays _).bind fun loc => .pure ?_
    simp [SelectionSet.lexemes, Selection.listLexemes_eq, enclosed]

theorem selectionSet_prints : Prints selectionSet SelectionSet.lexemes :=
  budget_stays.bind fun depth => selectionSetWithin_prints depth

/-! Operations and fragments -/

theorem operationType_prints :
    Prints operationType fun operation => [.name operation.text] := by
  refine expect_name.bind fun consumed token htoken => ?_
  obtain ⟨text, hlexeme, rfl⟩ := htoken
  rw [hlexeme]
  dsimp only
  cases hoperation : OperationType.ofText? text with
  | none => exact .refuse token _
  | some operation =>
    have htext : operation.text = text := by simpa using List.find?_some hoperation
    exact .pure (by rw [htext]; rfl)

theorem variableDefinition_prints : Prints variableDefinition VariableDefinition.lexemes := by
  refine (expect_punctuator .dollar).bind fun start => name_prints.bind fun name => ?_
  refine (expect_punctuator .colon).bind fun _ => typeExpr_prints.bind fun type => ?_
  refine defaultValue_prints.bind fun default => ?_
  refine (directives_prints true).prints.bind fun directives => ?_
  exact (spanFrom_stays _).bind fun loc => .pure (by simp [VariableDefinition.lexemes])

theorem operationDefinition_prints : Prints operationDefinition OperationDefinition.lexemes := by
  refine current_stays.bind fun start => operationType_prints.bind fun operation => ?_
  refine (optionalItem_prints name_prints _).bind fun name => ?_
  refine (optionalMany_prints variableDefinition_prints .parenL .parenR).bind fun definitions => ?_
  refine (directives_prints false).prints.bind fun directives => ?_
  refine selectionSet_prints.bind fun selectionSet => ?_
  exact (spanFrom_stays _).bind fun loc => .pure (by simp [OperationDefinition.lexemes])

theorem fragmentDefinition_prints : Prints fragmentDefinition FragmentDefinition.lexemes := by
  refine current_stays.bind fun start => (expectKeyword_prints "fragment").bind fun _ => ?_
  refine fragmentName_prints.bind fun name => (expectKeyword_prints "on").bind fun _ => ?_
  refine typeName_prints.bind fun condition => ?_
  refine (directives_prints false).prints.bind fun directives => ?_
  refine selectionSet_prints.bind fun selectionSet => ?_
  exact (spanFrom_stays _).bind fun loc => .pure (by simp [FragmentDefinition.lexemes])

/-! Type system definitions -/

/-- A description is a single string. -/
theorem description_prints :
    Consumes description fun consumed found => consumed = descriptionLexemes found ∧
      (consumed = [] ∨ ∃ decoded, consumed = [.string decoded]) := by
  refine .current fun setting cursor hfits => ?_
  cases hlexeme : cursor.token.lexeme with
  | string decoded =>
    refine .bind hfits (stringValue_consumesAt hfits hlexeme) fun consumed literal hliteral => ?_
    refine .pure ⟨?_, .inr ⟨decoded, by simpa using hliteral.2⟩⟩
    rw [List.append_nil]
    exact hliteral.1
  | _ => exact Consumes.pure ⟨rfl, .inl rfl⟩ setting cursor hfits

theorem operationTypeDefinition_prints :
    Prints operationTypeDefinition OperationTypeDefinition.lexemes := by
  refine current_stays.bind fun start => operationType_prints.bind fun operation => ?_
  refine (expect_punctuator .colon).bind fun _ => typeName_prints.bind fun type => ?_
  exact (spanFrom_stays _).bind fun loc => .pure (by simp [OperationTypeDefinition.lexemes])

theorem inputValueDefinition_prints :
    Prints inputValueDefinition InputValueDefinition.lexemes := by
  refine current_stays.bind fun start => description_prints.bind ?_
  rintro consumed description ⟨rfl, -⟩
  refine name_prints.bind fun name => (expect_punctuator .colon).bind fun _ => ?_
  refine typeExpr_prints.bind fun type => defaultValue_prints.bind fun default => ?_
  refine (directives_prints true).prints.bind fun directives => ?_
  exact (spanFrom_stays _).bind fun loc => .pure (by simp [InputValueDefinition.lexemes])

theorem fieldDefinition_prints : Prints fieldDefinition FieldDefinition.lexemes := by
  refine current_stays.bind fun start => description_prints.bind ?_
  rintro consumed description ⟨rfl, -⟩
  refine name_prints.bind fun name => ?_
  refine (optionalMany_prints inputValueDefinition_prints .parenL .parenR).bind fun arguments => ?_
  refine (expect_punctuator .colon).bind fun _ => typeExpr_prints.bind fun type => ?_
  refine (directives_prints true).prints.bind fun directives => ?_
  exact (spanFrom_stays _).bind fun loc => .pure (by simp [FieldDefinition.lexemes])

theorem fieldsDefinition_prints :
    Prints fieldsDefinition fun fields =>
      enclosedIfAny .braceL .braceR (fields.map FieldDefinition.lexemes) :=
  optionalMany_prints fieldDefinition_prints .braceL .braceR

theorem enumValueDefinition_prints : Prints enumValueDefinition EnumValueDefinition.lexemes := by
  refine current_stays.bind fun start => description_prints.bind ?_
  rintro consumed description ⟨rfl, -⟩
  refine name_prints.bind fun name => (directives_prints true).prints.bind fun directives => ?_
  exact (spanFrom_stays _).bind fun loc => .pure (by simp [EnumValueDefinition.lexemes])

end Grammar

/-! Documents -/

/-- Parsing reads definitions from the start of the source to its end, and the document spans what
has been read. -/
theorem Source.parse_run {source : Source} {located : Bool} {document : Document}
    (h : source.parse located = .ok document) :
    let setting : Setting := ⟨source, located, source.lex.ending⟩
    let definitions : Reader (List Definition) := many .sof Grammar.definition .eof
    ∃ last, definitions setting ⟨.sof, 0, source.lex.tokens⟩ = .ok (document.definitions, last) ∧
      Reader.spanFrom .sof setting last = .ok (document.loc, last) := by
  unfold Source.parse Source.readWith at h
  cases hrun : (Grammar.document : Reader Document) ⟨source, located, source.lex.ending⟩
      ⟨.sof, 0, source.lex.tokens⟩ with
  | error error => simp [hrun, bind, Except.bind] at h
  | ok result =>
    obtain ⟨found, last⟩ := result
    obtain rfl : found = document := by
      simpa [hrun, bind, Except.bind, pure, Except.pure] using h
    obtain ⟨start, _, hcurrent, hrest⟩ := bind_eq_ok hrun
    cases hcurrent
    obtain ⟨definitions, middle, hmany, hspan⟩ := bind_eq_ok hrest
    obtain ⟨loc, _, hloc, hpure⟩ := bind_eq_ok hspan
    cases hpure
    obtain rfl := spanFrom_stays _ _ _ _ _ hloc
    exact ⟨_, hmany, hloc⟩

end QueryLint
