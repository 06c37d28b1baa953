import QueryLint.Proofs.DocumentTokens
import QueryLint.Proofs.WrittenForm
import QueryLint.Schema.Definition

/-!
What the type definitions of a parsed document are made of. The names of types, fields, arguments
and enum values are names of the language, since the lexer lists no others, and no type is marked
as non-null twice.
-/

namespace QueryLint

open Reader Reading

/-! Regular definitions -/

structure InputValueDefinition.Regular (definition : InputValueDefinition) : Prop where
  name : definition.name.WellFormed
  type : definition.type.WellFormed

structure FieldDefinition.Regular (definition : FieldDefinition) : Prop where
  name : definition.name.WellFormed
  arguments : ∀ argument ∈ definition.arguments, argument.Regular
  type : definition.type.WellFormed

namespace TypeBody

def interfaces : TypeBody → List TypeName
  | .object interfaces _ => interfaces
  | _ => []

def fields : TypeBody → List FieldDefinition
  | .object _ fields | .interface fields => fields
  | _ => []

def members : TypeBody → List TypeName
  | .union members => members
  | _ => []

def values : TypeBody → List EnumValueDefinition
  | .enum values => values
  | _ => []

def isObject (body : TypeBody) : Bool := body matches .object _ _

def isInterface (body : TypeBody) : Bool := body matches .interface _

end TypeBody

/-- As far as schemas look at it, the definition could have been read from a text. -/
structure TypeDefinition.Regular (definition : TypeDefinition) : Prop where
  name : definition.name.WellFormed
  fields : ∀ field ∈ definition.body.fields, field.Regular
  values : ∀ value ∈ definition.body.values, value.name.WellFormed

def Definition.Regular : Definition → Prop
  | .type definition => definition.Regular
  | _ => True

/-! Names among the tokens -/

theorem isName_of_scan {first : CodePoint} {rest : Text} {text : String} {more : Nat}
    (h : scan first rest = .ok (.name text, more)) : IsName text := by
  obtain ⟨hfirst, rfl, -⟩ := scan_name h
  have hmore : (rest.takeWhile isNameChar).all isNameChar = true := List.all_takeWhile
  exact ⟨first, rest.takeWhile isNameChar,
    ofString_asString_name hfirst (List.all_eq_true.mp hmore), hfirst, hmore⟩

theorem isName_of_mem_lexFrom {mark : Mark} {body : Text} {token : Token} {text : String}
    (hmem : token ∈ (lexFrom mark body).tokens) (hname : token.lexeme = .name text) :
    IsName text := by
  fun_induction lexFrom mark body with
  | case1 mark body here hskip => cases hmem
  | case2 mark body here first rest hskip misfit hscan => cases hmem
  | case3 mark body here first rest hskip lexeme more hscan following ih =>
    rcases List.mem_cons.mp hmem with rfl | hlater
    · change lexeme = .name text at hname
      exact isName_of_scan (hname ▸ hscan)
    · exact ih hlater

/-! What readers return -/

namespace Reader

variable {α β : Type} {p : Reader α} {k : α → Reader β} {item : Reader α}
  {first : List Lexeme → α → Prop} {holds : α → Prop} {good : β → Prop}

/-- What the reader returns has a property, whatever it consumes. -/
def Yields (p : Reader α) (holds : α → Prop) : Prop := p.Consumes fun _ result => holds result

theorem Yields.bind (hp : p.Yields holds) (hk : ∀ a, holds a → (k a).Yields good) :
    (p >>= k).Yields good :=
  Consumes.bind hp fun _ a ha => hk a ha

/-- Nothing is asked of what comes first. -/
theorem Consumes.pass (hp : p.Consumes first) (hk : ∀ a, (k a).Yields good) :
    (p >>= k).Yields good :=
  Consumes.bind hp fun _ a _ => hk a

theorem forall_of_forall₂ {parts : List (List Lexeme)} {items : List α}
    (h : List.Forall₂ (fun _ a => holds a) parts items) : ∀ a ∈ items, holds a := by
  induction h with
  | nil => simp
  | cons hfirst _ ih => exact List.forall_mem_cons.mpr ⟨hfirst, ih⟩

theorem optionalMany_yields (hitem : item.Yields holds) (opening closing : Punctuator) :
    Yields (optionalMany (.punctuator opening) item (.punctuator closing)) fun items =>
      ∀ a ∈ items, holds a := by
  apply (optionalMany_consumes hitem opening closing).mono
  rintro consumed items ⟨parts, hparts, -⟩
  exact forall_of_forall₂ hparts

end Reader

namespace Grammar

theorem name_yields : Yields name Name.WellFormed := by
  refine .current fun setting cursor hfits => ?_
  cases hlexeme : cursor.token.lexeme with
  | name text =>
    have hinside : cursor.token.lexeme ≠ .eof := by simp [hlexeme]
    have hname : IsName text := isName_of_mem_lexFrom (hfits.token_mem hinside) hlexeme
    refine .advance_bind hfits hinside ?_
    exact (spanFrom_stays _).bind fun loc => .pure hname
  | _ => exact Consumes.refuse _ _ setting cursor hfits

theorem typeName_yields : Yields typeName TypeName.WellFormed := by
  refine current_stays.bind fun start => name_yields.bind fun name hname => ?_
  exact (spanFrom_stays _).bind fun loc => .pure hname

/-! Types -/

theorem nullableType_yields {item : Reader TypeExpr} (hitem : item.Yields TypeExpr.WellFormed) :
    Yields (nullableType item) fun type => type.WellFormed ∧ type.isNonNull = false := by
  refine current_stays.bind fun start => (skip_punctuator .bracketL).pass fun found => ?_
  cases found with
  | true =>
    refine hitem.bind fun item hitem => (expect_punctuator .bracketR).pass fun _ => ?_
    exact (spanFrom_stays _).bind fun loc => .pure ⟨.list hitem, rfl⟩
  | false => exact typeName_yields.bind fun type htype => .pure ⟨.named htype, rfl⟩

theorem typeExprWithin_yields (depth : Nat) :
    Yields (typeExprWithin depth) TypeExpr.WellFormed := by
  induction depth with
  | zero => exact current_stays.bind fun token => .refuse token _
  | succ depth ih =>
    refine current_stays.bind fun start => (nullableType_yields ih).bind fun type htype => ?_
    refine (skip_punctuator .bang).pass fun found => ?_
    cases found with
    | true => exact (spanFrom_stays _).bind fun loc => .pure (.nonNull htype.1 htype.2)
    | false => exact .pure htype.1

theorem typeExpr_yields : Yields typeExpr TypeExpr.WellFormed :=
  budget_stays.bind fun depth => typeExprWithin_yields depth

/-! Type definitions -/

theorem inputValueDefinition_yields :
    Yields inputValueDefinition InputValueDefinition.Regular := by
  refine current_stays.bind fun start => description_prints.pass fun description => ?_
  refine name_yields.bind fun name hname => (expect_punctuator .colon).pass fun _ => ?_
  refine typeExpr_yields.bind fun type htype => defaultValue_prints.pass fun default => ?_
  refine (directives_prints true).pass fun directives => ?_
  exact (spanFrom_stays _).bind fun loc => .pure ⟨hname, htype⟩

theorem fieldDefinition_yields : Yields fieldDefinition FieldDefinition.Regular := by
  refine current_stays.bind fun start => description_prints.pass fun description => ?_
  refine name_yields.bind fun name hname => ?_
  have harguments := optionalMany_yields inputValueDefinition_yields .parenL .parenR
  refine harguments.bind fun arguments harguments => (expect_punctuator .colon).pass fun _ => ?_
  refine typeExpr_yields.bind fun type htype => (directives_prints true).pass fun directives => ?_
  exact (spanFrom_stays _).bind fun loc => .pure ⟨hname, harguments, htype⟩

theorem fieldsDefinition_yields :
    Yields fieldsDefinition fun fields => ∀ field ∈ fields, field.Regular :=
  optionalMany_yields fieldDefinition_yields .braceL .braceR

theorem enumValueDefinition_yields :
    Yields enumValueDefinition fun value => value.name.WellFormed := by
  refine current_stays.bind fun start => description_prints.pass fun description => ?_
  refine name_yields.bind fun name hname => (directives_prints true).pass fun directives => ?_
  exact (spanFrom_stays _).bind fun loc => .pure hname

theorem scalarTypeDefinition_yields : Yields scalarTypeDefinition TypeDefinition.Regular := by
  refine current_stays.bind fun start => description_prints.pass fun description => ?_
  refine (expectKeyword_prints "scalar").pass fun _ => name_yields.bind fun name hname => ?_
  refine (directives_prints true).pass fun directives => ?_
  refine (spanFrom_stays _).bind fun loc => .pure ⟨hname, ?_, ?_⟩
  · simp [TypeBody.fields]
  · simp [TypeBody.values]

theorem objectTypeDefinition_yields : Yields objectTypeDefinition TypeDefinition.Regular := by
  refine current_stays.bind fun start => description_prints.pass fun description => ?_
  refine (expectKeyword_prints "type").pass fun _ => name_yields.bind fun name hname => ?_
  refine implementedInterfaces_consumes.pass fun interfaces => ?_
  refine (directives_prints true).pass fun directives => ?_
  refine fieldsDefinition_yields.bind fun fields hfields => ?_
  exact (spanFrom_stays _).bind fun loc => .pure ⟨hname, hfields, by simp [TypeBody.values]⟩

theorem interfaceTypeDefinition_yields :
    Yields interfaceTypeDefinition TypeDefinition.Regular := by
  refine current_stays.bind fun start => description_prints.pass fun description => ?_
  refine (expectKeyword_prints "interface").pass fun _ => name_yields.bind fun name hname => ?_
  refine (directives_prints true).pass fun directives => ?_
  refine fieldsDefinition_yields.bind fun fields hfields => ?_
  exact (spanFrom_stays _).bind fun loc => .pure ⟨hname, hfields, by simp [TypeBody.values]⟩

theorem unionTypeDefinition_yields : Yields unionTypeDefinition TypeDefinition.Regular := by
  refine current_stays.bind fun start => description_prints.pass fun description => ?_
  refine (expectKeyword_prints "union").pass fun _ => name_yields.bind fun name hname => ?_
  refine (directives_prints true).pass fun directives => ?_
  refine unionMembers_consumes.pass fun members => ?_
  refine (spanFrom_stays _).bind fun loc => .pure ⟨hname, ?_, ?_⟩
  · simp [TypeBody.fields]
  · simp [TypeBody.values]

theorem enumTypeDefinition_yields : Yields enumTypeDefinition TypeDefinition.Regular := by
  refine current_stays.bind fun start => description_prints.pass fun description => ?_
  refine (expectKeyword_prints "enum").pass fun _ => name_yields.bind fun name hname => ?_
  refine (directives_prints true).pass fun directives => ?_
  have hvalues := optionalMany_yields enumValueDefinition_yields .braceL .braceR
  refine hvalues.bind fun values hvalues => ?_
  exact (spanFrom_stays _).bind fun loc => .pure ⟨hname, by simp [TypeBody.fields], hvalues⟩

theorem described?_yields {keyword : String} {production : Reader Definition}
    (h : described? keyword = some production) : production.Yields Definition.Regular := by
  unfold described? at h
  split at h <;> cases h
  · exact .map (schemaDefinition_plainForm.mono fun _ _ _ => trivial)
  · exact .map scalarTypeDefinition_yields
  · exact .map objectTypeDefinition_yields
  · exact .map interfaceTypeDefinition_yields
  · exact .map unionTypeDefinition_yields
  · exact .map enumTypeDefinition_yields

theorem described?_getD_yields (keyword : String) (token : Token) :
    Yields ((described? keyword).getD (unexpected token)) Definition.Regular := by
  cases hfound : (described? keyword : Option (Reader Definition)) with
  | none => exact .refuse _ _
  | some production => exact described?_yields hfound

theorem executable?_yields {keyword : String} {production : Reader Definition}
    (h : executable? keyword = some production) : production.Yields Definition.Regular := by
  unfold executable? at h
  split at h <;> cases h
  · exact .map (operationDefinition_prints.mono fun _ _ _ => trivial)
  · exact .map (operationDefinition_prints.mono fun _ _ _ => trivial)
  · exact .map (operationDefinition_prints.mono fun _ _ _ => trivial)
  · exact .map (fragmentDefinition_prints.mono fun _ _ _ => trivial)

theorem definition_yields : Yields definition Definition.Regular := by
  refine current_stays.bind fun token => ?_
  cases token.lexeme with
  | punctuator mark =>
    cases mark with
    | braceL => exact .map (shorthand_plainForm.mono fun _ _ _ => trivial)
    | _ => exact .refuse _ _
  | string decoded =>
    refine lookahead_stays.bind fun keyword => ?_
    cases keyword.lexeme with
    | name text => exact described?_getD_yields text keyword
    | _ => exact .refuse _ _
  | name text =>
    change Yields ((executable? text <|> described? text).getD (unexpected token)) _
    cases hfound : (executable? text : Option (Reader Definition)) with
    | none => exact described?_getD_yields text token
    | some production => exact executable?_yields hfound
  | _ => exact .refuse _ _

end Grammar

theorem Source.regular_of_parse {source : Source} {located : Bool} {document : Document}
    (h : source.parse located = .ok document) :
    ∀ definition ∈ document.typeDefinitions, definition.Regular := by
  obtain ⟨-, parts, hparts, -⟩ := Source.parse_divides Grammar.definition_yields h
  intro definition hmem
  obtain ⟨found, hfound, htype⟩ := List.mem_filterMap.mp hmem
  have hregular := forall_of_forall₂ hparts found hfound
  cases found with
  | type inner =>
    cases htype
    exact hregular
  | _ => cases htype

end QueryLint
