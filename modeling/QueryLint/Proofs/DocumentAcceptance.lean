import QueryLint.Proofs.GrammarAcceptance

/-!
Definitions and whole documents are read back from their written form. A definition may end with an
optional piece, so the next one must not start with a token that goes on with it; it starts with a
keyword or a description, and no keyword is taken for such a piece.
-/

namespace QueryLint

namespace Grammar

open Reader Reading Revision

variable {next : Lexeme}

theorem isName_operationType (operation : OperationType) : IsName operation.text := by
  cases operation <;> exact ⟨_, _, rfl, rfl, rfl⟩

theorem operationType_reads (operation : OperationType) (next : Lexeme) :
    Reads operationType [.name operation.text] next operation := by
  apply Reads.expect_name (isName_operationType operation)
  intro token htoken
  have hoperation : OperationType.ofText? operation.text = some operation := by
    cases operation <;> rfl
  rw [htoken]
  dsimp only
  rw [hoperation]
  exact .pure next operation

theorem leading_encloseIfAny (opening closing : Punctuator) (parts : List (List Word))
    (next : Lexeme) :
    leading (Word.encloseIfAny opening closing parts) next = .punctuator opening ∨
      leading (Word.encloseIfAny opening closing parts) next = next := by
  rw [Word.encloseIfAny]
  split
  · exact .inr rfl
  · exact .inl rfl

/-! Operations and fragments -/

theorem optionalName_reads {n : Option Name} (h : ∀ other ∈ n, other.WellFormed)
    (hnext : next.kind ≠ .name) :
    Reads (optionalItem .name name) (Name.optionalWords n) next (n.map unlocated.name) := by
  cases n with
  | none => exact Reads.optionalItem_missing name hnext
  | some n =>
    apply Reads.optionalItem_found
    · rfl
    · exact name_reads (h n rfl) next

theorem operationDefinition_reads {definition : OperationDefinition} (h : definition.WellFormed)
    (next : Lexeme) :
    Reads operationDefinition definition.words next (unlocated.operationDefinition definition) := by
  have hset := leading_selectionSet definition.selectionSet next
  have hdirectives := leading_directives definition.directives (.punctuator .braceL)
  have hname : (leading (Word.encloseIfAny .parenL .parenR
      (definition.variableDefinitions.map VariableDefinition.words) ++
        (Directive.listWords definition.directives ++ definition.selectionSet.words))
          next).kind ≠ .name := by
    rw [leading_append, leading_append, hset]
    rcases leading_encloseIfAny .parenL .parenR _ _ with hlead | hlead
    · rw [hlead]
      simp [Lexeme.kind]
    · rw [hlead]
      rcases hdirectives with hlead | hlead <;> simp [hlead, Lexeme.kind]
  have hparen : leading (Directive.listWords definition.directives ++
      definition.selectionSet.words) next ≠ .punctuator .parenL := by
    rw [leading_append, hset]
    exact evades_directives (by simp) _ _ (by simp)
  have hends : EndsDirectives (leading definition.selectionSet.words next) := by
    rw [hset]
    exact endsDirectives_braceL
  apply Reads.current
  intro start _
  apply (operationType_reads definition.operation _).bind_cons
  apply (optionalName_reads h.name hname).bind
  apply Reads.bind (Reads.optionalMany closes_parenR
    (fun inner hinner => variableDefinition_readsItem (h.variableDefinitions inner hinner)) hparen)
  apply (directives_reads h.directives hends).bind
  apply (selectionSet_reads h.selectionSet next).bind_last
  exact .spanned

theorem fragmentDefinition_reads {definition : FragmentDefinition} (h : definition.WellFormed)
    (next : Lexeme) :
    Reads fragmentDefinition definition.words next (unlocated.fragmentDefinition definition) := by
  have hends : EndsDirectives (leading definition.selectionSet.words next) := by
    rw [leading_selectionSet]
    exact endsDirectives_braceL
  apply Reads.current
  intro start _
  apply (Reads.expectKeyword ⟨_, _, rfl, rfl, rfl⟩ _).bind_cons
  apply (fragmentName_reads h.name _).bind_cons
  apply (Reads.expectKeyword ⟨_, _, rfl, rfl, rfl⟩ _).bind_cons
  apply (typeName_reads h.condition _).bind_cons
  apply (directives_reads h.directives hends).bind
  apply (selectionSet_reads h.selectionSet next).bind_last
  exact .spanned

/-! Type system definitions -/

theorem description_reads {d : Option StringValue} (h : ∀ literal ∈ d, literal.WellFormed)
    (hnext : next.kind ≠ .string) :
    Reads description (StringValue.descriptionWords d) next (d.map unlocated.stringValue) := by
  cases d with
  | none =>
    apply Reads.current
    intro token htoken
    have hlexeme : token.lexeme = next := htoken
    rw [← hlexeme] at hnext
    cases hstring : token.lexeme with
    | string decoded =>
      rw [hstring] at hnext
      exact absurd rfl hnext
    | _ => exact .pure next none
  | some literal =>
    have hliteral := h literal rfl
    refine ⟨List.forall_mem_singleton.mpr (Word.proper_literal hliteral.text), ?_⟩
    intro setting tokens later hplain hspells _
    obtain ⟨token, others, rfl, hlexeme, hslice, hothers⟩ := hspells.single hliteral.value
    cases hothers
    have htakes := stringValue_takes hplain token later literal.value
    rw [hslice] at htakes
    apply Takes.current_cons
    rw [hlexeme]
    exact htakes.bind_last (.pure _)

/-- There is no description in front of a name. -/
theorem leading_name_kind (text : String) (words : List Word) (next : Lexeme) :
    (leading (.name text :: words) next).kind ≠ .string := by
  simp [leading, Word.lexemes, Lexeme.kind]

theorem operationTypeDefinition_readsItem {definition : OperationTypeDefinition}
    (h : definition.WellFormed) :
    ReadsItem operationTypeDefinition definition.words
      (unlocated.operationTypeDefinition definition) := by
  refine ⟨fun _ => rfl, fun next _ => ?_⟩
  apply Reads.current
  intro start _
  apply (operationType_reads definition.operation _).bind_cons
  apply Reads.expect
  intro _
  apply (typeName_reads h next).bind_last
  exact .spanned

theorem schemaDefinition_reads {definition : SchemaDefinition} (h : definition.WellFormed)
    (next : Lexeme) :
    Reads schemaDefinition definition.words next (unlocated.schemaDefinition definition) := by
  have hnone : ∀ literal ∈ (none : Option StringValue), literal.WellFormed := by simp
  have hends : EndsDirectives (leading (Word.enclose .braceL .braceR
      (definition.operationTypes.map OperationTypeDefinition.words)) next) :=
    endsDirectives_braceL
  apply Reads.current
  intro start _
  apply Reads.bind_nil (description_reads hnone (leading_name_kind _ _ next))
  apply (Reads.expectKeyword ⟨_, _, rfl, rfl, rfl⟩ _).bind_cons
  apply (directives_reads h.directives hends).bind
  apply Reads.bind_last (Reads.many closes_braceR h.ne_nil
    (fun inner hinner => operationTypeDefinition_readsItem (h.operationTypes inner hinner)) next)
  exact .spanned

theorem leading_description {d : Option StringValue} (h : ∀ literal ∈ d, literal.WellFormed)
    (next : Lexeme) :
    (∃ value, leading (StringValue.descriptionWords d) next = .string value) ∨
      leading (StringValue.descriptionWords d) next = next := by
  cases d with
  | none => exact .inr rfl
  | some literal =>
    refine .inl ⟨literal.value, ?_⟩
    simp [leading, StringValue.descriptionWords, StringValue.word, Word.lexemes,
      (h literal rfl).value]

/-- An item with a description starts with a string or a name. -/
theorem described_starts {d : Option StringValue} (h : ∀ literal ∈ d, literal.WellFormed)
    (text : String) (words : List Word) (next : Lexeme) :
    (leading (StringValue.descriptionWords d ++ .name text :: words) next).startsItem = true := by
  rw [leading_append]
  rcases leading_description h (leading (.name text :: words) next) with ⟨value, hlead⟩ | hlead
  · rw [hlead]
    rfl
  · rw [hlead]
    rfl

theorem inputValueDefinition_readsItem {definition : InputValueDefinition}
    (h : definition.WellFormed) :
    ReadsItem inputValueDefinition definition.words
      (unlocated.inputValueDefinition definition) := by
  refine ⟨described_starts h.description _ _, fun next hnext => ?_⟩
  have hbang : leading (Value.defaultWords definition.defaultValue ++
      Directive.listWords definition.directives) next ≠ .punctuator .bang :=
    (evades_defaultValue (by simp) _).append (evades_directives (by simp) _) next
      (Lexeme.ne_of_endsItem hnext rfl)
  have hequals : leading (Directive.listWords definition.directives) next ≠
      .punctuator .equals :=
    evades_directives (by simp) _ next (Lexeme.ne_of_endsItem hnext rfl)
  apply Reads.current
  intro start _
  apply (description_reads h.description (leading_name_kind _ _ next)).bind
  apply (name_reads h.name _).bind_cons
  apply Reads.expect
  intro _
  apply (typeExpr_reads h.type hbang).bind
  apply (defaultValue_reads h.defaultValue hequals).bind
  apply (directives_reads h.directives (.of_endsItem hnext)).bind_last
  exact .spanned

theorem fieldDefinition_readsItem {definition : FieldDefinition} (h : definition.WellFormed) :
    ReadsItem fieldDefinition definition.words (unlocated.fieldDefinition definition) := by
  refine ⟨described_starts h.description _ _, fun next hnext => ?_⟩
  have hbang : leading (Directive.listWords definition.directives) next ≠ .punctuator .bang :=
    evades_directives (by simp) _ next (Lexeme.ne_of_endsItem hnext rfl)
  have hparen : leading (.mark .colon :: (definition.type.words ++
      Directive.listWords definition.directives)) next ≠ .punctuator .parenL := by
    simp [leading, Word.lexemes]
  apply Reads.current
  intro start _
  apply (description_reads h.description (leading_name_kind _ _ next)).bind
  apply (name_reads h.name _).bind_cons
  apply Reads.bind (Reads.optionalMany closes_parenR
    (fun inner hinner => inputValueDefinition_readsItem (h.arguments inner hinner)) hparen)
  apply Reads.expect
  intro _
  apply (typeExpr_reads h.type hbang).bind
  apply (directives_reads h.directives (.of_endsItem hnext)).bind_last
  exact .spanned

theorem enumValueDefinition_readsItem {definition : EnumValueDefinition}
    (h : definition.WellFormed) :
    ReadsItem enumValueDefinition definition.words (unlocated.enumValueDefinition definition) := by
  refine ⟨described_starts h.description _ _, fun next hnext => ?_⟩
  apply Reads.current
  intro start _
  apply (description_reads h.description (leading_name_kind _ _ next)).bind
  apply (name_reads h.name _).bind_cons
  apply (directives_reads h.directives (.of_endsItem hnext)).bind_last
  exact .spanned

theorem fieldsDefinition_reads {fields : List FieldDefinition}
    (h : ∀ definition ∈ fields, definition.WellFormed) (hnext : next ≠ .punctuator .braceL) :
    Reads fieldsDefinition (Word.encloseIfAny .braceL .braceR (fields.map FieldDefinition.words))
      next (fields.map unlocated.fieldDefinition) :=
  Reads.optionalMany closes_braceR
    (fun definition hdefinition => fieldDefinition_readsItem (h definition hdefinition)) hnext

/-- A list of types behind a keyword or a sign. -/
theorem typeNames_reads {delimiter : Punctuator} {first : TypeName} {others : List TypeName}
    (h : ∀ type ∈ first :: others, type.WellFormed) (hnext : next ≠ .punctuator delimiter) :
    Reads (delimited (.punctuator delimiter) typeName)
      (first.word :: others.flatMap fun type => [.mark delimiter, type.word]) next
      ((first :: others).map unlocated.typeName) := by
  apply Reads.delimited
  · intro type htype next
    exact typeName_reads (h type htype) next
  · simp [TypeName.word, Name.word, Word.lexemes]
  · exact hnext

theorem implementedInterfaces_reads {interfaces : List TypeName}
    (h : ∀ type ∈ interfaces, type.WellFormed) (hkeyword : next ≠ .name "implements")
    (hamp : next ≠ .punctuator .amp) :
    Reads implementedInterfaces (TypeName.listWords (.name "implements") .amp interfaces) next
      (interfaces.map unlocated.typeName) := by
  cases interfaces with
  | nil =>
    apply (Reads.skipKeyword_missing hkeyword).bind_nil
    exact .pure next []
  | cons first others =>
    apply (Reads.skipKeyword_found ⟨_, _, rfl, rfl, rfl⟩ _).bind_cons
    exact typeNames_reads h hamp

theorem unionMembers_reads {members : List TypeName} (h : ∀ type ∈ members, type.WellFormed)
    (hequals : next ≠ .punctuator .equals) (hpipe : next ≠ .punctuator .pipe) :
    Reads unionMembers (TypeName.listWords (.mark .equals) .pipe members) next
      (members.map unlocated.typeName) := by
  cases members with
  | nil =>
    apply (Reads.skip_missing hequals).bind_nil
    exact .pure next []
  | cons first others =>
    apply (Reads.skip_found .equals _).bind_cons
    exact typeNames_reads h hpipe

/-- What may follow a definition: the start of another one, or the end of the source. -/
structure EndsDefinition (next : Lexeme) : Prop where
  endsItem : next.endsItem = true
  ne_implements : next ≠ .name "implements"

theorem EndsDefinition.ne (h : EndsDefinition next) {sign : Punctuator}
    (hsign : (Lexeme.punctuator sign).endsItem = false) : next ≠ .punctuator sign :=
  Lexeme.ne_of_endsItem h.endsItem hsign

/-- What stands behind the directives of a type starts with a brace or a sign of equality. -/
theorem evades_lowerWords {lexeme : Lexeme} (hbrace : .punctuator .braceL ≠ lexeme)
    (hequals : .punctuator .equals ≠ lexeme) (body : TypeBody) :
    Evades body.lowerWords lexeme := by
  cases body with
  | scalar => exact evades_nil lexeme
  | object interfaces fields => exact evades_encloseIfAny hbrace _ _
  | interface fields => exact evades_encloseIfAny hbrace _ _
  | union members =>
    cases members with
    | nil => exact evades_nil lexeme
    | cons first others => exact fun _ _ => hequals
  | enum values => exact evades_encloseIfAny hbrace _ _

theorem endsDirectives_lowerWords (hnext : EndsDefinition next) (body : TypeBody) :
    EndsDirectives (leading body.lowerWords next) :=
  ⟨evades_lowerWords (by simp) (by simp) body next (hnext.ne rfl),
    evades_lowerWords (by simp) (by simp) body next (hnext.ne rfl)⟩

section TypeDefinitions

variable {d : Option StringValue} {n : Name} {tags : List Directive} {loc : Option Location}
  (hdescription : ∀ literal ∈ d, literal.WellFormed) (hname : n.WellFormed)
  (hdirectives : ∀ directive ∈ tags, directive.WellFormed true) (hnext : EndsDefinition next)
include hdescription hname hdirectives hnext

theorem scalarTypeDefinition_reads :
    Reads scalarTypeDefinition (TypeDefinition.mk d n tags .scalar loc).words next
      (unlocated.typeDefinition ⟨d, n, tags, .scalar, loc⟩) := by
  have hends := endsDirectives_lowerWords hnext .scalar
  apply Reads.current
  intro start _
  apply (description_reads hdescription (leading_name_kind _ _ next)).bind
  apply (Reads.expectKeyword ⟨_, _, rfl, rfl, rfl⟩ _).bind_cons
  apply (name_reads hname _).bind_cons
  apply (directives_reads hdirectives hends).bind
  exact .spanned

theorem objectTypeDefinition_reads {interfaces : List TypeName} {fields : List FieldDefinition}
    (hinterfaces : ∀ type ∈ interfaces, type.WellFormed)
    (hfields : ∀ field ∈ fields, field.WellFormed) :
    Reads objectTypeDefinition
      (TypeDefinition.mk d n tags (.object interfaces fields) loc).words next
      (unlocated.typeDefinition ⟨d, n, tags, .object interfaces fields, loc⟩) := by
  have hends := endsDirectives_lowerWords hnext (.object interfaces fields)
  have hbehind {lexeme : Lexeme} (hat : .punctuator .at ≠ lexeme)
      (hbrace : .punctuator .braceL ≠ lexeme) (hequals : .punctuator .equals ≠ lexeme)
      (hne : next ≠ lexeme) :
      leading (Directive.listWords tags ++ (TypeBody.object interfaces fields).lowerWords) next ≠
        lexeme :=
    (evades_directives hat tags).append (evades_lowerWords hbrace hequals _) next hne
  have hkeyword := hbehind (by simp) (by simp) (by simp) hnext.ne_implements
  have hdelimiter : next ≠ .punctuator .amp := hnext.ne rfl
  have hamp := hbehind (by simp) (by simp) (by simp) hdelimiter
  apply Reads.current
  intro start _
  apply (description_reads hdescription (leading_name_kind _ _ next)).bind
  apply (Reads.expectKeyword ⟨_, _, rfl, rfl, rfl⟩ _).bind_cons
  apply (name_reads hname _).bind_cons
  apply (implementedInterfaces_reads hinterfaces hkeyword hamp).bind
  apply (directives_reads hdirectives hends).bind
  apply (fieldsDefinition_reads hfields (hnext.ne rfl)).bind_last
  exact .spanned

theorem interfaceTypeDefinition_reads {fields : List FieldDefinition}
    (hfields : ∀ field ∈ fields, field.WellFormed) :
    Reads interfaceTypeDefinition (TypeDefinition.mk d n tags (.interface fields) loc).words next
      (unlocated.typeDefinition ⟨d, n, tags, .interface fields, loc⟩) := by
  have hends := endsDirectives_lowerWords hnext (.interface fields)
  apply Reads.current
  intro start _
  apply (description_reads hdescription (leading_name_kind _ _ next)).bind
  apply (Reads.expectKeyword ⟨_, _, rfl, rfl, rfl⟩ _).bind_cons
  apply (name_reads hname _).bind_cons
  apply (directives_reads hdirectives hends).bind
  apply (fieldsDefinition_reads hfields (hnext.ne rfl)).bind_last
  exact .spanned

theorem unionTypeDefinition_reads {members : List TypeName}
    (hmembers : ∀ type ∈ members, type.WellFormed) :
    Reads unionTypeDefinition (TypeDefinition.mk d n tags (.union members) loc).words next
      (unlocated.typeDefinition ⟨d, n, tags, .union members, loc⟩) := by
  have hends := endsDirectives_lowerWords hnext (.union members)
  apply Reads.current
  intro start _
  apply (description_reads hdescription (leading_name_kind _ _ next)).bind
  apply (Reads.expectKeyword ⟨_, _, rfl, rfl, rfl⟩ _).bind_cons
  apply (name_reads hname _).bind_cons
  apply (directives_reads hdirectives hends).bind
  apply (unionMembers_reads hmembers (hnext.ne rfl) (hnext.ne rfl)).bind_last
  exact .spanned

theorem enumTypeDefinition_reads {values : List EnumValueDefinition}
    (hvalues : ∀ value ∈ values, value.WellFormed) :
    Reads enumTypeDefinition (TypeDefinition.mk d n tags (.enum values) loc).words next
      (unlocated.typeDefinition ⟨d, n, tags, .enum values, loc⟩) := by
  have hends := endsDirectives_lowerWords hnext (.enum values)
  apply Reads.current
  intro start _
  apply (description_reads hdescription (leading_name_kind _ _ next)).bind
  apply (Reads.expectKeyword ⟨_, _, rfl, rfl, rfl⟩ _).bind_cons
  apply (name_reads hname _).bind_cons
  apply (directives_reads hdirectives hends).bind
  apply Reads.bind_last (Reads.optionalMany closes_braceR
    (fun inner hinner => enumValueDefinition_readsItem (hvalues inner hinner)) (hnext.ne rfl))
  exact .spanned

end TypeDefinitions

/-- The production that reads a type definition. -/
def typeProduction : TypeBody → Reader TypeDefinition
  | .scalar => scalarTypeDefinition
  | .object _ _ => objectTypeDefinition
  | .interface _ => interfaceTypeDefinition
  | .union _ => unionTypeDefinition
  | .enum _ => enumTypeDefinition

theorem typeDefinition_reads {definition : TypeDefinition} (h : definition.WellFormed)
    (hnext : EndsDefinition next) :
    (typeProduction definition.body).Reads definition.words next
      (unlocated.typeDefinition definition) := by
  obtain ⟨hdescription, hname, hdirectives, hbody⟩ := h
  obtain ⟨d, n, tags, body, loc⟩ := definition
  cases body with
  | scalar => exact scalarTypeDefinition_reads hdescription hname hdirectives hnext
  | object interfaces fields =>
    exact objectTypeDefinition_reads hdescription hname hdirectives hnext hbody.1 hbody.2
  | interface fields =>
    exact interfaceTypeDefinition_reads hdescription hname hdirectives hnext hbody
  | union members => exact unionTypeDefinition_reads hdescription hname hdirectives hnext hbody
  | enum values => exact enumTypeDefinition_reads hdescription hname hdirectives hnext hbody

/-! Documents -/

theorem described?_keyword (body : TypeBody) :
    described? body.keyword = some (.type <$> typeProduction body) := by
  cases body <;> rfl

theorem executable?_keyword (body : TypeBody) :
    (executable? body.keyword : Option (Reader Definition)) = none := by
  cases body <;> rfl

theorem executable?_operation (operation : OperationType) :
    (executable? operation.text : Option (Reader Definition)) =
      some (.operation <$> operationDefinition) := by
  cases operation <;> rfl

/-- A definition is known by its keyword, with or without a description in front of it. -/
theorem definition_reads {d : Definition} (h : d.WellFormed) (hnext : EndsDefinition next) :
    Reads definition d.words next (unlocated.definition d) := by
  cases d with
  | operation d =>
    apply Reads.current
    intro token htoken
    have hlexeme : token.lexeme = .name d.operation.text := htoken
    rw [hlexeme]
    dsimp only
    rw [executable?_operation]
    exact (operationDefinition_reads h next).map
  | fragment d =>
    apply Reads.current
    intro token htoken
    have hlexeme : token.lexeme = .name "fragment" := htoken
    rw [hlexeme]
    exact (fragmentDefinition_reads h next).map
  | schema d =>
    apply Reads.current
    intro token htoken
    have hlexeme : token.lexeme = .name "schema" := htoken
    rw [hlexeme]
    exact (schemaDefinition_reads h next).map
  | type d =>
    have hread : (Definition.type <$> typeProduction d.body).Reads d.words next
        (.type (unlocated.typeDefinition d)) := (typeDefinition_reads h hnext).map
    have hdescription := h.description
    obtain ⟨description, n, tags, body, loc⟩ := d
    apply Reads.current
    intro token htoken
    cases description with
    | none =>
      have hlexeme : token.lexeme = .name body.keyword := htoken
      rw [hlexeme]
      dsimp only
      rw [executable?_keyword, described?_keyword]
      exact hread
    | some literal =>
      have hliteral : literal.word.lexemes = [.string literal.value] :=
        (hdescription literal rfl).value
      have hlexeme : token.lexeme = .string literal.value := by
        rw [htoken]
        change literal.word.lexemes.headD .eof = _
        rw [hliteral]
        rfl
      rw [hlexeme]
      apply Reads.lookahead hliteral rfl
      intro keyword hkeyword
      rw [hkeyword]
      dsimp only
      rw [described?_keyword]
      exact hread

theorem keyword_ne_implements (body : TypeBody) : body.keyword ≠ "implements" := by
  cases body <;> simp [TypeBody.keyword]

/-- A definition starts with a keyword or a description. -/
theorem leading_definition {d : Definition} (h : d.WellFormed) (next : Lexeme) :
    (∃ text, leading d.words next = .name text ∧ text ≠ "implements") ∨
      ∃ value, leading d.words next = .string value := by
  cases d with
  | operation d =>
    refine .inl ⟨d.operation.text, rfl, ?_⟩
    cases d.operation <;> decide
  | fragment d => exact .inl ⟨"fragment", rfl, by decide⟩
  | schema d => exact .inl ⟨"schema", rfl, by decide⟩
  | type d =>
    have hkeyword := keyword_ne_implements d.body
    rw [Definition.words, TypeDefinition.words, leading_append]
    rcases leading_description h.description _ with ⟨value, hlead⟩ | hlead
    · exact .inr ⟨value, hlead⟩
    · exact .inl ⟨d.body.keyword, hlead, hkeyword⟩

theorem definition_starts {d : Definition} (h : d.WellFormed) (next : Lexeme) :
    EndsDefinition (leading d.words next) ∧ (leading d.words next).kind ≠ .eof := by
  rcases leading_definition h next with ⟨text, hlead, htext⟩ | ⟨value, hlead⟩
  · rw [hlead]
    exact ⟨⟨rfl, by simpa using htext⟩, by simp [Lexeme.kind]⟩
  · rw [hlead]
    exact ⟨⟨rfl, by simp⟩, by simp [Lexeme.kind]⟩

/-- Behind a definition there is another one or the end of the source. -/
theorem endsDefinition_definitions {list : List Definition} (h : ∀ d ∈ list, d.WellFormed) :
    EndsDefinition (leading (list.flatMap Definition.words) .eof) := by
  cases list with
  | nil => exact ⟨rfl, by simp [leading]⟩
  | cons d list =>
    rw [List.flatMap_cons, leading_append]
    exact (definition_starts (h d List.mem_cons_self) _).1

/-- At the end of the source nothing more is read. -/
theorem skip_eof {setting : Setting} (hplain : setting.Plain) {cursor : Cursor}
    (hleft : cursor.left = []) :
    ∃ last, (skip .eof : Reader Bool) setting cursor = .ok (true, last) := by
  have hlexeme : cursor.token.lexeme = .eof := by
    rw [cursor.lexeme_eq, hleft]
    rfl
  have hpeek : (peek .eof : Reader Bool) setting cursor = .ok (true, cursor) := by
    change Except.ok (cursor.token.kind == .eof, cursor) = _
    rw [Token.kind, hlexeme]
    rfl
  obtain ⟨next, hadvance⟩ := run_advance hplain cursor
  refine ⟨next, ?_⟩
  rw [skip, run_bind hpeek]
  exact run_bind hadvance

/-- A definition is read in front of others. -/
theorem definition_takes {setting : Setting} (hplain : setting.Plain) {d : Definition}
    {list : List Definition} (h : d.WellFormed) (hlist : ∀ other ∈ list, other.WellFormed)
    {early late : List Token} (hearly : Spells setting.source d.words early)
    (hlate : Spells setting.source (list.flatMap Definition.words) late) :
    Takes definition setting early late (unlocated.definition d) := by
  have hnext : upcoming late = leading (list.flatMap Definition.words) .eof := by
    have hlead := hlate.upcoming_eq []
    rwa [List.append_nil] at hlead
  exact (definition_reads h (endsDefinition_definitions hlist)).takes setting early late hplain
    hearly hnext

/-- Definitions up to the end of the source. -/
theorem itemsUntil_eof {setting : Setting} (hplain : setting.Plain) {list : List Definition}
    (h : ∀ d ∈ list, d.WellFormed) {tokens : List Token}
    (hspells : Spells setting.source (list.flatMap Definition.words) tokens) {rounds : Nat}
    (hrounds : list.length < rounds) {cursor : Cursor} (hfits : setting.Fits cursor)
    (hleft : cursor.left = tokens) :
    ∃ last, (itemsUntil .eof definition rounds : Reader (List Definition)) setting cursor =
      .ok (list.map unlocated.definition, last) := by
  induction list generalizing tokens rounds cursor with
  | nil =>
    obtain ⟨rounds, rfl⟩ := Nat.exists_eq_succ_of_ne_zero (Nat.ne_of_gt hrounds)
    cases hspells
    obtain ⟨last, hskip⟩ := skip_eof hplain hleft
    refine ⟨last, ?_⟩
    rw [itemsUntil, run_bind hskip]
    rfl
  | cons d list ih =>
    obtain ⟨rounds, rfl⟩ := Nat.exists_eq_succ_of_ne_zero (Nat.ne_zero_of_lt hrounds)
    have hd := h d List.mem_cons_self
    have hlist : ∀ other ∈ list, other.WellFormed := fun other hother =>
      h other (List.mem_cons_of_mem _ hother)
    rw [List.flatMap_cons] at hspells
    obtain ⟨early, late, rfl, hearly, hlate⟩ := hspells.split
    have hinside : (upcoming (early ++ late)).kind ≠ .eof := by
      rw [hearly.upcoming_eq]
      exact (definition_starts hd _).2
    obtain ⟨_, hskip, hstay⟩ := Takes.skip_missing hinside cursor hfits hleft
    cases hstay
    obtain ⟨middle, hfirst, hmoves⟩ :=
      definition_takes hplain hd hlist hearly hlate cursor hfits hleft
    obtain ⟨hmiddle, hsplit⟩ := hmoves.fits hfits
    have hrest : middle.left = late := List.append_cancel_left (hsplit.symm.trans hleft)
    obtain ⟨last, hothers⟩ := ih hlist hlate (Nat.lt_of_succ_lt_succ hrounds) hmiddle hrest
    refine ⟨last, ?_⟩
    rw [itemsUntil, run_bind hskip, if_neg (by simp), round_eq, run_bind hfirst, run_bind hothers]
    rfl

theorem length_le_words {list : List Definition} (h : ∀ d ∈ list, d.WellFormed) :
    list.length ≤ (list.flatMap Definition.words).length := by
  have hne : ∀ part ∈ list.map Definition.words, part ≠ [] := by
    intro part hpart hnil
    obtain ⟨d, hd, rfl⟩ := List.mem_map.mp hpart
    have hlead := (definition_starts (h d hd) .eof).2
    rw [hnil] at hlead
    exact hlead rfl
  have hle := length_le_flatten hne
  rwa [List.length_map, ← List.flatMap_def] at hle

/-- The whole source is read as the document whose words it has. -/
theorem document_run {setting : Setting} (hplain : setting.Plain)
    (hending : setting.ending = setting.source.lex.ending) {d : Document} (h : d.WellFormed)
    (hspells : Spells setting.source d.words setting.source.lex.tokens) :
    ∃ last, (document : Reader Document) setting ⟨.sof, 0, setting.source.lex.tokens⟩ =
      .ok (unlocated.document d, last) := by
  obtain ⟨definitions, loc⟩ := d
  obtain ⟨first, others, rfl⟩ := List.exists_cons_of_ne_nil h.ne_nil
  have hfirst : first.WellFormed := h.definitions first List.mem_cons_self
  have hothers : ∀ other ∈ others, other.WellFormed := fun other hother =>
    h.definitions other (List.mem_cons_of_mem _ hother)
  rw [Document.words, List.flatMap_cons] at hspells
  obtain ⟨early, late, htokens, hearly, hlate⟩ := hspells.split
  obtain ⟨opened, hadvance⟩ := run_advance hplain ⟨.sof, 0, setting.source.lex.tokens⟩
  obtain ⟨hopened, hleft, -⟩ :=
    Setting.fits_of_advance hending (List.suffix_refl _) hadvance
  rw [htokens] at hleft
  have hexpect : (expect .sof : Reader Token) setting ⟨.sof, 0, setting.source.lex.tokens⟩ =
      .ok (.sof, opened) := by
    change (advance >>= fun _ => pure Token.sof : Reader Token) setting _ = _
    exact run_bind hadvance
  obtain ⟨middle, hrun, hmoves⟩ :=
    definition_takes hplain hfirst hothers hearly hlate opened hopened hleft
  obtain ⟨hmiddle, hsplit⟩ := hmoves.fits hopened
  have hrest : middle.left = late := List.append_cancel_left (hsplit.symm.trans hleft)
  have hbudget : others.length < middle.rest.length + 2 := by
    have hwords := length_le_words hothers
    have htaken := hlate.length_le
    have hcursor := middle.length_left_le
    rw [hrest] at hcursor
    omega
  obtain ⟨last, hitems⟩ := itemsUntil_eof hplain hothers hlate hbudget hmiddle hrest
  have hmany : (many .sof definition .eof : Reader (List Definition)) setting
      ⟨.sof, 0, setting.source.lex.tokens⟩ =
      .ok ((first :: others).map unlocated.definition, last) := by
    have hcount : (budget : Reader Nat) setting middle = .ok (middle.rest.length + 2, middle) := rfl
    rw [many, run_bind hexpect, round_eq, run_bind hrun, run_bind hcount]
    exact run_bind hitems
  refine ⟨last, ?_⟩
  change (many .sof definition .eof >>= fun list => spanFrom .sof >>= fun loc =>
    pure (Document.mk list loc) : Reader Document) setting _ = _
  rw [run_bind hmany]
  exact run_bind (run_spanFrom hplain .sof last)

end Grammar

theorem Document.WellFormed.proper {document : Document} (h : document.WellFormed) :
    ∀ word ∈ document.words, word.Proper := by
  intro word hword
  obtain ⟨definition, hdefinition, hmem⟩ := List.mem_flatMap.mp hword
  have hends : Grammar.EndsDefinition .eof := ⟨rfl, by simp⟩
  exact (Grammar.definition_reads (h.definitions definition hdefinition) hends).proper word hmem

/-- The written form of a well-formed document without locations is read as that document. -/
theorem Source.parse_print {document : Document} (h : document.WellFormed)
    (hunlocated : Revision.unlocated.document document = document) {source : Source}
    (hbody : source.body = document.print) : source.parse false = .ok document := by
  obtain ⟨hspells, hending⟩ := Word.lex_join h.proper hbody
  have hplain : Setting.Plain ⟨source, false, source.lex.ending⟩ := ⟨rfl, hending⟩
  obtain ⟨last, hrun⟩ := Grammar.document_run hplain rfl h hspells
  rw [hunlocated] at hrun
  rw [Source.parse, Source.readWith]
  dsimp only at hrun ⊢
  rw [hrun]
  rfl

/-- Keywords as the names of a type, a field, an argument, a directive and a type condition. -/
theorem Source.parse_print_keywords :
    let named (text : String) : Name := ⟨text, none⟩
    let object : TypeDefinition :=
      ⟨none, named "implements", [], .object [] [⟨some ⟨"\"on\"", "on", none⟩, named "on", [],
        .nonNull (.named ⟨named "type", none⟩) none, [], none⟩], none⟩
    let query : OperationDefinition :=
      ⟨.query, none, [], [⟨named "query", [⟨named "on", .plain "[1 $on]" none, none⟩], none⟩],
        .mk [.field none (named "on") [] [] none none,
          .inline (some ⟨named "on", none⟩) [] (.mk [.spread (named "fragment") [] none] none) none]
          none, none⟩
    let document : Document := ⟨[.type object, .operation query], none⟩
    let text : String := "type implements \x7b \"on\" on : type ! \x7d " ++
      "query @ query ( on : [1 $on] ) \x7b on ... on on \x7b ... fragment \x7d \x7d"
    document.WellFormed ∧ Revision.unlocated.document document = document ∧
      document.print = text ∧ Source.parse { body := text } false = .ok document := by
  intro named object query document text
  have hon : IsName "on" := ⟨_, _, rfl, rfl, rfl⟩
  have htype : IsName "type" := ⟨_, _, rfl, rfl, rfl⟩
  have hkeyword : IsName "query" := ⟨_, _, rfl, rfl, rfl⟩
  have himplements : IsName "implements" := ⟨_, _, rfl, rfl, rfl⟩
  have hfragment : IsName "fragment" := ⟨_, _, rfl, rfl, rfl⟩
  have hvalue : Value.WellFormed false (.plain "[1 $on]" none) := by
    have hlexemes : lexemesOf "[1 $on]" = enclosed .bracketL .bracketR
        [[.int "1"], [.punctuator .dollar, .name "on"]] := by decide +kernel
    refine .plain ⟨by decide +kernel, by decide +kernel⟩ ?_ ?_
    · rw [hlexemes]
      apply IsValue.list
      simp only [List.forall_mem_cons, List.not_mem_nil, false_imp_iff, implies_true, and_true]
      exact ⟨.single (by decide), .reference "on" rfl⟩
    · rw [hlexemes]
      intro value hsingle
      cases hsingle
  have hliteral : StringValue.WellFormed ⟨"\"on\"", "on", none⟩ :=
    ⟨⟨by decide +kernel, by decide +kernel⟩, by decide +kernel⟩
  have hobject : object.WellFormed := by
    refine ⟨by simp [object], himplements, by simp [object], by simp, ?_⟩
    refine List.forall_mem_singleton.mpr ?_
    refine ⟨?_, hon, by simp, .nonNull (.named htype) rfl, by simp⟩
    intro literal hmem
    cases hmem
    exact hliteral
  have hset : query.selectionSet.WellFormed := by
    refine .mk (List.cons_ne_nil _ _) ?_
    simp only [List.forall_mem_cons, List.not_mem_nil, false_imp_iff, implies_true, and_true]
    have hinner : SelectionSet.WellFormed (.mk [.spread (named "fragment") [] none] none) := by
      refine .mk (List.cons_ne_nil _ _) (List.forall_mem_singleton.mpr ?_)
      exact .spread ⟨hfragment, by decide⟩ (by simp)
    refine ⟨.field (by simp) hon (by simp) (by simp) (by simp), .inline ?_ (by simp) hinner⟩
    intro type hmem
    cases hmem
    exact hon
  have hquery : query.WellFormed := by
    refine ⟨by simp [query], by simp [query], List.forall_mem_singleton.mpr ?_, hset⟩
    exact ⟨hkeyword, List.forall_mem_singleton.mpr ⟨hon, hvalue⟩⟩
  have h : document.WellFormed := by
    refine ⟨List.cons_ne_nil _ _, List.forall_mem_cons.mpr ?_⟩
    exact ⟨hobject, List.forall_mem_singleton.mpr hquery⟩
  have hunlocated : Revision.unlocated.document document = document := rfl
  have hprint : document.print = text := by
    simp only [document, object, query, named, text]
    decide +kernel
  exact ⟨h, hunlocated, hprint, Source.parse_print h hunlocated hprint.symm⟩

end QueryLint
