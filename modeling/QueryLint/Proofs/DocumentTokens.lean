import QueryLint.Proofs.GrammarTokens

/-!
A document drops no token of its source and adds none. The tokens of a source are divided among
the definitions of its document, and those of a definition are the tokens that it is printed with,
but for three liberties: a query may leave out its keyword, a delimiter may stand in front of the
first interface or union member, and a schema definition may have a description.
-/

namespace QueryLint

open Reader Reading

/-! The plain form of a definition -/

/-- Without a delimiter in front. -/
def dropDelimiter (delimiter : Punctuator) : List Lexeme → List Lexeme
  | .punctuator mark :: rest => if mark = delimiter then rest else .punctuator mark :: rest
  | rest => rest

/-- Without a delimiter directly behind the first equals sign. -/
def dropLeadingPipe : List Lexeme → List Lexeme
  | [] => []
  | lexeme :: rest =>
    if lexeme = .punctuator .equals then lexeme :: dropDelimiter .pipe rest
    else lexeme :: dropLeadingPipe rest

/-- Without the delimiter in front of the first interface or union member. -/
def withoutLead : List Lexeme → List Lexeme
  | .name "type" :: name :: .name "implements" :: rest =>
    .name "type" :: name :: .name "implements" :: dropDelimiter .amp rest
  | .name "union" :: rest => .name "union" :: dropLeadingPipe rest
  | rest => rest

/-- The tokens of a definition in the form that it is printed in: an operation has its keyword, a
schema definition no description, and no delimiter stands in front of the first item. -/
def plainForm : List Lexeme → List Lexeme
  | .punctuator .braceL :: rest => .name "query" :: .punctuator .braceL :: rest
  | .string _ :: .name "schema" :: rest => .name "schema" :: rest
  | .string description :: rest => .string description :: withoutLead rest
  | rest => withoutLead rest

theorem dropLeadingPipe_append {before : List Lexeme} (h : .punctuator .equals ∉ before)
    (rest : List Lexeme) : dropLeadingPipe (before ++ rest) = before ++ dropLeadingPipe rest := by
  induction before with
  | nil => rfl
  | cons lexeme before ih =>
    rw [List.mem_cons, not_or] at h
    rw [List.cons_append, dropLeadingPipe, if_neg (Ne.symm h.1), ih h.2, List.cons_append]

/-- A description in front of a definition other than that of a schema stays. -/
theorem plainForm_described {description : List Lexeme}
    (h : description = [] ∨ ∃ decoded, description = [.string decoded]) {keyword : String}
    (hkeyword : keyword ≠ "schema") (rest : List Lexeme) :
    plainForm (description ++ .name keyword :: rest) =
      description ++ withoutLead (.name keyword :: rest) := by
  rcases h with rfl | ⟨decoded, rfl⟩
  · rfl
  · unfold plainForm
    split <;> simp_all

theorem plainForm_schema {description : List Lexeme}
    (h : description = [] ∨ ∃ decoded, description = [.string decoded]) (rest : List Lexeme) :
    plainForm (description ++ .name "schema" :: rest) = .name "schema" :: rest := by
  rcases h with rfl | ⟨decoded, rfl⟩
  · rfl
  · rfl

/-- No liberty is taken in definitions with another keyword. -/
theorem plainForm_of_keyword {description : List Lexeme}
    (h : description = [] ∨ ∃ decoded, description = [.string decoded]) {keyword : String}
    (hkeyword : keyword ∉ ["schema", "type", "union"]) (rest : List Lexeme) :
    plainForm (description ++ .name keyword :: rest) = description ++ .name keyword :: rest := by
  rw [plainForm_described h (by grind)]
  unfold withoutLead
  split <;> simp_all

/-- A list of types as it may be written: perhaps with a delimiter in front. -/
def WrittenList (opening : Lexeme) (delimiter : Punctuator) (consumed : List Lexeme)
    (types : List TypeName) : Prop :=
  (types = [] ∧ consumed = []) ∨
    ∃ rest, consumed = opening :: rest ∧ ∀ later,
      opening :: dropDelimiter delimiter (rest ++ later) =
        TypeName.listLexemes opening delimiter types ++ later

theorem withoutLead_union {before consumed : List Lexeme} {members : List TypeName}
    (hbefore : .punctuator .equals ∉ before)
    (hmembers : WrittenList (.punctuator .equals) .pipe consumed members) :
    withoutLead (.name "union" :: (before ++ consumed)) =
      .name "union" :: (before ++ TypeName.listLexemes (.punctuator .equals) .pipe members) := by
  rw [withoutLead, dropLeadingPipe_append hbefore]
  rcases hmembers with ⟨rfl, rfl⟩ | ⟨rest, rfl, hrest⟩
  · rfl
  · have hdrop := hrest []
    rw [List.append_nil, List.append_nil] at hdrop
    rw [dropLeadingPipe, if_pos rfl, hdrop]

theorem withoutLead_type {name : Lexeme} {consumed rest : List Lexeme} {interfaces : List TypeName}
    (hinterfaces : WrittenList (.name "implements") .amp consumed interfaces)
    (hrest : rest.head? ≠ some (.name "implements")) :
    withoutLead (.name "type" :: name :: (consumed ++ rest)) =
      .name "type" :: name ::
        (TypeName.listLexemes (.name "implements") .amp interfaces ++ rest) := by
  rcases hinterfaces with ⟨rfl, rfl⟩ | ⟨inner, rfl, hinner⟩
  · change withoutLead (.name "type" :: name :: rest) = .name "type" :: name :: rest
    unfold withoutLead
    split <;> simp_all
  · rw [List.cons_append, withoutLead, hinner]

namespace Grammar

theorem delimited_writtenList (opening : Lexeme) (delimiter : Punctuator) :
    Consumes (delimited (.punctuator delimiter) typeName) fun consumed types =>
      WrittenList opening delimiter (opening :: consumed) types := by
  apply (delimited_prints typeName_prints delimiter).mono
  rintro consumed types ⟨hne, hconsumed⟩
  refine .inr ⟨consumed, rfl, fun later => ?_⟩
  cases types with
  | nil => exact absurd rfl hne
  | cons first others =>
    rcases hconsumed with rfl | rfl
    · rfl
    · rw [List.cons_append, dropDelimiter, if_pos rfl]
      rfl

theorem implementedInterfaces_consumes :
    Consumes implementedInterfaces (WrittenList (.name "implements") .amp) := by
  refine (skipKeyword_prints "implements").bind fun found => ?_
  cases found with
  | false => exact .pure (.inl ⟨rfl, rfl⟩)
  | true => exact delimited_writtenList _ .amp

theorem unionMembers_consumes :
    Consumes unionMembers (WrittenList (.punctuator .equals) .pipe) := by
  refine (skip_punctuator .equals).bind fun found => ?_
  cases found with
  | false => exact .pure (.inl ⟨rfl, rfl⟩)
  | true => exact delimited_writtenList _ .pipe

/-! Definitions -/

/-- The tokens of a definition are those it is printed with, once they are in plain form. -/
def PrintsInPlainForm {α : Type} (p : Reader α) (lexemes : α → List Lexeme) : Prop :=
  p.Consumes fun consumed result => plainForm consumed = lexemes result

theorem shorthand_plainForm : PrintsInPlainForm shorthand OperationDefinition.lexemes := by
  refine current_stays.bind fun start => selectionSet_prints.bind fun selectionSet => ?_
  refine (spanFrom_stays _).bind fun loc => .pure ?_
  obtain ⟨selections, place⟩ := selectionSet
  simp [SelectionSet.lexemes, plainForm, OperationDefinition.lexemes, OperationType.text,
    enclosedIfAny, Directive.listLexemes]

theorem schemaDefinition_plainForm :
    PrintsInPlainForm schemaDefinition SchemaDefinition.lexemes := by
  refine current_stays.bind fun start => description_prints.bind ?_
  rintro consumed description ⟨-, hdescription⟩
  refine (expectKeyword_prints "schema").bind fun _ => ?_
  refine (directives_prints true).prints.bind fun directives => ?_
  refine (many_prints operationTypeDefinition_prints .braceL .braceR).bind fun roots => ?_
  refine (spanFrom_stays _).bind fun loc => .pure ?_
  rw [List.singleton_append, plainForm_schema hdescription]
  simp [SchemaDefinition.lexemes]

theorem scalarTypeDefinition_plainForm :
    PrintsInPlainForm scalarTypeDefinition TypeDefinition.lexemes := by
  refine current_stays.bind fun start => description_prints.bind ?_
  rintro consumed description ⟨rfl, hdescription⟩
  refine (expectKeyword_prints "scalar").bind fun _ => name_prints.bind fun name => ?_
  refine (directives_prints true).prints.bind fun directives => ?_
  refine (spanFrom_stays _).bind fun loc => .pure ?_
  rw [List.singleton_append, plainForm_of_keyword hdescription (by decide)]
  simp [TypeDefinition.lexemes, TypeBody.keyword, TypeBody.upperLexemes, TypeBody.lowerLexemes]

theorem interfaceTypeDefinition_plainForm :
    PrintsInPlainForm interfaceTypeDefinition TypeDefinition.lexemes := by
  refine current_stays.bind fun start => description_prints.bind ?_
  rintro consumed description ⟨rfl, hdescription⟩
  refine (expectKeyword_prints "interface").bind fun _ => name_prints.bind fun name => ?_
  refine (directives_prints true).prints.bind fun directives => ?_
  refine fieldsDefinition_prints.bind fun fields => ?_
  refine (spanFrom_stays _).bind fun loc => .pure ?_
  rw [List.singleton_append, plainForm_of_keyword hdescription (by decide)]
  simp [TypeDefinition.lexemes, TypeBody.keyword, TypeBody.upperLexemes, TypeBody.lowerLexemes]

theorem enumTypeDefinition_plainForm :
    PrintsInPlainForm enumTypeDefinition TypeDefinition.lexemes := by
  refine current_stays.bind fun start => description_prints.bind ?_
  rintro consumed description ⟨rfl, hdescription⟩
  refine (expectKeyword_prints "enum").bind fun _ => name_prints.bind fun name => ?_
  refine (directives_prints true).prints.bind fun directives => ?_
  refine (optionalMany_prints enumValueDefinition_prints .braceL .braceR).bind fun values => ?_
  refine (spanFrom_stays _).bind fun loc => .pure ?_
  rw [List.singleton_append, plainForm_of_keyword hdescription (by decide)]
  simp [TypeDefinition.lexemes, TypeBody.keyword, TypeBody.upperLexemes, TypeBody.lowerLexemes]

theorem unionTypeDefinition_plainForm :
    PrintsInPlainForm unionTypeDefinition TypeDefinition.lexemes := by
  refine current_stays.bind fun start => description_prints.bind ?_
  rintro consumed description ⟨rfl, hdescription⟩
  refine (expectKeyword_prints "union").bind fun _ => name_prints.bind fun name => ?_
  apply (directives_prints true).bind
  rintro consumed directives ⟨rfl, hequals⟩
  refine unionMembers_consumes.bind fun consumed members hmembers => ?_
  refine (spanFrom_stays _).bind fun loc => .pure ?_
  have hbefore : .punctuator .equals ∉ name.lexemes ++ Directive.listLexemes directives := by
    simpa [Name.lexemes] using hequals
  have hunion := withoutLead_union hbefore hmembers
  rw [List.singleton_append, plainForm_described hdescription (by decide), List.append_nil,
    ← List.append_assoc name.lexemes, hunion]
  simp [TypeDefinition.lexemes, TypeBody.keyword, TypeBody.upperLexemes, TypeBody.lowerLexemes]

theorem objectTypeDefinition_plainForm :
    PrintsInPlainForm objectTypeDefinition TypeDefinition.lexemes := by
  refine current_stays.bind fun start => description_prints.bind ?_
  rintro consumed description ⟨rfl, hdescription⟩
  refine (expectKeyword_prints "type").bind fun _ => name_prints.bind fun name => ?_
  refine implementedInterfaces_consumes.bind fun consumed interfaces hinterfaces => ?_
  refine (directives_prints true).prints.bind fun directives => ?_
  refine fieldsDefinition_prints.bind fun fields => ?_
  refine (spanFrom_stays _).bind fun loc => .pure ?_
  -- Nothing that follows the name can be taken for the keyword of the interfaces.
  have hrest : (Directive.listLexemes directives ++
      enclosedIfAny .braceL .braceR (fields.map FieldDefinition.lexemes)).head? ≠
        some (.name "implements") := by
    cases directives with
    | nil => cases fields <;> simp [Directive.listLexemes, enclosedIfAny, enclosed]
    | cons directive directives => simp [Directive.listLexemes, Directive.lexemes]
  rw [List.singleton_append, plainForm_described hdescription (by decide), List.append_nil,
    Name.lexemes, List.singleton_append, withoutLead_type hinterfaces hrest]
  simp [TypeDefinition.lexemes, TypeBody.keyword, TypeBody.upperLexemes, TypeBody.lowerLexemes,
    Name.lexemes]

theorem operationDefinition_plainForm :
    PrintsInPlainForm operationDefinition OperationDefinition.lexemes := by
  apply operationDefinition_prints.mono
  rintro consumed definition rfl
  refine plainForm_of_keyword (.inl rfl) ?_ _
  cases definition.operation <;> decide

theorem fragmentDefinition_plainForm :
    PrintsInPlainForm fragmentDefinition FragmentDefinition.lexemes := by
  apply fragmentDefinition_prints.mono
  rintro consumed definition rfl
  exact plainForm_of_keyword (.inl rfl) (by decide) _

theorem described?_plainForm {keyword : String} {production : Reader Definition}
    (h : described? keyword = some production) :
    PrintsInPlainForm production Definition.lexemes := by
  unfold described? at h
  split at h <;> cases h
  · exact .map schemaDefinition_plainForm
  · exact .map scalarTypeDefinition_plainForm
  · exact .map objectTypeDefinition_plainForm
  · exact .map interfaceTypeDefinition_plainForm
  · exact .map unionTypeDefinition_plainForm
  · exact .map enumTypeDefinition_plainForm

theorem executable?_plainForm {keyword : String} {production : Reader Definition}
    (h : executable? keyword = some production) :
    PrintsInPlainForm production Definition.lexemes := by
  unfold executable? at h
  split at h <;> cases h
  · exact .map operationDefinition_plainForm
  · exact .map operationDefinition_plainForm
  · exact .map operationDefinition_plainForm
  · exact .map fragmentDefinition_plainForm

theorem described?_getD_plainForm (keyword : String) (token : Token) :
    PrintsInPlainForm ((described? keyword).getD (unexpected token)) Definition.lexemes := by
  cases hfound : (described? keyword : Option (Reader Definition)) with
  | none => exact .refuse _ _
  | some production => exact described?_plainForm hfound

/-- Whatever keyword a definition is told by, its tokens are those it is printed with. -/
theorem definition_plainForm : PrintsInPlainForm definition Definition.lexemes := by
  refine current_stays.bind fun token => ?_
  cases token.lexeme with
  | punctuator mark =>
    cases mark with
    | braceL => exact .map shorthand_plainForm
    | _ => exact .refuse _ _
  | string decoded =>
    refine lookahead_stays.bind fun keyword => ?_
    cases keyword.lexeme with
    | name text => exact described?_getD_plainForm text keyword
    | _ => exact .refuse _ _
  | name text =>
    change PrintsInPlainForm ((executable? text <|> described? text).getD (unexpected token)) _
    cases hfound : (executable? text : Option (Reader Definition)) with
    | none => exact described?_getD_plainForm text token
    | some production => exact executable?_plainForm hfound
  | _ => exact .refuse _ _

end Grammar

/-! Documents -/

/-- The tokens are divided among the definitions of the document, and in plain form each part is
what the definition is printed with. -/
def Document.WrittenAs (document : Document) (lexemes : List Lexeme) : Prop :=
  ∃ parts : List (List Lexeme), lexemes = parts.flatten ∧
    parts.map plainForm = document.definitions.map Definition.lexemes

/-- All tokens of a source are divided among the definitions of its document. -/
theorem Source.parse_divides {each : List Lexeme → Definition → Prop}
    (heach : Consumes Grammar.definition each) {source : Source} {located : Bool}
    {document : Document} (h : source.parse located = .ok document) :
    (∃ eof, source.lex.ending = .ok eof) ∧ ∃ parts, List.Forall₂ each parts document.definitions ∧
      lexemesOf source.body = parts.flatten := by
  obtain ⟨last, hmany, -⟩ := Source.parse_run h
  exact many_whole heach rfl hmany

theorem Source.parse_writtenAs {source : Source} {located : Bool} {document : Document}
    (h : source.parse located = .ok document) :
    (∃ eof, source.lex.ending = .ok eof) ∧ document.WrittenAs (lexemesOf source.body) := by
  obtain ⟨hending, parts, hparts, hflat⟩ := Source.parse_divides Grammar.definition_plainForm h
  refine ⟨hending, parts, hflat, ?_⟩
  rwa [← List.forall₂_eq_eq_eq, List.forall₂_map_right_iff, List.forall₂_map_left_iff]

/-- A parsed document drops no token of its source and adds none. The whole source has tokens, and
divided among the definitions these are, in plain form, the tokens that the document is printed
with. So where two documents differ in nothing but locations and the ignored text in their values,
their sources have the same tokens up to plain form. -/
theorem Source.parse_keeps_tokens {source : Source} {located : Bool} {document : Document}
    (h : source.parse located = .ok document) :
    (∃ eof, source.lex.ending = .ok eof) ∧ document.WrittenAs (lexemesOf source.body) ∧
      ∀ (other : Source) (located' : Bool) (document' : Document),
        other.parse located' = .ok document' →
        Revision.bare.document document = Revision.bare.document document' →
        ∃ parts parts' : List (List Lexeme), lexemesOf source.body = parts.flatten ∧
          lexemesOf other.body = parts'.flatten ∧ parts.map plainForm = parts'.map plainForm := by
  obtain ⟨hending, hwritten⟩ := Source.parse_writtenAs h
  refine ⟨hending, hwritten, fun other located' document' hother hsame => ?_⟩
  obtain ⟨parts, hflat, hparts⟩ := hwritten
  obtain ⟨-, parts', hflat', hparts'⟩ := Source.parse_writtenAs hother
  have hdefinitions : document.definitions.map Definition.lexemes =
      document'.definitions.map Definition.lexemes := by
    rw [← Revision.bare_keepsTokens.definitions document, hsame,
      Revision.bare_keepsTokens.definitions document']
  exact ⟨parts, parts', hflat, hflat', by rw [hparts, hdefinitions, hparts']⟩

set_option maxRecDepth 20000 in
/-- Two sources that differ in all three liberties, and in the ignored text of a value. -/
theorem Source.parse_keeps_tokens_liberties :
    let free : Source :=
      { body := "\x7ba(x:[1 2])\x7d\"d\"schema\x7bquery:Q\x7dtype T implements&I union U=|A" }
    let plain : Source :=
      { body := "query\x7ba(x:[1,2])\x7d schema\x7bquery:Q\x7dtype T implements I union U=A" }
    (free.parse false).toOption.isSome = true ∧ ∃ parts parts' : List (List Lexeme),
      lexemesOf free.body = parts.flatten ∧ lexemesOf plain.body = parts'.flatten ∧
        parts.map plainForm = parts'.map plainForm := by
  intro free plain
  have hfree : (free.parse false).toOption.isSome = true := by decide +kernel
  have hsame : (free.parse false).toOption.map Revision.bare.document =
      (plain.parse false).toOption.map Revision.bare.document := by decide +kernel
  refine ⟨hfree, ?_⟩
  cases hdocument : free.parse false with
  | error error => simp [hdocument, Except.toOption] at hfree
  | ok document =>
    cases hdocument' : plain.parse false with
    | error error => simp [hdocument, hdocument', Except.toOption] at hsame
    | ok document' =>
      refine (Source.parse_keeps_tokens hdocument).2.2 plain false document' hdocument' ?_
      simpa [hdocument, hdocument', Except.toOption] using hsame

end QueryLint
