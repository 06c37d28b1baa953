import QueryLint.Document.Basic
import QueryLint.Proofs.Tokenising

/-!
Documents as sequences of tokens. Every part of a document has its tokens in the order of the
grammar, values by the tokens of their texts. Locations play no part in them, and of the texts of
values nothing but their tokens, so a document can be revised in both without changing its tokens.
-/

namespace QueryLint

/-! The tokens of a document -/

/-- Parts between an opening and a closing token. -/
def enclosed (opening closing : Punctuator) (parts : List (List Lexeme)) : List Lexeme :=
  .punctuator opening :: parts.flatten ++ [.punctuator closing]

/-- As `enclosed`, but nothing if there are no parts. -/
def enclosedIfAny (opening closing : Punctuator) (parts : List (List Lexeme)) : List Lexeme :=
  if parts.isEmpty then [] else enclosed opening closing parts

/-- Parts with a delimiter between them. -/
def delimitedBy (delimiter : Punctuator) : List (List Lexeme) → List Lexeme
  | [] => []
  | first :: others => first ++ others.flatMap (.punctuator delimiter :: ·)

def Name.lexemes (name : Name) : List Lexeme := [.name name.value]

def StringValue.lexemes (literal : StringValue) : List Lexeme := lexemesOf literal.text

def Value.lexemes : Value → List Lexeme
  | .plain text _ => lexemesOf text
  | .string literal => literal.lexemes

def Argument.lexemes (argument : Argument) : List Lexeme :=
  argument.name.lexemes ++ .punctuator .colon :: argument.value.lexemes

def Argument.listLexemes (arguments : List Argument) : List Lexeme :=
  enclosedIfAny .parenL .parenR (arguments.map Argument.lexemes)

def Directive.lexemes (directive : Directive) : List Lexeme :=
  .punctuator .at :: directive.name.lexemes ++ Argument.listLexemes directive.arguments

def Directive.listLexemes (directives : List Directive) : List Lexeme :=
  directives.flatMap Directive.lexemes

def TypeName.lexemes (type : TypeName) : List Lexeme := type.name.lexemes

def TypeExpr.lexemes : TypeExpr → List Lexeme
  | .named type => type.lexemes
  | .list item _ => .punctuator .bracketL :: item.lexemes ++ [.punctuator .bracketR]
  | .nonNull item _ => item.lexemes ++ [.punctuator .bang]

/-- The tokens of a default value with the sign in front of it. -/
def Value.defaultLexemes : Option Value → List Lexeme
  | none => []
  | some value => .punctuator .equals :: value.lexemes

def VariableDefinition.lexemes (definition : VariableDefinition) : List Lexeme :=
  .punctuator .dollar :: definition.name.lexemes ++ .punctuator .colon :: definition.type.lexemes ++
    Value.defaultLexemes definition.defaultValue ++ Directive.listLexemes definition.directives

mutual

def Selection.lexemes : Selection → List Lexeme
  | .field aliasName name arguments directives selectionSet _ =>
    aliasName.elim [] (fun other => other.lexemes ++ [.punctuator .colon]) ++ name.lexemes ++
      Argument.listLexemes arguments ++ Directive.listLexemes directives ++
      SelectionSet.optionalLexemes selectionSet
  | .spread name directives _ =>
    .punctuator .spread :: name.lexemes ++ Directive.listLexemes directives
  | .inline condition directives selectionSet _ =>
    .punctuator .spread :: condition.elim [] (fun type => .name "on" :: type.lexemes) ++
      Directive.listLexemes directives ++ selectionSet.lexemes

def SelectionSet.lexemes : SelectionSet → List Lexeme
  | .mk selections _ =>
    .punctuator .braceL :: Selection.listLexemes selections ++ [.punctuator .braceR]

def SelectionSet.optionalLexemes : Option SelectionSet → List Lexeme
  | none => []
  | some selectionSet => selectionSet.lexemes

def Selection.listLexemes : List Selection → List Lexeme
  | [] => []
  | selection :: selections => selection.lexemes ++ Selection.listLexemes selections

end

theorem Selection.listLexemes_eq (selections : List Selection) :
    Selection.listLexemes selections = (selections.map Selection.lexemes).flatten := by
  induction selections with
  | nil => rw [Selection.listLexemes]; rfl
  | cons selection selections ih =>
    rw [Selection.listLexemes, ih, List.map_cons, List.flatten_cons]

def OperationDefinition.lexemes (definition : OperationDefinition) : List Lexeme :=
  .name definition.operation.text :: definition.name.elim [] Name.lexemes ++
    enclosedIfAny .parenL .parenR (definition.variableDefinitions.map VariableDefinition.lexemes) ++
    Directive.listLexemes definition.directives ++ definition.selectionSet.lexemes

def FragmentDefinition.lexemes (definition : FragmentDefinition) : List Lexeme :=
  .name "fragment" :: definition.name.lexemes ++ .name "on" :: definition.condition.lexemes ++
    Directive.listLexemes definition.directives ++ definition.selectionSet.lexemes

def OperationTypeDefinition.lexemes (definition : OperationTypeDefinition) : List Lexeme :=
  .name definition.operation.text :: .punctuator .colon :: definition.type.lexemes

def SchemaDefinition.lexemes (definition : SchemaDefinition) : List Lexeme :=
  .name "schema" :: Directive.listLexemes definition.directives ++
    enclosed .braceL .braceR (definition.operationTypes.map OperationTypeDefinition.lexemes)

def descriptionLexemes (description : Option StringValue) : List Lexeme :=
  description.elim [] StringValue.lexemes

def InputValueDefinition.lexemes (definition : InputValueDefinition) : List Lexeme :=
  descriptionLexemes definition.description ++ definition.name.lexemes ++
    .punctuator .colon :: definition.type.lexemes ++
    Value.defaultLexemes definition.defaultValue ++ Directive.listLexemes definition.directives

def FieldDefinition.lexemes (definition : FieldDefinition) : List Lexeme :=
  descriptionLexemes definition.description ++ definition.name.lexemes ++
    enclosedIfAny .parenL .parenR (definition.arguments.map InputValueDefinition.lexemes) ++
    .punctuator .colon :: definition.type.lexemes ++ Directive.listLexemes definition.directives

def EnumValueDefinition.lexemes (definition : EnumValueDefinition) : List Lexeme :=
  descriptionLexemes definition.description ++ definition.name.lexemes ++
    Directive.listLexemes definition.directives

/-- Types behind a token that opens the list, with delimiters between them. -/
def TypeName.listLexemes (opening : Lexeme) (delimiter : Punctuator) : List TypeName → List Lexeme
  | [] => []
  | first :: others =>
    opening :: delimitedBy delimiter ((first :: others).map TypeName.lexemes)

namespace TypeBody

def keyword : TypeBody → String
  | .scalar => "scalar"
  | .object _ _ => "type"
  | .interface _ => "interface"
  | .union _ => "union"
  | .enum _ => "enum"

/-- What stands between the name of the type and its directives. -/
def upperLexemes : TypeBody → List Lexeme
  | .object interfaces _ => TypeName.listLexemes (.name "implements") .amp interfaces
  | _ => []

/-- What stands behind the directives. -/
def lowerLexemes : TypeBody → List Lexeme
  | .scalar => []
  | .object _ fields | .interface fields =>
    enclosedIfAny .braceL .braceR (fields.map FieldDefinition.lexemes)
  | .union members => TypeName.listLexemes (.punctuator .equals) .pipe members
  | .enum values => enclosedIfAny .braceL .braceR (values.map EnumValueDefinition.lexemes)

end TypeBody

def TypeDefinition.lexemes (definition : TypeDefinition) : List Lexeme :=
  descriptionLexemes definition.description ++ .name definition.body.keyword ::
    definition.name.lexemes ++ definition.body.upperLexemes ++
    Directive.listLexemes definition.directives ++ definition.body.lowerLexemes

def Definition.lexemes : Definition → List Lexeme
  | .operation definition => definition.lexemes
  | .fragment definition => definition.lexemes
  | .schema definition => definition.lexemes
  | .type definition => definition.lexemes

/-! Revised documents -/

/-- A change of all locations of a document and of all texts of its values. -/
structure Revision where
  loc : Option Location → Option Location
  text : Text → Text

namespace Revision

/-- No locations, and texts without ignored text but for single blanks. -/
def bare : Revision := ⟨fun _ => none, respaced⟩

variable (revision : Revision)

def name (name : Name) : Name := { name with loc := revision.loc name.loc }

def stringValue (literal : StringValue) : StringValue :=
  ⟨revision.text literal.text, literal.value, revision.loc literal.loc⟩

def value : Value → Value
  | .plain text loc => .plain (revision.text text) (revision.loc loc)
  | .string literal => .string (revision.stringValue literal)

def argument (argument : Argument) : Argument :=
  ⟨revision.name argument.name, revision.value argument.value, revision.loc argument.loc⟩

def directive (directive : Directive) : Directive :=
  ⟨revision.name directive.name, directive.arguments.map revision.argument,
    revision.loc directive.loc⟩

def typeName (type : TypeName) : TypeName := ⟨revision.name type.name, revision.loc type.loc⟩

def typeExpr : TypeExpr → TypeExpr
  | .named type => .named (revision.typeName type)
  | .list item loc => .list (typeExpr item) (revision.loc loc)
  | .nonNull item loc => .nonNull (typeExpr item) (revision.loc loc)

def variableDefinition (definition : VariableDefinition) : VariableDefinition where
  name := revision.name definition.name
  type := revision.typeExpr definition.type
  defaultValue := definition.defaultValue.map revision.value
  directives := definition.directives.map revision.directive
  loc := revision.loc definition.loc

mutual

def selection : Selection → Selection
  | .field aliasName name arguments directives selectionSet loc =>
    .field (aliasName.map revision.name) (revision.name name) (arguments.map revision.argument)
      (directives.map revision.directive) (optionalSelectionSet selectionSet) (revision.loc loc)
  | .spread name directives loc =>
    .spread (revision.name name) (directives.map revision.directive) (revision.loc loc)
  | .inline condition directives set loc =>
    .inline (condition.map revision.typeName) (directives.map revision.directive)
      (selectionSet set) (revision.loc loc)

def selectionSet : SelectionSet → SelectionSet
  | .mk items loc => .mk (selections items) (revision.loc loc)

def optionalSelectionSet : Option SelectionSet → Option SelectionSet
  | none => none
  | some set => some (selectionSet set)

def selections : List Selection → List Selection
  | [] => []
  | first :: others => selection first :: selections others

end

def operationDefinition (definition : OperationDefinition) : OperationDefinition where
  operation := definition.operation
  name := definition.name.map revision.name
  variableDefinitions := definition.variableDefinitions.map revision.variableDefinition
  directives := definition.directives.map revision.directive
  selectionSet := revision.selectionSet definition.selectionSet
  loc := revision.loc definition.loc

def fragmentDefinition (definition : FragmentDefinition) : FragmentDefinition where
  name := revision.name definition.name
  condition := revision.typeName definition.condition
  directives := definition.directives.map revision.directive
  selectionSet := revision.selectionSet definition.selectionSet
  loc := revision.loc definition.loc

def operationTypeDefinition (definition : OperationTypeDefinition) : OperationTypeDefinition :=
  ⟨definition.operation, revision.typeName definition.type, revision.loc definition.loc⟩

def schemaDefinition (definition : SchemaDefinition) : SchemaDefinition where
  directives := definition.directives.map revision.directive
  operationTypes := definition.operationTypes.map revision.operationTypeDefinition
  loc := revision.loc definition.loc

def inputValueDefinition (definition : InputValueDefinition) : InputValueDefinition where
  description := definition.description.map revision.stringValue
  name := revision.name definition.name
  type := revision.typeExpr definition.type
  defaultValue := definition.defaultValue.map revision.value
  directives := definition.directives.map revision.directive
  loc := revision.loc definition.loc

def fieldDefinition (definition : FieldDefinition) : FieldDefinition where
  description := definition.description.map revision.stringValue
  name := revision.name definition.name
  arguments := definition.arguments.map revision.inputValueDefinition
  type := revision.typeExpr definition.type
  directives := definition.directives.map revision.directive
  loc := revision.loc definition.loc

def enumValueDefinition (definition : EnumValueDefinition) : EnumValueDefinition where
  description := definition.description.map revision.stringValue
  name := revision.name definition.name
  directives := definition.directives.map revision.directive
  loc := revision.loc definition.loc

def typeBody : TypeBody → TypeBody
  | .scalar => .scalar
  | .object interfaces fields =>
    .object (interfaces.map revision.typeName) (fields.map revision.fieldDefinition)
  | .interface fields => .interface (fields.map revision.fieldDefinition)
  | .union members => .union (members.map revision.typeName)
  | .enum values => .enum (values.map revision.enumValueDefinition)

def typeDefinition (definition : TypeDefinition) : TypeDefinition where
  description := definition.description.map revision.stringValue
  name := revision.name definition.name
  directives := definition.directives.map revision.directive
  body := revision.typeBody definition.body
  loc := revision.loc definition.loc

def definition : Definition → Definition
  | .operation definition => .operation (revision.operationDefinition definition)
  | .fragment definition => .fragment (revision.fragmentDefinition definition)
  | .schema definition => .schema (revision.schemaDefinition definition)
  | .type definition => .type (revision.typeDefinition definition)

def document (document : Document) : Document :=
  ⟨document.definitions.map revision.definition, revision.loc document.loc⟩

/-- The tokens of the texts stay the same. -/
def KeepsTokens : Prop := ∀ text, lexemesOf (revision.text text) = lexemesOf text

theorem bare_keepsTokens : bare.KeepsTokens := lexemesOf_respaced

namespace KeepsTokens

variable {revision : Revision}

theorem name (name : Name) : (revision.name name).lexemes = name.lexemes := rfl

theorem typeName (type : TypeName) : (revision.typeName type).lexemes = type.lexemes := rfl

/-- Items whose tokens stay the same, one by one. -/
theorem map_lexemes {α : Type} {revise : α → α} {lexemes : α → List Lexeme}
    (hitem : ∀ item, lexemes (revise item) = lexemes item) (items : List α) :
    (items.map revise).map lexemes = items.map lexemes := by
  rw [List.map_map]
  exact List.map_congr_left fun item _ => hitem item

theorem typeExpr (type : TypeExpr) : (revision.typeExpr type).lexemes = type.lexemes := by
  induction type with
  | named type => rfl
  | list item loc ih => simp only [Revision.typeExpr, TypeExpr.lexemes, ih]
  | nonNull item loc ih => simp only [Revision.typeExpr, TypeExpr.lexemes, ih]

theorem typeNames (opening : Lexeme) (delimiter : Punctuator) (types : List TypeName) :
    TypeName.listLexemes opening delimiter (types.map revision.typeName) =
      TypeName.listLexemes opening delimiter types := by
  cases types with
  | nil => rfl
  | cons first others =>
    rw [List.map_cons, TypeName.listLexemes, ← List.map_cons, map_lexemes typeName,
      TypeName.listLexemes]

section Values

variable (h : revision.KeepsTokens)
include h

theorem stringValue (literal : StringValue) :
    (revision.stringValue literal).lexemes = literal.lexemes :=
  h literal.text

theorem value (value : Value) : (revision.value value).lexemes = value.lexemes := by
  cases value with
  | plain text loc => exact h text
  | string literal => exact h.stringValue literal

theorem argument (argument : Argument) :
    (revision.argument argument).lexemes = argument.lexemes := by
  simp only [Argument.lexemes, Revision.argument, name, h.value]

theorem arguments (arguments : List Argument) :
    Argument.listLexemes (arguments.map revision.argument) = Argument.listLexemes arguments := by
  rw [Argument.listLexemes, map_lexemes h.argument, Argument.listLexemes]

theorem directives (directives : List Directive) :
    Directive.listLexemes (directives.map revision.directive) =
      Directive.listLexemes directives := by
  have hdirective (directive : Directive) :
      (revision.directive directive).lexemes = directive.lexemes := by
    simp only [Directive.lexemes, Revision.directive, name, h.arguments]
  simp only [Directive.listLexemes, List.flatMap_def, map_lexemes hdirective]

theorem description (description : Option StringValue) :
    descriptionLexemes (description.map revision.stringValue) = descriptionLexemes description := by
  cases description with
  | none => rfl
  | some literal => exact h.stringValue literal

theorem defaultValue (value : Option Value) :
    Value.defaultLexemes (value.map revision.value) = Value.defaultLexemes value := by
  cases value with
  | none => rfl
  | some value => simp only [Option.map_some, Value.defaultLexemes, h.value]

theorem variableDefinition (definition : VariableDefinition) :
    (revision.variableDefinition definition).lexemes = definition.lexemes := by
  simp only [VariableDefinition.lexemes, Revision.variableDefinition, name, typeExpr,
    h.defaultValue, h.directives]

end Values

mutual

theorem selection (h : revision.KeepsTokens) (item : Selection) :
    (revision.selection item).lexemes = item.lexemes := by
  cases item with
  | field aliasName fieldName arguments directives set loc =>
    rw [Revision.selection, Selection.lexemes, Selection.lexemes, h.arguments, h.directives,
      h.optionalSelectionSet set, name]
    cases aliasName <;> rfl
  | spread fragmentName directives loc =>
    rw [Revision.selection, Selection.lexemes, Selection.lexemes, h.directives, name]
  | inline condition directives set loc =>
    rw [Revision.selection, Selection.lexemes, Selection.lexemes, h.directives, h.selectionSet set]
    cases condition <;> rfl
  termination_by sizeOf item

theorem selectionSet (h : revision.KeepsTokens) (set : SelectionSet) :
    (revision.selectionSet set).lexemes = set.lexemes := by
  obtain ⟨items, loc⟩ := set
  rw [Revision.selectionSet, SelectionSet.lexemes, SelectionSet.lexemes, h.selections items]
  termination_by sizeOf set

theorem optionalSelectionSet (h : revision.KeepsTokens) (set : Option SelectionSet) :
    SelectionSet.optionalLexemes (revision.optionalSelectionSet set) =
      SelectionSet.optionalLexemes set := by
  cases set with
  | none => rw [Revision.optionalSelectionSet]
  | some set =>
    rw [Revision.optionalSelectionSet, SelectionSet.optionalLexemes, SelectionSet.optionalLexemes,
      h.selectionSet set]
  termination_by sizeOf set

theorem selections (h : revision.KeepsTokens) (items : List Selection) :
    Selection.listLexemes (revision.selections items) = Selection.listLexemes items := by
  cases items with
  | nil => rw [Revision.selections]
  | cons first others =>
    rw [Revision.selections, Selection.listLexemes, Selection.listLexemes, h.selection first,
      h.selections others]
  termination_by sizeOf items

end

section Definitions

variable (h : revision.KeepsTokens)
include h

theorem inputValueDefinition (definition : InputValueDefinition) :
    (revision.inputValueDefinition definition).lexemes = definition.lexemes := by
  simp only [InputValueDefinition.lexemes, Revision.inputValueDefinition, h.description, name,
    typeExpr, h.defaultValue, h.directives]

theorem fieldDefinition (definition : FieldDefinition) :
    (revision.fieldDefinition definition).lexemes = definition.lexemes := by
  simp only [FieldDefinition.lexemes, Revision.fieldDefinition, h.description, name,
    typeExpr, map_lexemes h.inputValueDefinition, h.directives]

theorem enumValueDefinition (definition : EnumValueDefinition) :
    (revision.enumValueDefinition definition).lexemes = definition.lexemes := by
  simp only [EnumValueDefinition.lexemes, Revision.enumValueDefinition, h.description, name,
    h.directives]

theorem typeDefinition (definition : TypeDefinition) :
    (revision.typeDefinition definition).lexemes = definition.lexemes := by
  have hkeyword : (revision.typeBody definition.body).keyword = definition.body.keyword := by
    cases definition.body <;> rfl
  have hupper : (revision.typeBody definition.body).upperLexemes =
      definition.body.upperLexemes := by
    cases definition.body with
    | object interfaces fields => exact typeNames _ _ interfaces
    | _ => rfl
  have hlower : (revision.typeBody definition.body).lowerLexemes =
      definition.body.lowerLexemes := by
    cases definition.body with
    | scalar => rfl
    | object interfaces fields =>
      simp only [Revision.typeBody, TypeBody.lowerLexemes, map_lexemes h.fieldDefinition]
    | interface fields =>
      simp only [Revision.typeBody, TypeBody.lowerLexemes, map_lexemes h.fieldDefinition]
    | union members => exact typeNames _ _ members
    | enum values =>
      simp only [Revision.typeBody, TypeBody.lowerLexemes, map_lexemes h.enumValueDefinition]
  simp only [TypeDefinition.lexemes, Revision.typeDefinition, h.description, name, h.directives,
    hkeyword, hupper, hlower]

theorem definition (definition : Definition) :
    (revision.definition definition).lexemes = definition.lexemes := by
  cases definition with
  | operation definition =>
    have hname : (definition.name.map revision.name).elim [] Name.lexemes =
        definition.name.elim [] Name.lexemes := by
      cases definition.name <;> rfl
    simp only [Revision.definition, Definition.lexemes, OperationDefinition.lexemes,
      Revision.operationDefinition, hname, map_lexemes h.variableDefinition, h.directives,
      h.selectionSet]
  | fragment definition =>
    simp only [Revision.definition, Definition.lexemes, FragmentDefinition.lexemes,
      Revision.fragmentDefinition, name, typeName, h.directives, h.selectionSet]
  | schema definition =>
    have hroot (definition : OperationTypeDefinition) :
        (revision.operationTypeDefinition definition).lexemes = definition.lexemes := rfl
    simp only [Revision.definition, Definition.lexemes, SchemaDefinition.lexemes,
      Revision.schemaDefinition, h.directives, map_lexemes hroot]
  | type definition => exact h.typeDefinition definition

theorem definitions (document : Document) :
    (revision.document document).definitions.map Definition.lexemes =
      document.definitions.map Definition.lexemes :=
  map_lexemes h.definition document.definitions

end Definitions

end KeepsTokens

end Revision

end QueryLint
