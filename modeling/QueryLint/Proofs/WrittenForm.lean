import QueryLint.Proofs.Printing
import QueryLint.Proofs.Words

/-!
The written form of a document: its words in the order of the grammar, with a blank between two of
them. An operation always has its keyword, and the text of a value is a single word. A document is
well-formed if its parts can be written so, each in the place where it stands.
-/

namespace QueryLint

/-! The words of a document -/

def Name.word (name : Name) : Word := .name name.value

def StringValue.word (literal : StringValue) : Word := .literal literal.text

def Value.word : Value → Word
  | .plain text _ => .literal text
  | .string literal => literal.word

def Argument.words (argument : Argument) : List Word :=
  [argument.name.word, .mark .colon, argument.value.word]

def Argument.listWords (arguments : List Argument) : List Word :=
  Word.encloseIfAny .parenL .parenR (arguments.map Argument.words)

def Directive.words (directive : Directive) : List Word :=
  .mark .at :: directive.name.word :: Argument.listWords directive.arguments

def Directive.listWords (directives : List Directive) : List Word :=
  directives.flatMap Directive.words

def TypeName.word (type : TypeName) : Word := type.name.word

def TypeExpr.words : TypeExpr → List Word
  | .named type => [type.word]
  | .list item _ => .mark .bracketL :: (item.words ++ [.mark .bracketR])
  | .nonNull item _ => item.words ++ [.mark .bang]

/-- A default value with the sign in front of it. -/
def Value.defaultWords : Option Value → List Word
  | none => []
  | some value => [.mark .equals, value.word]

def VariableDefinition.words (definition : VariableDefinition) : List Word :=
  .mark .dollar :: definition.name.word :: .mark .colon :: (definition.type.words ++
    (Value.defaultWords definition.defaultValue ++ Directive.listWords definition.directives))

/-- Another name for a field, with the sign behind it. -/
def Name.aliasWords : Option Name → List Word
  | none => []
  | some name => [name.word, .mark .colon]

/-- The type of a condition with the keyword in front of it. -/
def TypeName.conditionWords : Option TypeName → List Word
  | none => []
  | some type => [.name "on", type.word]

mutual

def Selection.words : Selection → List Word
  | .field aliasName name arguments directives selectionSet _ =>
    Name.aliasWords aliasName ++ name.word :: (Argument.listWords arguments ++
      (Directive.listWords directives ++ SelectionSet.optionalWords selectionSet))
  | .spread name directives _ => .mark .spread :: name.word :: Directive.listWords directives
  | .inline condition directives selectionSet _ =>
    .mark .spread :: (TypeName.conditionWords condition ++
      (Directive.listWords directives ++ selectionSet.words))

def SelectionSet.words : SelectionSet → List Word
  | .mk selections _ => .mark .braceL :: (Selection.listWords selections ++ [.mark .braceR])

def SelectionSet.optionalWords : Option SelectionSet → List Word
  | none => []
  | some selectionSet => selectionSet.words

def Selection.listWords : List Selection → List Word
  | [] => []
  | selection :: selections => selection.words ++ Selection.listWords selections

end

theorem Selection.listWords_eq (selections : List Selection) :
    Selection.listWords selections = (selections.map Selection.words).flatten := by
  induction selections with
  | nil => rw [Selection.listWords]; rfl
  | cons selection selections ih =>
    rw [Selection.listWords, ih, List.map_cons, List.flatten_cons]

def Name.optionalWords : Option Name → List Word
  | none => []
  | some name => [name.word]

def OperationDefinition.words (definition : OperationDefinition) : List Word :=
  .name definition.operation.text :: (Name.optionalWords definition.name ++
    (Word.encloseIfAny .parenL .parenR
        (definition.variableDefinitions.map VariableDefinition.words) ++
      (Directive.listWords definition.directives ++ definition.selectionSet.words)))

def FragmentDefinition.words (definition : FragmentDefinition) : List Word :=
  .name "fragment" :: definition.name.word :: .name "on" :: definition.condition.word ::
    (Directive.listWords definition.directives ++ definition.selectionSet.words)

def OperationTypeDefinition.words (definition : OperationTypeDefinition) : List Word :=
  [.name definition.operation.text, .mark .colon, definition.type.word]

def SchemaDefinition.words (definition : SchemaDefinition) : List Word :=
  .name "schema" :: (Directive.listWords definition.directives ++
    Word.enclose .braceL .braceR (definition.operationTypes.map OperationTypeDefinition.words))

def StringValue.descriptionWords : Option StringValue → List Word
  | none => []
  | some literal => [literal.word]

def InputValueDefinition.words (definition : InputValueDefinition) : List Word :=
  StringValue.descriptionWords definition.description ++ definition.name.word :: .mark .colon ::
    (definition.type.words ++
      (Value.defaultWords definition.defaultValue ++ Directive.listWords definition.directives))

def FieldDefinition.words (definition : FieldDefinition) : List Word :=
  StringValue.descriptionWords definition.description ++ definition.name.word ::
    (Word.encloseIfAny .parenL .parenR (definition.arguments.map InputValueDefinition.words) ++
      .mark .colon :: (definition.type.words ++ Directive.listWords definition.directives))

def EnumValueDefinition.words (definition : EnumValueDefinition) : List Word :=
  StringValue.descriptionWords definition.description ++
    definition.name.word :: Directive.listWords definition.directives

/-- Types behind a word that opens the list, with delimiters between them. -/
def TypeName.listWords (opening : Word) (delimiter : Punctuator) : List TypeName → List Word
  | [] => []
  | first :: others =>
    opening :: first.word :: others.flatMap fun type => [.mark delimiter, type.word]

namespace TypeBody

/-- What stands between the name of the type and its directives. -/
def upperWords : TypeBody → List Word
  | .object interfaces _ => TypeName.listWords (.name "implements") .amp interfaces
  | _ => []

/-- What stands behind the directives. -/
def lowerWords : TypeBody → List Word
  | .scalar => []
  | .object _ fields | .interface fields =>
    Word.encloseIfAny .braceL .braceR (fields.map FieldDefinition.words)
  | .union members => TypeName.listWords (.mark .equals) .pipe members
  | .enum values => Word.encloseIfAny .braceL .braceR (values.map EnumValueDefinition.words)

end TypeBody

def TypeDefinition.words (definition : TypeDefinition) : List Word :=
  StringValue.descriptionWords definition.description ++ .name definition.body.keyword ::
    definition.name.word :: (definition.body.upperWords ++
      (Directive.listWords definition.directives ++ definition.body.lowerWords))

def Definition.words : Definition → List Word
  | .operation definition => definition.words
  | .fragment definition => definition.words
  | .schema definition => definition.words
  | .type definition => definition.words

def Document.words (document : Document) : List Word :=
  document.definitions.flatMap Definition.words

/-- The written form of a document. -/
def Document.print (document : Document) : Text := Word.join document.words

/-- No locations, and nothing else changed. -/
def Revision.unlocated : Revision := ⟨fun _ => none, id⟩

theorem Revision.selections_eq (revision : Revision) (items : List Selection) :
    revision.selections items = items.map revision.selection := by
  induction items with
  | nil => rw [Revision.selections]; rfl
  | cons first others ih => rw [Revision.selections, ih, List.map_cons]

/-! Well-formed documents -/

/-- The tokens of a value: a number, a string or a name, a variable, a list of values, or an object
with values behind names. Only a value that need not be constant may have variables in it. -/
inductive IsValue (const : Bool) : List Lexeme → Prop where
  | single {lexeme : Lexeme} (hkind : lexeme.kind ∈ [.int, .float, .string, .name]) :
    IsValue const [lexeme]
  | reference (text : String) (hconst : const = false) :
    IsValue const [.punctuator .dollar, .name text]
  | list {items : List (List Lexeme)} (hitems : ∀ item ∈ items, IsValue const item) :
    IsValue const (enclosed .bracketL .bracketR items)
  | object {entries : List (String × List Lexeme)}
    (hentries : ∀ entry ∈ entries, IsValue const entry.2) :
    IsValue const (enclosed .braceL .braceR
      (entries.map fun entry => .name entry.1 :: .punctuator .colon :: entry.2))

def Name.WellFormed (name : Name) : Prop := IsName name.value

/-- The text is a string literal, and the value is what it stands for. -/
structure StringValue.WellFormed (literal : StringValue) : Prop where
  text : IsTokenText literal.text
  value : lexemesOf literal.text = [.string literal.value]

/-- A single string is never kept as plain text. -/
inductive Value.WellFormed (const : Bool) : Value → Prop where
  | plain {text : Text} {loc : Option Location} (htext : IsTokenText text)
      (hvalue : IsValue const (lexemesOf text))
      (hplain : ∀ value, lexemesOf text ≠ [.string value]) :
      Value.WellFormed const (.plain text loc)
  | string {literal : StringValue} (hliteral : literal.WellFormed) :
      Value.WellFormed const (.string literal)

structure Argument.WellFormed (const : Bool) (argument : Argument) : Prop where
  name : argument.name.WellFormed
  value : argument.value.WellFormed const

structure Directive.WellFormed (const : Bool) (directive : Directive) : Prop where
  name : directive.name.WellFormed
  arguments : ∀ argument ∈ directive.arguments, argument.WellFormed const

def TypeName.WellFormed (type : TypeName) : Prop := type.name.WellFormed

def TypeExpr.isNonNull : TypeExpr → Bool
  | .nonNull _ _ => true
  | _ => false

inductive TypeExpr.WellFormed : TypeExpr → Prop where
  | named {type : TypeName} (htype : type.WellFormed) : TypeExpr.WellFormed (.named type)
  | list {item : TypeExpr} {loc : Option Location} (hitem : item.WellFormed) :
      TypeExpr.WellFormed (.list item loc)
  | nonNull {item : TypeExpr} {loc : Option Location} (hitem : item.WellFormed)
      (hnullable : item.isNonNull = false) : TypeExpr.WellFormed (.nonNull item loc)

structure VariableDefinition.WellFormed (definition : VariableDefinition) : Prop where
  name : definition.name.WellFormed
  type : definition.type.WellFormed
  defaultValue : ∀ value ∈ definition.defaultValue, value.WellFormed true
  directives : ∀ directive ∈ definition.directives, directive.WellFormed true

/-- A fragment's name is any name but `on`. -/
structure Name.NamesFragment (name : Name) : Prop where
  wellFormed : name.WellFormed
  ne_on : name.value ≠ "on"

mutual

inductive Selection.WellFormed : Selection → Prop where
  | field {aliasName : Option Name} {name : Name} {arguments : List Argument}
      {directives : List Directive} {selectionSet : Option SelectionSet} {loc : Option Location}
      (halias : ∀ other ∈ aliasName, other.WellFormed) (hname : name.WellFormed)
      (harguments : ∀ argument ∈ arguments, argument.WellFormed false)
      (hdirectives : ∀ directive ∈ directives, directive.WellFormed false)
      (hset : ∀ set ∈ selectionSet, set.WellFormed) :
      Selection.WellFormed (.field aliasName name arguments directives selectionSet loc)
  | spread {name : Name} {directives : List Directive} {loc : Option Location}
      (hname : name.NamesFragment)
      (hdirectives : ∀ directive ∈ directives, directive.WellFormed false) :
      Selection.WellFormed (.spread name directives loc)
  | inline {condition : Option TypeName} {directives : List Directive}
      {selectionSet : SelectionSet} {loc : Option Location}
      (hcondition : ∀ type ∈ condition, type.WellFormed)
      (hdirectives : ∀ directive ∈ directives, directive.WellFormed false)
      (hset : selectionSet.WellFormed) :
      Selection.WellFormed (.inline condition directives selectionSet loc)

inductive SelectionSet.WellFormed : SelectionSet → Prop where
  | mk {selections : List Selection} {loc : Option Location} (hne : selections ≠ [])
      (hselections : ∀ selection ∈ selections, selection.WellFormed) :
      SelectionSet.WellFormed (.mk selections loc)

end

structure OperationDefinition.WellFormed (definition : OperationDefinition) : Prop where
  name : ∀ name ∈ definition.name, name.WellFormed
  variableDefinitions : ∀ inner ∈ definition.variableDefinitions, inner.WellFormed
  directives : ∀ directive ∈ definition.directives, directive.WellFormed false
  selectionSet : definition.selectionSet.WellFormed

structure FragmentDefinition.WellFormed (definition : FragmentDefinition) : Prop where
  name : definition.name.NamesFragment
  condition : definition.condition.WellFormed
  directives : ∀ directive ∈ definition.directives, directive.WellFormed false
  selectionSet : definition.selectionSet.WellFormed

def OperationTypeDefinition.WellFormed (definition : OperationTypeDefinition) : Prop :=
  definition.type.WellFormed

structure SchemaDefinition.WellFormed (definition : SchemaDefinition) : Prop where
  directives : ∀ directive ∈ definition.directives, directive.WellFormed true
  operationTypes : ∀ inner ∈ definition.operationTypes, inner.WellFormed
  ne_nil : definition.operationTypes ≠ []

structure InputValueDefinition.WellFormed (definition : InputValueDefinition) : Prop where
  description : ∀ literal ∈ definition.description, literal.WellFormed
  name : definition.name.WellFormed
  type : definition.type.WellFormed
  defaultValue : ∀ value ∈ definition.defaultValue, value.WellFormed true
  directives : ∀ directive ∈ definition.directives, directive.WellFormed true

structure FieldDefinition.WellFormed (definition : FieldDefinition) : Prop where
  description : ∀ literal ∈ definition.description, literal.WellFormed
  name : definition.name.WellFormed
  arguments : ∀ argument ∈ definition.arguments, argument.WellFormed
  type : definition.type.WellFormed
  directives : ∀ directive ∈ definition.directives, directive.WellFormed true

structure EnumValueDefinition.WellFormed (definition : EnumValueDefinition) : Prop where
  description : ∀ literal ∈ definition.description, literal.WellFormed
  name : definition.name.WellFormed
  directives : ∀ directive ∈ definition.directives, directive.WellFormed true

def TypeBody.WellFormed : TypeBody → Prop
  | .scalar => True
  | .object interfaces fields =>
    (∀ type ∈ interfaces, type.WellFormed) ∧ ∀ field ∈ fields, field.WellFormed
  | .interface fields => ∀ field ∈ fields, field.WellFormed
  | .union members => ∀ type ∈ members, type.WellFormed
  | .enum values => ∀ value ∈ values, value.WellFormed

structure TypeDefinition.WellFormed (definition : TypeDefinition) : Prop where
  description : ∀ literal ∈ definition.description, literal.WellFormed
  name : definition.name.WellFormed
  directives : ∀ directive ∈ definition.directives, directive.WellFormed true
  body : definition.body.WellFormed

def Definition.WellFormed : Definition → Prop
  | .operation definition => definition.WellFormed
  | .fragment definition => definition.WellFormed
  | .schema definition => definition.WellFormed
  | .type definition => definition.WellFormed

structure Document.WellFormed (document : Document) : Prop where
  ne_nil : document.definitions ≠ []
  definitions : ∀ definition ∈ document.definitions, definition.WellFormed

end QueryLint
