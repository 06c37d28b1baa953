import QueryLint.Schema.Basic
import QueryLint.Scope

/-!
Scopes over the types of a schema: how the nodes of a document lead from type to type, and how a
selected field is looked up.
-/

namespace QueryLint

namespace Schema

def reader (schema : Schema) : TypeReader TypeRef FieldDef where
  base type := .named type.base
  isComposite
    | .named id => (schema.type id).isComposite
    | _ => false
  isOutput type := (schema.type type.base).isOutput
  fieldType := FieldDef.type

/-- The meta field of a name that can be selected on a type. -/
def metaField? (schema : Schema) (parent : TypeId) (name : String) : Option FieldDef :=
  if name = "__typename" then
    if (schema.type parent).isComposite then some Standard.typenameField else none
  else if schema.query = some parent then
    if name = "__schema" then some Standard.schemaField
    else if name = "__type" then some Standard.typeField
    else none
  else none

/-- The definition of a field selected on a type. Every composite type has `__typename`, and only
the query root has `__schema` and `__type`. -/
def field? (schema : Schema) (parent : TypeId) (name : String) : Option FieldDef :=
  schema.metaField? parent name <|> (schema.type parent).fields.find? name

end Schema

/-- A way to look up the field that a node selects on a type. -/
abbrev FieldLookup := TypeRef → Tree → Option FieldDef

/-- The name of the field that a node selects. -/
def Tree.fieldName? (tree : Tree) : Option String :=
  (tree.child? "name").bind fun name =>
    match name.data.content with
    | .name value => some value
    | _ => none

def Schema.lookup (schema : Schema) : FieldLookup
  | .named parent, tree => tree.fieldName?.bind (schema.field? parent)
  | _, _ => none

/-- The name of the type that a fragment asks for. -/
def Tree.conditionName? (tree : Tree) : Option String :=
  (tree.child? "type_condition").bind fieldName?

/-- What entering a node of a document does to the scope. -/
def Schema.step (schema : Schema) (lookup : FieldLookup) (tree : Tree) :
    ScopeStep TypeRef FieldDef :=
  match tree.kind with
  | .operationDefinition =>
    match tree.data.content with
    | .operation type => .own ((schema.root type).map .named)
    | _ => .own none
  | .fragmentDefinition | .inlineFragment =>
    match tree.conditionName? with
    | some name => .own ((schema.find? name).map .named)
    | none => .inherit
  | .selectionSet => .selections
  | .field => .field fun parent => lookup parent tree
  | _ => .pass

abbrev TypeScope := Scope TypeRef FieldDef

/-- Keeps track of the types of a schema while passing each node on to a visitor. -/
def Schema.visitor {ε σ : Type} (schema : Schema) (lookup : FieldLookup)
    (inner : TypeScope → Visitor ε σ) : Visitor (ScopedError ε) (TypeScope × σ) :=
  .scoped schema.reader (schema.step lookup) inner

end QueryLint
