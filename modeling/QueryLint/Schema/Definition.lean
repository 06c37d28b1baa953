import QueryLint.Schema.Basic
import QueryLint.Schema.Name

/-!
Schemas from definitions. The type definitions of a document become the types of its schema, and
names in them are looked up among the built-in scalars and these definitions. A definition under
the name of a built-in scalar stands for that scalar. The root types are those of the last schema
definition, or without one the types named `Query`, `Mutation` and `Subscription`.
-/

namespace QueryLint

inductive SchemaError where
  | badName (fault : NameFault)
  | repeated (name : String)
  | unknown (name : String)
  | nestedNonNull (type : String)
  | unresolved (owner : String) (part : Part) (cause : SchemaError)
  | notInterfaces (owner : String)
  | notObjects (owner : String)
  | rootNotObject (operation : OperationType)
  | clash (name : String)
  deriving DecidableEq

namespace SchemaError

def message : SchemaError → String
  | .badName fault => fault.message
  | .repeated name => "Type '" ++ name ++ "' was defined more than once."
  | .unknown name => "Unknown type: '" ++ name ++ "'."
  | .nestedNonNull type =>
    "Can only create NonNull of a Nullable GraphQLType but got: " ++ type ++ "."
  | .unresolved owner part cause =>
    owner ++ " " ++ part.text ++ " cannot be resolved. " ++ cause.message
  | .notInterfaces owner => owner ++ " interfaces must be Interface types."
  | .notObjects owner => owner ++ " types must be Object types."
  | .rootNotObject operation => "Expected " ++ operation.text ++ " to be a GraphQL Object type."
  | .clash name =>
    "Schema must contain uniquely named types but contains multiple types named '" ++ name ++ "'."

/-- Whether the definitions break a rule on names, which is reported like other problems of a
document, rather than failing to make up a schema. -/
def isReport : SchemaError → Bool
  | .badName _ => true
  | .unresolved _ _ cause => cause.isReport
  | _ => false

end SchemaError

namespace TypeDefinition

/-- Checks the names that are known without looking up any other type. -/
def checkNames (definition : TypeDefinition) : Except NameFault Unit := do
  checkName definition.name.value
  match definition.body with
  | .enum values => values.forM fun value => checkName value.name.value
  | _ => return ()

end TypeDefinition

def defaultDeprecation : Text := "No longer supported"

def Argument.reason? (argument : Argument) : Option Text :=
  match argument.value with
  | .string literal => if argument.name.value = "reason" then some literal.value else none
  | .plain _ _ => none

/-- The reason given by the first directive that deprecates a field. -/
def FieldDefinition.deprecation? (field : FieldDefinition) : Option Text :=
  (field.directives.find? (·.name.value == "deprecated")).map fun directive =>
    (directive.arguments.findSome? Argument.reason?).getD defaultDeprecation

def describe (description : Option StringValue) : Option Text := description.map (·.value)

/-- The name that the root type of an operation has unless a schema definition names another. -/
def OperationType.customaryType : OperationType → String
  | .query => "Query"
  | .mutation => "Mutation"
  | .subscription => "Subscription"

/-- The type definitions of a document, with the identities under their names. -/
structure Definitions where
  types : List TypeDefinition
  names : OrderedMap TypeId

namespace Definitions

/-- Gives an identity to each type definition; the standard types come first. -/
def nameAll : Nat → OrderedMap TypeId → List TypeDefinition →
    Except SchemaError (OrderedMap TypeId)
  | _, names, [] => .ok names
  | position, names, definition :: definitions => do
    let name := definition.name.value
    if names.contains name then throw (.repeated name)
    match Standard.scalar? name with
    | some id => nameAll (position + 1) (names.insert name id) definitions
    | none =>
      definition.checkNames.mapError .badName
      nameAll (position + 1) (names.insert name (Standard.types.length + position)) definitions

def ofList (types : List TypeDefinition) : Except SchemaError Definitions := do
  return ⟨types, ← nameAll 0 [] types⟩

variable (definitions : Definitions)

def lookup (name : String) : Except SchemaError TypeId :=
  match Standard.scalar? name <|> definitions.names.find? name with
  | some id => .ok id
  | none => .error (.unknown name)

/-- The definition behind an identity. -/
def body? (id : TypeId) : Option TypeBody :=
  if id < Standard.types.length then none
  else definitions.types[id - Standard.types.length]?.map (·.body)

def nameOf (id : TypeId) : String :=
  if id < Standard.types.length then (Standard.types.type id).name
  else (definitions.types[id - Standard.types.length]?.map (·.name.value)).getD ""

def print : TypeRef → String
  | .named id => definitions.nameOf id
  | .list item => "[" ++ print item ++ "]"
  | .nonNull item => print item ++ "!"

def typeOf : TypeExpr → Except SchemaError TypeRef
  | .named type => .named <$> definitions.lookup type.name.value
  | .list item _ => .list <$> typeOf item
  | .nonNull item _ => do
    match ← typeOf item with
    | .nonNull inner => throw (.nestedNonNull (definitions.print (.nonNull inner)))
    | type => return .nonNull type

def argumentMap (arguments : List InputValueDefinition) :
    Except SchemaError (OrderedMap ArgumentDef) :=
  arguments.foldlM (fun map argument => do
    let type ← definitions.typeOf argument.type
    return map.insert argument.name.value
      { type, description := describe argument.description, definition := some argument }) []

def fieldDef (field : FieldDefinition) : Except SchemaError FieldDef := do
  let type ← definitions.typeOf field.type
  let arguments ← definitions.argumentMap field.arguments
  arguments.names.forM fun name => (checkName name).mapError .badName
  return {
    type
    arguments
    description := describe field.description
    deprecation := field.deprecation?
    definition := some field }

/-- The fields under their names. A name keeps its first place and takes its last definition. -/
def fieldMap (fields : List FieldDefinition) : Except SchemaError (OrderedMap FieldDef) :=
  fields.foldlM (fun map field => do
    return map.insert field.name.value (← definitions.fieldDef field)) []

/-- The fields of a type; their names are checked when all of them are known. -/
def fieldsOf (owner : String) (fields : List FieldDefinition) :
    Except SchemaError (OrderedMap FieldDef) := do
  let map ← (definitions.fieldMap fields).mapError (.unresolved owner .fields)
  map.names.forM fun name => (checkName name).mapError .badName
  return map

def isInterface (id : TypeId) : Bool := definitions.body? id matches some (.interface _)

def isObject (id : TypeId) : Bool := definitions.body? id matches some (.object _ _)

def interfacesOf (owner : String) (interfaces : List TypeName) :
    Except SchemaError (List TypeId) := do
  let ids ← (interfaces.mapM fun type => definitions.lookup type.name.value).mapError
    (.unresolved owner .interfaces)
  if ids.all definitions.isInterface then return ids else throw (.notInterfaces owner)

def membersOf (owner : String) (members : List TypeName) : Except SchemaError (List TypeId) := do
  let ids ← (members.mapM fun type => definitions.lookup type.name.value).mapError
    (.unresolved owner .types)
  if ids.all definitions.isObject then return ids else throw (.notObjects owner)

/-- What went wrong, if anything. -/
def faultOf {α : Type} : Except SchemaError α → Option SchemaError
  | .ok _ => none
  | .error error => some error

/-- The type that a definition describes, with what is wrong about its parts. -/
def draft (definition : TypeDefinition) : TypeDraft SchemaError :=
  let owner := definition.name.value
  let withShape (shape : TypeShape) : NamedType :=
    { name := owner
      description := describe definition.description
      definition := some definition
      shape }
  match definition.body with
  | .scalar => { type := withShape .scalar }
  | .enum values => { type := withShape (.enum (values.map (·.name.value))) }
  | .object interfaces fields =>
    let interfaces := definitions.interfacesOf owner interfaces
    let fields := definitions.fieldsOf owner fields
    { type := withShape (.object (interfaces.toOption.getD []) (fields.toOption.getD []))
      fault := fun
        | .interfaces => faultOf interfaces
        | .fields => faultOf fields
        | .types => none }
  | .interface fields =>
    let fields := definitions.fieldsOf owner fields
    { type := withShape (.interface (fields.toOption.getD []))
      fault := fun
        | .fields => faultOf fields
        | _ => none }
  | .union members =>
    let members := definitions.membersOf owner members
    { type := withShape (.union (members.toOption.getD []))
      fault := fun
        | .types => faultOf members
        | _ => none }

def graph : TypeGraph SchemaError :=
  Standard.types.map (fun type => { type := type }) ++ definitions.types.map definitions.draft

/-- The root types of a schema definition, the last entry for each operation. -/
def rootsOf (schema : SchemaDefinition) : Except SchemaError Roots :=
  schema.operationTypes.foldlM (fun roots entry => do
    let id ← definitions.lookup entry.type.name.value
    return match entry.operation with
      | .query => { roots with query := some id }
      | .mutation => { roots with mutation := some id }
      | .subscription => { roots with subscription := some id }) {}

/-- The types with the customary names. -/
def customaryRoots : Roots where
  query := definitions.names.find? OperationType.query.customaryType
  mutation := definitions.names.find? OperationType.mutation.customaryType
  subscription := definitions.names.find? OperationType.subscription.customaryType

end Definitions

def AssemblyError.toSchemaError : AssemblyError SchemaError → SchemaError
  | .notObject operation => .rootNotObject operation
  | .unreadable error => error
  | .clash name => .clash name

/-- The schema that type definitions and perhaps a schema definition describe. -/
def Schema.ofDefinitions (types : List TypeDefinition) (schema : Option SchemaDefinition) :
    Except SchemaError Schema := do
  let definitions ← Definitions.ofList types
  let roots ← match schema with
    | some schema => definitions.rootsOf schema
    | none => pure definitions.customaryRoots
  (definitions.graph.assemble (definitions.names.map (·.2)) roots schema).mapError
    AssemblyError.toSchemaError

namespace Document

def typeDefinitions (document : Document) : List TypeDefinition :=
  document.definitions.filterMap fun
    | .type definition => some definition
    | _ => none

def schemaDefinitions (document : Document) : List SchemaDefinition :=
  document.definitions.filterMap fun
    | .schema definition => some definition
    | _ => none

/-- The schema that a document describes. -/
def schema (document : Document) : Except SchemaError Schema :=
  Schema.ofDefinitions document.typeDefinitions document.schemaDefinitions.getLast?

end Document

end QueryLint
