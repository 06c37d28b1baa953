import QueryLint.Workbench.Documents
import QueryLint.Workbench.Members

/-!
Schemas made by hand or from documents, and what can be asked of them.
-/

namespace QueryLint.Workbench

/-! Finished types, which are what they are from the start -/

def importRef : TypeRef → Session Datum
  | .named id => return .type id
  | .list item => do
    let item ← importRef item
    return .modified (← fresh) .list item
  | .nonNull item => do
    let item ← importRef item
    return .modified (← fresh) .nonNull item

def importArgument (argument : ArgumentDef) : Session Datum := do
  let type ← importRef argument.type
  return .argument (← fresh) type (.ofText? argument.description) .null

/-- An argument under its name. Arguments that are shared are not made anew. -/
def importArgumentEntry (shared : OrderedMap Datum) (entry : String × ArgumentDef) :
    Session Entry := do
  match shared.find? entry.1 with
  | some argument => return .named entry.1 argument
  | none => return .named entry.1 (← importArgument entry.2)

def importField (shared : OrderedMap Datum) (field : FieldDef) : Session Datum := do
  let type ← importRef field.type
  let arguments ← makeMap (← field.arguments.mapM (importArgumentEntry shared))
  return .field (← fresh) type arguments (.ofText? field.description) (.ofText? field.deprecation)
    .null

def importTypes (ids : List TypeId) : Session Datum := makeTuple (ids.map .type)

/-- The record of a finished type. -/
def importType (shared : OrderedMap Datum) (type : NamedType) : Session TypeRecord := do
  let fields ← makeMap (← type.fields.mapM fun (name, field) => do
    return .named name (← importField shared field))
  let interfaces ← importTypes type.interfaces
  let members ← importTypes type.members
  let values ← match type.shape with
    | .enum values => makeTuple (values.map .ofString)
    | _ => pure .null
  let family : TypeFamily := match type.shape with
    | .bare => .named
    | .scalar => .scalar
    | .enum _ => .enum
    | .object _ _ => .object
    | .interface _ => .interface
    | .union _ => .union
  return {
    family
    introspective := type.introspective
    name := type.name
    description := .ofText? type.description
    values
    member := fun
      | .fields => .known fields
      | .interfaces => .known interfaces
      | .types => .known members }

/-- The bench at the start of a session: the standard types with the meta fields. -/
def Bench.initial (ruleDisplay : String) : Bench :=
  let setUp : Session Unit := do
    let (name, argument) := Standard.includeDeprecated
    let shared := [(name, ← importArgument argument)]
    Standard.types.forM fun type => do discard (addType (← importType shared type))
    let metaFields ← Standard.metaFields.mapM fun (name, field) => do
      return (name, ← importField [] field)
    modify fun bench => { bench with metaFields }
  ((setUp.run fun _ => throw (.fault .meaningless [])).run.run { ruleDisplay := ruleDisplay }).2

/-! Making schemas -/

/-- Puts a schema on the bench. -/
def addSchema (schema : Schema) (root : OperationType → Datum) (description definition : Datum) :
    Session Datum := do
  let typeMap ← makeMap (schema.types.map fun id => .named (schema.name id) (.type id))
  let implementations ← schema.implementationIndex.mapM fun (name, objects) => do
    let objects ← makeList (objects.map .type)
    return (name, Datum.implementations (← fresh) objects)
  let bench ← get
  let record : SchemaRecord := { schema, root, description, definition, typeMap, implementations }
  set { bench with schemas := bench.schemas ++ [record] }
  return .schema bench.schemas.length

/-- So many parts of types may be worked out for one schema. -/
def assemblyLimit : Nat := 10000

/-- Collects types into a schema, working out their parts as they are needed. -/
def assemble (given : List TypeId) (roots : Roots) : Nat → Session Schema
  | 0 => meaningless
  | rounds + 1 => do
    match (← get).graph.assemble given roots with
    | .ok schema => return schema
    | .error (.notObject operation) => failSchema (.rootNotObject operation)
    | .error (.clash name) => failSchema (.clash name)
    | .error (.unreadable (id, part)) =>
      discard (resolve id part)
      assemble given roots rounds

/-- A root type, if anything is given as one. -/
def rootId? (operation : OperationType) (root : Datum) : Session (Option TypeId) := do
  match root with
  | .type id =>
    if (← get).test .object root then return some id else failSchema (.rootNotObject operation)
  | _ => if root.isSome then failSchema (.rootNotObject operation) else return none

/-- A schema of the types given and all that they bring along. -/
def makeSchema (root : OperationType → Datum) (types description definition : Datum) :
    Session Datum := do
  let query ← rootId? .query (root .query)
  let mutation ← rootId? .mutation (root .mutation)
  let subscription ← rootId? .subscription (root .subscription)
  let bench ← get
  let items := types.sequence?.getD []
  if !types.isNull && (types.sequence?.isNone || !items.all (bench.test .named)) then
    misuse "Schema types must be specified as a collection of GraphQL types."
  let schema ← assemble types.typeIds { query, mutation, subscription } assemblyLimit
  addSchema schema root description definition

def Datum.isSchemaDefinition : Datum → Bool
  | .node _ cls _ => cls = .exact .schemaDefinition
  | _ => false

def Datum.isDocument : Datum → Bool
  | .node _ cls _ => cls = .exact .document
  | _ => false

/-- The root types of a schema definition, the last entry for each operation. -/
def rootsDefined (names : OrderedMap TypeId) (node : Datum) :
    Session (OperationType → Datum) := do
  (← itemsOf node "operation_types").foldlM (fun root entry => do
    let operation ← attr entry "operation"
    let type ← typeNamed names (← attr entry "type")
    return fun asked => if operation.same (.operation asked) then type else root asked)
    fun _ => .null

/-- The types with the customary names. -/
def customaryRoots (names : OrderedMap TypeId) (operation : OperationType) : Datum :=
  ((names.find? operation.customaryType).map .type).getD .null

/-- The schema that a document describes. -/
def schemaOfDocument (document : Datum) : Session Datum := do
  unless document.isDocument do misuse "Must provide valid Document AST."
  let nodes ← members (← attr document "definitions")
  let names ← defineAll (nodes.filter (·.isTypeDefinition))
  let schemaNode := (nodes.filter (·.isSchemaDefinition)).getLast?
  let root ← match schemaNode with
    | some node => rootsDefined names node
    | none => pure (customaryRoots names)
  let types ← makeList (names.map fun (_, id) => .type id)
  makeSchema root types .null (schemaNode.getD .null)

/-! Questions to a schema -/

def schemaRecord (schema : Datum) : Session SchemaRecord := do
  match schema with
  | .schema id =>
    match (← get).schemas[id]? with
    | some record => return record
    | none => meaningless
  | _ => meaningless

/-- A schema with all types on the bench as far as they are worked out. -/
def currentSchema (schema : Datum) : Session Schema := do
  let record ← schemaRecord schema
  return { record.schema with table := (← get).table }

/-- The type of a name. -/
def findType (schema name : Datum) : Session Datum := do
  let current ← currentSchema schema
  return match name.string?.bind current.find? with
    | some id => .type id
    | none => .null

/-- The root type for an operation, which is known by its value. -/
def rootType (schema operation : Datum) : Session Datum := do
  let value ← attr operation "value"
  match OperationType.all.find? fun type => value.equal (.ofString type.text) with
  | some type => return (← schemaRecord schema).root type
  | none => meaningless

/-- The objects that implement an interface, which is known by its name. -/
def implementationsOf (schema interface : Datum) : Session Datum := do
  let record ← schemaRecord schema
  match (← typedAttr interface "name").string?.bind record.implementations.find? with
  | some implementations => return implementations
  | none => return .implementations (← fresh) (← makeList [])

/-- The objects that a value of an abstract type can be. Whatever is no type but has a name is taken
for an interface. -/
def possibleTypesOf (schema type : Datum) : Session (List TypeId) := do
  match type with
  | .type id =>
    if (← get).test .union type then discard (resolve id .types)
    return (← currentSchema schema).possibleTypes id
  | _ =>
    let name ← attr type "name"
    return (name.string?.map (← currentSchema schema).implementations).getD []

/-- The type that a type expression stands for, if its name is known. -/
def typeOfNode (schema : Datum) : Datum → Session Datum
  | .node _ (.exact .namedType) [_, name] => do findType schema (← attr name "value")
  | .node _ (.exact .listType) [_, item] => do
    let item ← typeOfNode schema item
    if item.isNull then return .null else makeModified .list item
  | .node _ (.exact .nonNullType) [_, item] => do
    let item ← typeOfNode schema item
    if item.isNull then return .null else makeModified .nonNull item
  | _ => return .null

end QueryLint.Workbench
