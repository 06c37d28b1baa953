import QueryLint.Schema.Definition
import QueryLint.Workbench.Types

/-!
Types read off the nodes that define them, which came from a source or were made by hand. What such
nodes hold is only looked at when it is needed, and attributes that count as nothing are left out.
Names are looked up among the built-in scalars and the types that a document defines.
-/

namespace QueryLint.Workbench

/-- Fails the way that definitions fail to make a schema. -/
def failSchema {α : Type} (error : SchemaError) : Session α :=
  if error.isReport then fail error.message else misuse error.message

/-- What stands as the name of a node. -/
def nameOf (node : Datum) : Session Datum := do attr (← attr node "name") "value"

/-- What an attribute of a node holds one after the other, if it holds anything. -/
def itemsOf (node : Datum) (name : String) : Session (List Datum) := do
  optionalMembers (← attr node name)

/-- What the description of a node says, if it has one. -/
def descriptionOf (node : Datum) : Session Datum := do
  let description ← attr node "description"
  if description.isSome then attr description "value" else return .null

/-- The type that the name of a node stands for. -/
def typeNamed (names : OrderedMap TypeId) (node : Datum) : Session Datum := do
  let name ← nameOf node
  match name.string?.bind fun name => Standard.scalar? name <|> names.find? name with
  | some id => return .type id
  | none => misuse ("Unknown type: '" ++ (← print name) ++ "'.")

/-- The type that a type expression stands for. -/
def typeDefined (names : OrderedMap TypeId) : Datum → Session Datum
  | .node _ (.exact .listType) [_, item] => do
    makeModified .list (← typeDefined names item)
  | .node _ (.exact .nonNullType) [_, item] => do
    makeModified .nonNull (← typeDefined names item)
  | node => typeNamed names node

/-- The reason among the arguments of a directive that deprecates a field. -/
def reasonAmong : List Datum → Session Datum
  | [] => return .text defaultDeprecation
  | argument :: arguments => do
    if (← nameOf argument).equal (.ofString "reason") then
      match ← attr argument "value" with
      | .node _ (.exact .stringValue) [_, _, value] => return value
      | _ => reasonAmong arguments
    else reasonAmong arguments

/-- Whether a directive deprecates a field. -/
def deprecates (directive : Datum) : Session Bool :=
  return (← nameOf directive).equal (.ofString "deprecated")

/-- The reason given by the first directive that deprecates a field. -/
def deprecationOf (node : Datum) : Session Datum := do
  match ← (← itemsOf node "directives").findM? deprecates with
  | some directive => do reasonAmong (← itemsOf directive "arguments")
  | none => return .null

/-- A map of what each node makes, under the names of the nodes. A name keeps its first place and
takes what is made last. -/
def mapByName (make : Datum → Session Datum) (nodes : List Datum) : Session Datum := do
  let entries ← nodes.foldlM (fun entries node => do
    let value ← make node
    return (Entry.mk (← nameOf node) value).insert entries) []
  makeMap entries

def argumentDefined (names : OrderedMap TypeId) (node : Datum) : Session Datum := do
  let type ← typeDefined names (← attr node "type")
  makeArgument type (← descriptionOf node) node

def fieldDefined (names : OrderedMap TypeId) (node : Datum) : Session Datum := do
  let type ← typeDefined names (← attr node "type")
  let description ← descriptionOf node
  let arguments ← mapByName (argumentDefined names) (← itemsOf node "arguments")
  makeField type arguments description (← deprecationOf node) node

/-- A part of a type as its definition gives it. -/
def partDefined (names : OrderedMap TypeId) (node : Datum) : Part → Session Datum
  | .fields => do mapByName (fieldDefined names) (← itemsOf node "fields")
  | .interfaces => do makeList (← (← itemsOf node "interfaces").mapM (typeNamed names))
  | .types => do makeList (← (← itemsOf node "types").mapM (typeNamed names))

/-- What kind of type a node defines. -/
def familyDefined? : Datum → Option TypeFamily
  | .node _ (.exact .scalarTypeDefinition) _ => some .scalar
  | .node _ (.exact .objectTypeDefinition) _ => some .object
  | .node _ (.exact .interfaceTypeDefinition) _ => some .interface
  | .node _ (.exact .unionTypeDefinition) _ => some .union
  | .node _ (.exact .enumTypeDefinition) _ => some .enum
  | _ => none

/-- Puts the type that a node defines on the bench, its parts apart. -/
def addDefined (node : Datum) : Session TypeId := do
  match familyDefined? node with
  | none => misuse ("Unexpected type definition node: " ++ (← display node) ++ ".")
  | some family =>
    let values ← if family = .enum
      then makeList (← (← itemsOf node "values").mapM nameOf) else pure .null
    let record ← makeTypeRecord family (← nameOf node) (← descriptionOf node) node
    if family = .enum then
      addType { record with values := ← makeEnumValues record.name values }
    else addType record

/-- Puts the types that nodes define on the bench, and adds them to those under their names. A node
with the name of a built-in scalar stands for that scalar. -/
def addAllDefined : OrderedMap TypeId → List Datum → Session (OrderedMap TypeId)
  | names, [] => return names
  | names, node :: nodes => do
    let name := (← nameOf node).string?
    if name.any names.contains then failSchema (.repeated (name.getD ""))
    let id ← match name.bind Standard.scalar? with
      | some id => pure id
      | none => addDefined node
    addAllDefined (names.insert (name.getD "") id) nodes

/-- Says of the types from a place on that their parts are to be read off their definitions. -/
def linkDefined (start : TypeId) (names : OrderedMap TypeId) : Session Unit :=
  modify fun bench => { bench with
    types := bench.types.mapIdx fun id record =>
      if start ≤ id then { record with member := fun _ => .defined names } else record }

/-- Puts the types that nodes define on the bench, their parts to be read off their definitions, and
gives what their names stand for. -/
def defineAll (nodes : List Datum) : Session (OrderedMap TypeId) := do
  let start := (← get).types.length
  let names ← addAllDefined [] nodes
  linkDefined start names
  return names

end QueryLint.Workbench
