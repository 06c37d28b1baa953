import QueryLint.Schema.Name
import QueryLint.Workbench.Errors

/-!
Types, fields and arguments made by hand. What they are given is checked when they are made.
-/

namespace QueryLint.Workbench

/-- Accepts a value that can name something in the type system. -/
def checkNameOf (value : Datum) (allowReserved : Bool := false) : Session String :=
  match value with
  | .text name =>
    match checkName name allowReserved with
    | .ok () => return name.toString?.getD ""
    | .error fault => fail fault.message
  | _ => misuse "Expected name to be a string."

def Datum.isTypeDefinition : Datum → Bool
  | .node _ cls _ => cls.isTypeDefinition
  | _ => false

/-- What is asked of the name, description and definition of every named type. -/
def makeTypeRecord (family : TypeFamily) (name description definition : Datum) :
    Session TypeRecord := do
  let name ← checkNameOf name
  unless description matches .null | .text _ do
    misuse "The description must be a string."
  if definition.isSome && !definition.isTypeDefinition then
    misuse (name ++ " AST node must be a TypeDefinitionNode.")
  return { family, name, description, definition }

/-- The names of the values of an enum. -/
def makeEnumValues (owner : String) (values : Datum) : Session Datum := do
  let names ← members values
  if values.text?.isSome || names.any (·.text?.isNone) then
    misuse (owner ++ " values must be a collection of names.")
  names.forM fun name => discard (checkNameOf name)
  makeTuple names

def makeModified (modifier : Modifier) (item : Datum) : Session Datum := do
  let bench ← get
  unless bench.test .type item do
    misuse ("Can only create a wrapper for a GraphQLType, but got: " ++ bench.display item ++ ".")
  if modifier = .nonNull ∧ bench.test .nonNull item then
    misuse ("Can only create NonNull of a Nullable GraphQLType but got: " ++ bench.print item ++
      ".")
  return .modified (← fresh) modifier item

def makeArgument (type : Datum) (description : Datum := .null) (definition : Datum := .null) :
    Session Datum := do
  unless (← get).test .type type do misuse "Argument type must be a GraphQL type."
  return .argument (← fresh) type description definition

/-- An argument under its name; a type alone makes an argument. -/
def makeArgumentEntry : Entry → Session Entry
  | .mk key value => do
    let argument ← match value with
      | .argument .. => pure value
      | _ => makeArgument value
    discard (checkNameOf key)
    return .mk key argument

def makeField (type : Datum) (arguments : Datum := .null) (description : Datum := .null)
    (deprecation : Datum := .null) (definition : Datum := .null) : Session Datum := do
  unless (← get).test .output type do misuse "Field type must be an output type."
  let entries ← match arguments with
    | .null => pure []
    | .map _ entries => pure entries
    | _ => misuse "Field args must be a dict with argument names as keys."
  let arguments ← makeMap (← entries.mapM makeArgumentEntry)
  return .field (← fresh) type arguments description deprecation definition

/-- A field under its name; an output type alone makes a field. -/
def makeFieldEntry : Entry → Session Entry
  | .mk key value => do
    discard (checkNameOf key)
    match value with
    | .field .. => return .mk key value
    | _ => return .mk key (← makeField value)

def makeFieldMap (owner : String) : Datum → Session Datum
  | .map _ entries => do makeMap (← entries.mapM makeFieldEntry)
  | _ => misuse (owner ++ " fields must be specified as a mapping with field names as keys.")

/-- The types in a value, all of which have to pass a test. A tuple stays the same tuple. -/
def makeTypeTuple (test : TypeTest) (complaint : String) (value : Datum) : Session Datum := do
  let items ← optionalMembers value
  let bench ← get
  unless items.all (bench.test test) do misuse complaint
  match value with
  | .tuple .. => return value
  | _ => makeTuple items

end QueryLint.Workbench
