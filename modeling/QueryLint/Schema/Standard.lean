import QueryLint.Schema.Type

/-!
The types that exist without being defined: the five built-in scalars, which schemas use under
their names, and the types of the introspection system with the meta fields that lead to them.
They come first in every table of types.
-/

namespace QueryLint

namespace Standard

def string : TypeId := 0
def int : TypeId := 1
def float : TypeId := 2
def boolean : TypeId := 3
def idType : TypeId := 4
def schema : TypeId := 5
def directive : TypeId := 6
def directiveLocation : TypeId := 7
def typeType : TypeId := 8
def field : TypeId := 9
def inputValue : TypeId := 10
def enumValue : TypeId := 11
def typeKind : TypeId := 12

def scalars : List TypeId := [string, int, float, boolean, idType]

def introspection : List TypeId :=
  [schema, directive, directiveLocation, typeType, field, inputValue, enumValue, typeKind]

def nonNull (id : TypeId) : TypeRef := .nonNull (.named id)

def listOf (id : TypeId) : TypeRef := .list (nonNull id)

def nonNullListOf (id : TypeId) : TypeRef := .nonNull (listOf id)

def plain (type : TypeRef) : FieldDef := { type := type }

/-- The argument that asks for deprecated items as well, under its name. -/
def includeDeprecated : String × ArgumentDef :=
  ("includeDeprecated",
    { type := .named boolean, description := some "Include deprecated items." })

def withDeprecated (type : TypeRef) : FieldDef where
  type
  arguments := [includeDeprecated]

def scalarType (name description : String) : NamedType where
  name
  description := some description
  shape := .scalar

def objectType (name description : String) (fields : OrderedMap FieldDef) : NamedType where
  name
  description := some description
  introspective := true
  shape := .object [] fields

def enumType (name description : String) (values : List String) : NamedType where
  name
  description := some description
  introspective := true
  shape := .enum values

def types : TypeTable := [
  scalarType "String" "Text as a sequence of UTF-8 characters.",
  scalarType "Int" "A signed whole number with 32 bits.",
  scalarType "Float" "A signed double-precision number.",
  scalarType "Boolean" "Either `true` or `false`.",
  scalarType "ID" "A unique identifier, serialized like a String but not meant to be read.",
  objectType "__Schema"
    "The types and directives a GraphQL server supports, with the entry points of its operations." [
    ("description", plain (.named string)),
    ("types", { type := nonNullListOf typeType, description := some "All types of the schema." }),
    ("queryType", plain (nonNull typeType)),
    ("mutationType", plain (.named typeType)),
    ("subscriptionType", plain (.named typeType)),
    ("directives", plain (nonNullListOf directive))],
  objectType "__Directive" "A directive with the places it can be used at." [
    ("name", plain (nonNull string)),
    ("description", plain (.named string)),
    ("isRepeatable", plain (nonNull boolean)),
    ("locations", plain (nonNullListOf directiveLocation)),
    ("args", withDeprecated (nonNullListOf inputValue))],
  enumType "__DirectiveLocation" "The places in a document where a directive can be used." [
    "QUERY", "MUTATION", "SUBSCRIPTION", "FIELD", "FRAGMENT_DEFINITION", "FRAGMENT_SPREAD",
    "INLINE_FRAGMENT", "VARIABLE_DEFINITION", "SCHEMA", "SCALAR", "OBJECT", "FIELD_DEFINITION",
    "ARGUMENT_DEFINITION", "INTERFACE", "UNION", "ENUM", "ENUM_VALUE", "INPUT_OBJECT",
    "INPUT_FIELD_DEFINITION"],
  objectType "__Type" "A named type or a list or non-null modifier of another type." [
    ("kind", plain (nonNull typeKind)),
    ("name", plain (.named string)),
    ("description", plain (.named string)),
    ("specifiedByURL", plain (.named string)),
    ("fields", withDeprecated (listOf field)),
    ("interfaces", plain (listOf typeType)),
    ("possibleTypes", plain (listOf typeType)),
    ("enumValues", withDeprecated (listOf enumValue)),
    ("inputFields", withDeprecated (listOf inputValue)),
    ("ofType", plain (.named typeType)),
    ("isOneOf", plain (.named boolean))],
  objectType "__Field" "A field of an object or interface type." [
    ("name", plain (nonNull string)),
    ("description", plain (.named string)),
    ("args", withDeprecated (nonNullListOf inputValue)),
    ("type", plain (nonNull typeType)),
    ("isDeprecated", plain (nonNull boolean)),
    ("deprecationReason", plain (.named string))],
  objectType "__InputValue" "An argument of a field or directive, or an input field." [
    ("name", plain (nonNull string)),
    ("description", plain (.named string)),
    ("type", plain (nonNull typeType)),
    ("defaultValue", plain (.named string)),
    ("isDeprecated", plain (nonNull boolean)),
    ("deprecationReason", plain (.named string))],
  objectType "__EnumValue" "One of the values of an enum type." [
    ("name", plain (nonNull string)),
    ("description", plain (.named string)),
    ("isDeprecated", plain (nonNull boolean)),
    ("deprecationReason", plain (.named string))],
  enumType "__TypeKind" "The kinds of types that ``__Type`` can describe." [
    "SCALAR", "OBJECT", "INTERFACE", "UNION", "ENUM", "INPUT_OBJECT", "LIST", "NON_NULL"]]

/-- The built-in scalar of a name. -/
def scalar? (name : String) : Option TypeId := scalars.find? fun id => (types.type id).name == name

/-- The introspection type of a name. -/
def introspection? (name : String) : Option TypeId :=
  introspection.find? fun id => (types.type id).name == name

/-! Meta fields are not among the fields of the types on which they can be selected. -/

def schemaField : FieldDef where
  type := nonNull schema
  description := some "Access the current type schema of this server."

def typeField : FieldDef where
  type := .named typeType
  arguments := [("name", { type := nonNull string })]
  description := some "Request the type information of a single type."

def typenameField : FieldDef where
  type := nonNull string
  description := some "The name of the current Object type at runtime."

def metaFields : OrderedMap FieldDef :=
  [("__schema", schemaField), ("__type", typeField), ("__typename", typenameField)]

end Standard

end QueryLint
