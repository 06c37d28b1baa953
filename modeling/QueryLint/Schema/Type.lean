import QueryLint.Document.Basic
import QueryLint.OrderedMap
import QueryLint.Text.Quoted

/-!
Types of a schema. Types refer to each other, also in circles, so each named type has an identity
and references are made to it; two types of the same name can be different types. A table holds the
types behind the identities.
-/

namespace QueryLint

/-- The identity of a named type: its place in a table of types. -/
abbrev TypeId := Nat

/-- A named type under any list and non-null modifiers. -/
inductive TypeRef where
  | named (id : TypeId)
  | list (item : TypeRef)
  | nonNull (item : TypeRef)
  deriving DecidableEq

namespace TypeRef

/-- The type below all modifiers. -/
def base : TypeRef → TypeId
  | .named id => id
  | .list item | .nonNull item => item.base

/-- The type without a non-null modifier in front. -/
def nullable : TypeRef → TypeRef
  | .nonNull item => item
  | type => type

end TypeRef

structure ArgumentDef where
  type : TypeRef
  description : Option Text := none
  definition : Option InputValueDefinition := none
  deriving DecidableEq

structure FieldDef where
  type : TypeRef
  arguments : OrderedMap ArgumentDef := []
  description : Option Text := none
  deprecation : Option Text := none
  definition : Option FieldDefinition := none
  deriving DecidableEq

namespace FieldDef

def isDeprecated (field : FieldDef) : Bool := field.deprecation.isSome

/-- The types that a field refers to: its own, then those of its arguments. -/
def references (field : FieldDef) : List TypeId :=
  field.type.base :: field.arguments.map fun (_, argument) => argument.type.base

end FieldDef

/-- What a named type consists of. A bare type has nothing but its name, and no field can have
it. -/
inductive TypeShape where
  | bare
  | scalar
  | enum (values : List String)
  | object (interfaces : List TypeId) (fields : OrderedMap FieldDef)
  | interface (fields : OrderedMap FieldDef)
  | union (members : List TypeId)
  deriving DecidableEq

structure NamedType where
  name : String
  description : Option Text := none
  definition : Option TypeDefinition := none
  introspective : Bool := false
  shape : TypeShape
  deriving DecidableEq

namespace NamedType

def isScalar (type : NamedType) : Bool := type.shape matches .scalar

def isEnum (type : NamedType) : Bool := type.shape matches .enum _

def isObject (type : NamedType) : Bool := type.shape matches .object _ _

def isInterface (type : NamedType) : Bool := type.shape matches .interface _

def isUnion (type : NamedType) : Bool := type.shape matches .union _

def isLeaf (type : NamedType) : Bool := type.isScalar || type.isEnum

def isAbstract (type : NamedType) : Bool := type.isInterface || type.isUnion

/-- Whether selections can be made on the type. -/
def isComposite (type : NamedType) : Bool := type.isObject || type.isAbstract

/-- Whether a field can have the type. -/
def isOutput (type : NamedType) : Bool := type.isLeaf || type.isComposite

def fields (type : NamedType) : OrderedMap FieldDef :=
  match type.shape with
  | .object _ fields | .interface fields => fields
  | _ => []

def interfaces (type : NamedType) : List TypeId :=
  match type.shape with
  | .object interfaces _ => interfaces
  | _ => []

def members (type : NamedType) : List TypeId :=
  match type.shape with
  | .union members => members
  | _ => []

def kindDisplay (type : NamedType) : String :=
  match type.shape, type.introspective with
  | .bare, _ => "GraphQLNamedType"
  | .scalar, _ => "GraphQLScalarType"
  | .enum _, true => "IntrospectionEnumType"
  | .enum _, false => "GraphQLEnumType"
  | .object _ _, true => "IntrospectionObjectType"
  | .object _ _, false => "GraphQLObjectType"
  | .interface _, _ => "GraphQLInterfaceType"
  | .union _, _ => "GraphQLUnionType"

def display (type : NamedType) : String := "<" ++ type.kindDisplay ++ " " ++ quoted type.name ++ ">"

end NamedType

/-- What can be asked of a type. -/
inductive TypeTest where
  | type | scalar | object | interface | union | enum | list | nonNull | output | leaf | composite
  | abstract | wrapping | named
  deriving DecidableEq

namespace TypeTest

/-- Whether a named type passes a test. -/
def holdsOf (test : TypeTest) (type : NamedType) : Bool :=
  match test with
  | .type | .named => true
  | .scalar => type.isScalar
  | .object => type.isObject
  | .interface => type.isInterface
  | .union => type.isUnion
  | .enum => type.isEnum
  | .leaf => type.isLeaf
  | .composite => type.isComposite
  | .abstract => type.isAbstract
  | .output => type.isOutput
  | .list | .nonNull | .wrapping => false

end TypeTest

abbrev TypeTable := List NamedType

namespace TypeTable

/-- The type with an identity; identities outside the table mean a bare type without a name. -/
def type (table : TypeTable) (id : TypeId) : NamedType :=
  table[id]?.getD { name := "", shape := .bare }

/-- A type as it is written in a document. -/
def print (table : TypeTable) : TypeRef → String
  | .named id => (table.type id).name
  | .list item => "[" ++ table.print item ++ "]"
  | .nonNull item => table.print item ++ "!"

def display (table : TypeTable) : TypeRef → String
  | .named id => (table.type id).display
  | .list item => "<GraphQLList " ++ table.display item ++ ">"
  | .nonNull item => "<GraphQLNonNull " ++ table.display item ++ ">"

/-- Whether a type passes a test; modified types pass few of them. -/
def test (table : TypeTable) (test : TypeTest) (type : TypeRef) : Bool :=
  match type with
  | .named id => test.holdsOf (table.type id)
  | .list item =>
    match test with
    | .type | .list | .wrapping => true
    | .output => (table.type item.base).isOutput
    | _ => false
  | .nonNull item =>
    match test with
    | .type | .nonNull | .wrapping => true
    | .output => (table.type item.base).isOutput
    | _ => false

def printField (table : TypeTable) (field : FieldDef) : String :=
  "Field: " ++ table.print field.type

end TypeTable

end QueryLint
