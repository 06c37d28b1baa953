import QueryLint.Source
import QueryLint.Text.Basic

/-!
Documents: operations, fragments and the definitions of a type system. Values are kept as they are
written, only strings are decoded. Every part of a document may know the span it was read from.
-/

namespace QueryLint

structure Name where
  value : String
  loc : Option Location
  deriving DecidableEq

structure StringValue where
  text : Text
  value : Text
  loc : Option Location
  deriving DecidableEq

inductive Value where
  | plain (text : Text) (loc : Option Location)
  | string (literal : StringValue)
  deriving DecidableEq

structure Argument where
  name : Name
  value : Value
  loc : Option Location
  deriving DecidableEq

structure Directive where
  name : Name
  arguments : List Argument
  loc : Option Location
  deriving DecidableEq

/-- A type referred to by its name alone. -/
structure TypeName where
  name : Name
  loc : Option Location
  deriving DecidableEq

/-- A type name under any list and non-null modifiers. -/
inductive TypeExpr where
  | named (type : TypeName)
  | list (item : TypeExpr) (loc : Option Location)
  | nonNull (item : TypeExpr) (loc : Option Location)
  deriving DecidableEq

inductive OperationType where
  | query | mutation | subscription
  deriving DecidableEq

namespace OperationType

def text : OperationType → String
  | .query => "query"
  | .mutation => "mutation"
  | .subscription => "subscription"

def all : List OperationType := [.query, .mutation, .subscription]

def ofText? (text : String) : Option OperationType :=
  all.find? (·.text == text)

end OperationType

structure VariableDefinition where
  name : Name
  type : TypeExpr
  defaultValue : Option Value
  directives : List Directive
  loc : Option Location
  deriving DecidableEq

mutual

inductive Selection where
  | field (aliasName : Option Name) (name : Name) (arguments : List Argument)
      (directives : List Directive) (selectionSet : Option SelectionSet) (loc : Option Location)
  | spread (name : Name) (directives : List Directive) (loc : Option Location)
  | inline (condition : Option TypeName) (directives : List Directive)
      (selectionSet : SelectionSet) (loc : Option Location)

inductive SelectionSet where
  | mk (selections : List Selection) (loc : Option Location)

end

mutual

def Selection.decEq : (first second : Selection) → Decidable (first = second)
  | .field aliasName name arguments directives set loc,
      .field aliasName' name' arguments' directives' set' loc' =>
    have := SelectionSet.decEqOption set set'
    decidable_of_iff (aliasName = aliasName' ∧ name = name' ∧ arguments = arguments' ∧
      directives = directives' ∧ set = set' ∧ loc = loc') (by simp)
  | .spread name directives loc, .spread name' directives' loc' =>
    decidable_of_iff (name = name' ∧ directives = directives' ∧ loc = loc') (by simp)
  | .inline condition directives set loc, .inline condition' directives' set' loc' =>
    have := SelectionSet.decEq set set'
    decidable_of_iff (condition = condition' ∧ directives = directives' ∧ set = set' ∧ loc = loc')
      (by simp)
  | .field .., .spread .. | .field .., .inline .. | .spread .., .field .. | .spread .., .inline ..
  | .inline .., .field .. | .inline .., .spread .. => .isFalse (by simp)

def Selection.decEqList : (first second : List Selection) → Decidable (first = second)
  | [], [] => .isTrue rfl
  | [], _ :: _ | _ :: _, [] => .isFalse (by simp)
  | selection :: selections, selection' :: selections' =>
    have := Selection.decEq selection selection'
    have := Selection.decEqList selections selections'
    decidable_of_iff (selection = selection' ∧ selections = selections') (by simp)

def SelectionSet.decEq : (first second : SelectionSet) → Decidable (first = second)
  | .mk selections loc, .mk selections' loc' =>
    have := Selection.decEqList selections selections'
    decidable_of_iff (selections = selections' ∧ loc = loc') (by simp)

def SelectionSet.decEqOption : (first second : Option SelectionSet) → Decidable (first = second)
  | none, none => .isTrue rfl
  | none, some _ | some _, none => .isFalse (by simp)
  | some set, some set' =>
    have := SelectionSet.decEq set set'
    decidable_of_iff (set = set') (by simp)

end

instance : DecidableEq SelectionSet := SelectionSet.decEq

structure OperationDefinition where
  operation : OperationType
  name : Option Name
  variableDefinitions : List VariableDefinition
  directives : List Directive
  selectionSet : SelectionSet
  loc : Option Location
  deriving DecidableEq

structure FragmentDefinition where
  name : Name
  condition : TypeName
  directives : List Directive
  selectionSet : SelectionSet
  loc : Option Location
  deriving DecidableEq

structure OperationTypeDefinition where
  operation : OperationType
  type : TypeName
  loc : Option Location
  deriving DecidableEq

structure SchemaDefinition where
  directives : List Directive
  operationTypes : List OperationTypeDefinition
  loc : Option Location
  deriving DecidableEq

structure InputValueDefinition where
  description : Option StringValue
  name : Name
  type : TypeExpr
  defaultValue : Option Value
  directives : List Directive
  loc : Option Location
  deriving DecidableEq

structure FieldDefinition where
  description : Option StringValue
  name : Name
  arguments : List InputValueDefinition
  type : TypeExpr
  directives : List Directive
  loc : Option Location
  deriving DecidableEq

structure EnumValueDefinition where
  description : Option StringValue
  name : Name
  directives : List Directive
  loc : Option Location
  deriving DecidableEq

/-- What a type definition says beyond its name. -/
inductive TypeBody where
  | scalar
  | object (interfaces : List TypeName) (fields : List FieldDefinition)
  | interface (fields : List FieldDefinition)
  | union (members : List TypeName)
  | enum (values : List EnumValueDefinition)
  deriving DecidableEq

structure TypeDefinition where
  description : Option StringValue
  name : Name
  directives : List Directive
  body : TypeBody
  loc : Option Location
  deriving DecidableEq

inductive Definition where
  | operation (definition : OperationDefinition)
  | fragment (definition : FragmentDefinition)
  | schema (definition : SchemaDefinition)
  | type (definition : TypeDefinition)
  deriving DecidableEq

structure Document where
  definitions : List Definition
  loc : Option Location
  deriving DecidableEq

end QueryLint
