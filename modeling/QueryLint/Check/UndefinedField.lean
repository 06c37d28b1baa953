import QueryLint.Check.Rule
import QueryLint.Check.Suggestion

/-!
The rule that every selected field is defined on the type it is selected on. For an abstract type
the report suggests types below it that define the field, and otherwise fields with similar names.
-/

namespace QueryLint

/-- The message on a field that is not defined on a type. Types are suggested rather than fields. -/
def undefinedFieldMessage (field type : Text) (types fields : List Text) : Text :=
  let message : Text := "Cannot query field \"" ++ field ++ "\" on type \"" ++ type ++ "\"."
  match quotedOrList? types, quotedOrList? fields with
  | some names, _ => message ++ " Did you mean to use an inline fragment on " ++ names ++ "?"
  | none, some names => message ++ " Did you mean " ++ names ++ "?"
  | none, none => message

/-- Adds one to the count of a name; new names go to the end. -/
def countName (counts : OrderedMap Nat) (name : String) : OrderedMap Nat :=
  counts.insert name ((counts.find? name).getD 0 + 1)

/-- Puts a counted name behind all names that are counted at least as often. -/
def insertCounted (entry : String × Nat) : List (String × Nat) → List (String × Nat)
  | [] => [entry]
  | head :: tail =>
    if head.2 < entry.2 then entry :: head :: tail else head :: insertCounted entry tail

/-- The names by how often they occur, the most frequent first, equal ones by first occurrence. -/
def byFrequency (names : List String) : List String :=
  let counts := names.foldl countName []
  (counts.foldl (fun ranked entry => insertCounted entry ranked) []).map (·.1)

/-- The names of the fields of a type that are similar to a name. -/
def NamedType.similarFields (type : NamedType) (field : Text) : List Text :=
  suggestions field (type.fields.names.map Text.ofString)

namespace Schema

variable (schema : Schema)

def definesField (field : String) (id : TypeId) : Bool := (schema.type id).fields.contains field

/-- The objects below an abstract type that define a field. -/
def definingObjects (id : TypeId) (field : String) : List TypeId :=
  (schema.possibleTypes id).filter (schema.definesField field)

/-- The names of types below an abstract type that define a field: interfaces of the defining
objects, the most frequent first, and then these objects. -/
def suggestedTypes (id : TypeId) (field : String) : List String :=
  if (schema.type id).isAbstract then
    let objects := schema.definingObjects id field
    let interfaces := objects.flatMap fun object =>
      (schema.type object).interfaces.filter (schema.definesField field)
    byFrequency (interfaces.map schema.name) ++ objects.map schema.name
  else []

def suggestedFields (id : TypeId) (field : String) : List Text :=
  (schema.type id).similarFields field

/-- The report on a field that is not defined on the parent type. -/
def undefinedField (parent : TypeId) (field : String) : Text :=
  let types := schema.suggestedTypes parent field
  let fields := if types.isEmpty then schema.suggestedFields parent field else []
  undefinedFieldMessage field (schema.name parent) (types.map Text.ofString) fields

/-- Reports fields whose parent type is known but does not define them. -/
def undefinedFields {ε σ : Type} : Rule ε σ where
  visit scope phase tree _ state :=
    let problems :=
      match phase, tree.kind, scope.parent?, scope.field? with
      | .enter, .field, some parent, none =>
        [⟨schema.undefinedField parent.base (tree.fieldName?.getD ""), tree⟩]
      | _, _, _, _ => []
    (.ok .silent, problems, state)

end Schema

end QueryLint
