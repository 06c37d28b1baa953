import QueryLint.Schema.Graph
import QueryLint.Schema.Standard

/-!
Schemas: the root types of the operations with all types that can be reached from them and from
further given types. The given types come first, in their order and each followed by the types it
brings along; names must not clash.
-/

namespace QueryLint

structure Schema where
  table : TypeTable
  /-- The types of the schema in order. -/
  types : List TypeId
  query : Option TypeId
  mutation : Option TypeId
  subscription : Option TypeId
  definition : Option SchemaDefinition := none

/-- Why types do not make up a schema. -/
inductive AssemblyError (ε : Type) where
  | notObject (operation : OperationType)
  | unreadable (error : ε)
  | clash (name : String)
  deriving DecidableEq

/-- The root types that a schema is to have. -/
structure Roots where
  query : Option TypeId := none
  mutation : Option TypeId := none
  subscription : Option TypeId := none
  deriving DecidableEq

namespace Roots

def toList (roots : Roots) : List TypeId :=
  roots.query.toList ++ roots.mutation.toList ++ roots.subscription.toList

def get (roots : Roots) : OperationType → Option TypeId
  | .query => roots.query
  | .mutation => roots.mutation
  | .subscription => roots.subscription

end Roots

namespace TypeGraph

variable {ε : Type}

/-- Takes the place that is held for a given type, and collects it with what it brings along. -/
def collectGiven (graph : TypeGraph ε) (collected : List TypeId) (id : TypeId) :
    Except ε (List TypeId) :=
  graph.collect [.type id] (collected.filter (· != id))

/-- The first occurrences of the types in a list. -/
def distinct (ids : List TypeId) : List TypeId :=
  ids.foldl (fun seen id => if id ∈ seen then seen else seen ++ [id]) []

/-- All types that the given types and the roots bring along. The given types hold their places
while others are collected. -/
def collectAll (graph : TypeGraph ε) (given roots : List TypeId) : Except ε (List TypeId) := do
  let collected ← given.foldlM graph.collectGiven (distinct given)
  roots.foldlM (fun collected id => graph.collect [.type id] collected) collected

/-- The first name that an earlier type has already. -/
def clash? (graph : TypeGraph ε) : List String → List TypeId → Option String
  | _, [] => none
  | names, id :: ids =>
    let name := (graph.type id).name
    if name ∈ names then some name else graph.clash? (name :: names) ids

/-- Makes a schema of the types that the given types and the roots bring along. -/
def assemble (graph : TypeGraph ε) (given : List TypeId) (roots : Roots)
    (definition : Option SchemaDefinition := none) : Except (AssemblyError ε) Schema :=
  match OperationType.all.find? fun operation =>
      (roots.get operation).any fun id => !(graph.type id).isObject with
  | some operation => .error (.notObject operation)
  | none =>
    match graph.collectAll given roots.toList with
    | .error error => .error (.unreadable error)
    | .ok types =>
      match graph.clash? [] types with
      | some name => .error (.clash name)
      | none => .ok {
          table := graph.table
          types
          query := roots.query
          mutation := roots.mutation
          subscription := roots.subscription
          definition }

end TypeGraph

namespace Schema

def type (schema : Schema) (id : TypeId) : NamedType := schema.table.type id

def name (schema : Schema) (id : TypeId) : String := (schema.type id).name

/-- The type of a name: one of the schema or else one of the introspection system. -/
def find? (schema : Schema) (name : String) : Option TypeId :=
  schema.types.find? (fun id => schema.name id == name) <|> Standard.introspection? name

def root (schema : Schema) : OperationType → Option TypeId
  | .query => schema.query
  | .mutation => schema.mutation
  | .subscription => schema.subscription

/-- Notes an object under the name of an interface. -/
def noteImplementation (schema : Schema) (id : TypeId) (index : OrderedMap (List TypeId))
    (interface : TypeId) : OrderedMap (List TypeId) :=
  let name := schema.name interface
  index.insert name ((index.find? name).getD [] ++ [id])

/-- The objects under the names of the interfaces that they list. -/
def implementationIndex (schema : Schema) : OrderedMap (List TypeId) :=
  schema.types.foldl
    (fun index id => (schema.type id).interfaces.foldl (schema.noteImplementation id) index) []

/-- The objects that implement an interface. -/
def implementations (schema : Schema) (interface : String) : List TypeId :=
  (schema.implementationIndex.find? interface).getD []

/-- The objects that a value of an abstract type can be. -/
def possibleTypes (schema : Schema) (id : TypeId) : List TypeId :=
  match (schema.type id).shape with
  | .union members => members
  | _ => schema.implementations (schema.name id)

/-- The type that a type expression stands for. -/
def typeOf? (schema : Schema) : TypeExpr → Option TypeRef
  | .named type => (schema.find? type.name.value).map .named
  | .list item _ => (schema.typeOf? item).map .list
  | .nonNull item _ => (schema.typeOf? item).map .nonNull

theorem getD_foldl_noteImplementation (schema : Schema) (id : TypeId) (interface : String)
    (interfaces : List TypeId) (index : OrderedMap (List TypeId)) :
    ((interfaces.foldl (schema.noteImplementation id) index).find? interface).getD [] =
      (index.find? interface).getD [] ++
        (interfaces.filter fun listed => schema.name listed == interface).map fun _ => id := by
  induction interfaces generalizing index with
  | nil => simp
  | cons listed interfaces ih =>
    rw [List.foldl_cons, ih, noteImplementation, OrderedMap.find?_insert]
    by_cases hsame : interface = schema.name listed
    · subst hsame
      rw [if_pos rfl, List.filter_cons_of_pos (by simp)]
      simp
    · rw [if_neg hsame, List.filter_cons_of_neg (by simp [Ne.symm hsame])]

/-- Objects implement an interface in the order of the schema, each as often as it lists the
interface. -/
theorem implementations_eq (schema : Schema) (interface : String) :
    schema.implementations interface =
      schema.types.flatMap fun id =>
        ((schema.type id).interfaces.filter fun listed => schema.name listed == interface).map
          fun _ => id := by
  have hindex (types : List TypeId) (index : OrderedMap (List TypeId)) :
      ((types.foldl
          (fun index id => (schema.type id).interfaces.foldl (schema.noteImplementation id) index)
          index).find? interface).getD [] =
        (index.find? interface).getD [] ++ types.flatMap fun id =>
          ((schema.type id).interfaces.filter fun listed => schema.name listed == interface).map
            fun _ => id := by
    induction types generalizing index with
    | nil => simp
    | cons id types ih =>
      rw [List.foldl_cons, ih, schema.getD_foldl_noteImplementation, List.flatMap_cons,
        List.append_assoc]
  exact hindex schema.types []

def display (schema : Schema) : String :=
  "<GraphQLSchema with " ++ toString schema.types.length ++ " types>"

end Schema

end QueryLint
