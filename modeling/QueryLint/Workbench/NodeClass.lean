import QueryLint.Document.Kind

/-!
Nodes that can be made by hand: those of every kind that documents have, and those of families of
kinds, which only have the attributes that all kinds of the family share.
-/

namespace QueryLint

inductive NodeFamily where
  | any | definition | executableDefinition | selection | typeExpr | typeSystemDefinition
  | typeDefinition
  deriving DecidableEq

namespace NodeFamily

def all : List NodeFamily :=
  [.any, .definition, .executableDefinition, .selection, .typeExpr, .typeSystemDefinition,
    .typeDefinition]

def display : NodeFamily → String
  | .any => "Node"
  | .definition => "DefinitionNode"
  | .executableDefinition => "ExecutableDefinitionNode"
  | .selection => "SelectionNode"
  | .typeExpr => "TypeNode"
  | .typeSystemDefinition => "TypeSystemDefinitionNode"
  | .typeDefinition => "TypeDefinitionNode"

def keys : NodeFamily → List String
  | .any | .definition | .typeExpr | .typeSystemDefinition => ["loc"]
  | .executableDefinition => ["loc", "name", "directives", "selection_set"]
  | .selection => ["loc", "directives"]
  | .typeDefinition => ["loc", "description", "name", "directives"]

end NodeFamily

inductive NodeClass where
  | exact (kind : NodeKind)
  | group (family : NodeFamily)
  deriving DecidableEq

namespace NodeClass

def all : List NodeClass := NodeKind.all.map .exact ++ NodeFamily.all.map .group

def display : NodeClass → String
  | .exact kind => kind.display
  | .group family => family.display

def ofDisplay? (name : String) : Option NodeClass := all.find? (·.display == name)

/-- What nodes of the class call their kind; all families share one word. -/
def text : NodeClass → String
  | .exact kind => kind.text
  | .group _ => "node"

def keys : NodeClass → List String
  | .exact kind => kind.keys
  | .group family => family.keys

/-- The class whose keys a class shares because it adds none of its own. -/
def keysOwner : NodeClass → NodeClass
  | .group .definition | .group .typeExpr | .group .typeSystemDefinition => .group .any
  | .exact .scalarTypeDefinition => .group .typeDefinition
  | cls => cls

/-- The attributes that are walked, which a family has none of. -/
def children : NodeClass → List String
  | .exact kind => kind.children
  | .group _ => []

def isTypeDefinition : NodeClass → Bool
  | .group family => family = .typeDefinition
  | .exact kind =>
    kind ∈ [NodeKind.scalarTypeDefinition, .objectTypeDefinition, .interfaceTypeDefinition,
      .unionTypeDefinition, .enumTypeDefinition]

end NodeClass

end QueryLint
