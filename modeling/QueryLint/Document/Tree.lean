import QueryLint.Document.Basic
import QueryLint.Document.Kind

/-!
Documents as trees of one kind of node. Each part of a document has a tree whose branches stand in
the order of a walk, so what holds of every walk can be said once for all trees.
-/

namespace QueryLint

/-- What a node holds besides its branches. -/
inductive Content where
  | none
  | name (value : String)
  | value (text : Text)
  | string (text value : Text)
  | operation (type : OperationType)
  deriving DecidableEq

structure NodeData where
  kind : NodeKind
  content : Content
  loc : Option Location
  deriving DecidableEq

mutual

inductive Tree where
  | node (data : NodeData) (branches : List Branch)

/-- An attribute that holds nothing, one node, or a sequence of nodes. -/
inductive Branch where
  | absent (name : String)
  | single (name : String) (tree : Tree)
  | sequence (name : String) (trees : List Tree)

end

namespace Branch

def name : Branch → String
  | .absent name | .single name _ | .sequence name _ => name

def optional (name : String) : Option Tree → Branch
  | none => .absent name
  | some tree => .single name tree

end Branch

namespace Tree

def data : Tree → NodeData
  | .node data _ => data

def branches : Tree → List Branch
  | .node _ branches => branches

def kind (tree : Tree) : NodeKind := tree.data.kind

def loc (tree : Tree) : Option Location := tree.data.loc

/-- The node under an attribute that holds one node. -/
def child? (tree : Tree) (name : String) : Option Tree :=
  tree.branches.findSome? fun
    | .single branch child => if branch = name then some child else none
    | _ => none

/-- The text of a node that is a name or a string. -/
def value? (tree : Tree) : Option Text :=
  match tree.data.content with
  | .name value => some (Text.ofString value)
  | .string _ value => some value
  | _ => none

/-- What a node is best recognised by: its own text, or that of its name. -/
def label? (tree : Tree) : Option Text :=
  tree.value? <|> (tree.child? "name").bind value?

def display (tree : Tree) : String :=
  match tree.loc with
  | some span =>
    "<" ++ tree.kind.display ++ " " ++ toString span.start ++ ":" ++ toString span.stop ++ ">"
  | none => "<" ++ tree.kind.display ++ ">"

end Tree

/-- A key on the way from a tree to one of its nodes. -/
inductive PathKey where
  | attribute (name : String)
  | index (position : Nat)
  deriving DecidableEq

/-- A step into a value: to an attribute, or to a position, which counts from the end if it is
negative. -/
inductive Key where
  | name (name : String)
  | index (position : Int)
  deriving DecidableEq

/-- The item at a position; a negative one counts from the end. -/
def itemAt? {α : Type} (items : List α) (position : Int) : Option α :=
  let index := if position < 0 then items.length + position else position
  if index < 0 then none else items[index.toNat]?

/-- The node that steps lead to. -/
def Tree.follow? : List Key → Tree → Option Tree
  | [], tree => some tree
  | .name name :: .index position :: keys, tree =>
    (tree.branches.findSome? fun
      | .sequence branch trees => if branch = name then some trees else none
      | _ => none).bind fun trees => (itemAt? trees position).bind (follow? keys)
  | .name name :: keys, tree => (tree.child? name).bind (follow? keys)
  | .index _ :: _, _ => none

def Name.tree (name : Name) : Tree := .node ⟨.name, .name name.value, name.loc⟩ []

def StringValue.tree (literal : StringValue) : Tree :=
  .node ⟨.stringValue, .string literal.text literal.value, literal.loc⟩ []

def Value.tree : Value → Tree
  | .plain text loc => .node ⟨.value, .value text, loc⟩ []
  | .string literal => literal.tree

def Argument.tree (argument : Argument) : Tree :=
  .node ⟨.argument, .none, argument.loc⟩
    [.single "name" argument.name.tree, .single "value" argument.value.tree]

def Directive.tree (directive : Directive) : Tree :=
  .node ⟨.directive, .none, directive.loc⟩
    [.single "name" directive.name.tree,
      .sequence "arguments" (directive.arguments.map Argument.tree)]

def TypeName.tree (type : TypeName) : Tree :=
  .node ⟨.namedType, .none, type.loc⟩ [.single "name" type.name.tree]

def TypeExpr.tree : TypeExpr → Tree
  | .named type => type.tree
  | .list item loc => .node ⟨.listType, .none, loc⟩ [.single "type" item.tree]
  | .nonNull item loc => .node ⟨.nonNullType, .none, loc⟩ [.single "type" item.tree]

def directiveBranch (directives : List Directive) : Branch :=
  .sequence "directives" (directives.map Directive.tree)

def VariableDefinition.tree (definition : VariableDefinition) : Tree :=
  .node ⟨.variableDefinition, .none, definition.loc⟩
    [.single "name" definition.name.tree, .single "type" definition.type.tree,
      .optional "default_value" (definition.defaultValue.map Value.tree),
      directiveBranch definition.directives]

mutual

def Selection.tree : Selection → Tree
  | .field aliasName name arguments directives selectionSet loc =>
    .node ⟨.field, .none, loc⟩
      [.optional "alias" (aliasName.map Name.tree), .single "name" name.tree,
        .sequence "arguments" (arguments.map Argument.tree), directiveBranch directives,
        SelectionSet.branch selectionSet]
  | .spread name directives loc =>
    .node ⟨.fragmentSpread, .none, loc⟩ [.single "name" name.tree, directiveBranch directives]
  | .inline condition directives selectionSet loc =>
    .node ⟨.inlineFragment, .none, loc⟩
      [.optional "type_condition" (condition.map TypeName.tree), directiveBranch directives,
        .single "selection_set" selectionSet.tree]

def SelectionSet.tree : SelectionSet → Tree
  | .mk selections loc =>
    .node ⟨.selectionSet, .none, loc⟩ [.sequence "selections" (Selection.trees selections)]

def SelectionSet.branch : Option SelectionSet → Branch
  | none => .absent "selection_set"
  | some selectionSet => .single "selection_set" selectionSet.tree

def Selection.trees : List Selection → List Tree
  | [] => []
  | selection :: selections => selection.tree :: Selection.trees selections

end

def OperationDefinition.tree (definition : OperationDefinition) : Tree :=
  .node ⟨.operationDefinition, .operation definition.operation, definition.loc⟩
    [.optional "name" (definition.name.map Name.tree),
      .sequence "variable_definitions" (definition.variableDefinitions.map VariableDefinition.tree),
      directiveBranch definition.directives, .single "selection_set" definition.selectionSet.tree]

def FragmentDefinition.tree (definition : FragmentDefinition) : Tree :=
  .node ⟨.fragmentDefinition, .none, definition.loc⟩
    [.single "name" definition.name.tree, .single "type_condition" definition.condition.tree,
      directiveBranch definition.directives, .single "selection_set" definition.selectionSet.tree]

def OperationTypeDefinition.tree (definition : OperationTypeDefinition) : Tree :=
  .node ⟨.operationTypeDefinition, .operation definition.operation, definition.loc⟩
    [.single "type" definition.type.tree]

def SchemaDefinition.tree (definition : SchemaDefinition) : Tree :=
  .node ⟨.schemaDefinition, .none, definition.loc⟩
    [directiveBranch definition.directives,
      .sequence "operation_types" (definition.operationTypes.map OperationTypeDefinition.tree)]

def descriptionBranch (description : Option StringValue) : Branch :=
  .optional "description" (description.map StringValue.tree)

def InputValueDefinition.tree (definition : InputValueDefinition) : Tree :=
  .node ⟨.inputValueDefinition, .none, definition.loc⟩
    [descriptionBranch definition.description, .single "name" definition.name.tree,
      .single "type" definition.type.tree,
      .optional "default_value" (definition.defaultValue.map Value.tree),
      directiveBranch definition.directives]

def FieldDefinition.tree (definition : FieldDefinition) : Tree :=
  .node ⟨.fieldDefinition, .none, definition.loc⟩
    [descriptionBranch definition.description, .single "name" definition.name.tree,
      .sequence "arguments" (definition.arguments.map InputValueDefinition.tree),
      .single "type" definition.type.tree, directiveBranch definition.directives]

def EnumValueDefinition.tree (definition : EnumValueDefinition) : Tree :=
  .node ⟨.enumValueDefinition, .none, definition.loc⟩
    [descriptionBranch definition.description, .single "name" definition.name.tree,
      directiveBranch definition.directives]

def TypeDefinition.tree (definition : TypeDefinition) : Tree :=
  let description := descriptionBranch definition.description
  let name := Branch.single "name" definition.name.tree
  let directives := directiveBranch definition.directives
  let fieldBranch (fields : List FieldDefinition) : Branch :=
    .sequence "fields" (fields.map FieldDefinition.tree)
  match definition.body with
  | .scalar =>
    .node ⟨.scalarTypeDefinition, .none, definition.loc⟩ [description, name, directives]
  | .object interfaces fields =>
    .node ⟨.objectTypeDefinition, .none, definition.loc⟩
      [description, name, .sequence "interfaces" (interfaces.map TypeName.tree), directives,
        fieldBranch fields]
  | .interface fields =>
    .node ⟨.interfaceTypeDefinition, .none, definition.loc⟩
      [description, name, directives, fieldBranch fields]
  | .union members =>
    .node ⟨.unionTypeDefinition, .none, definition.loc⟩
      [description, name, directives, .sequence "types" (members.map TypeName.tree)]
  | .enum values =>
    .node ⟨.enumTypeDefinition, .none, definition.loc⟩
      [description, name, directives, .sequence "values" (values.map EnumValueDefinition.tree)]

def Definition.tree : Definition → Tree
  | .operation definition => definition.tree
  | .fragment definition => definition.tree
  | .schema definition => definition.tree
  | .type definition => definition.tree

def Document.tree (document : Document) : Tree :=
  .node ⟨.document, .none, document.loc⟩
    [.sequence "definitions" (document.definitions.map Definition.tree)]

end QueryLint
