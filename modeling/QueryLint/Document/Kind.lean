/-!
The kinds of nodes in the tree of a document: how a kind is called, how its nodes are shown, which
attributes they have, and which of these lead to further nodes in the order of a walk.
-/

namespace QueryLint

inductive NodeKind where
  | name | document | operationDefinition | variableDefinition | selectionSet | field | argument
  | fragmentSpread | inlineFragment | fragmentDefinition | value | stringValue | directive
  | namedType | listType | nonNullType | schemaDefinition | operationTypeDefinition
  | scalarTypeDefinition | objectTypeDefinition | fieldDefinition | inputValueDefinition
  | interfaceTypeDefinition | unionTypeDefinition | enumTypeDefinition | enumValueDefinition
  deriving DecidableEq

namespace NodeKind

def all : List NodeKind :=
  [.name, .document, .operationDefinition, .variableDefinition, .selectionSet, .field, .argument,
    .fragmentSpread, .inlineFragment, .fragmentDefinition, .value, .stringValue, .directive,
    .namedType, .listType, .nonNullType, .schemaDefinition, .operationTypeDefinition,
    .scalarTypeDefinition, .objectTypeDefinition, .fieldDefinition, .inputValueDefinition,
    .interfaceTypeDefinition, .unionTypeDefinition, .enumTypeDefinition, .enumValueDefinition]

def text : NodeKind → String
  | .name => "name"
  | .document => "document"
  | .operationDefinition => "operation_definition"
  | .variableDefinition => "variable_definition"
  | .selectionSet => "selection_set"
  | .field => "field"
  | .argument => "argument"
  | .fragmentSpread => "fragment_spread"
  | .inlineFragment => "inline_fragment"
  | .fragmentDefinition => "fragment_definition"
  | .value => "value"
  | .stringValue => "string_value"
  | .directive => "directive"
  | .namedType => "named_type"
  | .listType => "list_type"
  | .nonNullType => "non_null_type"
  | .schemaDefinition => "schema_definition"
  | .operationTypeDefinition => "operation_type_definition"
  | .scalarTypeDefinition => "scalar_type_definition"
  | .objectTypeDefinition => "object_type_definition"
  | .fieldDefinition => "field_definition"
  | .inputValueDefinition => "input_value_definition"
  | .interfaceTypeDefinition => "interface_type_definition"
  | .unionTypeDefinition => "union_type_definition"
  | .enumTypeDefinition => "enum_type_definition"
  | .enumValueDefinition => "enum_value_definition"

def ofText? (text : String) : Option NodeKind := all.find? (·.text == text)

/-- The name under which nodes of the kind are shown. -/
def display : NodeKind → String
  | .name => "NameNode"
  | .document => "DocumentNode"
  | .operationDefinition => "OperationDefinitionNode"
  | .variableDefinition => "VariableDefinitionNode"
  | .selectionSet => "SelectionSetNode"
  | .field => "FieldNode"
  | .argument => "ArgumentNode"
  | .fragmentSpread => "FragmentSpreadNode"
  | .inlineFragment => "InlineFragmentNode"
  | .fragmentDefinition => "FragmentDefinitionNode"
  | .value => "ValueNode"
  | .stringValue => "StringValueNode"
  | .directive => "DirectiveNode"
  | .namedType => "NamedTypeNode"
  | .listType => "ListTypeNode"
  | .nonNullType => "NonNullTypeNode"
  | .schemaDefinition => "SchemaDefinitionNode"
  | .operationTypeDefinition => "OperationTypeDefinitionNode"
  | .scalarTypeDefinition => "ScalarTypeDefinitionNode"
  | .objectTypeDefinition => "ObjectTypeDefinitionNode"
  | .fieldDefinition => "FieldDefinitionNode"
  | .inputValueDefinition => "InputValueDefinitionNode"
  | .interfaceTypeDefinition => "InterfaceTypeDefinitionNode"
  | .unionTypeDefinition => "UnionTypeDefinitionNode"
  | .enumTypeDefinition => "EnumTypeDefinitionNode"
  | .enumValueDefinition => "EnumValueDefinitionNode"

/-- The attributes of a node, in the order of their declaration. -/
def keys : NodeKind → List String
  | .name => ["loc", "value"]
  | .document => ["loc", "definitions"]
  | .operationDefinition =>
    ["loc", "name", "directives", "selection_set", "operation", "variable_definitions"]
  | .variableDefinition => ["loc", "name", "type", "default_value", "directives"]
  | .selectionSet => ["loc", "selections"]
  | .field => ["loc", "directives", "alias", "name", "arguments", "selection_set"]
  | .argument => ["loc", "name", "value"]
  | .fragmentSpread => ["loc", "directives", "name"]
  | .inlineFragment => ["loc", "directives", "type_condition", "selection_set"]
  | .fragmentDefinition => ["loc", "name", "directives", "selection_set", "type_condition"]
  | .value => ["loc", "text"]
  | .stringValue => ["loc", "text", "value"]
  | .directive => ["loc", "name", "arguments"]
  | .namedType => ["loc", "name"]
  | .listType | .nonNullType => ["loc", "type"]
  | .schemaDefinition => ["loc", "directives", "operation_types"]
  | .operationTypeDefinition => ["loc", "operation", "type"]
  | .scalarTypeDefinition => ["loc", "description", "name", "directives"]
  | .objectTypeDefinition => ["loc", "description", "name", "directives", "interfaces", "fields"]
  | .fieldDefinition => ["loc", "description", "name", "arguments", "type", "directives"]
  | .inputValueDefinition => ["loc", "description", "name", "type", "default_value", "directives"]
  | .interfaceTypeDefinition => ["loc", "description", "name", "directives", "fields"]
  | .unionTypeDefinition => ["loc", "description", "name", "directives", "types"]
  | .enumTypeDefinition => ["loc", "description", "name", "directives", "values"]
  | .enumValueDefinition => ["loc", "description", "name", "directives"]

/-- The attributes that lead to further nodes, in the order of a walk. -/
def children : NodeKind → List String
  | .name | .value | .stringValue => []
  | .document => ["definitions"]
  | .operationDefinition => ["name", "variable_definitions", "directives", "selection_set"]
  | .variableDefinition => ["name", "type", "default_value", "directives"]
  | .selectionSet => ["selections"]
  | .field => ["alias", "name", "arguments", "directives", "selection_set"]
  | .argument => ["name", "value"]
  | .fragmentSpread => ["name", "directives"]
  | .inlineFragment => ["type_condition", "directives", "selection_set"]
  | .fragmentDefinition => ["name", "type_condition", "directives", "selection_set"]
  | .directive => ["name", "arguments"]
  | .namedType => ["name"]
  | .listType | .nonNullType => ["type"]
  | .schemaDefinition => ["directives", "operation_types"]
  | .operationTypeDefinition => ["type"]
  | .scalarTypeDefinition => ["description", "name", "directives"]
  | .objectTypeDefinition => ["description", "name", "interfaces", "directives", "fields"]
  | .fieldDefinition => ["description", "name", "arguments", "type", "directives"]
  | .inputValueDefinition => ["description", "name", "type", "default_value", "directives"]
  | .interfaceTypeDefinition => ["description", "name", "directives", "fields"]
  | .unionTypeDefinition => ["description", "name", "directives", "types"]
  | .enumTypeDefinition => ["description", "name", "directives", "values"]
  | .enumValueDefinition => ["description", "name", "directives"]

end NodeKind

end QueryLint
