import QueryLint.Proofs.Walk

/-!
The shape of documents. Every node of a document has the branches that its kind says, in that order,
so no node has two branches of one name.
-/

namespace QueryLint

/-! The branches of a node -/

@[simp] theorem Branch.nodes_single (name : String) (node : Tree) :
    (Branch.single name node).nodes = [node] := rfl

@[simp] theorem Branch.nodes_sequence (name : String) (nodes : List Tree) :
    (Branch.sequence name nodes).nodes = nodes := rfl

@[simp] theorem Branch.nodes_optional (name : String) (node : Option Tree) :
    (Branch.optional name node).nodes = node.toList := by
  cases node <;> rfl

@[simp] theorem Branch.name_single (name : String) (node : Tree) :
    (Branch.single name node).name = name := rfl

@[simp] theorem Branch.name_sequence (name : String) (nodes : List Tree) :
    (Branch.sequence name nodes).name = name := rfl

@[simp] theorem Branch.name_optional (name : String) (node : Option Tree) :
    (Branch.optional name node).name = name := by
  cases node <;> rfl

@[simp] theorem nodes_directiveBranch (directives : List Directive) :
    (directiveBranch directives).nodes = directives.map Directive.tree := rfl

@[simp] theorem name_directiveBranch (directives : List Directive) :
    (directiveBranch directives).name = "directives" := rfl

@[simp] theorem nodes_descriptionBranch (description : Option StringValue) :
    (descriptionBranch description).nodes = (description.map StringValue.tree).toList :=
  Branch.nodes_optional _ _

@[simp] theorem name_descriptionBranch (description : Option StringValue) :
    (descriptionBranch description).name = "description" :=
  Branch.name_optional _ _

theorem SelectionSet.branch_eq (selectionSet : Option SelectionSet) :
    SelectionSet.branch selectionSet =
      .optional "selection_set" (selectionSet.map SelectionSet.tree) := by
  cases selectionSet <;> rfl

theorem Selection.trees_eq_map (selections : List Selection) :
    Selection.trees selections = selections.map Selection.tree := by
  induction selections with
  | nil => rfl
  | cons selection selections ih => rw [Selection.trees, ih, List.map_cons]

/-! Shaped trees -/

/-- Each node has the branches of its kind. -/
inductive Tree.Shaped : Tree → Prop where
  | node {data : NodeData} {branches : List Branch}
      (attributes : branches.map Branch.name = data.kind.children)
      (below : ∀ branch ∈ branches, ∀ node ∈ branch.nodes, Tree.Shaped node) :
      Tree.Shaped (.node data branches)

def Branch.Shaped (branch : Branch) : Prop := ∀ node ∈ branch.nodes, node.Shaped

theorem Tree.shaped_node {data : NodeData} {branches : List Branch} :
    (Tree.node data branches).Shaped ↔ branches.map Branch.name = data.kind.children ∧
      ∀ branch ∈ branches, branch.Shaped :=
  ⟨fun | .node attributes below => ⟨attributes, below⟩, fun h => .node h.1 h.2⟩

theorem Tree.Shaped.of_mem_children {tree node : Tree} (h : tree.Shaped)
    (hnode : node ∈ tree.children) : node.Shaped := by
  cases h with
  | node attributes below =>
    obtain ⟨branch, hbranch, hnode⟩ := List.mem_flatMap.mp hnode
    exact below branch hbranch node hnode

theorem NodeKind.nodup_children (kind : NodeKind) : kind.children.Nodup := by
  cases kind <;> decide

theorem Tree.Shaped.nodup_names {tree : Tree} (h : tree.Shaped) :
    (tree.branches.map Branch.name).Nodup := by
  cases h with
  | @node data branches attributes below =>
    change (branches.map Branch.name).Nodup
    rw [attributes]
    exact data.kind.nodup_children

@[simp] theorem Branch.shaped_single {name : String} {tree : Tree} :
    (Branch.single name tree).Shaped ↔ tree.Shaped := by
  simp [Branch.Shaped]

@[simp] theorem Branch.shaped_sequence {name : String} {trees : List Tree} :
    (Branch.sequence name trees).Shaped ↔ ∀ tree ∈ trees, tree.Shaped := Iff.rfl

@[simp] theorem Branch.shaped_optional {name : String} {tree : Option Tree} :
    (Branch.optional name tree).Shaped ↔ ∀ node ∈ tree, node.Shaped := by
  simp [Branch.Shaped]

@[simp] theorem Name.shaped (name : Name) : name.tree.Shaped := by
  simp [Name.tree, Tree.shaped_node, NodeKind.children]

@[simp] theorem StringValue.shaped (literal : StringValue) : literal.tree.Shaped := by
  simp [StringValue.tree, Tree.shaped_node, NodeKind.children]

@[simp] theorem Value.shaped (value : Value) : value.tree.Shaped := by
  cases value <;> simp [Value.tree, Tree.shaped_node, NodeKind.children]

@[simp] theorem Argument.shaped (argument : Argument) : argument.tree.Shaped := by
  simp [Argument.tree, Tree.shaped_node, NodeKind.children]

@[simp] theorem Directive.shaped (directive : Directive) : directive.tree.Shaped := by
  simp [Directive.tree, Tree.shaped_node, NodeKind.children]

@[simp] theorem directiveBranch_shaped (directives : List Directive) :
    (directiveBranch directives).Shaped := by
  simp [directiveBranch]

@[simp] theorem descriptionBranch_shaped (description : Option StringValue) :
    (descriptionBranch description).Shaped := by
  simp [descriptionBranch]

@[simp] theorem TypeName.shaped (type : TypeName) : type.tree.Shaped := by
  simp [TypeName.tree, Tree.shaped_node, NodeKind.children]

@[simp] theorem TypeExpr.shaped (type : TypeExpr) : type.tree.Shaped := by
  induction type with
  | named type => exact type.shaped
  | list item loc ih | nonNull item loc ih =>
    simp [TypeExpr.tree, Tree.shaped_node, NodeKind.children, ih]

@[simp] theorem VariableDefinition.shaped (definition : VariableDefinition) :
    definition.tree.Shaped := by
  simp [VariableDefinition.tree, Tree.shaped_node, NodeKind.children]

@[simp] theorem InputValueDefinition.shaped (definition : InputValueDefinition) :
    definition.tree.Shaped := by
  simp [InputValueDefinition.tree, Tree.shaped_node, NodeKind.children]

@[simp] theorem FieldDefinition.shaped (definition : FieldDefinition) :
    definition.tree.Shaped := by
  simp [FieldDefinition.tree, Tree.shaped_node, NodeKind.children]

@[simp] theorem EnumValueDefinition.shaped (definition : EnumValueDefinition) :
    definition.tree.Shaped := by
  simp [EnumValueDefinition.tree, Tree.shaped_node, NodeKind.children]

mutual

theorem Selection.shaped (selection : Selection) : selection.tree.Shaped := by
  cases selection with
  | field aliasName name arguments directives selectionSet loc =>
    have hbelow := SelectionSet.branch_shaped selectionSet
    rw [SelectionSet.branch_eq] at hbelow
    simp [Selection.tree, Tree.shaped_node, NodeKind.children, SelectionSet.branch_eq, hbelow]
  | spread name directives loc => simp [Selection.tree, Tree.shaped_node, NodeKind.children]
  | inline condition directives selectionSet loc =>
    have hbelow := selectionSet.shaped
    simp [Selection.tree, Tree.shaped_node, NodeKind.children, hbelow]

theorem SelectionSet.shaped (selectionSet : SelectionSet) : selectionSet.tree.Shaped := by
  cases selectionSet with
  | mk selections loc =>
    simpa [SelectionSet.tree, Tree.shaped_node, NodeKind.children] using
      Selection.trees_shaped selections

theorem SelectionSet.branch_shaped (selectionSet : Option SelectionSet) :
    (SelectionSet.branch selectionSet).Shaped := by
  cases selectionSet with
  | none => simp [SelectionSet.branch, Branch.Shaped, Branch.nodes]
  | some selectionSet => simp [SelectionSet.branch, selectionSet.shaped]

theorem Selection.trees_shaped (selections : List Selection) :
    ∀ tree ∈ Selection.trees selections, tree.Shaped := by
  cases selections with
  | nil => simp [Selection.trees]
  | cons selection selections =>
    rw [Selection.trees, List.forall_mem_cons]
    exact ⟨selection.shaped, Selection.trees_shaped selections⟩

end

theorem TypeDefinition.shaped (definition : TypeDefinition) : definition.tree.Shaped := by
  unfold TypeDefinition.tree
  cases definition.body <;> simp [Tree.shaped_node, NodeKind.children]

theorem Definition.shaped (definition : Definition) : definition.tree.Shaped := by
  cases definition with
  | operation definition =>
    simp [Definition.tree, OperationDefinition.tree, Tree.shaped_node, NodeKind.children,
      SelectionSet.shaped]
  | fragment definition =>
    simp [Definition.tree, FragmentDefinition.tree, Tree.shaped_node, NodeKind.children,
      SelectionSet.shaped]
  | schema definition =>
    simp [Definition.tree, SchemaDefinition.tree, OperationTypeDefinition.tree, Tree.shaped_node,
      NodeKind.children]
  | type definition => exact definition.shaped

theorem Document.shaped (document : Document) : document.tree.Shaped := by
  simp [Document.tree, Tree.shaped_node, NodeKind.children, Definition.shaped]

end QueryLint
