import QueryLint.Check.UndefinedField
import QueryLint.Proofs.ScopeChain

/-!
The standard check reports exactly the fields that are not defined on their parent types. Which
type a field is selected on is told by recursion from the definition down to the field, without
stacks and without a walk; the check finds the same types in its scope and reports the fields in
the order in which they stand in the document.
-/

namespace QueryLint

/-! Fields and their parent types -/

/-- A selected field with the type that it is selected on, if that is known. -/
structure FieldSite where
  parent : Option TypeId
  name : String
  node : Tree

/-- The type that selections below an owner are made on: its type below all modifiers, if that has
selections at all. -/
def Schema.parentOf (schema : Schema) (owner : Option TypeRef) : Option TypeId :=
  (owner.map TypeRef.base).filter fun id => (schema.type id).isComposite

/-- The type that the selections of an inline fragment are about: the one it asks for, or else the
one around it without modifiers. -/
def Schema.fragmentType (schema : Schema) (owner : Option TypeRef) :
    Option TypeName → Option TypeRef
  | some condition => schema.typeOf? (.named condition)
  | none => owner.map fun type => .named type.base

mutual

/-- The fields of a selection, in the order in which they stand in the document. -/
def Selection.fieldSites (schema : Schema) (owner : Option TypeRef) : Selection → List FieldSite
  | .field aliasName name arguments directives selectionSet loc =>
    let parent := schema.parentOf owner
    let definition := parent.bind fun parent => schema.field? parent name.value
    let node := Selection.tree (.field aliasName name arguments directives selectionSet loc)
    ⟨parent, name.value, node⟩ ::
      SelectionSet.optionalFieldSites schema (definition.map FieldDef.type) selectionSet
  | .spread _ _ _ => []
  | .inline condition _ selectionSet _ =>
    selectionSet.fieldSites schema (schema.fragmentType owner condition)

def SelectionSet.fieldSites (schema : Schema) (owner : Option TypeRef) :
    SelectionSet → List FieldSite
  | .mk selections _ => Selection.allFieldSites schema owner selections

def SelectionSet.optionalFieldSites (schema : Schema) (owner : Option TypeRef) :
    Option SelectionSet → List FieldSite
  | none => []
  | some selectionSet => selectionSet.fieldSites schema owner

def Selection.allFieldSites (schema : Schema) (owner : Option TypeRef) :
    List Selection → List FieldSite
  | [] => []
  | selection :: selections =>
    selection.fieldSites schema owner ++ Selection.allFieldSites schema owner selections

end

def Definition.fieldSites (schema : Schema) : Definition → List FieldSite
  | .operation definition =>
    definition.selectionSet.fieldSites schema ((schema.root definition.operation).map .named)
  | .fragment definition =>
    definition.selectionSet.fieldSites schema (schema.typeOf? (.named definition.condition))
  | .schema _ | .type _ => []

def Document.fieldSites (schema : Schema) (document : Document) : List FieldSite :=
  document.definitions.flatMap (Definition.fieldSites schema)

/-- The problem with a field: its parent type is known and does not define it. -/
def Schema.problemAt? (schema : Schema) (site : FieldSite) : Option Problem :=
  site.parent.bind fun parent =>
    if (schema.field? parent site.name).isNone then
      some ⟨schema.undefinedField parent site.name, site.node⟩
    else none

/-! The check as a visitor -/

namespace Schema

variable {ε σ : Type} (schema : Schema)

/-- The standard rule in a scope, as the only one of its walk. -/
def soleRule (scope : TypeScope) : Visitor ε (List Standing × List Problem × σ) :=
  .parallel [schema.undefinedFields.visitor scope]

/-- What the standard rule reports on entering a node in a scope. -/
def reported (scope : TypeScope) (tree : Tree) : List Problem :=
  match tree.kind, scope.parent?, scope.field? with
  | .field, some parent, none =>
    [⟨schema.undefinedField parent.base (tree.fieldName?.getD ""), tree⟩]
  | _, _, _ => []

def entered (tree : Tree) (scope : TypeScope) : TypeScope :=
  scope.enter schema.reader (schema.step schema.lookup tree)

def checker : Visitor (ScopedError ε) (TypeScope × List Standing × List Problem × σ) :=
  .scoped schema.reader (schema.step schema.lookup) schema.soleRule

theorem undefinedFields_enter (scope : TypeScope) (tree : Tree) (place : Place) (state : σ) :
    (schema.undefinedFields (ε := ε)).visit scope .enter tree place state =
      (.ok .silent, schema.reported scope tree, state) := by
  simp only [undefinedFields, reported]
  cases tree.kind <;> cases scope.parent? <;> cases scope.field? <;> rfl

theorem soleRule_enter (scope : TypeScope) (tree : Tree) (place : Place) (problems : List Problem)
    (state : σ) :
    (schema.soleRule (ε := ε) scope).visit .enter tree place ([.active], problems, state) =
      (.ok .silent, [.active], problems ++ schema.reported scope tree, state) := by
  simp only [soleRule, Visitor.parallel, Visitor.enterEach, Rule.visitor, undefinedFields_enter]
  rfl

theorem soleRule_leave (scope : TypeScope) (tree : Tree) (place : Place) (problems : List Problem)
    (state : σ) :
    (schema.soleRule (ε := ε) scope).visit .leave tree place ([.active], problems, state) =
      (.ok .silent, [.active], problems, state) := by
  have hkept : problems ++ [] = problems := List.append_nil problems
  simp only [soleRule, Visitor.parallel, Visitor.leaveEach, Rule.visitor, undefinedFields, hkept]
  rfl

theorem checker_enter (tree : Tree) (place : Place) (scope : TypeScope) (problems : List Problem)
    (state : σ) :
    (schema.checker (ε := ε)).visit .enter tree place (scope, [.active], problems, state) =
      (.ok .silent, schema.entered tree scope, [.active],
        problems ++ schema.reported (schema.entered tree scope) tree, state) :=
  Visitor.scoped_enter_silent (schema.soleRule_enter _ tree place problems state)

theorem checker_leave (tree : Tree) (place : Place) (scope : TypeScope) (problems : List Problem)
    (state : σ) :
    (schema.checker (ε := ε)).visit .leave tree place
        (schema.entered tree scope, [.active], problems, state) =
      (.ok .silent, scope, [.active], problems, state) :=
  Visitor.scoped_leave (schema.step_undone schema.lookup)
    (schema.soleRule_leave _ tree place problems state)

/-! What a walk of the check finds -/

variable (ε σ)

/-- The walk of a tree in a scope reports the problems, and leaves all else as it was. -/
def Finds (tree : Tree) (scope : TypeScope) (found : List Problem) : Prop :=
  ∀ (place : Place) (problems : List Problem) (state : σ),
    tree.walk (schema.checker (ε := ε)) place (scope, [.active], problems, state) =
      (.onward, scope, [.active], problems ++ found, state)

/-- The same for trees one after another. -/
def FindsEach (trees : List Tree) (scope : TypeScope) (found : List Problem) : Prop :=
  ∀ (place : Nat → Place) (position : Nat) (problems : List Problem) (state : σ),
    Tree.walkAll (schema.checker (ε := ε)) place position trees
        (scope, [.active], problems, state) =
      (.onward, scope, [.active], problems ++ found, state)

/-- The same for the branches of a tree. -/
def FindsBelow (branches : List Branch) (scope : TypeScope) (found : List Problem) : Prop :=
  ∀ (tree : Tree) (place : Place) (problems : List Problem) (state : σ),
    Branch.walkAll (schema.checker (ε := ε)) tree place branches
        (scope, [.active], problems, state) =
      (.onward, scope, [.active], problems ++ found, state)

variable {ε σ schema} {tree : Tree} {trees : List Tree} {name : String} {branches : List Branch}
  {scope : TypeScope} {found later : List Problem}

theorem FindsEach.nil : schema.FindsEach ε σ [] scope [] := by
  intro place position problems state
  rw [Tree.walkAll, List.append_nil]

theorem FindsEach.cons (htree : schema.Finds ε σ tree scope found)
    (htrees : schema.FindsEach ε σ trees scope later) :
    schema.FindsEach ε σ (tree :: trees) scope (found ++ later) := by
  intro place position problems state
  rw [Tree.walkAll_cons, htree, ← List.append_assoc]
  exact htrees place (position + 1) (problems ++ found) state

theorem FindsBelow.nil : schema.FindsBelow ε σ [] scope [] := by
  intro tree place problems state
  rw [Branch.walkAll, List.append_nil]

theorem FindsBelow.single (htree : schema.Finds ε σ tree scope found)
    (hrest : schema.FindsBelow ε σ branches scope later) :
    schema.FindsBelow ε σ (.single name tree :: branches) scope (found ++ later) := by
  intro above place problems state
  rw [Branch.walkAll_single, htree, ← List.append_assoc]
  exact hrest above place (problems ++ found) state

theorem FindsBelow.sequence (htrees : schema.FindsEach ε σ trees scope found)
    (hrest : schema.FindsBelow ε σ branches scope later) :
    schema.FindsBelow ε σ (.sequence name trees :: branches) scope (found ++ later) := by
  intro above place problems state
  rw [Branch.walkAll_sequence, htrees, ← List.append_assoc]
  exact hrest above place (problems ++ found) state

theorem FindsBelow.last (htree : schema.Finds ε σ tree scope found) :
    schema.FindsBelow ε σ [.single name tree] scope found := by
  have hbelow : schema.FindsBelow ε σ [.single name tree] scope (found ++ []) := .single htree .nil
  rwa [List.append_nil] at hbelow

/-- The rule looks at a node in the scope that the node leads to, and so at all that is below. -/
theorem Finds.node
    (hbelow : schema.FindsBelow ε σ tree.branches (schema.entered tree scope) found) :
    schema.Finds ε σ tree scope (schema.reported (schema.entered tree scope) tree ++ found) := by
  intro place problems state
  rw [Tree.walk_of_none (schema.checker_enter tree place scope problems state) rfl, hbelow,
    ← List.append_assoc]
  simp only [Flow.andThen, Visitor.leaving, checker_leave]
  rfl

/-! Trees without fields -/

theorem FindsEach.of_forall (htrees : ∀ tree ∈ trees, schema.Finds ε σ tree scope []) :
    schema.FindsEach ε σ trees scope [] := by
  induction trees with
  | nil => exact .nil
  | cons tree trees ih =>
    have hrest := ih fun tree member => htrees tree (List.mem_cons_of_mem _ member)
    exact .cons (htrees tree List.mem_cons_self) hrest

/-- A branch below which there is nothing to find. -/
theorem FindsBelow.pass {branch : Branch}
    (hnodes : ∀ node ∈ branch.nodes, schema.Finds ε σ node scope [])
    (hrest : schema.FindsBelow ε σ branches scope later) :
    schema.FindsBelow ε σ (branch :: branches) scope later := by
  cases branch with
  | absent name =>
    intro tree place problems state
    rw [Branch.walkAll]
    exact hrest tree place problems state
  | single name node => exact .single (hnodes node (List.mem_singleton.mpr rfl)) hrest
  | sequence name nodes => exact .sequence (.of_forall hnodes) hrest

theorem FindsBelow.of_forall
    (hnodes : ∀ branch ∈ branches, ∀ node ∈ branch.nodes, schema.Finds ε σ node scope []) :
    schema.FindsBelow ε σ branches scope [] := by
  induction branches with
  | nil => exact .nil
  | cons branch branches ih =>
    have hrest := ih fun branch member => hnodes branch (List.mem_cons_of_mem _ member)
    exact .pass (hnodes branch List.mem_cons_self) hrest

end Schema

/-- Whether nodes of the kind neither lead to other types nor select fields. -/
def NodeKind.isQuiet : NodeKind → Bool
  | .operationDefinition | .fragmentDefinition | .inlineFragment | .selectionSet | .field => false
  | _ => true

/-- No node of the tree leads to other types or selects a field. -/
inductive Tree.Quiet : Tree → Prop where
  | node {data : NodeData} {branches : List Branch} (quiet : data.kind.isQuiet = true)
      (below : ∀ branch ∈ branches, ∀ node ∈ branch.nodes, Tree.Quiet node) :
      Tree.Quiet (.node data branches)

def Branch.Quiet (branch : Branch) : Prop := ∀ node ∈ branch.nodes, node.Quiet

theorem Schema.step_quiet (schema : Schema) (lookup : FieldLookup) {tree : Tree}
    (h : tree.kind.isQuiet = true) : schema.step lookup tree = .pass := by
  unfold Schema.step
  cases hkind : tree.kind <;> simp_all [NodeKind.isQuiet]

theorem Schema.reported_quiet (schema : Schema) (scope : TypeScope) {tree : Tree}
    (h : tree.kind.isQuiet = true) : schema.reported scope tree = [] := by
  unfold Schema.reported
  cases hkind : tree.kind <;> simp_all [NodeKind.isQuiet]

theorem Tree.Quiet.finds {schema : Schema} {ε σ : Type} {tree : Tree} (h : tree.Quiet)
    (scope : TypeScope) : schema.Finds ε σ tree scope [] := by
  induction h with
  | @node data branches quiet _ ih =>
    have hkind : (Tree.node data branches).kind.isQuiet = true := quiet
    have hscope : schema.entered (.node data branches) scope = scope := by
      rw [Schema.entered, schema.step_quiet schema.lookup hkind]
      rfl
    have hbelow : schema.FindsBelow ε σ (Tree.node data branches).branches
        (schema.entered (.node data branches) scope) [] := by
      rw [hscope]
      exact .of_forall ih
    have hnode := Schema.Finds.node hbelow
    rwa [schema.reported_quiet _ hkind] at hnode

theorem Branch.Quiet.findsBelow {schema : Schema} {ε σ : Type} {branch : Branch}
    {branches : List Branch} {scope : TypeScope} {found : List Problem} (h : branch.Quiet)
    (hrest : schema.FindsBelow ε σ branches scope found) :
    schema.FindsBelow ε σ (branch :: branches) scope found :=
  .pass (fun node member => (h node member).finds scope) hrest

theorem Tree.quiet_node {data : NodeData} {branches : List Branch} :
    (Tree.node data branches).Quiet ↔
      data.kind.isQuiet = true ∧ ∀ branch ∈ branches, branch.Quiet :=
  ⟨fun | .node quiet below => ⟨quiet, below⟩, fun h => .node h.1 h.2⟩

@[simp] theorem Branch.quiet_single {name : String} {tree : Tree} :
    (Branch.single name tree).Quiet ↔ tree.Quiet := by
  simp [Branch.Quiet, Branch.nodes]

@[simp] theorem Branch.quiet_sequence {name : String} {trees : List Tree} :
    (Branch.sequence name trees).Quiet ↔ ∀ tree ∈ trees, tree.Quiet := Iff.rfl

@[simp] theorem Branch.quiet_optional {name : String} {tree : Option Tree} :
    (Branch.optional name tree).Quiet ↔ ∀ node ∈ tree, node.Quiet := by
  cases tree <;> simp [Branch.optional, Branch.Quiet, Branch.nodes]

@[simp] theorem Name.quiet (name : Name) : name.tree.Quiet := by
  simp [Name.tree, Tree.quiet_node, NodeKind.isQuiet]

@[simp] theorem StringValue.quiet (literal : StringValue) : literal.tree.Quiet := by
  simp [StringValue.tree, Tree.quiet_node, NodeKind.isQuiet]

@[simp] theorem Value.quiet (value : Value) : value.tree.Quiet := by
  cases value <;> simp [Value.tree, Tree.quiet_node, NodeKind.isQuiet]

@[simp] theorem Argument.quiet (argument : Argument) : argument.tree.Quiet := by
  simp [Argument.tree, Tree.quiet_node, NodeKind.isQuiet]

@[simp] theorem Directive.quiet (directive : Directive) : directive.tree.Quiet := by
  simp [Directive.tree, Tree.quiet_node, NodeKind.isQuiet]

@[simp] theorem directiveBranch_quiet (directives : List Directive) :
    (directiveBranch directives).Quiet := by
  simp [directiveBranch]

@[simp] theorem descriptionBranch_quiet (description : Option StringValue) :
    (descriptionBranch description).Quiet := by
  simp [descriptionBranch]

@[simp] theorem TypeName.quiet (type : TypeName) : type.tree.Quiet := by
  simp [TypeName.tree, Tree.quiet_node, NodeKind.isQuiet]

@[simp] theorem TypeExpr.quiet (type : TypeExpr) : type.tree.Quiet := by
  induction type with
  | named type => exact type.quiet
  | list item loc ih => simp [TypeExpr.tree, Tree.quiet_node, NodeKind.isQuiet, ih]
  | nonNull item loc ih => simp [TypeExpr.tree, Tree.quiet_node, NodeKind.isQuiet, ih]

@[simp] theorem VariableDefinition.quiet (definition : VariableDefinition) :
    definition.tree.Quiet := by
  simp [VariableDefinition.tree, Tree.quiet_node, NodeKind.isQuiet]

@[simp] theorem InputValueDefinition.quiet (definition : InputValueDefinition) :
    definition.tree.Quiet := by
  simp [InputValueDefinition.tree, Tree.quiet_node, NodeKind.isQuiet]

@[simp] theorem FieldDefinition.quiet (definition : FieldDefinition) : definition.tree.Quiet := by
  simp [FieldDefinition.tree, Tree.quiet_node, NodeKind.isQuiet]

@[simp] theorem EnumValueDefinition.quiet (definition : EnumValueDefinition) :
    definition.tree.Quiet := by
  simp [EnumValueDefinition.tree, Tree.quiet_node, NodeKind.isQuiet]

theorem TypeDefinition.quiet (definition : TypeDefinition) : definition.tree.Quiet := by
  unfold TypeDefinition.tree
  cases definition.body <;> simp [Tree.quiet_node, NodeKind.isQuiet]

theorem SchemaDefinition.quiet (definition : SchemaDefinition) : definition.tree.Quiet := by
  simp [SchemaDefinition.tree, OperationTypeDefinition.tree, Tree.quiet_node, NodeKind.isQuiet]

theorem Selection.quiet_spread (name : Name) (directives : List Directive)
    (loc : Option Location) : (Selection.spread name directives loc).tree.Quiet := by
  simp [Selection.tree, Tree.quiet_node, NodeKind.isQuiet]

/-! Selections -/

namespace Schema

variable (schema : Schema)

/-- Types that have selections are output types, so what the scope drops is no parent. -/
theorem parent_of_output (owner : Option TypeRef) :
    ((owner.filter schema.reader.isOutput).map schema.reader.base).filter
        schema.reader.isComposite =
      (schema.parentOf owner).map .named := by
  cases owner with
  | none => rfl
  | some type =>
    have houtput : (schema.type type.base).isComposite = true →
        (schema.type type.base).isOutput = true := by
      intro hcomposite
      rw [NamedType.isOutput, hcomposite, Bool.or_true]
    by_cases hcomposite : (schema.type type.base).isComposite = true
    · simp [reader, parentOf, Option.filter, hcomposite, houtput hcomposite]
    · cases hkept : (schema.type type.base).isOutput <;>
        simp [reader, parentOf, Option.filter, hcomposite, hkept]

/-- The type around a fragment without condition, as the scope keeps it. -/
theorem inherited_of_output (owner : Option TypeRef) :
    ((owner.filter schema.reader.isOutput).map schema.reader.base).filter
        schema.reader.isOutput =
      (schema.fragmentType owner none).filter schema.reader.isOutput := by
  cases owner with
  | none => rfl
  | some type =>
    cases hkept : (schema.type type.base).isOutput <;>
      simp [reader, fragmentType, Option.filter, TypeRef.base, hkept]

/-- The scope stands below an owner of the type. -/
def Owned (scope : TypeScope) (owner : Option TypeRef) : Prop :=
  scope.type? = owner.filter schema.reader.isOutput

/-- The scope stands among the selections that are made on an owner of the type. -/
structure Selecting (scope : TypeScope) (owner : Option TypeRef) : Prop where
  owned : schema.Owned scope owner
  parent : scope.parent? = (schema.parentOf owner).map .named

variable {schema} {scope : TypeScope} {owner : Option TypeRef}

theorem Owned.selecting (h : schema.Owned scope owner) (loc : Option Location)
    (branches : List Branch) :
    schema.Selecting (schema.entered (.node ⟨.selectionSet, .none, loc⟩ branches) scope) owner := by
  refine ⟨h, ?_⟩
  rw [← schema.parent_of_output, ← h]
  rfl

theorem Selecting.owned_inline (h : schema.Selecting scope owner) (condition : Option TypeName)
    (directives : List Directive) (selectionSet : SelectionSet) (loc : Option Location) :
    schema.Owned (schema.entered
        (Selection.tree (.inline condition directives selectionSet loc)) scope)
      (schema.fragmentType owner condition) := by
  cases condition with
  | none =>
    have hinherited := schema.inherited_of_output owner
    rw [← h.owned] at hinherited
    simp only [Selection.tree]
    exact hinherited
  | some condition =>
    simp only [Selection.tree]
    rfl

section Field

variable {tree : Tree} {name : String}

/-- The definition of a field is looked up on the type that the field is selected on. -/
theorem Selecting.field?_entered (h : schema.Selecting scope owner) (hkind : tree.kind = .field)
    (hname : tree.fieldName? = some name) :
    (schema.entered tree scope).field? =
      (schema.parentOf owner).bind fun parent => schema.field? parent name := by
  have hstep : schema.step schema.lookup tree = .field fun parent => schema.lookup parent tree := by
    rw [Schema.step, hkind]
  have hfield : (schema.entered tree scope).field? =
      scope.parent?.bind fun parent => schema.lookup parent tree := by
    rw [Schema.entered, hstep]
    rfl
  rw [hfield, h.parent, Option.bind_map]
  simp only [Function.comp_def, Schema.lookup, hname, Option.bind_some]

theorem Selecting.parent?_entered (h : schema.Selecting scope owner) (hkind : tree.kind = .field) :
    (schema.entered tree scope).parent? = (schema.parentOf owner).map .named := by
  rw [← h.parent, Schema.entered, Schema.step, hkind]
  rfl

theorem Selecting.owned_field (h : schema.Selecting scope owner) (hkind : tree.kind = .field)
    (hname : tree.fieldName? = some name) :
    schema.Owned (schema.entered tree scope)
      (((schema.parentOf owner).bind fun parent => schema.field? parent name).map
        FieldDef.type) := by
  have htype : (schema.entered tree scope).type? =
      ((schema.entered tree scope).field?.map FieldDef.type).filter schema.reader.isOutput := by
    rw [Schema.entered, Schema.step, hkind]
    rfl
  rwa [h.field?_entered hkind hname] at htype

/-- The rule reports a field exactly if its parent type is known and does not define it. -/
theorem Selecting.reported (h : schema.Selecting scope owner) (hkind : tree.kind = .field)
    (hname : tree.fieldName? = some name) :
    schema.reported (schema.entered tree scope) tree =
      (schema.problemAt? ⟨schema.parentOf owner, name, tree⟩).toList := by
  rw [Schema.reported, hkind, h.parent?_entered hkind, h.field?_entered hkind hname, hname,
    Schema.problemAt?]
  cases schema.parentOf owner with
  | none => rfl
  | some parent => cases hfield : schema.field? parent name <;> simp [hfield, TypeRef.base]

end Field

end Schema

section Finds

variable {schema : Schema} {ε σ : Type}

theorem Selection.fieldName?_field (aliasName : Option Name) (name : Name)
    (arguments : List Argument) (directives : List Directive) (selectionSet : Option SelectionSet)
    (loc : Option Location) :
    (Selection.field aliasName name arguments directives selectionSet loc).tree.fieldName? =
      some name.value := by
  cases aliasName <;>
    simp [Selection.tree, Tree.fieldName?, Tree.child?, Tree.branches, Branch.optional, Name.tree,
      Tree.data]

/-- A field is reported before what is below it. -/
theorem Selection.finds_field {scope : TypeScope} {owner : Option TypeRef}
    (h : schema.Selecting scope owner) (aliasName : Option Name) (name : Name)
    (arguments : List Argument) (directives : List Directive) (selectionSet : Option SelectionSet)
    (loc : Option Location) {sites : List FieldSite}
    (hset : ∀ scope, schema.Owned scope (((schema.parentOf owner).bind fun parent =>
        schema.field? parent name.value).map FieldDef.type) →
      schema.FindsBelow ε σ [SelectionSet.branch selectionSet] scope
        (sites.filterMap schema.problemAt?)) :
    let tree := Selection.tree (.field aliasName name arguments directives selectionSet loc)
    schema.Finds ε σ tree scope
      ((⟨schema.parentOf owner, name.value, tree⟩ :: sites).filterMap schema.problemAt?) := by
  intro tree
  have hkind : tree.kind = .field := by
    simp only [tree, Selection.tree]
    rfl
  have hname : tree.fieldName? = some name.value := Selection.fieldName?_field ..
  have hselections := hset _ (h.owned_field hkind hname)
  have hbelow : schema.FindsBelow ε σ tree.branches (schema.entered tree scope)
      (sites.filterMap schema.problemAt?) := by
    simp only [tree, Selection.tree] at hselections ⊢
    refine Branch.Quiet.findsBelow (by simp) (Branch.Quiet.findsBelow (by simp) ?_)
    exact Branch.Quiet.findsBelow (by simp) (Branch.Quiet.findsBelow (by simp) hselections)
  have hnode := Schema.Finds.node hbelow
  rw [h.reported hkind hname] at hnode
  rw [List.filterMap_cons]
  cases hproblem : schema.problemAt? ⟨schema.parentOf owner, name.value, tree⟩ with
  | none => rwa [hproblem] at hnode
  | some problem => rwa [hproblem] at hnode

theorem Selection.finds_inline {scope : TypeScope} {owner : Option TypeRef}
    (h : schema.Selecting scope owner) (condition : Option TypeName)
    (directives : List Directive) (selectionSet : SelectionSet) (loc : Option Location)
    {found : List Problem}
    (hset : ∀ scope, schema.Owned scope (schema.fragmentType owner condition) →
      schema.Finds ε σ selectionSet.tree scope found) :
    schema.Finds ε σ (Selection.tree (.inline condition directives selectionSet loc)) scope
      found := by
  have hselections := hset _ (h.owned_inline condition directives selectionSet loc)
  rw [Selection.tree] at hselections ⊢
  have hbelow : schema.FindsBelow ε σ [directiveBranch directives,
      .single "selection_set" selectionSet.tree] _ found :=
    Branch.Quiet.findsBelow (by simp) (.last hselections)
  exact .node (Branch.Quiet.findsBelow (by simp) hbelow)

mutual

/-- A selection among selections on an owner: what is found below is what the fields told from the
owner have as problems. -/
theorem Selection.finds (selection : Selection) {scope : TypeScope} {owner : Option TypeRef}
    (h : schema.Selecting scope owner) :
    schema.Finds ε σ selection.tree scope
      ((selection.fieldSites schema owner).filterMap schema.problemAt?) := by
  cases selection with
  | field aliasName name arguments directives selectionSet loc =>
    rw [Selection.fieldSites]
    exact Selection.finds_field h aliasName name arguments directives selectionSet loc
      fun scope howned => SelectionSet.findsBelow selectionSet howned
  | spread name directives loc =>
    rw [Selection.fieldSites]
    exact (Selection.quiet_spread name directives loc).finds scope
  | inline condition directives selectionSet loc =>
    rw [Selection.fieldSites]
    exact Selection.finds_inline h condition directives selectionSet loc
      fun scope howned => SelectionSet.finds selectionSet howned
  termination_by sizeOf selection

theorem SelectionSet.finds (selectionSet : SelectionSet) {scope : TypeScope}
    {owner : Option TypeRef} (h : schema.Owned scope owner) :
    schema.Finds ε σ selectionSet.tree scope
      ((selectionSet.fieldSites schema owner).filterMap schema.problemAt?) := by
  obtain ⟨selections, loc⟩ := selectionSet
  let branches : List Branch := [.sequence "selections" (Selection.trees selections)]
  have hbelow : schema.FindsBelow ε σ branches
      (schema.entered (.node ⟨.selectionSet, .none, loc⟩ branches) scope) _ :=
    .sequence (Selection.findsEach selections (h.selecting loc branches)) .nil
  rw [SelectionSet.tree, SelectionSet.fieldSites]
  rw [List.append_nil] at hbelow
  exact Schema.Finds.node hbelow
  termination_by sizeOf selectionSet

theorem SelectionSet.findsBelow (selectionSet : Option SelectionSet) {scope : TypeScope}
    {owner : Option TypeRef} (h : schema.Owned scope owner) :
    schema.FindsBelow ε σ [SelectionSet.branch selectionSet] scope
      ((SelectionSet.optionalFieldSites schema owner selectionSet).filterMap
        schema.problemAt?) := by
  cases selectionSet with
  | none =>
    rw [SelectionSet.branch, SelectionSet.optionalFieldSites]
    exact .of_forall (by simp [Branch.nodes])
  | some selectionSet =>
    rw [SelectionSet.branch, SelectionSet.optionalFieldSites]
    exact .last (SelectionSet.finds selectionSet h)
  termination_by sizeOf selectionSet

theorem Selection.findsEach (selections : List Selection) {scope : TypeScope}
    {owner : Option TypeRef} (h : schema.Selecting scope owner) :
    schema.FindsEach ε σ (Selection.trees selections) scope
      ((Selection.allFieldSites schema owner selections).filterMap schema.problemAt?) := by
  cases selections with
  | nil => exact .nil
  | cons selection selections =>
    rw [Selection.trees, Selection.allFieldSites, List.filterMap_append]
    exact .cons (Selection.finds selection h) (Selection.findsEach selections h)
  termination_by sizeOf selections

end

/-! Documents -/

theorem Definition.finds (definition : Definition) (scope : TypeScope) :
    schema.Finds ε σ definition.tree scope
      ((definition.fieldSites schema).filterMap schema.problemAt?) := by
  cases definition with
  | operation definition =>
    have howned : schema.Owned (schema.entered definition.tree scope)
        ((schema.root definition.operation).map .named) := rfl
    have hbelow : schema.FindsBelow ε σ definition.tree.branches
        (schema.entered definition.tree scope) _ :=
      Branch.Quiet.findsBelow (by simp) (Branch.Quiet.findsBelow (by simp)
        (Branch.Quiet.findsBelow (by simp) (.last (definition.selectionSet.finds howned))))
    exact Schema.Finds.node hbelow
  | fragment definition =>
    have howned : schema.Owned (schema.entered definition.tree scope)
        (schema.typeOf? (.named definition.condition)) := rfl
    have hbelow : schema.FindsBelow ε σ definition.tree.branches
        (schema.entered definition.tree scope) _ :=
      Branch.Quiet.findsBelow (by simp) (Branch.Quiet.findsBelow (by simp)
        (Branch.Quiet.findsBelow (by simp) (.last (definition.selectionSet.finds howned))))
    exact Schema.Finds.node hbelow
  | schema definition => exact definition.quiet.finds scope
  | type definition => exact definition.quiet.finds scope

theorem Definition.findsEach (definitions : List Definition) (scope : TypeScope) :
    schema.FindsEach ε σ (definitions.map Definition.tree) scope
      ((definitions.flatMap (Definition.fieldSites schema)).filterMap schema.problemAt?) := by
  induction definitions with
  | nil => exact .nil
  | cons definition definitions ih =>
    rw [List.map_cons, List.flatMap_cons, List.filterMap_append]
    exact .cons (definition.finds scope) ih

theorem Document.finds (document : Document) (scope : TypeScope) :
    schema.Finds ε σ document.tree scope
      ((document.fieldSites schema).filterMap schema.problemAt?) := by
  have hbelow : schema.FindsBelow ε σ document.tree.branches scope _ :=
    .sequence (Definition.findsEach document.definitions scope) .nil
  rw [List.append_nil] at hbelow
  exact Schema.Finds.node hbelow

end Finds

/-- The walk of the standard check, side by side with no other rule. -/
theorem Schema.visit_undefinedFields {ε σ : Type} (schema : Schema) (document : Document)
    (state : σ) :
    document.tree.visit (schema.visitor schema.lookup fun scope =>
        .parallel ([schema.undefinedFields (ε := ε)].map (·.visitor scope)))
        (.empty, Standing.fresh 1, [], state) =
      (.ok (), .empty, Standing.fresh 1, (document.fieldSites schema).filterMap schema.problemAt?,
        state) := by
  have hwalk : document.tree.walk (schema.visitor schema.lookup fun scope =>
        .parallel [(schema.undefinedFields (ε := ε)).visitor scope]) .root
        (.empty, [.active], [], state) = (.onward, .empty, [.active], _, state) :=
    document.finds .empty .root [] state
  rw [Tree.visit_eq]
  simp only [List.map_cons, List.map_nil, Standing.fresh, List.replicate_one, hwalk,
    List.nil_append, Flow.result]

/-- The standard check reports the problems at the fields of the document. -/
theorem Schema.check_problems {ε σ : Type} (schema : Schema) (document : Document) (state : σ) :
    (schema.check (ε := ε) schema.lookup [schema.undefinedFields] document.tree .empty
      state).problems = (document.fieldSites schema).filterMap schema.problemAt? := by
  rw [Schema.check, List.length_singleton, schema.visit_undefinedFields]

/-- The standard check of a document reports one problem for each field whose parent type is known
and does not define the field, in the order of the document, and nothing else. It never fails, and
leaves its scope and the state of its rule as they were. -/
theorem Schema.check_undefinedFields_eq {ε σ : Type} (schema : Schema) (document : Document)
    (state : σ) :
    schema.check (ε := ε) schema.lookup [schema.undefinedFields] document.tree .empty state =
      ⟨.ok (), .empty, (document.fieldSites schema).filterMap schema.problemAt?, state⟩ := by
  rw [Schema.check, List.length_singleton, schema.visit_undefinedFields]

end QueryLint
