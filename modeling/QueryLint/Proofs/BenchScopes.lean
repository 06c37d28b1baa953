import QueryLint.Proofs.SettledBenches
import QueryLint.Proofs.UndefinedFields

/-!
Scopes on a settled bench. They go with the scopes of the schema: entering the node of a part of a
document leads from scopes with the same types and fields to such scopes again.
-/

namespace QueryLint

/-- Parts of documents by what entering them does to a scope. -/
inductive Tree.InScope : Tree → Prop where
  | operation (definition : OperationDefinition) : InScope definition.tree
  | fragment (definition : FragmentDefinition) : InScope definition.tree
  | selectionSet (selectionSet : SelectionSet) : InScope selectionSet.tree
  | field (aliasName : Option Name) (name : Name) (arguments : List Argument)
      (directives : List Directive) (selectionSet : Option SelectionSet) (loc : Option Location) :
      InScope (Selection.tree (.field aliasName name arguments directives selectionSet loc))
  | inline (condition : Option TypeName) (directives : List Directive)
      (selectionSet : SelectionSet) (loc : Option Location) :
      InScope (Selection.tree (.inline condition directives selectionSet loc))
  | quiet {tree : Tree} (quiet : tree.kind.isQuiet = true) : InScope tree

theorem TypeDefinition.isQuiet (definition : TypeDefinition) :
    definition.tree.kind.isQuiet = true := by
  unfold TypeDefinition.tree
  cases definition.body <;> rfl

theorem Tree.IsPart.inScope {tree : Tree} (h : tree.IsPart) : tree.InScope := by
  cases h with
  | selection selection =>
    cases selection with
    | field aliasName name arguments directives selectionSet loc => exact .field ..
    | spread name directives loc => exact .quiet rfl
    | inline condition directives selectionSet loc => exact .inline ..
  | value value => cases value <;> exact .quiet rfl
  | typeExpr type => cases type <;> exact .quiet rfl
  | selectionSet selectionSet => exact .selectionSet selectionSet
  | definition definition =>
    cases definition with
    | operation definition => exact .operation definition
    | fragment definition => exact .fragment definition
    | schema definition => exact .quiet rfl
    | type definition => exact .quiet definition.isQuiet
  | _ => exact .quiet rfl

theorem Tree.InScope.named {tree : Tree} (h : tree.InScope) (hkind : tree.kind = .field) :
    ∃ name : Name, .single "name" name.tree ∈ tree.branches ∧
      tree.fieldName? = some name.value := by
  cases h with
  | field aliasName name arguments directives selectionSet loc =>
    exact ⟨name, by simp [Selection.tree, Tree.branches], Selection.fieldName?_field ..⟩
  | selectionSet selectionSet =>
    cases selectionSet
    cases hkind
  | quiet hquiet =>
    rw [hkind] at hquiet
    cases hquiet
  | _ => cases hkind

namespace Workbench

/-! Scopes with the same types and fields -/

def IsType (value : Datum) (ref : TypeRef) : Prop := ∃ id, value = .type id ∧ ref = .named id

structure SameScope (scope : Scope Datum Datum) (other : TypeScope) : Prop where
  types : List.Forall₂ (Option.Rel RefersTo) scope.types other.types
  parents : List.Forall₂ (Option.Rel IsType) scope.parents other.parents
  fields : List.Forall₂ (Option.Rel IsField) scope.fields other.fields

theorem rel_head? {α β : Type} {R : α → β → Prop} {values : List (Option α)}
    {others : List (Option β)} (h : List.Forall₂ (Option.Rel R) values others) :
    Option.Rel R values.head?.join others.head?.join := by
  cases h with
  | nil => exact .none
  | cons hfirst hrest => exact hfirst

section Entering

variable {bench : Bench} {record : SchemaRecord} {scope : Scope Datum Datum} {other : TypeScope}

theorem filter_isOutput {type : Option Datum} {ref : Option TypeRef}
    (h : Option.Rel RefersTo type ref) :
    Option.Rel RefersTo (type.filter bench.reader.isOutput)
      (ref.filter (bench.schemaOf record).reader.isOutput) := by
  cases h with
  | none => exact .none
  | @some value ref href =>
    have hsame : bench.reader.isOutput value = (bench.schemaOf record).reader.isOutput ref :=
      Bench.isOutput_eq href
    rw [Option.filter_some, Option.filter_some, hsame]
    split
    · exact .some href
    · exact .none

theorem map_base {type : Option Datum} {ref : Option TypeRef} (h : Option.Rel RefersTo type ref) :
    Option.Rel IsType (type.map bench.reader.base)
      (ref.map (bench.schemaOf record).reader.base) := by
  cases h with
  | none => exact .none
  | some href => exact .some ⟨_, Bench.base_eq href, rfl⟩

theorem refersTo_of_isType {type : Option Datum} {ref : Option TypeRef}
    (h : Option.Rel IsType type ref) : Option.Rel RefersTo type ref := by
  cases h with
  | none => exact .none
  | some htype =>
    obtain ⟨id, rfl, rfl⟩ := htype
    exact .some (.type id)

theorem filter_isComposite {type : Option Datum} {ref : Option TypeRef}
    (h : Option.Rel IsType type ref) :
    Option.Rel IsType (type.filter bench.reader.isComposite)
      (ref.filter (bench.schemaOf record).reader.isComposite) := by
  cases h with
  | none => exact .none
  | some htype =>
    obtain ⟨id, rfl, rfl⟩ := htype
    have hsame : bench.reader.isComposite (.type id) =
        (bench.schemaOf record).reader.isComposite (.named id) := bench.test_type (by decide) id
    rw [Option.filter_some, Option.filter_some, hsame]
    split
    · exact .some ⟨id, rfl, rfl⟩
    · exact .none

theorem map_fieldType {field : Option Datum} {definition : Option FieldDef}
    (h : Option.Rel IsField field definition) :
    Option.Rel RefersTo (field.map bench.reader.fieldType) (definition.map FieldDef.type) := by
  cases h with
  | none => exact .none
  | some hfield =>
    obtain ⟨_, _, _, _, _, _, rfl, htype⟩ := hfield
    exact .some htype

variable (h : SameScope scope other)

include h

theorem SameScope.own {type : Option Datum} {ref : Option TypeRef}
    (htype : Option.Rel RefersTo (type.filter bench.reader.isOutput)
      (ref.filter (bench.schemaOf record).reader.isOutput)) :
    SameScope (scope.enter bench.reader (.own type))
      (other.enter (bench.schemaOf record).reader (.own ref)) where
  types := .cons htype h.types
  parents := h.parents
  fields := h.fields

theorem SameScope.inherit :
    SameScope (scope.enter bench.reader .inherit)
      (other.enter (bench.schemaOf record).reader .inherit) where
  types := .cons (filter_isOutput (refersTo_of_isType (map_base (rel_head? h.types)))) h.types
  parents := h.parents
  fields := h.fields

theorem SameScope.selections :
    SameScope (scope.enter bench.reader .selections)
      (other.enter (bench.schemaOf record).reader .selections) where
  types := h.types
  parents := .cons (filter_isComposite (map_base (rel_head? h.types))) h.parents
  fields := h.fields

theorem SameScope.field {lookup : Datum → Option Datum} {lookup' : TypeRef → Option FieldDef}
    (hfield : Option.Rel IsField (scope.parent?.bind lookup) (other.parent?.bind lookup')) :
    SameScope (scope.enter bench.reader (.field lookup))
      (other.enter (bench.schemaOf record).reader (.field lookup')) where
  types := .cons (filter_isOutput (map_fieldType hfield)) h.types
  parents := h.parents
  fields := .cons hfield h.fields

end Entering

/-! Entering the nodes of parts of documents -/

section Steps

variable {bench : Bench} {schema node origin : Datum} {record : SchemaRecord}
  {scope : Scope Datum Datum} {other : TypeScope}

/-- The step leads to the scope to which the schema's own step leads, and leaving undoes it. -/
structure GoesWith (bench : Bench) (record : SchemaRecord) (scope : Scope Datum Datum)
    (other : TypeScope) (tree : Tree) (step : ScopeStep Datum Datum) : Prop where
  same : SameScope (scope.enter bench.reader step)
    ((bench.schemaOf record).entered tree other)
  undone : ∀ scope, (Scope.enter bench.reader step scope).leave tree.kind = (.ok (), scope)

/-- The root type of an operation. -/
theorem Settled.rootType_makes (h : Settled bench schema record) (operation : OperationType) :
    Makes bench (rootType schema (.operation operation)) (· = record.root operation) := by
  have hvalue : (Datum.operation operation).attr? "value" = some (.ofString operation.text) := rfl
  have hfound : (OperationType.all.find? fun type =>
      (Datum.ofString operation.text).equal (.ofString type.text)) = some operation := by
    simp only [Datum.equal_ofString]
    cases operation <;> rfl
  rw [rootType, attr_eq hvalue, pure_bind]
  simp only [hfound]
  exact h.schemaRecord_makes.bind fun found hrecord => Makes.pure (by rw [hrecord])

/-- The type that a fragment asks for. -/
theorem Settled.typeOfNode_makes (h : Settled bench schema record) {type : TypeName}
    (hnode : Depicts origin type.tree node) :
    Makes bench (typeOfNode schema node) fun found => Option.Rel RefersTo found.nonNull?
      (((bench.schemaOf record).find? type.name.value).map .named) := by
  have hname : .single "name" type.name.tree ∈ type.tree.branches := List.mem_singleton.mpr rfl
  obtain ⟨child, hattr, hchild⟩ := hnode.branch hname
  obtain ⟨id, loc, rfl⟩ := hnode.eq_pair rfl (by decide) hattr
  have hvalue := hchild.content ("value", .ofString type.name.value) (by simp [Name.tree, Tree.data,
    contentAttributes, Datum.ofString])
  change Makes bench (do findType schema (← attr child "value")) _
  rw [attr_eq hvalue, pure_bind]
  refine h.currentSchema_makes.bind fun current hcurrent => Makes.pure ?_
  subst hcurrent
  rw [Datum.string?_eq_some.mpr rfl, Option.bind_some]
  cases (bench.schemaOf record).find? type.name.value with
  | none => exact .none
  | some id => exact .some (.type id)

theorem isOutput_of_not_isSome {value : Datum} (h : value.isSome = false) :
    bench.reader.isOutput value = false := by
  cases value <;> first | rfl | cases h

/-- The root that was given for an operation is an output type just where the schema's is. -/
theorem Settled.filter_root (h : Settled bench schema record) (operation : OperationType) :
    Option.Rel RefersTo ((record.root operation).nonNull?.filter bench.reader.isOutput)
      ((((bench.schemaOf record).root operation).map .named).filter
        (bench.schemaOf record).reader.isOutput) := by
  have hroot := List.all_eq_true.mp h.rooted operation (by cases operation <;> decide)
  have hsame : (bench.schemaOf record).root operation = record.schema.root operation := by
    cases operation <;> rfl
  rw [hsame]
  rcases hgiven : record.schema.root operation with _ | id
  · simp only [hgiven, Bool.not_eq_true'] at hroot
    have hnone : (record.root operation).nonNull?.filter bench.reader.isOutput = none := by
      rw [Datum.nonNull?]
      split
      · rfl
      · rw [Option.filter_some, isOutput_of_not_isSome hroot, if_neg Bool.false_ne_true]
    rw [hnone]
    exact .none
  · simp only [hgiven, Datum.same, decide_eq_true_iff] at hroot
    rw [Datum.identity_eq_type.mp hroot]
    exact filter_isOutput (.some (.type id))

/-- The step of a fragment that asks for a type. -/
theorem Settled.fragmentStep_makes (h : Settled bench schema record) (hsame : SameScope scope other)
    {type : TypeName} {condition : Datum} (hcondition : Depicts origin type.tree condition) :
    Makes bench (fragmentStep schema condition) fun step =>
      SameScope (scope.enter bench.reader step) (other.enter (bench.schemaOf record).reader
        (.own (((bench.schemaOf record).find? type.name.value).map .named))) ∧
      ∃ found, step = .own found := by
  obtain ⟨id, attributes, rfl, -⟩ := hcondition.shape
  refine (h.typeOfNode_makes hcondition).bind fun found hfound => Makes.pure ⟨?_, _, rfl⟩
  exact hsame.own (filter_isOutput hfound)

/-- The field that a node selects where the scope is. -/
theorem Settled.selectedField_makes (h : Settled bench schema record)
    (hsame : SameScope scope other) {aliasName : Option Name} {name : Name}
    {arguments : List Argument} {directives : List Directive} {selectionSet : Option SelectionSet}
    {loc : Option Location} (hnode : Depicts origin (Selection.tree
      (.field aliasName name arguments directives selectionSet loc)) node) :
    Makes bench (selectedField ⟨schema, .null, scope⟩ node) fun found =>
      Option.Rel IsField (scope.parent?.bind fun _ => found.nonNull?)
        (other.parent?.bind fun parent => (bench.schemaOf record).lookup parent (Selection.tree
          (.field aliasName name arguments directives selectionSet loc))) := by
  have hname : .single "name" name.tree ∈ (Selection.tree
      (.field aliasName name arguments directives selectionSet loc)).branches := by
    simp [Selection.tree, Tree.branches]
  have hparents : Option.Rel IsType scope.parent? other.parent? := rel_head? hsame.parents
  rw [selectedField]
  generalize scope.parent? = parent at hparents
  generalize other.parent? = ref at hparents
  cases hparents with
  | none => exact Makes.pure .none
  | some htype =>
    obtain ⟨id, rfl, rfl⟩ := htype
    refine (h.fieldOf_makes (nameOf_eq hnode hname) id).mono fun found hfound => ?_
    rwa [Option.bind_some, Option.bind_some, Schema.lookup, Selection.fieldName?_field,
      Option.bind_some]

/-- What entering a node does to a scope goes with what entering the part of the document does. -/
theorem Settled.scopeStep_makes (h : Settled bench schema record) (hsame : SameScope scope other)
    {tree : Tree} (hpart : tree.IsPart) (hnode : Depicts origin tree node) :
    Makes bench (scopeStep ⟨schema, .null, scope⟩ tree.kind node)
      (GoesWith bench record scope other tree) := by
  cases hpart.inScope with
  | operation definition =>
    have hoperation := hnode.content ("operation", .operation definition.operation)
      List.mem_cons_self
    change Makes bench (do
      return ScopeStep.own (← rootType schema (← attr node "operation")).nonNull?) _
    rw [attr_eq hoperation, pure_bind]
    refine (h.rootType_makes _).bind fun root hroot => Makes.pure ⟨?_, fun _ => rfl⟩
    subst hroot
    exact hsame.own (h.filter_root definition.operation)
  | fragment definition =>
    have hbranch : .single "type_condition" definition.condition.tree ∈
        definition.tree.branches := by simp [FragmentDefinition.tree, Tree.branches]
    obtain ⟨condition, hattr, hcondition⟩ := hnode.branch hbranch
    change Makes bench (do fragmentStep schema (← attr node "type_condition")) _
    rw [attr_eq hattr, pure_bind]
    refine (h.fragmentStep_makes hsame hcondition).mono ?_
    rintro step ⟨hscope, found, rfl⟩
    exact ⟨hscope, fun _ => rfl⟩
  | selectionSet selectionSet =>
    obtain ⟨selections, loc⟩ := selectionSet
    exact Makes.pure ⟨hsame.selections, fun _ => rfl⟩
  | field aliasName name arguments directives selectionSet loc =>
    exact (h.selectedField_makes hsame hnode).bind fun found hfound =>
      Makes.pure ⟨hsame.field hfound, fun _ => rfl⟩
  | inline condition directives selectionSet loc =>
    change Makes bench (do fragmentStep schema (← attr node "type_condition")) _
    cases condition with
    | none =>
      have hbranch : .absent "type_condition" ∈
          (Selection.tree (.inline none directives selectionSet loc)).branches := by
        simp [Selection.tree, Tree.branches, Branch.optional]
      have hattr : node.attr? "type_condition" = some .null := hnode.branch hbranch
      rw [attr_eq hattr, pure_bind]
      exact Makes.pure ⟨hsame.inherit, fun _ => rfl⟩
    | some type =>
      have hbranch : .single "type_condition" type.tree ∈
          (Selection.tree (.inline (some type) directives selectionSet loc)).branches := by
        simp [Selection.tree, Tree.branches, Branch.optional]
      obtain ⟨condition, hattr, hcondition⟩ := hnode.branch hbranch
      rw [attr_eq hattr, pure_bind]
      refine (h.fragmentStep_makes hsame hcondition).mono ?_
      rintro step ⟨hscope, found, rfl⟩
      exact ⟨hscope, fun _ => rfl⟩
  | quiet hquiet =>
    have hpass : scopeStep ⟨schema, .null, scope⟩ tree.kind node = pure .pass := by
      cases hkind : tree.kind <;> first | rfl | (rw [hkind] at hquiet; cases hquiet)
    have hleave (scope : Scope Datum Datum) : scope.leave tree.kind = (.ok (), scope) := by
      cases hkind : tree.kind <;> first | rfl | (rw [hkind] at hquiet; cases hquiet)
    rw [hpass]
    refine Makes.pure ⟨?_, hleave⟩
    rw [Schema.entered, Schema.step_quiet _ _ hquiet]
    exact hsame

end Steps

end Workbench

end QueryLint
