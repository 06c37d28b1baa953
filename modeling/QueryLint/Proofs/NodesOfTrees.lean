import QueryLint.Proofs.DocumentTrees
import QueryLint.Proofs.SessionRuns
import QueryLint.Workbench.Documents

/-!
Nodes on the workbench that were read from a source. The node of a tree has the kind, the location
and the content of the tree, and under the names of its branches the nodes of what is below. So what
a document holds can be read off its node, and a walk through the node goes through the tree.
-/

namespace QueryLint

/-- The parts of documents, as trees. -/
inductive Tree.IsPart : Tree → Prop where
  | name (name : Name) : IsPart name.tree
  | stringValue (literal : StringValue) : IsPart literal.tree
  | value (value : Value) : IsPart value.tree
  | argument (argument : Argument) : IsPart argument.tree
  | directive (directive : Directive) : IsPart directive.tree
  | typeName (type : TypeName) : IsPart type.tree
  | typeExpr (type : TypeExpr) : IsPart type.tree
  | variableDefinition (definition : VariableDefinition) : IsPart definition.tree
  | selection (selection : Selection) : IsPart selection.tree
  | selectionSet (selectionSet : SelectionSet) : IsPart selectionSet.tree
  | operationTypeDefinition (definition : OperationTypeDefinition) : IsPart definition.tree
  | inputValueDefinition (definition : InputValueDefinition) : IsPart definition.tree
  | fieldDefinition (definition : FieldDefinition) : IsPart definition.tree
  | enumValueDefinition (definition : EnumValueDefinition) : IsPart definition.tree
  | definition (definition : Definition) : IsPart definition.tree
  | document (document : Document) : IsPart document.tree

attribute [simp] Tree.IsPart.name Tree.IsPart.stringValue Tree.IsPart.value Tree.IsPart.argument
  Tree.IsPart.directive Tree.IsPart.typeName Tree.IsPart.typeExpr Tree.IsPart.variableDefinition
  Tree.IsPart.selection Tree.IsPart.selectionSet Tree.IsPart.operationTypeDefinition
  Tree.IsPart.inputValueDefinition Tree.IsPart.fieldDefinition Tree.IsPart.enumValueDefinition
  Tree.IsPart.definition

def Branch.HoldsParts (branch : Branch) : Prop := ∀ node ∈ branch.nodes, node.IsPart

@[simp] theorem Branch.holdsParts_single {name : String} {tree : Tree} :
    (Branch.single name tree).HoldsParts ↔ tree.IsPart := by
  simp [Branch.HoldsParts]

@[simp] theorem Branch.holdsParts_sequence {name : String} {trees : List Tree} :
    (Branch.sequence name trees).HoldsParts ↔ ∀ tree ∈ trees, tree.IsPart := Iff.rfl

@[simp] theorem Branch.holdsParts_optional {name : String} {tree : Option Tree} :
    (Branch.optional name tree).HoldsParts ↔ ∀ node ∈ tree, node.IsPart := by
  simp [Branch.HoldsParts]

@[simp] theorem directiveBranch_holdsParts (directives : List Directive) :
    (directiveBranch directives).HoldsParts := by
  simp [directiveBranch]

@[simp] theorem descriptionBranch_holdsParts (description : Option StringValue) :
    (descriptionBranch description).HoldsParts := by
  simp [descriptionBranch]

theorem TypeDefinition.branches_holdParts (definition : TypeDefinition) :
    ∀ branch ∈ definition.tree.branches, branch.HoldsParts := by
  unfold TypeDefinition.tree
  cases definition.body <;> simp [Tree.branches]

/-- Below parts of documents there are parts of documents. -/
theorem Tree.IsPart.branches {tree : Tree} (h : tree.IsPart) :
    ∀ branch ∈ tree.branches, branch.HoldsParts := by
  cases h with
  | name name => simp [Name.tree, Tree.branches]
  | stringValue literal => simp [StringValue.tree, Tree.branches]
  | value value => cases value <;> simp [Value.tree, StringValue.tree, Tree.branches]
  | argument argument => simp [Argument.tree, Tree.branches]
  | directive directive => simp [Directive.tree, Tree.branches]
  | typeName type => simp [TypeName.tree, Tree.branches]
  | typeExpr type => cases type <;> simp [TypeExpr.tree, TypeName.tree, Tree.branches]
  | variableDefinition definition => simp [VariableDefinition.tree, Tree.branches]
  | selection selection =>
    cases selection <;> simp [Selection.tree, SelectionSet.branch_eq, Tree.branches]
  | selectionSet selectionSet =>
    cases selectionSet
    simp [SelectionSet.tree, Selection.trees_eq_map, Tree.branches]
  | operationTypeDefinition definition => simp [OperationTypeDefinition.tree, Tree.branches]
  | inputValueDefinition definition => simp [InputValueDefinition.tree, Tree.branches]
  | fieldDefinition definition => simp [FieldDefinition.tree, Tree.branches]
  | enumValueDefinition definition => simp [EnumValueDefinition.tree, Tree.branches]
  | definition definition =>
    cases definition with
    | operation definition => simp [Definition.tree, OperationDefinition.tree, Tree.branches]
    | fragment definition => simp [Definition.tree, FragmentDefinition.tree, Tree.branches]
    | schema definition => simp [Definition.tree, SchemaDefinition.tree, Tree.branches]
    | type definition => exact definition.branches_holdParts
  | document document => simp [Document.tree, Tree.branches]

theorem Tree.IsPart.of_mem_children {tree node : Tree} (h : tree.IsPart)
    (hnode : node ∈ tree.children) : node.IsPart := by
  obtain ⟨branch, hbranch, hnode⟩ := List.mem_flatMap.mp hnode
  exact h.branches branch hbranch node hnode

theorem Tree.IsPart.shaped {tree : Tree} (h : tree.IsPart) : tree.Shaped := by
  cases h with
  | selection selection => exact selection.shaped
  | selectionSet selectionSet => exact selectionSet.shaped
  | operationTypeDefinition definition =>
    simp [OperationTypeDefinition.tree, Tree.shaped_node, NodeKind.children]
  | definition definition => exact definition.shaped
  | document document => exact document.shaped
  | _ => simp

/-- Whether nodes of the kind hold such content. -/
def NodeKind.holds : NodeKind → Content → Bool
  | .name, .name _ | .value, .value _ | .stringValue, .string _ _ => true
  | .operationDefinition, .operation _ | .operationTypeDefinition, .operation _ => true
  | .name, .none | .value, .none | .stringValue, .none => false
  | .operationDefinition, .none | .operationTypeDefinition, .none => false
  | _, .none => true
  | _, _ => false

theorem TypeDefinition.holds (definition : TypeDefinition) :
    definition.tree.kind.holds definition.tree.data.content = true := by
  unfold TypeDefinition.tree
  cases definition.body <;> rfl

theorem Tree.IsPart.holds {tree : Tree} (h : tree.IsPart) :
    tree.kind.holds tree.data.content = true := by
  cases h with
  | value value => cases value <;> rfl
  | typeExpr type => cases type <;> rfl
  | selection selection => cases selection <;> rfl
  | selectionSet selectionSet => cases selectionSet; rfl
  | definition definition =>
    cases definition with
    | type definition => exact definition.holds
    | _ => rfl
  | _ => rfl

theorem Tree.Shaped.names {tree : Tree} (h : tree.Shaped) :
    tree.branches.map Branch.name = tree.kind.children := by
  obtain ⟨data, branches⟩ := tree
  exact (Tree.shaped_node.mp h).1

theorem NodeKind.children_subset_keys (kind : NodeKind) : kind.children ⊆ kind.keys := by
  cases kind <;> decide

namespace Workbench

/-- The keys of a node: its location, its content and its branches have one each. -/
theorem nodup_keys {kind : NodeKind} {content : Content} (h : kind.holds content = true) :
    ("loc" :: (contentAttributes content).map Prod.fst ++ kind.children).Nodup ∧
      ("loc" :: (contentAttributes content).map Prod.fst ++ kind.children) ⊆ kind.keys := by
  cases kind <;> cases content <;>
    first | (cases h; done) | simp [contentAttributes, NodeKind.children, NodeKind.keys]

/-! Nodes of trees -/

/-- A location as it stands on a node that was read from the origin. -/
def Locates (origin : Datum) : Option Location → Datum → Prop
  | none, value => value = .null
  | some span, value => ∃ id, value = .location id (.int span.start) (.int span.stop) origin

mutual

/-- The node has what the tree has. -/
def Depicts (origin : Datum) : Tree → Datum → Prop
  | .node data branches, node =>
    (∃ id attributes, node = .node id (.exact data.kind) attributes ∧
      attributes.length = data.kind.keys.length) ∧
    (∃ loc, node.attr? "loc" = some loc ∧ Locates origin data.loc loc) ∧
    (∀ entry ∈ contentAttributes data.content, node.attr? entry.1 = some entry.2) ∧
    DepictsBelow origin node branches

def DepictsBelow (origin node : Datum) : List Branch → Prop
  | [] => True
  | .absent name :: branches =>
    node.attr? name = some .null ∧ DepictsBelow origin node branches
  | .single name tree :: branches =>
    (∃ child, node.attr? name = some child ∧ Depicts origin tree child) ∧
      DepictsBelow origin node branches
  | .sequence name trees :: branches =>
    (∃ id items, node.attr? name = some (.tupleOf id items) ∧ DepictsAll origin trees items) ∧
      DepictsBelow origin node branches

def DepictsAll (origin : Datum) : List Tree → List Datum → Prop
  | [], items => items = []
  | tree :: trees, items =>
    ∃ item rest, items = item :: rest ∧ Depicts origin tree item ∧ DepictsAll origin trees rest

end

theorem lookup_zip_map {keys : List String} {key : String} (h : key ∈ keys) (f : String → Datum) :
    (keys.zip (keys.map f)).lookup key = some (f key) := by
  induction keys with
  | nil => cases h
  | cons first keys ih =>
    rw [List.map_cons, List.zip_cons_cons, List.lookup_cons]
    by_cases hsame : key = first
    · rw [hsame, beq_self_eq_true]
    · rw [beq_eq_false_iff_ne.mpr hsame]
      exact ih ((List.mem_cons.mp h).resolve_left hsame)

theorem attr?_node_map {kind : NodeKind} {key : String} (h : key ∈ kind.keys) (id : Nat)
    (f : String → Datum) :
    (Datum.node id (.exact kind) (kind.keys.map f)).attr? key = some (f key) := by
  rw [Datum.attr?, Datum.attributes, List.lookup_append, NodeClass.keys, lookup_zip_map h,
    Option.some_or]

def Datum.isList : Datum → Bool
  | .list _ _ => true
  | _ => false

/-- A node of the kind with the given attributes, and null for the others. -/
structure HasGiven (kind : NodeKind) (given : List (String × Datum)) (node : Datum) : Prop where
  shape : ∃ id attributes, node = .node id (.exact kind) attributes ∧
    attributes.length = kind.keys.length
  entries : ∀ entry ∈ given, node.attr? entry.1 = some entry.2
  others : ∀ key ∈ kind.keys, key ∉ given.map Prod.fst → node.attr? key = some .null

theorem hasGiven_of_lookup {kind : NodeKind} {given : List (String × Datum)}
    (hkeys : given.map Prod.fst ⊆ kind.keys) (hdistinct : (given.map Prod.fst).Nodup) (id : Nat) :
    HasGiven kind given
      (.node id (.exact kind) (kind.keys.map fun key => (given.lookup key).getD .null)) where
  shape := ⟨id, _, rfl, List.length_map _⟩
  entries entry hentry := by
    have hfound : given.lookup entry.1 = some entry.2 := OrderedMap.find?_of_mem hdistinct hentry
    rw [attr?_node_map (hkeys (List.mem_map_of_mem hentry)), hfound, Option.getD_some]
  others key hkey habsent := by
    have hnone : given.lookup key = none := by
      rw [← Option.not_isSome_iff_eq_none]
      exact fun hsome => habsent (OrderedMap.find?_isSome_iff.mp hsome)
    rw [attr?_node_map hkey, hnone, Option.getD_none]

theorem makeNode_makes {bench : Bench} {kind : NodeKind} {given : List (String × Datum)}
    (hkeys : given.map Prod.fst ⊆ kind.keys) (hdistinct : (given.map Prod.fst).Nodup)
    (hlists : ∀ entry ∈ given, entry.2.isList = false) :
    Makes bench (makeNode (.exact kind) given) (HasGiven kind given) := by
  have hunknown : (given.map Prod.fst).filter (fun name => !kind.keys.contains name) = [] := by
    rw [List.filter_eq_nil_iff]
    intro name hname
    simp [hkeys hname]
  rw [makeNode]
  refine Makes.bind (Makes.mapM fun key _ => ?_) fun attributes (hattributes : List.Forall₂
    (fun key value => (given.lookup key).getD .null = value) kind.keys attributes) => ?_
  · rcases hfound : given.lookup key with _ | value
    · exact Makes.pure rfl
    · have hlist := hlists (key, value) (OrderedMap.mem_of_find? hfound)
      cases value <;> first | (cases hlist; done) | exact Makes.pure rfl
  · rw [← List.forall₂_map_left_iff, List.forall₂_eq_eq_eq] at hattributes
    subst hattributes
    simp only [NodeClass.keys, hunknown, List.isEmpty_nil, if_true]
    exact fresh_makes.bind fun id _ => Makes.pure (hasGiven_of_lookup hkeys hdistinct id)

theorem makeLocation_makes {bench : Bench} (origin : Datum) (loc : Option Location) :
    Makes bench (makeLocation origin loc) (Locates origin loc) := by
  cases loc with
  | none => exact Makes.pure rfl
  | some span => exact fresh_makes.bind fun id _ => Makes.pure ⟨id, rfl⟩

theorem Datum.isList_tupleOf (id : Nat) (items : List Datum) :
    (Datum.tupleOf id items).isList = false := by
  cases items <;> rfl

theorem Depicts.isList {origin node : Datum} {tree : Tree} (h : Depicts origin tree node) :
    node.isList = false := by
  obtain ⟨data, branches⟩ := tree
  rw [Depicts] at h
  obtain ⟨⟨id, attributes, rfl, -⟩, -⟩ := h
  rfl

/-- The attributes are those of the branches that hold something, and a node that has them, and null
for the other branches, has what the branches hold. -/
structure Holds (origin : Datum) (branches : List Branch) (held : List (String × Datum)) :
    Prop where
  names : (held.map Prod.fst).Sublist (branches.map Branch.name)
  lists : ∀ entry ∈ held, entry.2.isList = false
  below : ∀ node : Datum, (∀ entry ∈ held, node.attr? entry.1 = some entry.2) →
    (∀ name ∈ branches.map Branch.name, name ∉ held.map Prod.fst → node.attr? name = some .null) →
    DepictsBelow origin node branches

theorem Holds.absent {origin : Datum} {branches : List Branch} {held : List (String × Datum)}
    (h : Holds origin branches held) {name : String} (hname : name ∉ branches.map Branch.name) :
    Holds origin (.absent name :: branches) held where
  names := h.names.cons _
  lists := h.lists
  below node hheld hnull := by
    rw [List.map_cons, List.forall_mem_cons] at hnull
    exact ⟨hnull.1 fun hmem => hname (h.names.subset hmem), h.below node hheld hnull.2⟩

theorem Holds.present {origin value : Datum} {branch : Branch} {branches : List Branch}
    {held : List (String × Datum)} (h : Holds origin branches held)
    (hname : branch.name ∉ branches.map Branch.name) (hlist : value.isList = false)
    (hbelow : ∀ node : Datum, node.attr? branch.name = some value →
      DepictsBelow origin node branches → DepictsBelow origin node (branch :: branches)) :
    Holds origin (branch :: branches) ((branch.name, value) :: held) where
  names := h.names.cons_cons _
  lists := List.forall_mem_cons.mpr ⟨hlist, h.lists⟩
  below node hheld hnull := by
    rw [List.forall_mem_cons] at hheld
    refine hbelow node hheld.1 (h.below node hheld.2 fun name hmem habsent => ?_)
    refine hnull name (List.mem_cons_of_mem _ hmem) ?_
    rw [List.map_cons, List.mem_cons]
    rintro (rfl | hagain)
    · exact hname hmem
    · exact habsent hagain

theorem Locates.isList {origin value : Datum} {loc : Option Location}
    (h : Locates origin loc value) : value.isList = false := by
  cases loc with
  | none => rw [show value = .null from h]; rfl
  | some span => obtain ⟨id, rfl⟩ := h; rfl

theorem isList_contentAttributes (content : Content) :
    ∀ entry ∈ contentAttributes content, entry.2.isList = false := by
  cases content <;> simp [contentAttributes, Datum.isList]

section Making

variable {bench : Bench} (origin : Datum)

mutual

/-- The node that is made of a part of a document has what the part has. -/
theorem makeTree_makes : (tree : Tree) → tree.IsPart →
    Makes bench (makeTree origin tree) (Depicts origin tree)
  | .node data branches, h => by
    have hbranches : branches.map Branch.name = data.kind.children := h.shaped.names
    obtain ⟨hnodup, hkeys⟩ := nodup_keys h.holds
    have hdistinct : (branches.map Branch.name).Nodup := h.shaped.nodup_names
    rw [makeTree]
    refine (makeLocation_makes origin data.loc).bind fun loc hloc => ?_
    refine (makeBranches_makes branches h.branches hdistinct).bind fun held hheld => ?_
    have hnames : ((("loc", loc) :: contentAttributes data.content ++ held).map Prod.fst).Sublist
        ("loc" :: (contentAttributes data.content).map Prod.fst ++ data.kind.children) := by
      rw [List.map_append, List.map_cons, ← hbranches]
      exact List.Sublist.append (List.Sublist.refl _) hheld.names
    refine (makeNode_makes (List.Subset.trans hnames.subset hkeys) (hnames.nodup hnodup) ?_).mono
      fun node hnode => ?_
    · rw [List.forall_mem_append, List.forall_mem_cons]
      exact ⟨⟨hloc.isList, isList_contentAttributes data.content⟩, hheld.lists⟩
    · have hgiven := hnode.entries
      rw [List.forall_mem_append, List.forall_mem_cons] at hgiven
      refine ⟨hnode.shape, ⟨loc, hgiven.1.1, hloc⟩, hgiven.1.2,
        hheld.below node hgiven.2 fun name hname habsent => ?_⟩
      -- the name of a branch is neither that of the location nor one of the content
      rw [hbranches] at hname
      refine hnode.others name (hkeys (List.mem_append_right _ hname)) fun hagain => ?_
      rw [List.map_append, List.mem_append] at hagain
      exact hagain.elim
        (fun hearlier => (List.nodup_append.mp hnodup).2.2 name hearlier name hname rfl) habsent

theorem makeBranches_makes : (branches : List Branch) →
    (∀ branch ∈ branches, branch.HoldsParts) → (branches.map Branch.name).Nodup →
      Makes bench (makeBranches origin branches) (Holds origin branches)
  | [], _, _ => by
    rw [makeBranches]
    exact Makes.pure ⟨.slnil, by simp, fun _ _ _ => trivial⟩
  | .absent name :: branches, h, hdistinct => by
    rw [List.forall_mem_cons] at h
    rw [List.map_cons, List.nodup_cons] at hdistinct
    rw [makeBranches]
    exact (makeBranches_makes branches h.2 hdistinct.2).mono fun held hheld =>
      hheld.absent hdistinct.1
  | .single name tree :: branches, h, hdistinct => by
    rw [List.forall_mem_cons, Branch.holdsParts_single] at h
    rw [List.map_cons, List.nodup_cons] at hdistinct
    rw [makeBranches]
    refine (makeTree_makes tree h.1).bind fun child hchild => ?_
    refine (makeBranches_makes branches h.2 hdistinct.2).bind fun held hheld => Makes.pure ?_
    exact hheld.present hdistinct.1 hchild.isList fun node hattr hbelow =>
      ⟨⟨child, hattr, hchild⟩, hbelow⟩
  | .sequence name trees :: branches, h, hdistinct => by
    rw [List.forall_mem_cons, Branch.holdsParts_sequence] at h
    rw [List.map_cons, List.nodup_cons] at hdistinct
    rw [makeBranches]
    refine (makeTrees_makes trees h.1).bind fun items hitems => ?_
    refine (makeTuple_makes items).bind fun _ ⟨id, hid⟩ => ?_
    refine (makeBranches_makes branches h.2 hdistinct.2).bind fun held hheld => Makes.pure ?_
    subst hid
    exact hheld.present hdistinct.1 (Datum.isList_tupleOf id items) fun node hattr hbelow =>
      ⟨⟨id, items, hattr, hitems⟩, hbelow⟩

theorem makeTrees_makes : (trees : List Tree) → (∀ tree ∈ trees, tree.IsPart) →
    Makes bench (makeTrees origin trees) (DepictsAll origin trees)
  | [], _ => by
    rw [makeTrees]
    exact Makes.pure rfl
  | tree :: trees, h => by
    rw [List.forall_mem_cons] at h
    rw [makeTrees]
    refine (makeTree_makes tree h.1).bind fun item hitem => ?_
    refine (makeTrees_makes trees h.2).bind fun items hitems => Makes.pure ?_
    exact ⟨item, items, rfl, hitem, hitems⟩

end

end Making

/-- A document that can be read is read as a node with what it has. -/
theorem parseDocument_makes {bench : Bench} {id : Nat} {source : Source} {located : Bool}
    {document : Document} (h : source.parse located = .ok document) :
    Makes bench (parseDocument (.source id source) located)
      (Depicts (.source id source) document.tree) := by
  have hsource : makeSource (.source id source) = pure (.source id source, source) := rfl
  rw [parseDocument, hsource, pure_bind]
  simp only [h]
  exact makeTree_makes _ document.tree (.document document)

/-! What can be read off a node -/

section Reading

variable {origin node : Datum} {tree : Tree} {branches : List Branch} {name : String}

theorem Depicts.shape (h : Depicts origin tree node) :
    ∃ id attributes, node = .node id (.exact tree.kind) attributes ∧
      attributes.length = tree.kind.keys.length := by
  obtain ⟨data, branches⟩ := tree
  rw [Depicts] at h
  exact h.1

theorem Depicts.loc (h : Depicts origin tree node) :
    ∃ loc, node.attr? "loc" = some loc ∧ Locates origin tree.loc loc := by
  obtain ⟨data, branches⟩ := tree
  rw [Depicts] at h
  exact h.2.1

theorem Depicts.content (h : Depicts origin tree node) :
    ∀ entry ∈ contentAttributes tree.data.content, node.attr? entry.1 = some entry.2 := by
  obtain ⟨data, branches⟩ := tree
  rw [Depicts] at h
  exact h.2.2.1

theorem Depicts.below (h : Depicts origin tree node) :
    DepictsBelow origin node tree.branches := by
  obtain ⟨data, branches⟩ := tree
  rw [Depicts] at h
  exact h.2.2.2

/-- What a branch of a tree says about the node. -/
def DepictsBranch (origin node : Datum) : Branch → Prop
  | .absent name => node.attr? name = some .null
  | .single name tree => ∃ child, node.attr? name = some child ∧ Depicts origin tree child
  | .sequence name trees =>
    ∃ id items, node.attr? name = some (.tupleOf id items) ∧
      List.Forall₂ (Depicts origin) trees items

theorem depictsAll_iff {trees : List Tree} {items : List Datum} :
    DepictsAll origin trees items ↔ List.Forall₂ (Depicts origin) trees items := by
  induction trees generalizing items with
  | nil => rw [DepictsAll, List.forall₂_nil_left_iff]
  | cons tree trees ih =>
    simp only [DepictsAll, ih, List.forall₂_cons_left_iff]
    constructor
    · rintro ⟨item, rest, rfl, hitem, hrest⟩
      exact ⟨item, rest, hitem, hrest, rfl⟩
    · rintro ⟨item, rest, hitem, hrest, rfl⟩
      exact ⟨item, rest, rfl, hitem, hrest⟩

theorem depictsBelow_iff :
    DepictsBelow origin node branches ↔ ∀ branch ∈ branches, DepictsBranch origin node branch := by
  induction branches with
  | nil => simp [DepictsBelow]
  | cons branch branches ih =>
    rw [List.forall_mem_cons, ← ih]
    cases branch with
    | sequence name trees => simp only [DepictsBelow, DepictsBranch, depictsAll_iff]
    | _ => rw [DepictsBelow, DepictsBranch]

theorem Depicts.branch (h : Depicts origin tree node) {branch : Branch}
    (hbranch : branch ∈ tree.branches) : DepictsBranch origin node branch :=
  depictsBelow_iff.mp h.below branch hbranch

/-- The attributes of a node with one more key than its location. -/
theorem Depicts.eq_pair {value : Datum} (h : Depicts origin tree node)
    (hkeys : tree.kind.keys = ["loc", name]) (hname : name ≠ "loc")
    (hvalue : node.attr? name = some value) :
    ∃ id loc, node = .node id (.exact tree.kind) [loc, value] := by
  obtain ⟨id, attributes, rfl, hlength⟩ := h.shape
  rw [hkeys] at hlength
  obtain ⟨loc, held, rfl⟩ := List.length_eq_two.mp hlength
  have hother : (name == "loc") = false := beq_eq_false_iff_ne.mpr hname
  rw [Datum.attr?, Datum.attributes, NodeClass.keys, hkeys] at hvalue
  simp only [List.zip_cons_cons, List.cons_append, List.lookup_cons, hother, beq_self_eq_true,
    Option.some.injEq] at hvalue
  exact ⟨id, loc, by rw [hvalue]⟩

end Reading

/-! Walks -/

theorem lookup_zip_map_right {α : Type} {keys : List String} {values : List Datum} {key : String}
    (f : Datum → α) :
    (keys.zip (values.map f)).lookup key = ((keys.zip values).lookup key).map f := by
  induction keys generalizing values with
  | nil => rfl
  | cons first keys ih =>
    cases values with
    | nil => rfl
    | cons value values =>
      rw [List.map_cons, List.zip_cons_cons, List.zip_cons_cons, List.lookup_cons,
        List.lookup_cons]
      cases key == first
      · exact ih
      · rfl

theorem lookup_zip_isSome {keys : List String} {values : List Datum} {key : String}
    (h : key ∈ keys) (hlength : values.length = keys.length) :
    ((keys.zip values).lookup key).isSome = true := by
  have hnames : OrderedMap.names (keys.zip values) = keys :=
    List.map_fst_zip (Nat.le_of_eq hlength.symm)
  exact OrderedMap.find?_isSome_iff.mpr (hnames.symm ▸ h)

section Walking

variable {m : Type → Type} [Monad m] {visit : Phase → Datum → m Unit} {refuse : Datum → m Unit}
  {origin node : Datum} {tree : Tree}

theorem walksOf_eq (values : List Datum) :
    walksOf visit refuse values = values.map (walkHeld visit refuse) := by
  induction values with
  | nil => rw [walksOf, List.map_nil]
  | cons value values ih => rw [walksOf, ih, List.map_cons]

theorem forM_congr {α : Type} {items : List α} {f g : α → m Unit}
    (h : ∀ item ∈ items, f item = g item) : forM items f = forM items g := by
  induction items with
  | nil => rfl
  | cons item items ih =>
    rw [List.forall_mem_cons] at h
    rw [List.forM_cons, List.forM_cons, h.1, ih h.2]

theorem walkHeld_tupleOf (id : Nat) (items : List Datum) :
    walkHeld visit refuse (.tupleOf id items) = forM items (walkNode visit refuse) := by
  have hitems : walkItems visit refuse items = forM items (walkNode visit refuse) := by
    induction items with
    | nil => rw [walkItems, List.forM_nil]
    | cons item items ih => rw [walkItems, ih, List.forM_cons]
  cases items with
  | nil => rw [Datum.tupleOf, walkHeld, hitems]
  | cons item items => exact (walkHeld.eq_2 visit refuse id (item :: items)).trans hitems

variable [LawfulMonad m]

/-- The walk of a node leads through what its branches hold. -/
theorem walkNode_branches (h : Depicts origin tree node) (hshaped : tree.Shaped) :
    walkNode visit refuse node = (do
      visit .enter node
      forM tree.branches fun branch =>
        walkHeld visit refuse ((node.attr? branch.name).getD .null)
      visit .leave node) := by
  obtain ⟨id, attributes, rfl, hlength⟩ := h.shape
  have hwalks (branch : Branch) (hbranch : branch ∈ tree.branches) :
      (((NodeClass.exact tree.kind).keys.zip (walksOf visit refuse attributes)).lookup
          branch.name).getD (pure ()) =
        walkHeld visit refuse
          (((Datum.node id (.exact tree.kind) attributes).attr? branch.name).getD .null) := by
    have hkey : branch.name ∈ tree.kind.keys :=
      tree.kind.children_subset_keys (hshaped.names ▸ List.mem_map_of_mem hbranch)
    obtain ⟨value, hvalue⟩ := Option.isSome_iff_exists.mp (lookup_zip_isSome hkey hlength)
    have hattr : (Datum.node id (.exact tree.kind) attributes).attr? branch.name = some value := by
      rw [Datum.attr?, Datum.attributes, List.lookup_append]
      exact congrArg (Option.or · _) hvalue
    rw [hattr, walksOf_eq, lookup_zip_map_right]
    exact congrArg (fun found : Option Datum => (found.map (walkHeld visit refuse)).getD _) hvalue
  rw [walkNode]
  refine bind_congr fun _ => ?_
  rw [List.forM_eq_forM, NodeClass.children, ← hshaped.names, List.forM_map]
  exact congrArg (· >>= _) (forM_congr hwalks)

variable (visit refuse)

/-- What a branch holds is walked node by node. -/
theorem walkHeld_branch {branch : Branch} (h : DepictsBranch origin node branch) :
    ∃ items, List.Forall₂ (Depicts origin) branch.nodes items ∧
      walkHeld visit refuse ((node.attr? branch.name).getD .null) =
        forM items (walkNode visit refuse) := by
  cases branch with
  | absent name =>
    refine ⟨[], .nil, ?_⟩
    rw [Branch.name, show node.attr? name = some .null from h, Option.getD_some, walkHeld,
      List.forM_nil]
  | single name tree =>
    obtain ⟨child, hattr, hchild⟩ := h
    obtain ⟨id, attributes, hshape, -⟩ := hchild.shape
    refine ⟨[child], .cons hchild .nil, ?_⟩
    rw [Branch.name, hattr, Option.getD_some, List.forM_cons, List.forM_nil, hshape, walkHeld]
    simp
  | sequence name trees =>
    obtain ⟨id, items, hattr, hitems⟩ := h
    exact ⟨items, hitems, by rw [Branch.name, hattr, Option.getD_some, walkHeld_tupleOf]⟩

theorem walk_branches {branches : List Branch}
    (h : ∀ branch ∈ branches, DepictsBranch origin node branch) :
    ∃ items, List.Forall₂ (Depicts origin) (branches.flatMap Branch.nodes) items ∧
      (forM branches fun branch =>
        walkHeld visit refuse ((node.attr? branch.name).getD .null)) =
        forM items (walkNode visit refuse) := by
  induction branches with
  | nil => exact ⟨[], .nil, rfl⟩
  | cons branch branches ih =>
    rw [List.forall_mem_cons] at h
    obtain ⟨first, hfirst, hwalk⟩ := walkHeld_branch visit refuse h.1
    obtain ⟨rest, hrest, hwalks⟩ := ih h.2
    refine ⟨first ++ rest, List.rel_append hfirst hrest, ?_⟩
    rw [List.forM_cons, hwalk, hwalks, List.forM_append]

/-- A walk through the node of a part of a document enters it, walks through the nodes of what is
below, and leaves it. -/
theorem Depicts.walkNode_eq (h : Depicts origin tree node) (hshaped : tree.Shaped) :
    ∃ items, List.Forall₂ (Depicts origin) tree.children items ∧
      walkNode visit refuse node = (do
        visit .enter node
        forM items (walkNode visit refuse)
        visit .leave node) := by
  obtain ⟨items, hitems, hwalk⟩ := walk_branches visit refuse (depictsBelow_iff.mp h.below)
  exact ⟨items, hitems, by rw [walkNode_branches h hshaped, hwalk]⟩

end Walking

end Workbench

end QueryLint
