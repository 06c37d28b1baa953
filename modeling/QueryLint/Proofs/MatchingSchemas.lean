import Mathlib.Data.List.Forall2
import Mathlib.Data.Option.Basic
import QueryLint.Proofs.Reachability
import QueryLint.Proofs.UndefinedFields

/-!
Schemas that match. The types of two schemas are related one to one, and related types have related
parts. Identities may differ, and so may the order of the types; whatever is told by names is the
same in both schemas: how types are written, what they outline, which objects implement an
interface up to order, and at which fields the standard check finds something to report.
-/

namespace QueryLint

variable {R : TypeId → TypeId → Prop}

def TypeShape.values : TypeShape → List String
  | .enum values => values
  | _ => []

/-! Parts that match -/

/-- The same modifiers around related types. -/
inductive TypeRef.Matches (R : TypeId → TypeId → Prop) : TypeRef → TypeRef → Prop where
  | named {id id' : TypeId} (h : R id id') : Matches R (.named id) (.named id')
  | list {item item' : TypeRef} (h : Matches R item item') : Matches R (.list item) (.list item')
  | nonNull {item item' : TypeRef} (h : Matches R item item') :
      Matches R (.nonNull item) (.nonNull item')

structure ArgumentDef.Matches (R : TypeId → TypeId → Prop) (argument argument' : ArgumentDef) :
    Prop where
  type : argument.type.Matches R argument'.type
  description : argument.description = argument'.description

/-- The same names in the same order, with related values. -/
abbrev OrderedMap.Matches {α β : Type} (related : α → β → Prop) :
    OrderedMap α → OrderedMap β → Prop :=
  List.Forall₂ fun entry entry' => entry.1 = entry'.1 ∧ related entry.2 entry'.2

structure FieldDef.Matches (R : TypeId → TypeId → Prop) (field field' : FieldDef) : Prop where
  type : field.type.Matches R field'.type
  arguments : OrderedMap.Matches (ArgumentDef.Matches R) field.arguments field'.arguments
  description : field.description = field'.description
  deprecation : field.deprecation = field'.deprecation

inductive TypeShape.Matches (R : TypeId → TypeId → Prop) : TypeShape → TypeShape → Prop where
  | bare : Matches R .bare .bare
  | scalar : Matches R .scalar .scalar
  | enum (values : List String) : Matches R (.enum values) (.enum values)
  | object {interfaces interfaces' : List TypeId} {fields fields' : OrderedMap FieldDef}
      (hinterfaces : List.Forall₂ R interfaces interfaces')
      (hfields : OrderedMap.Matches (FieldDef.Matches R) fields fields') :
      Matches R (.object interfaces fields) (.object interfaces' fields')
  | interface {fields fields' : OrderedMap FieldDef}
      (hfields : OrderedMap.Matches (FieldDef.Matches R) fields fields') :
      Matches R (.interface fields) (.interface fields')
  | union {members members' : List TypeId} (hmembers : List.Forall₂ R members members') :
      Matches R (.union members) (.union members')

structure NamedType.Matches (R : TypeId → TypeId → Prop) (type type' : NamedType) : Prop where
  name : type.name = type'.name
  description : type.description = type'.description
  introspective : type.introspective = type'.introspective
  shape : type.shape.Matches R type'.shape

/-! Parts that refer to themselves only -/

theorem TypeRef.Matches.refl (type : TypeRef) (h : R type.base type.base) :
    type.Matches R type := by
  induction type with
  | named id => exact .named h
  | list item ih => exact .list (ih h)
  | nonNull item ih => exact .nonNull (ih h)

theorem FieldDef.Matches.refl (field : FieldDef) (h : ∀ id ∈ field.references, R id id) :
    field.Matches R field := by
  rw [FieldDef.references, List.forall_mem_cons] at h
  refine ⟨.refl _ h.1, List.forall₂_same.mpr fun entry hentry => ⟨rfl, ?_, rfl⟩, rfl, rfl⟩
  exact .refl _ (h.2 _ (List.mem_map_of_mem hentry))

theorem OrderedMap.Matches.refl_fields (fields : OrderedMap FieldDef)
    (h : ∀ id ∈ fields.flatMap fun (_, field) => field.references, R id id) :
    OrderedMap.Matches (FieldDef.Matches R) fields fields := by
  refine List.forall₂_same.mpr fun entry hentry => ⟨rfl, .refl _ fun id hid => h id ?_⟩
  exact List.mem_flatMap.mpr ⟨entry, hentry, hid⟩

theorem NamedType.Matches.refl (type : NamedType) (h : ∀ id ∈ type.references, R id id) :
    type.Matches R type := by
  refine ⟨rfl, rfl, rfl, ?_⟩
  rw [NamedType.references, NamedType.fieldReferences, NamedType.members, NamedType.interfaces,
    NamedType.fields] at h
  cases hshape : type.shape with
  | bare => exact .bare
  | scalar => exact .scalar
  | enum values => exact .enum values
  | object interfaces fields =>
    simp only [hshape, List.nil_append, List.forall_mem_append] at h
    exact .object (List.forall₂_same.mpr h.1) (.refl_fields fields h.2)
  | interface fields =>
    simp only [hshape, List.nil_append] at h
    exact .interface (.refl_fields fields h)
  | union members =>
    simp only [hshape, List.append_nil, List.flatMap_nil] at h
    exact .union (List.forall₂_same.mpr h)

/-! What types that match have in common -/

/-- Related items that give the same, one by one. -/
theorem map_eq_of_forall₂ {α β γ : Type} {related : α → β → Prop} {f : α → γ} {g : β → γ}
    (hsame : ∀ a b, related a b → f a = g b) {items : List α} {items' : List β}
    (h : List.Forall₂ related items items') : items.map f = items'.map g := by
  induction h with
  | nil => rfl
  | cons hfirst _ ih => rw [List.map_cons, List.map_cons, hsame _ _ hfirst, ih]

theorem map_eq_of_optionRel {α β γ : Type} {related : α → β → Prop} {f : α → γ} {g : β → γ}
    (hsame : ∀ a b, related a b → f a = g b) {found : Option α} {found' : Option β}
    (h : Option.Rel related found found') : found.map f = found'.map g := by
  cases h with
  | none => rfl
  | some hfound => exact congrArg some (hsame _ _ hfound)

theorem TypeRef.Matches.base {type type' : TypeRef} (h : type.Matches R type') :
    R type.base type'.base := by
  induction h with
  | named h => exact h
  | list _ ih => exact ih
  | nonNull _ ih => exact ih

namespace NamedType.Matches

variable {type type' : NamedType}

theorem fields (h : type.Matches R type') :
    OrderedMap.Matches (FieldDef.Matches R) type.fields type'.fields := by
  rw [NamedType.fields, NamedType.fields]
  have hshape := h.shape
  generalize type.shape = shape, type'.shape = shape' at hshape ⊢
  cases hshape with
  | object _ hfields | interface hfields => exact hfields
  | _ => exact .nil

theorem interfaces (h : type.Matches R type') :
    List.Forall₂ R type.interfaces type'.interfaces := by
  rw [NamedType.interfaces, NamedType.interfaces]
  have hshape := h.shape
  generalize type.shape = shape, type'.shape = shape' at hshape ⊢
  cases hshape with
  | object hinterfaces _ => exact hinterfaces
  | _ => exact .nil

theorem members (h : type.Matches R type') : List.Forall₂ R type.members type'.members := by
  rw [NamedType.members, NamedType.members]
  have hshape := h.shape
  generalize type.shape = shape, type'.shape = shape' at hshape ⊢
  cases hshape with
  | union hmembers => exact hmembers
  | _ => exact .nil

theorem kindDisplay (h : type.Matches R type') : type.kindDisplay = type'.kindDisplay := by
  rw [NamedType.kindDisplay, NamedType.kindDisplay, h.introspective]
  have hshape := h.shape
  generalize type.shape = shape, type'.shape = shape' at hshape ⊢
  cases hshape <;> cases type'.introspective <;> rfl

theorem isComposite (h : type.Matches R type') : type.isComposite = type'.isComposite := by
  simp only [NamedType.isComposite, NamedType.isAbstract, NamedType.isObject,
    NamedType.isInterface, NamedType.isUnion]
  have hshape := h.shape
  generalize type.shape = shape, type'.shape = shape' at hshape ⊢
  cases hshape <;> rfl

theorem references (h : type.Matches R type') :
    List.Forall₂ R type.references type'.references := by
  have hfields : List.Forall₂ R type.fieldReferences type'.fieldReferences := by
    refine List.rel_flatMap h.fields fun entry entry' hentry => .cons hentry.2.type.base ?_
    rw [List.forall₂_map_left_iff, List.forall₂_map_right_iff]
    exact hentry.2.arguments.imp fun _ _ hargument => hargument.2.type.base
  exact List.rel_append (List.rel_append h.members h.interfaces) hfields

theorem values (h : type.Matches R type') : type.shape.values = type'.shape.values := by
  have hshape := h.shape
  generalize type.shape = shape, type'.shape = shape' at hshape ⊢
  cases hshape <;> rfl

end NamedType.Matches

theorem OrderedMap.Matches.find? {α β : Type} {related : α → β → Prop} {map : OrderedMap α}
    {map' : OrderedMap β} (h : OrderedMap.Matches related map map') (name : String) :
    Option.Rel related (map.find? name) (map'.find? name) := by
  induction h with
  | nil => exact .none
  | @cons entry entry' _ _ hentry _ ih =>
    rw [OrderedMap.find?_cons, OrderedMap.find?_cons, ← hentry.1]
    split
    · exact .some hentry.2
    · exact ih

/-! What types outline -/

/-- What is told of a field by names: how its type and those of its arguments are written. -/
structure FieldOutline where
  name : String
  type : String
  arguments : List (String × String)
  description : Option Text
  deprecation : Option Text
  deriving DecidableEq

/-- What is told of a type by names, all of it in the order of the type. -/
structure TypeOutline where
  kind : String
  name : String
  description : Option Text
  fields : List FieldOutline
  interfaces : List String
  members : List String
  values : List String
  deriving DecidableEq

namespace Schema

def fieldOutline (schema : Schema) (entry : String × FieldDef) : FieldOutline where
  name := entry.1
  type := schema.table.print entry.2.type
  arguments := entry.2.arguments.map fun (name, argument) =>
    (name, schema.table.print argument.type)
  description := entry.2.description
  deprecation := entry.2.deprecation

def outline (schema : Schema) (id : TypeId) : TypeOutline where
  kind := (schema.type id).kindDisplay
  name := schema.name id
  description := (schema.type id).description
  fields := (schema.type id).fields.map schema.fieldOutline
  interfaces := (schema.type id).interfaces.map schema.name
  members := (schema.type id).members.map schema.name
  values := (schema.type id).shape.values

/-- Types are related one to one, with the standard types to themselves; related types match, and
each schema has the types that are related to those of the other. -/
structure Matches (R : TypeId → TypeId → Prop) (schema schema' : Schema) : Prop where
  unique : Relator.BiUnique R
  standard : ∀ id < Standard.types.length, R id id
  type : ∀ {id id'}, R id id' → (schema.type id).Matches R (schema'.type id')
  types : ∃ ids, List.Forall₂ R schema.types ids ∧ ids.Perm schema'.types
  root : ∀ operation, Option.Rel R (schema.root operation) (schema'.root operation)
  find? : ∀ name, Option.Rel R (schema.find? name) (schema'.find? name)

namespace Matches

variable {schema schema' : Schema} (h : schema.Matches R schema')
include h

theorem name {id id' : TypeId} (hid : R id id') : schema.name id = schema'.name id' :=
  (h.type hid).name

theorem map_name {ids ids' : List TypeId} (hids : List.Forall₂ R ids ids') :
    ids.map schema.name = ids'.map schema'.name :=
  map_eq_of_forall₂ (fun _ _ hid => h.name hid) hids

theorem print {type type' : TypeRef} (htype : type.Matches R type') :
    schema.table.print type = schema'.table.print type' := by
  induction htype with
  | named hid => exact h.name hid
  | list _ ih => rw [TypeTable.print, TypeTable.print, ih]
  | nonNull _ ih => rw [TypeTable.print, TypeTable.print, ih]

theorem fieldOutline {entry entry' : String × FieldDef} (hname : entry.1 = entry'.1)
    (hfield : entry.2.Matches R entry'.2) :
    schema.fieldOutline entry = schema'.fieldOutline entry' := by
  have harguments : (entry.2.arguments.map fun (name, argument) =>
        (name, schema.table.print argument.type)) =
      entry'.2.arguments.map fun (name, argument) =>
        (name, schema'.table.print argument.type) := by
    refine map_eq_of_forall₂ (fun argument argument' hargument => ?_) hfield.arguments
    dsimp only
    rw [hargument.1, h.print hargument.2.type]
  rw [Schema.fieldOutline, Schema.fieldOutline, hname, h.print hfield.type, harguments,
    hfield.description, hfield.deprecation]

theorem outline {id id' : TypeId} (hid : R id id') : schema.outline id = schema'.outline id' := by
  have htype := h.type hid
  have hfields : (schema.type id).fields.map schema.fieldOutline =
      (schema'.type id').fields.map schema'.fieldOutline :=
    map_eq_of_forall₂ (fun _ _ hentry => h.fieldOutline hentry.1 hentry.2) htype.fields
  rw [Schema.outline, Schema.outline, htype.kindDisplay, h.name hid, htype.description, hfields,
    h.map_name htype.interfaces, h.map_name htype.members, htype.values]

/-- The types of both schemas outline the same, up to order. -/
theorem outlines_perm :
    (schema.types.map schema.outline).Perm (schema'.types.map schema'.outline) := by
  obtain ⟨ids, hids, hperm⟩ := h.types
  rw [map_eq_of_forall₂ (fun _ _ hid => h.outline hid) hids]
  exact hperm.map _

/-- The objects that implement an interface can be told from what types outline. -/
theorem implementations_perm (interface : String) :
    ((schema.implementations interface).map schema.name).Perm
      ((schema'.implementations interface).map schema'.name) := by
  have htold (schema : Schema) : (schema.implementations interface).map schema.name =
      (schema.types.map schema.outline).flatMap fun outline =>
        (outline.interfaces.filter (· == interface)).map fun _ => outline.name := by
    rw [implementations_eq, List.map_flatMap, List.flatMap_map]
    congr
    funext id
    rw [List.map_map, Schema.outline, List.filter_map, List.map_map]
    rfl
  rw [htold, htold]
  exact h.outlines_perm.flatMap_right _

theorem possibleTypes_perm {id id' : TypeId} (hid : R id id') :
    ((schema.possibleTypes id).map schema.name).Perm
      ((schema'.possibleTypes id').map schema'.name) := by
  rw [possibleTypes, possibleTypes, h.name hid]
  have hshape := (h.type hid).shape
  generalize (schema.type id).shape = shape, (schema'.type id').shape = shape' at hshape ⊢
  cases hshape with
  | union hmembers => exact .of_eq (h.map_name hmembers)
  | _ => exact h.implementations_perm _

/-! Where the standard check reports -/

/-- Related types are both the root of an operation, or neither of them is. -/
theorem root_iff {id id' : TypeId} (hid : R id id') (operation : OperationType) :
    schema.root operation = some id ↔ schema'.root operation = some id' := by
  have hroot := h.root operation
  generalize schema.root operation = root, schema'.root operation = root' at hroot ⊢
  cases hroot with
  | none => exact iff_of_false (by simp) (by simp)
  | @some found found' hfound =>
    rw [Option.some.injEq, Option.some.injEq]
    constructor
    · rintro rfl
      exact h.unique.2 hfound hid
    · rintro rfl
      exact h.unique.1 hfound hid

/-- Meta fields lead to standard types only. -/
theorem metaField? {parent parent' : TypeId} (hparent : R parent parent') (name : String) :
    Option.Rel (FieldDef.Matches R) (schema.metaField? parent name)
      (schema'.metaField? parent' name) := by
  have hfield (field : FieldDef)
      (hreferences : ∀ id ∈ field.references, id < Standard.types.length) :
      Option.Rel (FieldDef.Matches R) (some field) (some field) :=
    .some (.refl field fun id hid => h.standard id (hreferences id hid))
  have hquery : schema.query = some parent ↔ schema'.query = some parent' :=
    h.root_iff hparent .query
  rw [Schema.metaField?, Schema.metaField?, (h.type hparent).isComposite]
  simp only [hquery]
  split_ifs
  · exact hfield _ (by decide)
  · exact .none
  · exact hfield _ (by decide)
  · exact hfield _ (by decide)
  · exact .none
  · exact .none

theorem field? {parent parent' : TypeId} (hparent : R parent parent') (name : String) :
    Option.Rel (FieldDef.Matches R) (schema.field? parent name)
      (schema'.field? parent' name) := by
  have hmeta := h.metaField? hparent name
  rw [Schema.field?, Schema.field?]
  generalize schema.metaField? parent name = found, schema'.metaField? parent' name = found'
    at hmeta ⊢
  cases hmeta with
  | some hfield => exact .some hfield
  | none => exact (h.type hparent).fields.find? name

theorem parentOf {owner owner' : Option TypeRef}
    (howner : Option.Rel (TypeRef.Matches R) owner owner') :
    Option.Rel R (schema.parentOf owner) (schema'.parentOf owner') := by
  cases howner with
  | none => exact .none
  | @some type type' htype =>
    have hcomposite := (h.type htype.base).isComposite
    simp only [Schema.parentOf, Option.map_some, Option.filter_some, hcomposite]
    split
    · exact .some htype.base
    · exact .none

theorem typeOf?_named (type : TypeName) :
    Option.Rel (TypeRef.Matches R) (schema.typeOf? (.named type))
      (schema'.typeOf? (.named type)) := by
  have hfind := h.find? type.name.value
  rw [Schema.typeOf?, Schema.typeOf?]
  generalize schema.find? type.name.value = found, schema'.find? type.name.value = found'
    at hfind ⊢
  cases hfind with
  | none => exact .none
  | some hid => exact .some (.named hid)

theorem fragmentType {owner owner' : Option TypeRef}
    (howner : Option.Rel (TypeRef.Matches R) owner owner') (condition : Option TypeName) :
    Option.Rel (TypeRef.Matches R) (schema.fragmentType owner condition)
      (schema'.fragmentType owner' condition) := by
  cases condition with
  | some condition => exact h.typeOf?_named condition
  | none =>
    cases howner with
    | none => exact .none
    | some htype => exact .some (.named htype.base)

end Matches

end Schema

/-- The same field, selected on related types. -/
structure FieldSite.Matches (R : TypeId → TypeId → Prop) (site site' : FieldSite) : Prop where
  parent : Option.Rel R site.parent site'.parent
  name : site.name = site'.name
  node : site.node = site'.node

section Sites

variable {schema schema' : Schema}

mutual

theorem Selection.fieldSites_match (h : schema.Matches R schema') (selection : Selection)
    {owner owner' : Option TypeRef} (howner : Option.Rel (TypeRef.Matches R) owner owner') :
    List.Forall₂ (FieldSite.Matches R) (selection.fieldSites schema owner)
      (selection.fieldSites schema' owner') := by
  cases selection with
  | field aliasName name arguments directives selectionSet loc =>
    have hparent := h.parentOf howner
    have hdefinition : Option.Rel (TypeRef.Matches R)
        (((schema.parentOf owner).bind fun parent => schema.field? parent name.value).map
          FieldDef.type)
        (((schema'.parentOf owner').bind fun parent => schema'.field? parent name.value).map
          FieldDef.type) := by
      generalize schema.parentOf owner = parent, schema'.parentOf owner' = parent' at hparent ⊢
      cases hparent with
      | none => exact .none
      | some hid =>
        have hfield := h.field? hid name.value
        rw [Option.bind_some, Option.bind_some]
        generalize schema.field? _ name.value = found, schema'.field? _ name.value = found'
          at hfield ⊢
        cases hfield with
        | none => exact .none
        | some hmatches => exact .some hmatches.type
    rw [Selection.fieldSites, Selection.fieldSites]
    exact .cons ⟨hparent, rfl, rfl⟩
      (SelectionSet.optionalFieldSites_match h selectionSet hdefinition)
  | spread name directives loc =>
    rw [Selection.fieldSites, Selection.fieldSites]
    exact .nil
  | inline condition directives selectionSet loc =>
    rw [Selection.fieldSites, Selection.fieldSites]
    exact SelectionSet.fieldSites_match h selectionSet (h.fragmentType howner condition)
  termination_by sizeOf selection

theorem SelectionSet.fieldSites_match (h : schema.Matches R schema') (selectionSet : SelectionSet)
    {owner owner' : Option TypeRef} (howner : Option.Rel (TypeRef.Matches R) owner owner') :
    List.Forall₂ (FieldSite.Matches R) (selectionSet.fieldSites schema owner)
      (selectionSet.fieldSites schema' owner') := by
  obtain ⟨selections, loc⟩ := selectionSet
  rw [SelectionSet.fieldSites, SelectionSet.fieldSites]
  exact Selection.allFieldSites_match h selections howner
  termination_by sizeOf selectionSet

theorem SelectionSet.optionalFieldSites_match (h : schema.Matches R schema')
    (selectionSet : Option SelectionSet) {owner owner' : Option TypeRef}
    (howner : Option.Rel (TypeRef.Matches R) owner owner') :
    List.Forall₂ (FieldSite.Matches R)
      (SelectionSet.optionalFieldSites schema owner selectionSet)
      (SelectionSet.optionalFieldSites schema' owner' selectionSet) := by
  cases selectionSet with
  | none =>
    rw [SelectionSet.optionalFieldSites, SelectionSet.optionalFieldSites]
    exact .nil
  | some selectionSet =>
    rw [SelectionSet.optionalFieldSites, SelectionSet.optionalFieldSites]
    exact SelectionSet.fieldSites_match h selectionSet howner
  termination_by sizeOf selectionSet

theorem Selection.allFieldSites_match (h : schema.Matches R schema') (selections : List Selection)
    {owner owner' : Option TypeRef} (howner : Option.Rel (TypeRef.Matches R) owner owner') :
    List.Forall₂ (FieldSite.Matches R) (Selection.allFieldSites schema owner selections)
      (Selection.allFieldSites schema' owner' selections) := by
  cases selections with
  | nil =>
    rw [Selection.allFieldSites, Selection.allFieldSites]
    exact .nil
  | cons selection selections =>
    rw [Selection.allFieldSites, Selection.allFieldSites]
    exact List.rel_append (Selection.fieldSites_match h selection howner)
      (Selection.allFieldSites_match h selections howner)
  termination_by sizeOf selections

end

variable (h : schema.Matches R schema')
include h

theorem Definition.fieldSites_match (definition : Definition) :
    List.Forall₂ (FieldSite.Matches R) (definition.fieldSites schema)
      (definition.fieldSites schema') := by
  cases definition with
  | operation definition =>
    refine SelectionSet.fieldSites_match h definition.selectionSet ?_
    have hroot := h.root definition.operation
    generalize schema.root definition.operation = root,
      schema'.root definition.operation = root' at hroot ⊢
    cases hroot with
    | none => exact .none
    | some hid => exact .some (.named hid)
  | fragment definition =>
    exact SelectionSet.fieldSites_match h definition.selectionSet
      (h.typeOf?_named definition.condition)
  | schema definition => exact .nil
  | type definition => exact .nil

theorem Document.fieldSites_match (document : Document) :
    List.Forall₂ (FieldSite.Matches R) (document.fieldSites schema)
      (document.fieldSites schema') := by
  rw [Document.fieldSites, Document.fieldSites]
  induction document.definitions with
  | nil => exact .nil
  | cons definition definitions ih =>
    rw [List.flatMap_cons, List.flatMap_cons]
    exact List.rel_append (Definition.fieldSites_match h definition) ih

/-- The same field is reported in both schemas, or in neither. -/
theorem Schema.Matches.problemAt? {site site' : FieldSite} (hsite : site.Matches R site') :
    (schema.problemAt? site).map Problem.node = (schema'.problemAt? site').map Problem.node := by
  obtain ⟨hparent, hname, hnode⟩ := hsite
  rw [Schema.problemAt?, Schema.problemAt?, hname, hnode]
  generalize site.parent = parent, site'.parent = parent' at hparent ⊢
  cases hparent with
  | none => rfl
  | some hid =>
    have hfield := h.field? hid site'.name
    rw [Option.bind_some, Option.bind_some]
    generalize schema.field? _ site'.name = found, schema'.field? _ site'.name = found' at hfield ⊢
    cases hfield <;> rfl

theorem Schema.Matches.problems {sites sites' : List FieldSite}
    (hsites : List.Forall₂ (FieldSite.Matches R) sites sites') :
    (sites.filterMap schema.problemAt?).map Problem.node =
      (sites'.filterMap schema'.problemAt?).map Problem.node := by
  rw [List.map_filterMap, List.map_filterMap]
  induction hsites with
  | nil => rfl
  | cons hsite _ ih => rw [List.filterMap_cons, List.filterMap_cons, h.problemAt? hsite, ih]

/-- The standard check reports the same fields for both schemas, in the same order. -/
theorem Schema.Matches.check_nodes {ε σ : Type} (document : Document) (state : σ) :
    (schema.check (ε := ε) schema.lookup [schema.undefinedFields] document.tree .empty
      state).problems.map Problem.node =
      (schema'.check (ε := ε) schema'.lookup [schema'.undefinedFields] document.tree .empty
        state).problems.map Problem.node := by
  rw [Schema.check_problems, Schema.check_problems]
  exact h.problems (document.fieldSites_match h)

end Sites

/-- Schemas that cannot be told apart by names, but for the order of their types: they outline the
same types, and under each name the same one; operations start at types of the same names; and the
standard check of any document reports the same fields, in the same order. -/
structure Schema.Agrees (schema schema' : Schema) : Prop where
  types : (schema.types.map schema.outline).Perm (schema'.types.map schema'.outline)
  named : ∀ name, (schema.find? name).map schema.outline = (schema'.find? name).map schema'.outline
  root : ∀ operation,
    (schema.root operation).map schema.name = (schema'.root operation).map schema'.name
  possibleTypes : ∀ {name id id'}, schema.find? name = some id → schema'.find? name = some id' →
    ((schema.possibleTypes id).map schema.name).Perm
      ((schema'.possibleTypes id').map schema'.name)
  check : ∀ {ε σ : Type} (document : Document) (state : σ),
    (schema.check (ε := ε) schema.lookup [schema.undefinedFields] document.tree .empty
      state).problems.map Problem.node =
      (schema'.check (ε := ε) schema'.lookup [schema'.undefinedFields] document.tree .empty
        state).problems.map Problem.node

theorem Schema.Matches.agrees {schema schema' : Schema} (h : schema.Matches R schema') :
    schema.Agrees schema' where
  types := h.outlines_perm
  named name := map_eq_of_optionRel (fun _ _ hid => h.outline hid) (h.find? name)
  root operation := map_eq_of_optionRel (fun _ _ hid => h.name hid) (h.root operation)
  possibleTypes := by
    intro name id id' hid hid'
    have hfound := h.find? name
    rw [hid, hid'] at hfound
    cases hfound with
    | some hrelated => exact h.possibleTypes_perm hrelated
  check := h.check_nodes

end QueryLint
