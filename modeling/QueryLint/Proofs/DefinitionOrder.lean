import QueryLint.Proofs.MatchingSchemas
import QueryLint.Proofs.ReflectedDefinitions
import QueryLint.Proofs.TwinParsing

/-!
The order of type definitions does not matter. What a document says about its types is the same in
any order of its definitions, as long as the schema definitions keep theirs: it has a schema or
not, and two schemas match type by type. A type keeps its name but not its identity, so types are
related by the definitions behind them.
-/

namespace QueryLint

open Definitions

/-! What a revision leaves as it is -/

variable {revision : Revision}

theorem describe_revised (description : Option StringValue) :
    describe (description.map revision.stringValue) = describe description := by
  cases description <;> rfl

theorem TypeExpr.baseName_revised (type : TypeExpr) :
    (revision.typeExpr type).baseName = type.baseName := by
  induction type with
  | named type => rfl
  | list item loc ih => exact ih
  | nonNull item loc ih => exact ih

theorem Argument.reason?_revised (argument : Argument) :
    (revision.argument argument).reason? = argument.reason? := by
  obtain ⟨name, value, loc⟩ := argument
  cases value <;> rfl

theorem FieldDefinition.deprecation?_revised (field : FieldDefinition) :
    (revision.fieldDefinition field).deprecation? = field.deprecation? := by
  have hreason (arguments : List Argument) :
      (arguments.map revision.argument).findSome? Argument.reason? =
        arguments.findSome? Argument.reason? := by
    rw [List.findSome?_map]
    congr
    funext argument
    exact argument.reason?_revised
  have hname : ((fun directive : Directive => directive.name.value == "deprecated") ∘
      revision.directive) = fun directive => directive.name.value == "deprecated" := rfl
  rw [deprecation?, deprecation?, Revision.fieldDefinition, List.find?_map, hname, Option.map_map]
  congr
  funext directive
  exact congrArg (·.getD defaultDeprecation) (hreason directive.arguments)

theorem FieldDefinition.declaredNames_revised (field : FieldDefinition) :
    (revision.fieldDefinition field).declaredNames = field.declaredNames := by
  rw [declaredNames, declaredNames, Revision.fieldDefinition, List.map_map]
  rfl

theorem FieldDefinition.usedNames_revised (field : FieldDefinition) :
    (revision.fieldDefinition field).usedNames = field.usedNames := by
  rw [usedNames, usedNames, Revision.fieldDefinition, List.map_map, TypeExpr.baseName_revised]
  refine congrArg _ (List.map_congr_left fun argument _ => ?_)
  exact argument.type.baseName_revised

namespace TypeBody

theorem fields_revised (body : TypeBody) :
    (revision.typeBody body).fields = body.fields.map revision.fieldDefinition := by
  cases body <;> rfl

theorem interfaces_revised (body : TypeBody) :
    (revision.typeBody body).interfaces = body.interfaces.map revision.typeName := by
  cases body <;> rfl

theorem members_revised (body : TypeBody) :
    (revision.typeBody body).members = body.members.map revision.typeName := by
  cases body <;> rfl

theorem values_revised (body : TypeBody) :
    (revision.typeBody body).values = body.values.map revision.enumValueDefinition := by
  cases body <;> rfl

section Alike

variable {body body' : TypeBody} (h : revision.typeBody body = revision.typeBody body')
include h

theorem fields_alike :
    body.fields.map revision.fieldDefinition = body'.fields.map revision.fieldDefinition := by
  rw [← fields_revised, h, fields_revised]

theorem interfaces_alike :
    body.interfaces.map revision.typeName = body'.interfaces.map revision.typeName := by
  rw [← interfaces_revised, h, interfaces_revised]

theorem members_alike :
    body.members.map revision.typeName = body'.members.map revision.typeName := by
  rw [← members_revised, h, members_revised]

end Alike

end TypeBody

namespace TypeDefinition

theorem declaredNames_revised (definition : TypeDefinition) :
    (revision.typeDefinition definition).declaredNames = definition.declaredNames := by
  simp only [declaredNames, Revision.typeDefinition, TypeBody.fields_revised,
    TypeBody.values_revised, List.flatMap_map, List.map_map, FieldDefinition.declaredNames_revised]
  rfl

theorem usedNames_revised (definition : TypeDefinition) :
    (revision.typeDefinition definition).usedNames = definition.usedNames := by
  simp only [usedNames, Revision.typeDefinition, TypeBody.fields_revised,
    TypeBody.interfaces_revised, TypeBody.members_revised, List.flatMap_map, ← List.map_append,
    List.map_map, FieldDefinition.usedNames_revised]
  rfl

end TypeDefinition

/-! Definitions in another order -/

/-- The same type definitions in any order and the same schema definition, but for a revision. -/
structure Reordered (revision : Revision) (types types' : List TypeDefinition)
    (given given' : Option SchemaDefinition) : Prop where
  types : (types.map revision.typeDefinition).Perm (types'.map revision.typeDefinition)
  given : given.map revision.schemaDefinition = given'.map revision.schemaDefinition

namespace Reordered

variable {types types' : List TypeDefinition} {given given' : Option SchemaDefinition}
  {name : String}

theorem symm (h : Reordered revision types types' given given') :
    Reordered revision types' types given' given :=
  ⟨h.types.symm, h.given.symm⟩

theorem exists_mem (h : Reordered revision types types' given given')
    {definition : TypeDefinition} (hmem : definition ∈ types) :
    ∃ definition' ∈ types',
      revision.typeDefinition definition = revision.typeDefinition definition' := by
  obtain ⟨definition', hmem', hsame⟩ :=
    List.mem_map.mp (h.types.mem_iff.mp (List.mem_map_of_mem hmem))
  exact ⟨definition', hmem', hsame.symm⟩

theorem name_eq {definition definition' : TypeDefinition}
    (h : revision.typeDefinition definition = revision.typeDefinition definition') :
    definition.name.value = definition'.name.value :=
  congrArg (·.name.value) h

theorem live_iff {definition definition' : TypeDefinition}
    (h : revision.typeDefinition definition = revision.typeDefinition definition') :
    definition.IsLive ↔ definition'.IsLive := by
  rw [TypeDefinition.IsLive, TypeDefinition.IsLive, name_eq h]

theorem body_eq {definition definition' : TypeDefinition}
    (h : revision.typeDefinition definition = revision.typeDefinition definition') :
    revision.typeBody definition.body = revision.typeBody definition'.body :=
  congrArg (·.body) h

theorem names_perm (h : Reordered revision types types' given given') :
    (types.map (·.name.value)).Perm (types'.map (·.name.value)) := by
  have hnames := h.types.map (·.name.value)
  rwa [List.map_map, List.map_map] at hnames

theorem known (h : Reordered revision types types' given given') (hknown : Known types name) :
    Known types' name := by
  refine hknown.imp id ?_
  rintro ⟨definition, hmem, hname⟩
  obtain ⟨definition', hmem', hsame⟩ := h.exists_mem hmem
  exact ⟨definition', hmem', (name_eq hsame).symm.trans hname⟩

/-- A test of bodies that a revision does not change. -/
theorem defines (h : Reordered revision types types' given given') {test : TypeBody → Bool}
    (htest : ∀ body, test (revision.typeBody body) = test body)
    (hdefines : Defines types test name) : Defines types' test name := by
  obtain ⟨definition, hmem, hlive, hname, hbody⟩ := hdefines
  obtain ⟨definition', hmem', hsame⟩ := h.exists_mem hmem
  refine ⟨definition', hmem', (live_iff hsame).mp hlive, (name_eq hsame).symm.trans hname, ?_⟩
  rw [← htest, ← body_eq hsame, htest, hbody]

theorem isObject_revised (body : TypeBody) :
    (revision.typeBody body).isObject = body.isObject := by
  cases body <;> rfl

theorem isInterface_revised (body : TypeBody) :
    (revision.typeBody body).isInterface = body.isInterface := by
  cases body <;> rfl

/-- What holds of all names of a list holds of them after a revision. -/
theorem forall_typeNames {names names' : List TypeName}
    (h : names.map revision.typeName = names'.map revision.typeName) {holds holds' : String → Prop}
    (himp : ∀ name, holds name → holds' name) (hall : ∀ type ∈ names, holds type.name.value) :
    ∀ type ∈ names', holds' type.name.value := by
  intro type htype
  have hmem : revision.typeName type ∈ names.map revision.typeName := by
    rw [h]
    exact List.mem_map_of_mem htype
  obtain ⟨other, hother, hsame⟩ := List.mem_map.mp hmem
  have hvalue : other.name.value = type.name.value := congrArg (·.name.value) hsame
  rw [← hvalue]
  exact himp _ (hall other hother)

theorem resolvesIn (h : Reordered revision types types' given given')
    {definition definition' : TypeDefinition}
    (hsame : revision.typeDefinition definition = revision.typeDefinition definition')
    (hresolves : definition.ResolvesIn types) : definition'.ResolvesIn types' := by
  have hdeclared : definition.declaredNames = definition'.declaredNames := by
    rw [← definition.declaredNames_revised, hsame, TypeDefinition.declaredNames_revised]
  have hused : definition.usedNames = definition'.usedNames := by
    rw [← definition.usedNames_revised, hsame, TypeDefinition.usedNames_revised]
  have hbody := body_eq hsame
  constructor
  · rw [← hdeclared]
    exact hresolves.unreserved
  · rw [← hused]
    exact fun name hname => h.known (hresolves.known name hname)
  · exact forall_typeNames (TypeBody.interfaces_alike hbody)
      (fun _ => h.defines isInterface_revised) hresolves.interfaces
  · exact forall_typeNames (TypeBody.members_alike hbody) (fun _ => h.defines isObject_revised)
      hresolves.members

/-! Root types -/

theorem entryFor?_revised (entries : List OperationTypeDefinition) (operation : OperationType) :
    entryFor? (entries.map revision.operationTypeDefinition) operation =
      (entryFor? entries operation).map revision.operationTypeDefinition := by
  rw [entryFor?, entryFor?, List.filter_map, List.getLast?_map]
  rfl

theorem rootName?_revised (revision : Revision) (types : List TypeDefinition)
    (given : Option SchemaDefinition) (operation : OperationType) :
    rootName? (types.map revision.typeDefinition) (given.map revision.schemaDefinition) operation =
      rootName? types given operation := by
  cases given with
  | some schema =>
    change (entryFor? (schema.operationTypes.map revision.operationTypeDefinition) operation).map
      (·.type.name.value) = (entryFor? schema.operationTypes operation).map (·.type.name.value)
    rw [entryFor?_revised, Option.map_map]
    rfl
  | none =>
    rw [Option.map_none, rootName?, rootName?, List.map_map]
    rfl

theorem find?_name_eq (names : List String) (name : String) :
    names.find? (· = name) = if name ∈ names then some name else none := by
  induction names with
  | nil => rfl
  | cons first others ih =>
    by_cases hfirst : first = name
    · simp [hfirst]
    · have hother : name ≠ first := fun h => hfirst h.symm
      simp [hfirst, hother, ih]

/-- Whether there is a customary root does not depend on where its definition stands. -/
theorem rootName?_eq (h : Reordered revision types types' given given')
    (operation : OperationType) :
    rootName? types given operation = rootName? types' given' operation := by
  rw [← rootName?_revised revision types, ← rootName?_revised revision types', h.given]
  cases given'.map revision.schemaDefinition with
  | some schema => rfl
  | none => simp only [rootName?, find?_name_eq, (h.types.map (·.name.value)).mem_iff]

theorem operationTypes_eq {schema schema' : SchemaDefinition}
    (h : revision.schemaDefinition schema = revision.schemaDefinition schema') :
    (schema.operationTypes.map (·.type)).map revision.typeName =
      (schema'.operationTypes.map (·.type)).map revision.typeName := by
  have htypes := congrArg (fun schema => schema.operationTypes.map (·.type)) h
  simp only [Revision.schemaDefinition, List.map_map] at htypes ⊢
  exact htypes

/-- Definitions that make up a schema do so in any order. -/
theorem resolvable (h : Reordered revision types types' given given')
    (hresolvable : Resolvable types given) : Resolvable types' given' := by
  constructor
  · exact h.names_perm.nodup_iff.mp hresolvable.distinct
  · intro definition' hmem' hlive'
    obtain ⟨definition, hmem, hsame⟩ := h.symm.exists_mem hmem'
    have hlive := (live_iff hsame).mp hlive'
    exact h.resolvesIn hsame.symm (hresolvable.definitions definition hmem hlive)
  · intro schema' hschema' entry' hentry'
    obtain ⟨schema, hschema, hsame⟩ := Option.map_eq_some_iff.mp
      (h.given.trans (congrArg (Option.map revision.schemaDefinition) hschema'))
    have hentries : ∀ type ∈ schema.operationTypes.map (·.type), Known types type.name.value :=
      List.forall_mem_map.mpr (hresolvable.entries schema hschema)
    have hentries' : ∀ type ∈ schema'.operationTypes.map (·.type), Known types' type.name.value :=
      forall_typeNames (operationTypes_eq hsame) (fun _ => h.known) hentries
    exact hentries' entry'.type (List.mem_map_of_mem hentry')
  · intro operation name hname
    rw [← h.rootName?_eq] at hname
    exact h.defines isObject_revised (hresolvable.roots operation name hname)

end Reordered

/-! Types that stand for each other -/

/-- A standard type stands for itself, and the type of a live definition for that of the same
definition in the other order. -/
inductive Twins (revision : Revision) (types types' : List TypeDefinition) :
    TypeId → TypeId → Prop where
  | standard {id : TypeId} (hid : id < Standard.types.length) : Twins revision types types' id id
  | defined {position position' : Nat} {definition definition' : TypeDefinition}
      (hplace : types[position]? = some definition)
      (hplace' : types'[position']? = some definition') (hlive : definition.IsLive)
      (hsame : revision.typeDefinition definition = revision.typeDefinition definition') :
      Twins revision types types' (Standard.types.length + position)
        (Standard.types.length + position')

theorem Twins.symm {types types' : List TypeDefinition} {id id' : TypeId}
    (h : Twins revision types types' id id') : Twins revision types' types id' id := by
  cases h with
  | standard hid => exact .standard hid
  | defined hplace hplace' hlive hsame =>
    exact .defined hplace' hplace ((Reordered.live_iff hsame).mp hlive) hsame.symm

theorem Standard.lt_of_mem_scalars {id : TypeId} (h : id ∈ Standard.scalars) :
    id < Standard.types.length := by
  fin_cases h <;> decide

theorem Standard.lt_of_introspection? {name : String} {id : TypeId}
    (h : Standard.introspection? name = some id) : id < Standard.types.length := by
  have hmem := List.mem_of_find?_eq_some h
  fin_cases hmem <;> decide

namespace Reordered

variable {types types' : List TypeDefinition} {given given' : Option SchemaDefinition}
  {name : String} {id id' : TypeId}

theorem exists_twin (h : Reordered revision types types' given given')
    (hstands : Stands types name id) :
    ∃ id', Stands types' name id' ∧ Twins revision types types' id id' := by
  cases hstands with
  | scalar hscalar =>
    have hmem := (Standard.mem_scalars_of_scalar? hscalar).1
    exact ⟨id, .scalar hscalar, .standard (Standard.lt_of_mem_scalars hmem)⟩
  | @defined position definition hlive hname hplace =>
    obtain ⟨definition', hmem', hsame⟩ := h.exists_mem (List.mem_of_getElem? hplace)
    obtain ⟨position', hplace', hstands'⟩ := stands_of_mem hmem' ((live_iff hsame).mp hlive)
    rw [← name_eq hsame, hname] at hstands'
    exact ⟨_, hstands', .defined hplace hplace' hlive hsame⟩

/-- One name stands for twins, since definitions have names of their own. -/
theorem twins_of_stands (h : Reordered revision types types' given given')
    (hdistinct' : (types'.map (·.name.value)).Nodup) (hstands : Stands types name id)
    (hstands' : Stands types' name id') : Twins revision types types' id id' := by
  obtain ⟨other, hother, htwins⟩ := h.exists_twin hstands
  rwa [hstands'.unique hdistinct' hother]

theorem rightUnique_twins (hdistinct' : (types'.map (·.name.value)).Nodup) :
    Relator.RightUnique (Twins revision types types') := by
  intro id first second hfirst hsecond
  generalize hid : id = other at hsecond
  cases hfirst with
  | standard hless =>
    cases hsecond with
    | standard _ => exact hid
    | defined _ => exact absurd (hid ▸ hless) (Nat.not_lt.mpr (Nat.le_add_right _ _))
  | @defined position first definition definition' hplace hplace' hlive hsame =>
    cases hsecond with
    | standard hless => exact absurd (hid ▸ hless) (Nat.not_lt.mpr (Nat.le_add_right _ _))
    | @defined position' second other other' hplaceOther hplaceOther' hliveOther hsameOther =>
      obtain rfl : position = position' := Nat.add_left_cancel hid
      obtain rfl : definition = other := Option.some.inj (hplace.symm.trans hplaceOther)
      have hstands : Stands types' definition.name.value (Standard.types.length + first) :=
        .defined ((live_iff hsame).mp hlive) (name_eq hsame).symm hplace'
      have hstandsOther : Stands types' definition.name.value (Standard.types.length + second) :=
        .defined ((live_iff hsameOther).mp hlive) (name_eq hsameOther).symm hplaceOther'
      exact hstands.unique hdistinct' hstandsOther

theorem biUnique_twins (hdistinct : (types.map (·.name.value)).Nodup)
    (hdistinct' : (types'.map (·.name.value)).Nodup) :
    Relator.BiUnique (Twins revision types types') :=
  ⟨fun _ _ _ hfirst hsecond => rightUnique_twins hdistinct hfirst.symm hsecond.symm,
    rightUnique_twins hdistinct'⟩

end Reordered

/-! Maps made up of related items -/

theorem OrderedMap.Matches.insert {α β : Type} {related : α → β → Prop} {map : OrderedMap α}
    {map' : OrderedMap β} (h : OrderedMap.Matches related map map') (name : String) {a : α} {b : β}
    (hab : related a b) : OrderedMap.Matches related (map.insert name a) (map'.insert name b) := by
  induction h with
  | nil => exact .cons ⟨rfl, hab⟩ .nil
  | @cons entry entry' map map' hentry hrest ih =>
    rw [OrderedMap.insert, OrderedMap.insert, ← hentry.1]
    by_cases hsame : entry.1 = name
    · rw [if_pos hsame, if_pos hsame]
      exact .cons ⟨rfl, hab⟩ hrest
    · rw [if_neg hsame, if_neg hsame]
      exact .cons ⟨rfl, hentry.2⟩ ih

theorem accumulate_cons_eq_ok_iff {ε α ι σ : Type} {put : σ → ι → α → σ} {value : ι → Except ε α}
    {start final : σ} {item : ι} {items : List ι} :
    accumulate put value start (item :: items) = .ok final ↔ ∃ a, value item = .ok a ∧
      accumulate put value (put start item a) items = .ok final := by
  rw [accumulate, List.foldlM_cons, bind_eq_ok_iff]
  constructor
  · rintro ⟨state, hstate, hrest⟩
    obtain ⟨a, ha, rfl⟩ := map_eq_ok_iff.mp hstate
    exact ⟨a, ha, hrest⟩
  · rintro ⟨a, ha, hrest⟩
    exact ⟨_, map_eq_ok_iff.mpr ⟨a, ha, rfl⟩, hrest⟩

/-- Items with the same names and related values keep maps matching as they are put in. -/
theorem OrderedMap.Matches.accumulate {ε α ι : Type} {key : ι → String}
    {value value' : ι → Except ε α} {related : α → α → Prop} {items items' : List ι}
    (hitems : List.Forall₂ (fun item item' => key item = key item' ∧ ∀ a a',
      value item = .ok a → value' item' = .ok a' → related a a') items items')
    {start start' map map' : OrderedMap α} (hstart : OrderedMap.Matches related start start')
    (h : QueryLint.accumulate (fun map item a => map.insert (key item) a) value start items =
      .ok map)
    (h' : QueryLint.accumulate (fun map item a => map.insert (key item) a) value' start' items' =
      .ok map') : OrderedMap.Matches related map map' := by
  induction hitems generalizing start start' with
  | nil =>
    cases h
    cases h'
    exact hstart
  | @cons item item' _ _ hitem _ ih =>
    obtain ⟨a, ha, hrest⟩ := accumulate_cons_eq_ok_iff.mp h
    obtain ⟨a', ha', hrest'⟩ := accumulate_cons_eq_ok_iff.mp h'
    refine ih ?_ hrest hrest'
    rw [← hitem.1]
    exact hstart.insert (key item) (hitem.2 a a' ha ha')

theorem forall₂_of_map_eq {α β : Type} {f : α → β} {items items' : List α}
    (h : items.map f = items'.map f) :
    List.Forall₂ (fun item item' => f item = f item') items items' := by
  have hequal : List.Forall₂ Eq (items.map f) (items'.map f) := by
    rw [h]
    exact List.forall₂_same.mpr fun _ _ => rfl
  rwa [List.forall₂_map_left_iff, List.forall₂_map_right_iff] at hequal

theorem exists_forall₂_subset {α β : Type} {related : α → β → Prop} {items : List α}
    {within : List β} (h : ∀ a ∈ items, ∃ b ∈ within, related a b) :
    ∃ others, List.Forall₂ related items others ∧ others ⊆ within := by
  induction items with
  | nil => exact ⟨[], .nil, List.nil_subset _⟩
  | cons a items ih =>
    rw [List.forall_mem_cons] at h
    obtain ⟨⟨b, hmem, hb⟩, hitems⟩ := h
    obtain ⟨others, hothers, hsubset⟩ := ih hitems
    exact ⟨b :: others, .cons hb hothers, List.cons_subset.mpr ⟨hmem, hsubset⟩⟩

theorem optionRel_of_exists {α β : Type} {related : α → β → Prop} {first : Option α}
    {second : Option β} (h : ∀ a, first = some a → ∃ b, second = some b ∧ related a b)
    (h' : ∀ b, second = some b → ∃ a, first = some a) : Option.Rel related first second := by
  cases first with
  | some a =>
    obtain ⟨b, rfl, hab⟩ := h a rfl
    exact .some hab
  | none =>
    cases second with
    | none => exact .none
    | some b =>
      obtain ⟨a, ha⟩ := h' b rfl
      cases ha

/-! Schemas in another order -/

/-- What a type with the body consists of, once its parts are known. -/
def TypeBody.shape (interfaces : List TypeId) (fields : OrderedMap FieldDef)
    (members : List TypeId) : TypeBody → TypeShape
  | .scalar => .scalar
  | .object _ _ => .object interfaces fields
  | .interface _ => .interface fields
  | .union _ => .union members
  | .enum values => .enum (values.map (·.name.value))

namespace Definitions

theorem draft_introspective (definitions : Definitions) (definition : TypeDefinition) :
    (definitions.draft definition).type.introspective = false := by
  unfold draft
  cases definition.body <;> rfl

theorem draft_shape (definitions : Definitions) (definition : TypeDefinition) :
    (definitions.draft definition).type.shape = definition.body.shape
      (definitions.draft definition).type.interfaces (definitions.draft definition).type.fields
      (definitions.draft definition).type.members := by
  unfold draft
  cases definition.body <;> rfl

end Definitions

theorem TypeBody.shape_matches {R : TypeId → TypeId → Prop} {body body' : TypeBody}
    (hsame : revision.typeBody body = revision.typeBody body')
    {interfaces interfaces' members members' : List TypeId} {fields fields' : OrderedMap FieldDef}
    (hinterfaces : List.Forall₂ R interfaces interfaces')
    (hfields : OrderedMap.Matches (FieldDef.Matches R) fields fields')
    (hmembers : List.Forall₂ R members members') :
    (body.shape interfaces fields members).Matches R
      (body'.shape interfaces' fields' members') := by
  cases body with
  | scalar =>
    cases body' with
    | scalar => exact .scalar
    | _ => cases hsame
  | object =>
    cases body' with
    | object => exact .object hinterfaces hfields
    | _ => cases hsame
  | interface =>
    cases body' with
    | interface => exact .interface hfields
    | _ => cases hsame
  | union =>
    cases body' with
    | union => exact .union hmembers
    | _ => cases hsame
  | enum values =>
    cases body' with
    | enum values' =>
      have hvalues := congrArg (List.map (·.name.value)) (TypeBody.enum.inj hsame)
      rw [List.map_map, List.map_map] at hvalues
      rw [TypeBody.shape, TypeBody.shape]
      exact hvalues ▸ .enum _
    | _ => cases hsame

theorem Standard.closed : ∀ id < Standard.types.length,
    ∀ other ∈ (Standard.types.type id).references, other < Standard.types.length := by
  decide

theorem Schema.MadeOf.type_standard {types : List TypeDefinition}
    {given : Option SchemaDefinition} {roots : Roots} {schema : Schema} {id : TypeId}
    (h : schema.MadeOf types given roots) (hid : id < Standard.types.length) :
    schema.type id = Standard.types.type id := by
  have hinside : id < (Standard.types.map fun type =>
      ({ type := type } : TypeDraft SchemaError)).length := by rwa [List.length_map]
  rw [h.assembled.type_eq, TypeGraph.type, TypeGraph.draft, Definitions.graph,
    List.getElem?_append_left hinside, List.getElem?_map, TypeTable.type,
    List.getElem?_eq_getElem hid]
  rfl

/-- A type of the schema is that of a definition, or another type refers to it. -/
theorem Schema.MadeOf.mem_cases {types : List TypeDefinition} {given : Option SchemaDefinition}
    {roots : Roots} {schema : Schema} {id : TypeId} (h : schema.MadeOf types given roots)
    (hid : id ∈ schema.types) :
    (∃ position definition, types[position]? = some definition ∧
      identity definition position = id) ∨
    ∃ other ∈ schema.types, id ∈ (schema.type other).references := by
  obtain ⟨start, hstart, hpath⟩ := (h.assembled.complete.mem_iff id).mp hid
  cases hpath with
  | refl =>
    left
    rcases List.mem_append.mp hstart with hgiven | hroot
    · obtain ⟨entry, hentry, rfl⟩ := List.mem_map.mp hgiven
      obtain ⟨position, definition, hplace, rfl⟩ := mem_identities_iff.mp hentry
      exact ⟨position, definition, hplace, rfl⟩
    · -- a root is an object, and no built-in scalar is one
      obtain ⟨operation, hget⟩ := Roots.mem_toList_iff.mp hroot
      obtain ⟨name, hstands⟩ := stands_of_mem_roots h.distinct h.roots_eq _ hroot
      have hobject := h.assembled.objects operation _ hget
      rw [hstands.isObject_eq] at hobject
      cases hstands with
      | scalar hscalar =>
        rw [body?_scalar (Standard.mem_scalars_of_scalar? hscalar).1] at hobject
        cases hobject
      | @defined position definition hlive hname hplace =>
        exact ⟨position, definition, hplace, identity_of_live hlive position⟩
  | @tail other _ hbefore hleads =>
    have hother := (h.assembled.complete.mem_iff other).mpr ⟨start, hstart, hbefore⟩
    right
    refine ⟨other, hother, ?_⟩
    rw [h.assembled.type_eq]
    exact hleads

section Matching

variable {types types' : List TypeDefinition} {given given' : Option SchemaDefinition}
  {roots roots' : Roots} {schema schema' : Schema}

/-- Two schemas that are made of the same definitions in different orders. -/
structure Schema.Rearranged (revision : Revision) (types types' : List TypeDefinition)
    (given given' : Option SchemaDefinition) (roots roots' : Roots) (schema schema' : Schema) :
    Prop where
  reordered : Reordered revision types types' given given'
  made : schema.MadeOf types given roots
  made' : schema'.MadeOf types' given' roots'

namespace Schema.Rearranged

variable (h : Schema.Rearranged revision types types' given given' roots roots' schema schema')
include h

theorem symm :
    Schema.Rearranged revision types' types given' given roots' roots schema' schema :=
  ⟨h.reordered.symm, h.made', h.made⟩

theorem lookup_twins {name : String} {id id' : TypeId}
    (hid : (numbered types).lookup name = .ok id)
    (hid' : (numbered types').lookup name = .ok id') : Twins revision types types' id id' :=
  h.reordered.twins_of_stands h.made'.distinct ((lookup_eq_ok_iff h.made.distinct).mp hid)
    ((lookup_eq_ok_iff h.made'.distinct).mp hid')

theorem lookups_twins {names names' : List TypeName}
    (hnames : names.map revision.typeName = names'.map revision.typeName) {ids ids' : List TypeId}
    (hids : (names.mapM fun type => (numbered types).lookup type.name.value) = .ok ids)
    (hids' : (names'.mapM fun type => (numbered types').lookup type.name.value) = .ok ids') :
    List.Forall₂ (Twins revision types types') ids ids' := by
  have hrelated := forall₂_of_map_eq hnames
  induction hrelated generalizing ids ids' with
  | nil =>
    cases hids
    cases hids'
    exact .nil
  | @cons type type' names names' hsame _ ih =>
    obtain ⟨id, others, hid, hothers, rfl⟩ := mapM_cons_eq_ok_iff.mp hids
    obtain ⟨id', others', hid', hothers', rfl⟩ := mapM_cons_eq_ok_iff.mp hids'
    have hname : type.name.value = type'.name.value := congrArg (·.name.value) hsame
    rw [← hname] at hid'
    rw [List.map_cons, List.map_cons, List.cons.injEq] at hnames
    exact .cons (h.lookup_twins hid hid') (ih hnames.2 hothers hothers')

theorem typeOf_matches {type type' : TypeExpr}
    (hsame : revision.typeExpr type = revision.typeExpr type') {found found' : TypeRef}
    (hfound : (numbered types).typeOf type = .ok found)
    (hfound' : (numbered types').typeOf type' = .ok found') :
    found.Matches (Twins revision types types') found' := by
  induction type generalizing type' found found' with
  | named type =>
    cases type' with
    | named type' =>
      obtain ⟨id, hid, rfl⟩ := map_eq_ok_iff.mp hfound
      obtain ⟨id', hid', rfl⟩ := map_eq_ok_iff.mp hfound'
      have hname : type.name.value = type'.name.value :=
        congrArg (·.name.value) (TypeExpr.named.inj hsame)
      rw [← hname] at hid'
      exact .named (h.lookup_twins hid hid')
    | _ => cases hsame
  | list item loc ih =>
    cases type' with
    | list item' loc' =>
      obtain ⟨inner, hinner, rfl⟩ := map_eq_ok_iff.mp hfound
      obtain ⟨inner', hinner', rfl⟩ := map_eq_ok_iff.mp hfound'
      exact .list (ih (TypeExpr.list.inj hsame).1 hinner hinner')
    | _ => cases hsame
  | nonNull item loc ih =>
    cases type' with
    | nonNull item' loc' =>
      obtain ⟨inner, hinner, rfl⟩ := typeOf_nonNull_eq_ok _ hfound
      obtain ⟨inner', hinner', rfl⟩ := typeOf_nonNull_eq_ok _ hfound'
      exact .nonNull (ih (TypeExpr.nonNull.inj hsame).1 hinner hinner')
    | _ => cases hsame

theorem arguments_match {arguments arguments' : List InputValueDefinition}
    (hsame : arguments.map revision.inputValueDefinition =
      arguments'.map revision.inputValueDefinition) {found found' : OrderedMap ArgumentDef}
    (hfound : (numbered types).argumentMap arguments = .ok found)
    (hfound' : (numbered types').argumentMap arguments' = .ok found') :
    OrderedMap.Matches (ArgumentDef.Matches (Twins revision types types')) found found' := by
  rw [argumentMap_eq_build] at hfound hfound'
  refine OrderedMap.Matches.accumulate ?_ .nil hfound hfound'
  refine (forall₂_of_map_eq hsame).imp fun argument argument' hargument => ?_
  refine ⟨congrArg (·.name.value) hargument, fun a a' ha ha' => ?_⟩
  obtain ⟨type, htype, rfl⟩ := map_eq_ok_iff.mp ha
  obtain ⟨type', htype', rfl⟩ := map_eq_ok_iff.mp ha'
  have hdescription := congrArg (fun argument => describe argument.description) hargument
  simp only [Revision.inputValueDefinition, describe_revised] at hdescription
  exact ⟨h.typeOf_matches (congrArg (·.type) hargument) htype htype', hdescription⟩

theorem fields_match {fields fields' : List FieldDefinition}
    (hsame : fields.map revision.fieldDefinition = fields'.map revision.fieldDefinition)
    {found found' : OrderedMap FieldDef}
    (hfound : (numbered types).fieldMap fields = .ok found)
    (hfound' : (numbered types').fieldMap fields' = .ok found') :
    OrderedMap.Matches (FieldDef.Matches (Twins revision types types')) found found' := by
  rw [fieldMap_eq_build] at hfound hfound'
  refine OrderedMap.Matches.accumulate ?_ .nil hfound hfound'
  refine (forall₂_of_map_eq hsame).imp fun field field' hfield => ?_
  refine ⟨congrArg (·.name.value) hfield, fun a a' ha ha' => ?_⟩
  obtain ⟨type, arguments, htype, harguments, -, rfl⟩ := (fieldDef_eq_ok_iff _).mp ha
  obtain ⟨type', arguments', htype', harguments', -, rfl⟩ := (fieldDef_eq_ok_iff _).mp ha'
  have hdescription := congrArg (fun field => describe field.description) hfield
  simp only [Revision.fieldDefinition, describe_revised] at hdescription
  have hdeprecation := congrArg FieldDefinition.deprecation? hfield
  rw [FieldDefinition.deprecation?_revised, FieldDefinition.deprecation?_revised] at hdeprecation
  constructor
  · exact h.typeOf_matches (congrArg (·.type) hfield) htype htype'
  · exact h.arguments_match (congrArg (·.arguments) hfield) harguments harguments'
  · exact hdescription
  · exact hdeprecation

/-- The types of one definition in both schemas. -/
theorem draft_matches {position position' : Nat} {definition definition' : TypeDefinition}
    (hplace : types[position]? = some definition) (hplace' : types'[position']? = some definition')
    (hlive : definition.IsLive)
    (hsame : revision.typeDefinition definition = revision.typeDefinition definition') :
    ((numbered types).draft definition).type.Matches (Twins revision types types')
      ((numbered types').draft definition').type := by
  obtain ⟨⟨interfaces, hinterfaces⟩, ⟨fields, hfields⟩, members, hmembers⟩ :=
    h.made.canBeRead hplace hlive
  obtain ⟨⟨interfaces', hinterfaces'⟩, ⟨fields', hfields'⟩, members', hmembers'⟩ :=
    h.made'.canBeRead hplace' ((Reordered.live_iff hsame).mp hlive)
  have hbody := Reordered.body_eq hsame
  have hdescription := congrArg (fun definition => describe definition.description) hsame
  simp only [Revision.typeDefinition, describe_revised] at hdescription
  constructor
  · rw [draft_name, draft_name, Reordered.name_eq hsame]
  · rw [draft_description, draft_description, hdescription]
  · rw [draft_introspective, draft_introspective]
  · rw [draft_shape, draft_shape]
    apply TypeBody.shape_matches hbody
    · rw [draft_interfaces, draft_interfaces, hinterfaces, hinterfaces']
      exact h.lookups_twins (TypeBody.interfaces_alike hbody)
        (mapError_eq_ok_iff.mp (tested_eq_ok_iff.mp hinterfaces).1)
        (mapError_eq_ok_iff.mp (tested_eq_ok_iff.mp hinterfaces').1)
    · rw [draft_fields, draft_fields, hfields, hfields']
      exact h.fields_match (TypeBody.fields_alike hbody) ((fieldsOf_eq_ok_iff _).mp hfields).1
        ((fieldsOf_eq_ok_iff _).mp hfields').1
    · rw [draft_members, draft_members, hmembers, hmembers']
      exact h.lookups_twins (TypeBody.members_alike hbody)
        (mapError_eq_ok_iff.mp (tested_eq_ok_iff.mp hmembers).1)
        (mapError_eq_ok_iff.mp (tested_eq_ok_iff.mp hmembers').1)

theorem type_matches {id id' : TypeId} (htwins : Twins revision types types' id id') :
    (schema.type id).Matches (Twins revision types types') (schema'.type id') := by
  cases htwins with
  | standard hid =>
    rw [h.made.type_standard hid, h.made'.type_standard hid]
    refine .refl _ fun other hother => .standard ?_
    exact Standard.closed id hid other hother
  | defined hplace hplace' hlive hsame =>
    rw [h.made.type_defined hplace, h.made'.type_defined hplace']
    exact h.draft_matches hplace hplace' hlive hsame

theorem biUnique_twins : Relator.BiUnique (Twins revision types types') :=
  Reordered.biUnique_twins h.made.distinct h.made'.distinct

/-- What a definition stands for belongs to both schemas. -/
theorem mem_of_twins_identity {position : Nat} {definition : TypeDefinition} {id' : TypeId}
    (hplace : types[position]? = some definition)
    (htwins : Twins revision types types' (identity definition position) id') :
    id' ∈ schema'.types := by
  obtain ⟨definition', hmem', hsame⟩ := h.reordered.exists_mem (List.mem_of_getElem? hplace)
  obtain ⟨position', hplace'⟩ := List.mem_iff_getElem?.mp hmem'
  have hstands' := stands_identity hplace'
  rw [← Reordered.name_eq hsame] at hstands'
  have hother := h.reordered.twins_of_stands h.made'.distinct (stands_identity hplace) hstands'
  rw [h.biUnique_twins.2 htwins hother]
  exact h.made'.mem_of_place hplace'

/-- The twin of a type of one schema is a type of the other. Only types of definitions refer to
others, so one step leads to all types. -/
theorem mem_of_twins {id id' : TypeId} (htwins : Twins revision types types' id id')
    (hid : id ∈ schema.types) : id' ∈ schema'.types := by
  rcases h.made.mem_cases hid with ⟨position, definition, hplace, rfl⟩ | ⟨other, hother, hrefers⟩
  · exact h.mem_of_twins_identity hplace htwins
  · obtain ⟨name, hstands⟩ := h.made.stands hother
    obtain ⟨other', -, hothers⟩ := h.reordered.exists_twin hstands
    have hrefers' : id' ∈ (schema'.type other').references :=
      (List.rel_mem h.biUnique_twins htwins (h.type_matches hothers).references).mp hrefers
    have hother' : other' ∈ schema'.types := by
      cases hstands with
      | scalar hscalar =>
        have hmem := (Standard.mem_scalars_of_scalar? hscalar).1
        rw [h.made.type_standard (Standard.lt_of_mem_scalars hmem)] at hrefers
        fin_cases hmem <;> cases hrefers
      | defined hlive _ hplace =>
        rw [← identity_of_live hlive] at hothers
        exact h.mem_of_twins_identity hplace hothers
    exact h.made'.assembled.closed hother' hrefers'

theorem exists_twin_mem {id : TypeId} (hid : id ∈ schema.types) :
    ∃ id' ∈ schema'.types, Twins revision types types' id id' := by
  obtain ⟨name, hstands⟩ := h.made.stands hid
  obtain ⟨id', -, htwins⟩ := h.reordered.exists_twin hstands
  exact ⟨id', h.mem_of_twins htwins hid, htwins⟩

theorem types_match :
    ∃ ids, List.Forall₂ (Twins revision types types') schema.types ids ∧
      ids.Perm schema'.types := by
  obtain ⟨ids, hids, hsubset⟩ := exists_forall₂_subset fun id hid => h.exists_twin_mem hid
  have hnodup : ids.Nodup :=
    (List.rel_nodup h.biUnique_twins hids).mp h.made.assembled.complete.nodup
  refine ⟨ids, hids, ?_⟩
  rw [List.perm_ext_iff_of_nodup hnodup h.made'.assembled.complete.nodup]
  refine fun id' => ⟨fun hid' => hsubset hid', fun hid' => ?_⟩
  obtain ⟨id, hid, htwins⟩ := h.symm.exists_twin_mem hid'
  exact (List.rel_mem h.biUnique_twins htwins.symm hids).mp hid

theorem exists_root {operation : OperationType} {id : TypeId}
    (hid : schema.root operation = some id) :
    ∃ id', schema'.root operation = some id' ∧ Twins revision types types' id id' := by
  rw [h.made.assembled.root, get_of_rootsWith h.made.roots_eq] at hid
  obtain ⟨name, hname, hlookup⟩ := hid
  obtain ⟨id', hstands', htwins⟩ :=
    h.reordered.exists_twin ((lookup_eq_ok_iff h.made.distinct).mp hlookup)
  refine ⟨id', ?_, htwins⟩
  rw [h.made'.assembled.root, get_of_rootsWith h.made'.roots_eq]
  rw [h.reordered.rootName?_eq] at hname
  exact ⟨name, hname, (lookup_eq_ok_iff h.made'.distinct).mpr hstands'⟩

theorem exists_find? {name : String} {id : TypeId} (hid : schema.find? name = some id) :
    ∃ id', schema'.find? name = some id' ∧ Twins revision types types' id id' := by
  rw [Schema.find?, Option.orElse_eq_some] at hid
  rcases hid with hfound | ⟨hnone, hintrospection⟩
  · have hmem := List.mem_of_find?_eq_some hfound
    have hname : schema.name id = name := by simpa using List.find?_some hfound
    obtain ⟨id', hmem', htwins⟩ := h.exists_twin_mem hmem
    refine ⟨id', ?_, htwins⟩
    have hname' : schema'.name id' = name := (h.type_matches htwins).name.symm.trans hname
    rw [← hname']
    exact h.made'.assembled.find?_name hmem'
  · refine ⟨id, ?_, .standard (Standard.lt_of_introspection? hintrospection)⟩
    have hnone' : schema'.types.find? (fun id => schema'.name id == name) = none := by
      rw [List.find?_eq_none] at hnone ⊢
      intro id' hid'
      obtain ⟨id, hid, htwins⟩ := h.symm.exists_twin_mem hid'
      have hname : schema'.name id' = schema.name id := (h.symm.type_matches htwins).name
      rw [hname]
      exact hnone id hid
    rw [Schema.find?, hnone']
    exact hintrospection

/-- Schemas of the same definitions match, in whatever order the definitions stand. -/
theorem schema_matches : schema.Matches (Twins revision types types') schema' := by
  constructor
  · exact h.biUnique_twins
  · exact fun id hid => .standard hid
  · exact h.type_matches
  · exact h.types_match
  · intro operation
    refine optionRel_of_exists (fun id hid => h.exists_root hid) fun id' hid' => ?_
    obtain ⟨id, hid, -⟩ := h.symm.exists_root hid'
    exact ⟨id, hid⟩
  · intro name
    refine optionRel_of_exists (fun id hid => h.exists_find? hid) fun id' hid' => ?_
    obtain ⟨id, hid, -⟩ := h.symm.exists_find? hid'
    exact ⟨id, hid⟩

end Schema.Rearranged

end Matching

/-! Documents in another order -/

def Definition.isOfTypes : Definition → Bool
  | .schema _ | .type _ => true
  | .operation _ | .fragment _ => false

namespace Document

variable {document document' : Document}

theorem typeDefinitions_revised (document : Document) :
    (revision.document document).typeDefinitions =
      document.typeDefinitions.map revision.typeDefinition := by
  rw [typeDefinitions, typeDefinitions, Revision.document, List.filterMap_map, List.map_filterMap]
  congr
  funext definition
  cases definition <;> rfl

theorem schemaDefinitions_revised (document : Document) :
    (revision.document document).schemaDefinitions =
      document.schemaDefinitions.map revision.schemaDefinition := by
  rw [schemaDefinitions, schemaDefinitions, Revision.document, List.filterMap_map,
    List.map_filterMap]
  congr
  funext definition
  cases definition <;> rfl

theorem reordered
    (hdefinitions : (revision.document document).definitions.Perm
      (revision.document document').definitions)
    (hschemas : (revision.document document).schemaDefinitions =
      (revision.document document').schemaDefinitions) :
    Reordered revision document.typeDefinitions document'.typeDefinitions
      document.schemaDefinitions.getLast? document'.schemaDefinitions.getLast? := by
  constructor
  · rw [← typeDefinitions_revised, ← typeDefinitions_revised]
    exact hdefinitions.filterMap _
  · rw [← List.getLast?_map, ← List.getLast?_map, ← schemaDefinitions_revised,
      ← schemaDefinitions_revised, hschemas]

theorem exists_schema_of_reordered {source source' : Source} {located located' : Bool}
    (hparsed : source.parse located = .ok document)
    (hparsed' : source'.parse located' = .ok document')
    (h : Reordered revision document.typeDefinitions document'.typeDefinitions
      document.schemaDefinitions.getLast? document'.schemaDefinitions.getLast?)
    (hschema : ∃ schema, document.schema = .ok schema) :
    ∃ schema', document'.schema = .ok schema' := by
  have hresolvable :=
    (Schema.ofDefinitions_succeeds_iff (Source.regular_of_parse hparsed)).mp hschema
  exact (Schema.ofDefinitions_succeeds_iff (Source.regular_of_parse hparsed')).mpr
    (h.resolvable hresolvable)

/-- Two documents that have the same definitions, but for spans and the texts of values, and have
their schema definitions in the same order, both describe schemas or both do not, whatever the order
of the other definitions. The schemas agree on all types, and so does the standard check. -/
theorem schema_agrees_of_perm {source source' : Source} {located located' : Bool}
    (hparsed : source.parse located = .ok document)
    (hparsed' : source'.parse located' = .ok document')
    (hdefinitions : (Revision.erased.document document).definitions.Perm
      (Revision.erased.document document').definitions)
    (hschemas : (Revision.erased.document document).schemaDefinitions =
      (Revision.erased.document document').schemaDefinitions) :
    ((∃ schema, document.schema = .ok schema) ↔ ∃ schema', document'.schema = .ok schema') ∧
      ∀ schema schema', document.schema = .ok schema → document'.schema = .ok schema' →
        schema.Agrees schema' := by
  have hreordered := reordered hdefinitions hschemas
  refine ⟨⟨exists_schema_of_reordered hparsed hparsed' hreordered,
    exists_schema_of_reordered hparsed' hparsed hreordered.symm⟩, ?_⟩
  intro schema schema' hschema hschema'
  obtain ⟨roots, hmade⟩ := document.madeOf_of_schema hschema
  obtain ⟨roots', hmade'⟩ := document'.madeOf_of_schema hschema'
  exact (Schema.Rearranged.mk hreordered hmade hmade').schema_matches.agrees

/-- Without operations and fragments, a document is its schema definitions and its type
definitions. -/
theorem definitions_perm_of_types (h : document.definitions.all Definition.isOfTypes) :
    document.definitions.Perm
      (document.schemaDefinitions.map .schema ++ document.typeDefinitions.map .type) := by
  obtain ⟨definitions, loc⟩ := document
  rw [schemaDefinitions, typeDefinitions]
  dsimp only at h ⊢
  induction definitions with
  | nil => rfl
  | cons definition definitions ih =>
    rw [List.all_cons, Bool.and_eq_true_iff] at h
    have hothers := ih h.2
    cases definition with
    | operation definition => exact absurd h.1 Bool.false_ne_true
    | fragment definition => exact absurd h.1 Bool.false_ne_true
    | schema definition => exact hothers.cons _
    | type definition => exact (hothers.cons _).trans List.perm_middle.symm

/-- Types that refer to each other in a circle, an interface before and after its implementation, a
redefined scalar, and a schema definition that another one replaces. -/
theorem schema_agrees_of_perm_circular :
    let source : Source :=
      { body := "schema\x7bquery:M\x7dtype Q implements N\x7bn(x:E):U\x7d" ++
        "interface N\x7bn:Int\x7dschema\x7bquery:Q\x7dunion U=Q|M " ++
        "type M\x7bq:[Q!]!@deprecated\x7denum E\x7bA\x7dscalar Int" }
    let source' : Source :=
      { body := "scalar Int schema\x7bquery:M\x7d type M \x7bq: [Q!]! @deprecated\x7d" ++
        "enum E\x7bA\x7dinterface N\x7bn:Int\x7dunion U=Q|M schema\x7bquery:Q\x7d" ++
        "type Q implements N\x7bn(x:E):U\x7d" }
    ∃ document document' schema schema', source.parse = .ok document ∧
      source'.parse = .ok document' ∧
      (Revision.erased.document document).definitions.Perm
        (Revision.erased.document document').definitions ∧
      (Revision.erased.document document).schemaDefinitions =
        (Revision.erased.document document').schemaDefinitions ∧
      document.schema = .ok schema ∧ document'.schema = .ok schema' ∧ schema.Agrees schema' := by
  intro source source'
  have hcomputed : source.parse.toOption.any (fun document =>
      source'.parse.toOption.any fun document' =>
        let revised := Revision.erased.document document
        let revised' := Revision.erased.document document'
        decide (Resolvable document.typeDefinitions document.schemaDefinitions.getLast? ∧
          revised.definitions.all Definition.isOfTypes ∧
          revised'.definitions.all Definition.isOfTypes ∧
          revised.typeDefinitions.Perm revised'.typeDefinitions ∧
          revised.schemaDefinitions = revised'.schemaDefinitions)) = true := by
    decide +kernel
  obtain ⟨document, hparsed, hcomputed⟩ := exists_ok_of_toOption_any hcomputed
  obtain ⟨document', hparsed', hcomputed⟩ := exists_ok_of_toOption_any hcomputed
  obtain ⟨hresolvable, hsystem, hsystem', htypes, hschemas⟩ := of_decide_eq_true hcomputed
  have hdefinitions : (Revision.erased.document document).definitions.Perm
      (Revision.erased.document document').definitions := by
    refine (definitions_perm_of_types hsystem).trans ?_
    rw [hschemas]
    exact ((htypes.map _).append_left _).trans (definitions_perm_of_types hsystem').symm
  obtain ⟨hiff, hagrees⟩ := schema_agrees_of_perm hparsed hparsed' hdefinitions hschemas
  obtain ⟨schema, hschema⟩ :=
    (Schema.ofDefinitions_succeeds_iff (Source.regular_of_parse hparsed)).mpr hresolvable
  obtain ⟨schema', hschema'⟩ := hiff.mp ⟨schema, hschema⟩
  exact ⟨document, document', schema, schema', hparsed, hparsed', hdefinitions, hschemas, hschema,
    hschema', hagrees schema schema' hschema hschema'⟩

end Document

end QueryLint
