import QueryLint.Proofs.BenchReports
import QueryLint.Proofs.DefinitionNodes
import QueryLint.Proofs.ResolvableDocuments

/-!
Types read off nodes. Where the nodes of a document define types, the bench reads off them what the
definitions say: the same types under the same names, the same fields with their arguments, and the
same errors. The identities of types differ, so they are compared by their places on the bench.
-/

namespace QueryLint

/-- The reference to the same type by other identities. -/
def TypeRef.rename (place : TypeId → TypeId) : TypeRef → TypeRef
  | .named id => .named (place id)
  | .list item => .list (item.rename place)
  | .nonNull item => .nonNull (item.rename place)

theorem TypeRef.base_rename (place : TypeId → TypeId) (ref : TypeRef) :
    (ref.rename place).base = place ref.base := by
  induction ref with
  | named id => rfl
  | list item ih => exact ih
  | nonNull item ih => exact ih

/-- The family of the types that such definitions describe. -/
def TypeBody.family : TypeBody → Workbench.TypeFamily
  | .scalar => .scalar
  | .object _ _ => .object
  | .interface _ => .interface
  | .union _ => .union
  | .enum _ => .enum

/-- The family of a type; the types that need no definition are scalars. -/
def Definitions.family (definitions : Definitions) (id : TypeId) : Workbench.TypeFamily :=
  ((definitions.body? id).map TypeBody.family).getD .scalar

theorem Definitions.family_iff (definitions : Definitions) (id : TypeId) :
    (definitions.isObject id = true ↔ definitions.family id = .object) ∧
      (definitions.isInterface id = true ↔ definitions.family id = .interface) := by
  rw [Definitions.isObject, Definitions.isInterface, Definitions.family]
  rcases definitions.body? id with _ | body
  · simp
  · cases body <;> simp [TypeBody.family]

/-- The type has a name in the definitions. -/
def Definitions.Names (definitions : Definitions) (id : TypeId) : Prop :=
  ∃ name, definitions.lookup name = .ok id

namespace Workbench

variable {β : Type}

/-! Modified types -/

section Modifiers

variable {bench : Bench} {value : Datum} {ref : TypeRef} {modifier : Modifier}

theorem RefersTo.test_type (h : RefersTo value ref) : bench.test .type value = true := by
  cases h <;> rfl

theorem RefersTo.test_nonNull (h : RefersTo value ref) :
    bench.test .nonNull value = true ↔ ∃ inner, ref = .nonNull inner := by
  cases h with
  | type id => simp [Bench.test, TypeTest.holdsOf]
  | nonNull below => simp [Bench.test]
  | list other below => simp [Bench.test, other]

theorem makeModified_makes (h : RefersTo value ref)
    (hnested : modifier = .nonNull → ∀ inner, ref ≠ .nonNull inner) :
    Makes bench (makeModified modifier value)
      fun made => ∃ id, made = .modified id modifier value := by
  refine Makes.get_bind fun age => ?_
  have hfine : ¬(modifier = .nonNull ∧ (bench.aged age).test .nonNull value = true) := by
    rintro ⟨hmodifier, htest⟩
    obtain ⟨inner, hinner⟩ := h.test_nonNull.mp htest
    exact hnested hmodifier inner hinner
  simp only [h.test_type, if_true, if_neg hfine]
  exact fresh_makes.bind fun id _ => Makes.pure ⟨id, rfl⟩

/-- No type can be made non-null twice. -/
theorem makeModified_fails {text : String} (h : RefersTo value ref)
    (hnested : ∃ inner, ref = .nonNull inner)
    (hprinted : ∀ age, (bench.aged age).print value = Text.ofString text) :
    Fails bench (makeModified .nonNull value) (Tells (.nestedNonNull text)) := by
  refine Fails.get_bind fun age => ?_
  simp only [h.test_type, h.test_nonNull.mpr hnested, and_self, if_true]
  refine ((misuse_fails _).mono ?_).bind
  rintro _ rfl
  rw [hprinted, ← Text.ofString_append, ← Text.ofString_append]
  exact .fault rfl

end Modifiers

/-! Types under their names -/

/-- The bench has a place for each type that a name in the definitions stands for, with a type of
the same name and family. -/
structure Linked (bench : Bench) (names : OrderedMap TypeId) (definitions : Definitions)
    (place : TypeId → TypeId) : Prop where
  found : ∀ name, (Standard.scalar? name <|> names.find? name) =
    (Standard.scalar? name <|> definitions.names.find? name).map place
  types : ∀ {name id}, definitions.lookup name = .ok id →
    (bench.type (place id)).name = definitions.nameOf id ∧
      (bench.type (place id)).family = definitions.family id

/-- The value is the type of the reference, which has a name in the definitions. -/
inductive Means (definitions : Definitions) (place : TypeId → TypeId) : Datum → TypeRef → Prop where
  | type {id : TypeId} (named : definitions.Names id) :
      Means definitions place (.type (place id)) (.named id)
  | list {item : Datum} {ref : TypeRef} (id : Nat) (below : Means definitions place item ref) :
      Means definitions place (.modified id .list item) (.list ref)
  | nonNull {item : Datum} {ref : TypeRef} (id : Nat) (below : Means definitions place item ref) :
      Means definitions place (.modified id .nonNull item) (.nonNull ref)

section Means

variable {definitions : Definitions} {place : TypeId → TypeId} {value : Datum} {ref : TypeRef}

theorem Means.refers (h : Means definitions place value ref) :
    RefersTo value (ref.rename place) := by
  induction h with
  | type named => exact .type _
  | list id below ih => exact .list (by decide) ih
  | nonNull id below ih => exact .nonNull ih

theorem Means.named (h : Means definitions place value ref) : definitions.Names ref.base := by
  induction h with
  | type named => exact named
  | list id below ih => exact ih
  | nonNull id below ih => exact ih

end Means

section Types

variable {bench : Bench} {names : OrderedMap TypeId} {definitions : Definitions}
  {place : TypeId → TypeId} {origin node : Datum}

theorem TypeRecord.isOutput_of_family {record : TypeRecord} {definitions : Definitions}
    {id : TypeId} (h : record.family = definitions.family id) :
    record.namedType.isOutput = true := by
  have hfamily : definitions.family id ≠ .nameless ∧ definitions.family id ≠ .named := by
    rw [Definitions.family]
    rcases definitions.body? id with _ | body
    · exact ⟨by decide, by decide⟩
    · cases body <;> simp [TypeBody.family]
  rw [← h] at hfamily
  obtain ⟨family, _, _, _, _, _, _⟩ := record
  cases family <;> first | rfl | exact absurd rfl hfamily.1 | exact absurd rfl hfamily.2

variable (h : Linked bench names definitions place)

include h

/-- A name stands for the same type on the bench and in the definitions. -/
theorem Linked.typeNamed_agrees {name : String} (hname : nameOf node = pure (.ofString name)) :
    Agrees bench (typeNamed names node) (definitions.lookup name)
      fun value id => value = .type (place id) := by
  rw [typeNamed, hname, pure_bind, Definitions.lookup]
  simp only [Datum.string?_eq_some.mpr rfl, Option.bind_some, h.found]
  cases Standard.scalar? name <|> definitions.names.find? name with
  | some id => exact .pure rfl
  | none =>
    refine .error ((print_text_makes _).bindFails fun text htext => (misuse_fails _).mono ?_)
    rintro _ rfl
    rw [htext, ← Text.ofString_append, ← Text.ofString_append]
    exact .fault rfl

/-- A type is written on the bench as in the definitions. -/
theorem Linked.print_eq {value : Datum} {ref : TypeRef} (hmeans : Means definitions place value ref)
    (age : Nat) : (bench.aged age).print value = Text.ofString (definitions.print ref) := by
  rw [Bench.print]
  induction hmeans with
  | type named =>
    obtain ⟨name, hlookup⟩ := named
    rw [Bench.render]
    exact congrArg Text.ofString (h.types hlookup).1
  | list id below ih =>
    rw [Bench.render, ih, Definitions.print, Text.ofString_append, Text.ofString_append]
  | nonNull id below ih => rw [Bench.render, ih, Definitions.print, Text.ofString_append]

theorem Linked.test_output {value : Datum} {ref : TypeRef}
    (hmeans : Means definitions place value ref) (age : Nat) :
    (bench.aged age).test .output value = true := by
  have htest : (bench.aged age).reader.isOutput value =
      (bench.table.type (ref.rename place).base).isOutput := Bench.isOutput_eq hmeans.refers
  obtain ⟨name, hlookup⟩ := hmeans.named
  rw [TypeRef.base_rename, bench.type_table,
    TypeRecord.isOutput_of_family (h.types hlookup).2] at htest
  exact htest

/-- A type expression stands for the same type on the bench and in the definitions. -/
theorem Linked.typeDefined_agrees (type : TypeExpr) (hnode : Depicts origin type.tree node) :
    Agrees bench (typeDefined names node) (definitions.typeOf type)
      (Means definitions place) := by
  induction type generalizing node with
  | named type =>
    obtain ⟨id, attributes, hshape, -⟩ := hnode.shape
    have hdefined : typeDefined names node = typeNamed names node := by
      rw [hshape]
      rfl
    have hname : nameOf node = pure (.ofString type.name.value) :=
      nameOf_eq hnode (by simp [TypeExpr.tree, TypeName.tree, Tree.branches])
    rw [hdefined, Definitions.typeOf]
    refine (h.typeNamed_agrees hname).map fun value id hid hvalue => ?_
    rw [hvalue]
    exact .type ⟨_, hid⟩
  | list item loc ih =>
    obtain ⟨child, hattr, hchild⟩ := hnode.branch (.head _)
    obtain ⟨id, location, rfl⟩ := hnode.eq_pair rfl (by decide) hattr
    have hmodified : Agrees bench (do makeModified .list (← typeDefined names child))
        (definitions.typeOf item) fun made ref => Means definitions place made (.list ref) := by
      refine (ih hchild).bindMakes fun value ref _ hvalue => ?_
      refine (makeModified_makes hvalue.refers (by simp)).mono ?_
      rintro made ⟨id, rfl⟩
      exact .list id hvalue
    exact hmodified.map fun _ _ _ hmade => hmade
  | nonNull item loc ih =>
    obtain ⟨child, hattr, hchild⟩ := hnode.branch (.head _)
    obtain ⟨id, location, rfl⟩ := hnode.eq_pair rfl (by decide) hattr
    change Agrees bench (do makeModified .nonNull (← typeDefined names child)) _ _
    rw [Definitions.typeOf]
    refine (ih hchild).bind fun value ref _ hvalue => ?_
    have hnullable (hother : ∀ inner, ref.rename place ≠ .nonNull inner) :
        Agrees bench (makeModified .nonNull value) (.ok (.nonNull ref))
          (Means definitions place) := by
      refine .ok ((makeModified_makes hvalue.refers fun _ => hother).mono ?_)
      rintro made ⟨id, rfl⟩
      exact .nonNull id hvalue
    cases ref with
    | nonNull inner =>
      exact .error (makeModified_fails hvalue.refers ⟨_, rfl⟩ (h.print_eq hvalue))
    | _ => exact hnullable (by simp [TypeRef.rename])

theorem Linked.test_object {id : TypeId} (hid : definitions.Names id) (age : Nat) :
    (bench.aged age).test .object (.type (place id)) = definitions.isObject id := by
  obtain ⟨name, hlookup⟩ := hid
  rw [Bench.test_type _ (by decide), Bench.type_table, Bool.eq_iff_iff,
    (definitions.family_iff id).1, ← (h.types hlookup).2]
  exact (bench.type (place id)).family_iff.1

theorem Linked.test_interface {id : TypeId} (hid : definitions.Names id) (age : Nat) :
    (bench.aged age).test .interface (.type (place id)) = definitions.isInterface id := by
  obtain ⟨name, hlookup⟩ := hid
  rw [Bench.test_type _ (by decide), Bench.type_table, Bool.eq_iff_iff,
    (definitions.family_iff id).2, ← (h.types hlookup).2]
  exact (bench.type (place id)).family_iff.2.1

end Types

/-! Fields and arguments -/

section Fields

variable (definitions : Definitions) (place : TypeId → TypeId) (origin : Datum)

/-- The value is the argument that was read off a definition. -/
inductive IsArgument : Datum → ArgumentDef → Prop where
  | mk {type definition : Datum} {ref : TypeRef} {written : InputValueDefinition} (id : Nat)
      (description : Option Text) (means : Means definitions place type ref)
      (depicts : Depicts origin written.tree definition) :
      IsArgument (.argument id type (.ofText? description) definition)
        { type := ref, description, definition := some written }

/-- The value is the field that was read off a definition. -/
inductive IsFieldDefinition : Datum → FieldDef → Prop where
  | mk {type definition : Datum} {ref : TypeRef} {entries : List Entry}
      {arguments : OrderedMap ArgumentDef} {written : FieldDefinition} (id map : Nat)
      (description deprecation : Option Text) (means : Means definitions place type ref)
      (held : List.Forall₂ (EntryOf (IsArgument definitions place origin)) entries arguments)
      (depicts : Depicts origin written.tree definition) :
      IsFieldDefinition
        (.field id type (.map map entries) (.ofText? description) (.ofText? deprecation) definition)
        { type := ref, arguments, description, deprecation, definition := some written }

variable {definitions place origin} {bench : Bench} {names : OrderedMap TypeId} {node : Datum}

theorem makeArgument_makes {type : Datum} {ref : TypeRef} (h : RefersTo type ref)
    (description definition : Datum) :
    Makes bench (makeArgument type description definition) fun value =>
      ∃ id, value = .argument id type description definition := by
  refine Makes.get_bind fun age => ?_
  simp only [h.test_type, if_true]
  exact fresh_makes.bind fun id _ => Makes.pure ⟨id, rfl⟩

/-- An argument stays the same under a name that is allowed. -/
theorem makeArgumentEntry_agrees {entry : Entry} {item : String × ArgumentDef}
    (hentry : EntryOf (IsArgument definitions place origin) entry item) :
    Agrees bench (makeArgumentEntry entry) ((checkName item.1).mapError .badName)
      fun made _ => EntryOf (IsArgument definitions place origin) made item := by
  obtain ⟨key, value⟩ := entry
  obtain ⟨name, argument⟩ := item
  obtain ⟨rfl, hvalue⟩ : key = .ofString name ∧
    IsArgument definitions place origin value argument := hentry
  cases hvalue with
  | mk id description means depicts =>
    rw [makeArgumentEntry]
    simp only [pure_bind, discard_bind]
    exact (checkNameOf_agrees _).bindMakes fun _ _ _ _ =>
      Makes.pure ⟨rfl, .mk id description means depicts⟩

variable (h : Linked bench names definitions place)

include h

/-- A field is made if the names of its arguments are allowed. -/
theorem Linked.makeField_agrees {type : Datum} {ref : TypeRef} {entries : List Entry}
    {arguments : OrderedMap ArgumentDef} (hmeans : Means definitions place type ref)
    (hentries : List.Forall₂ (EntryOf (IsArgument definitions place origin)) entries
      arguments) (map : Nat) (description deprecation definition : Datum) :
    Agrees bench (makeField type (.map map entries) description deprecation definition)
      (arguments.names.forM fun name => (checkName name).mapError .badName)
      fun value _ => ∃ id map entries,
        value = .field id type (.map map entries) description deprecation definition ∧
        List.Forall₂ (EntryOf (IsArgument definitions place origin)) entries arguments := by
  rw [OrderedMap.names, List.forM_eq_forM, List.forM_map, ← List.forM_eq_forM]
  refine Agrees.get_bind fun age => ?_
  simp only [h.test_output hmeans, if_true, pure_bind]
  refine (Agrees.mapM_forM hentries fun entry item => makeArgumentEntry_agrees).bindMakes
    fun made _ _ hmade => ?_
  refine (makeMap_makes made).bind ?_
  rintro value ⟨mapId, rfl⟩
  exact fresh_makes.bind fun id _ => Makes.pure ⟨id, mapId, made, rfl, hmade⟩

theorem Linked.argumentDefined_agrees {argument : InputValueDefinition}
    (hnode : Depicts origin argument.tree node) :
    Agrees bench (argumentDefined names node)
      (do
        let type ← definitions.typeOf argument.type
        return { type
                 description := describe argument.description
                 definition := some argument })
      (IsArgument definitions place origin) := by
  have hbranch : .single "type" argument.type.tree ∈ argument.tree.branches := by
    simp [InputValueDefinition.tree, Tree.branches]
  have hdescription : descriptionOf node = pure (.ofText? (describe argument.description)) :=
    descriptionOf_eq hnode (by simp [InputValueDefinition.tree, Tree.branches])
  obtain ⟨type, hattr, htype⟩ := hnode.branch hbranch
  rw [argumentDefined, attr_eq hattr, pure_bind, hdescription]
  refine (h.typeDefined_agrees argument.type htype).bind fun value ref _ hvalue => .ok ?_
  rw [pure_bind]
  refine (makeArgument_makes hvalue.refers _ node).mono ?_
  rintro _ ⟨id, rfl⟩
  exact .mk id _ hvalue hnode

theorem Linked.argumentMap_agrees {arguments : List InputValueDefinition} {items : List Datum}
    (hitems : List.Forall₂ (Depicts origin) (arguments.map InputValueDefinition.tree) items) :
    Agrees bench (mapByName (argumentDefined names) items) (definitions.argumentMap arguments)
      (IsMapOf (IsArgument definitions place origin)) := by
  have hname (argument : InputValueDefinition) :
      .single "name" argument.name.tree ∈ argument.tree.branches := by
    simp [InputValueDefinition.tree, Tree.branches]
  have hmap := mapByName_agrees hitems hname fun node argument hnode =>
    h.argumentDefined_agrees hnode
  simp only [bind_assoc, pure_bind] at hmap
  exact hmap

theorem Linked.fieldDefined_agrees {field : FieldDefinition}
    (hnode : Depicts origin field.tree node) :
    Agrees bench (fieldDefined names node) (definitions.fieldDef field)
      (IsFieldDefinition definitions place origin) := by
  have htypeBranch : .single "type" field.type.tree ∈ field.tree.branches := by
    simp [FieldDefinition.tree, Tree.branches]
  have hdescription : descriptionOf node = pure (.ofText? (describe field.description)) :=
    descriptionOf_eq hnode (by simp [FieldDefinition.tree, Tree.branches])
  have hargumentBranch : .sequence "arguments" (field.arguments.map InputValueDefinition.tree) ∈
      field.tree.branches := by simp [FieldDefinition.tree, Tree.branches]
  obtain ⟨type, hattr, htype⟩ := hnode.branch htypeBranch
  obtain ⟨items, hitems, hread⟩ := itemsOf_eq hnode hargumentBranch
  rw [fieldDefined, attr_eq hattr, pure_bind, hdescription, hread, deprecationOf_eq hnode,
    Definitions.fieldDef]
  simp only [pure_bind]
  refine (h.typeDefined_agrees field.type htype).bind fun value ref _ hvalue => ?_
  refine (h.argumentMap_agrees hitems).bind fun map arguments _ hmap => ?_
  obtain ⟨id, entries, rfl, hentries⟩ := hmap
  rw [bind_pure_comp]
  refine (h.makeField_agrees hvalue hentries id _ _ node).map fun made _ _ hmade => ?_
  obtain ⟨fieldId, mapId, made, rfl, hheld⟩ := hmade
  exact .mk fieldId mapId _ _ hvalue hheld hnode

end Fields

/-! Parts of types -/

/-- The session works out a part of a type: it gives a value and keeps it, or fails where there is a
fault and keeps nothing. -/
structure Resolves (bench : Bench) (session : Session Datum) (id : TypeId) (part : Part)
    (fault : Option SchemaError) (holds : Datum → Prop) : Prop where
  gives : fault = none →
    Gives bench session fun value later => later = bench.keep id part value ∧ holds value
  fails : ∀ {error}, fault = some error → Fails bench session (Tells error)

section Parts

variable {bench : Bench} {definitions : Definitions} {place : TypeId → TypeId} {origin : Datum}
  {names : OrderedMap TypeId} {tree : Tree} {node : Datum} {owner : String}

theorem settle_resolves {id : TypeId} {part : Part} {step : Session Datum}
    {result : Except SchemaError (List β)} {related : Datum → List β → Prop}
    (hname : (bench.type id).name = owner)
    (h : Agrees bench (workOut owner part step) result related) :
    Resolves bench (settle id part step) id part (Definitions.faultOf result)
      (related · (result.toOption.getD [])) where
  gives hfault := by
    refine Gives.get_bind fun age => ?_
    rw [show ((bench.aged age).type id).name = owner from hname]
    cases result with
    | error error => cases hfault
    | ok found =>
      refine (h.makes rfl).bindGives fun value hvalue => ?_
      exact fun _ age =>
        ⟨value, bench.keep id part value, age, rfl, rfl, hvalue⟩
  fails hfault := by
    refine Fails.get_bind fun age => ?_
    rw [show ((bench.aged age).type id).name = owner from hname]
    cases result with
    | error error =>
      cases hfault
      exact (h.fails rfl).bind
    | ok found => cases hfault

theorem makeFieldEntry_agrees {entry : Entry} {item : String × FieldDef}
    (hentry : EntryOf (IsFieldDefinition definitions place origin) entry item) :
    Agrees bench (makeFieldEntry entry) ((checkName item.1).mapError .badName)
      fun made _ => EntryOf (IsFieldDefinition definitions place origin) made item := by
  obtain ⟨key, value⟩ := entry
  obtain ⟨name, field⟩ := item
  obtain ⟨rfl, hvalue⟩ : key = .ofString name ∧
    IsFieldDefinition definitions place origin value field := hentry
  cases hvalue with
  | mk id map description deprecation means held depicts =>
    rw [makeFieldEntry]
    simp only [discard_bind]
    exact (checkNameOf_agrees _).bindMakes fun _ _ _ _ =>
      Makes.pure ⟨rfl, .mk id map description deprecation means held depicts⟩

/-- The value is a tuple of the types with the identities. -/
def IsTypeTuple (place : TypeId → TypeId) (value : Datum) (ids : List TypeId) : Prop :=
  ∃ id, value = .tupleOf id (ids.map fun id => .type (place id))

theorem makeTypeTuple_agrees {test : TypeTest} {passes : TypeId → Bool} {error : SchemaError}
    {complaint : String} {ids : List TypeId} (hreport : error.isReport = false)
    (hcomplaint : error.message = complaint)
    (hpasses : ∀ id ∈ ids, ∀ age, (bench.aged age).test test (.type (place id)) = passes id)
    (list : Nat) :
    Agrees bench (makeTypeTuple test complaint (.list list (ids.map fun id => .type (place id))))
      (if ids.all passes then .ok ids else .error error) (IsTypeTuple place) := by
  have hitems : optionalMembers (.list list (ids.map fun id => .type (place id))) =
      pure (ids.map fun id => .type (place id)) := by
    cases ids <;> rfl
  rw [makeTypeTuple, hitems, pure_bind]
  refine Agrees.get_bind fun age => ?_
  have hall : (ids.map fun id => Datum.type (place id)).all ((bench.aged age).test test) =
      ids.all passes := by
    rw [Bool.eq_iff_iff, List.all_eq_true, List.all_eq_true, List.forall_mem_map]
    exact forall₂_congr fun id hid => by rw [hpasses id hid age]
  rw [hall]
  by_cases hpass : ids.all passes = true
  · simp only [hpass, if_true]
    exact .ok (makeTuple_makes _)
  · simp only [hpass]
    refine .error (((misuse_fails _).mono ?_).bind)
    rintro _ rfl
    rw [← hcomplaint]
    exact .fault hreport

/-- The value is the part of the type. -/
def HoldsPart (definitions : Definitions) (place : TypeId → TypeId) (origin : Datum)
    (type : NamedType) : Part → Datum → Prop
  | .interfaces, value => IsTypeTuple place value type.interfaces
  | .fields, value => IsMapOf (IsFieldDefinition definitions place origin) value type.fields
  | .types, value => IsTypeTuple place value type.members

theorem forall₂_types {values : List Datum} {ids : List TypeId}
    (h : List.Forall₂ (fun value id => value = .type (place id) ∧ definitions.Names id) values
      ids) :
    values = ids.map (fun id => .type (place id)) ∧ ∀ id ∈ ids, definitions.Names id := by
  induction h with
  | nil => exact ⟨rfl, by simp⟩
  | cons hvalue hvalues ih =>
    exact ⟨by rw [List.map_cons, hvalue.1, ih.1], List.forall_mem_cons.mpr ⟨hvalue.2, ih.2⟩⟩

variable (h : Linked bench names definitions place) (hnode : Depicts origin tree node)

include h hnode

/-- The fields of a type are those of its definition. -/
theorem Linked.fields_agree {fields : List FieldDefinition}
    (hbranch : .sequence "fields" (fields.map FieldDefinition.tree) ∈ tree.branches) :
    Agrees bench (workOut owner .fields (partDefined names node .fields))
      (definitions.fieldsOf owner fields)
      (IsMapOf (IsFieldDefinition definitions place origin)) := by
  have hname (field : FieldDefinition) : .single "name" field.name.tree ∈ field.tree.branches := by
    simp [FieldDefinition.tree, Tree.branches]
  obtain ⟨items, hitems, hread⟩ := itemsOf_eq hnode hbranch
  have hpart : Agrees bench (partDefined names node .fields) (definitions.fieldMap fields)
      (IsMapOf (IsFieldDefinition definitions place origin)) := by
    rw [partDefined, hread, pure_bind]
    exact mapByName_agrees hitems hname fun node field hnode => h.fieldDefined_agrees hnode
  rw [Definitions.fieldsOf]
  refine (tellingPart_agrees hpart owner .fields).bind fun value map _ hvalue => ?_
  obtain ⟨id, entries, rfl, hentries⟩ := hvalue
  rw [bind_pure_comp, OrderedMap.names, List.forM_eq_forM, List.forM_map, ← List.forM_eq_forM]
  have hmade : Agrees bench _ _ _ :=
    Agrees.mapM_forM hentries fun entry item => makeFieldEntry_agrees
  refine Agrees.map (hmade.bindMakes fun made _ _ hmade => ?_) fun _ _ _ hvalue => hvalue
  refine (makeMap_makes made).mono ?_
  rintro value ⟨mapId, rfl⟩
  exact ⟨mapId, made, rfl, hmade⟩

/-- The types that are listed by name. -/
theorem Linked.listed_agree {name : String} {types : List TypeName}
    (hbranch : .sequence name (types.map TypeName.tree) ∈ tree.branches) :
    Agrees bench (do makeList (← (← itemsOf node name).mapM (typeNamed names)))
      (types.mapM fun type => definitions.lookup type.name.value)
      fun value ids => (∀ id ∈ ids, definitions.Names id) ∧
        ∃ list, value = .list list (ids.map fun id => .type (place id)) := by
  obtain ⟨items, hitems, hread⟩ := itemsOf_eq hnode hbranch
  rw [hread, pure_bind]
  have htypes : Agrees bench (items.mapM (typeNamed names))
      (types.mapM fun type => definitions.lookup type.name.value)
      (List.Forall₂ fun value id => value = .type (place id) ∧ definitions.Names id) := by
    refine Agrees.mapM (List.forall₂_map_left_iff.mp hitems).flip
      fun item type (hitem : Depicts origin type.tree item) => ?_
    have hname : nameOf item = pure (.ofString type.name.value) :=
      nameOf_eq hitem (by simp [TypeName.tree, Tree.branches])
    exact (h.typeNamed_agrees hname).mono fun value id hid hvalue => ⟨hvalue, _, hid⟩
  refine htypes.bindMakes fun values ids _ hvalues => (makeList_makes values).mono ?_
  rintro _ ⟨list, rfl⟩
  obtain ⟨rfl, hnames⟩ := forall₂_types hvalues
  exact ⟨hnames, list, rfl⟩

/-- The interfaces of an object are those of its definition. -/
theorem Linked.interfaces_agree {interfaces : List TypeName}
    (hbranch : .sequence "interfaces" (interfaces.map TypeName.tree) ∈ tree.branches) :
    Agrees bench (workOut owner .interfaces (partDefined names node .interfaces))
      (definitions.interfacesOf owner interfaces) (IsTypeTuple place) := by
  rw [Definitions.interfacesOf]
  refine (tellingPart_agrees (h.listed_agree hnode hbranch) owner .interfaces).bind
    fun value ids _ hvalue => ?_
  obtain ⟨hnames, list, rfl⟩ := hvalue
  have hcomplaint : (SchemaError.notInterfaces owner).message =
      owner ++ " interfaces must be Interface types." := rfl
  exact makeTypeTuple_agrees rfl hcomplaint (fun id hid => h.test_interface (hnames id hid)) list

/-- The members of a union are those of its definition. -/
theorem Linked.members_agree {members : List TypeName}
    (hbranch : .sequence "types" (members.map TypeName.tree) ∈ tree.branches) :
    Agrees bench (workOut owner .types (partDefined names node .types))
      (definitions.membersOf owner members) (IsTypeTuple place) := by
  rw [Definitions.membersOf]
  refine (tellingPart_agrees (h.listed_agree hnode hbranch) owner .types).bind
    fun value ids _ hvalue => ?_
  obtain ⟨hnames, list, rfl⟩ := hvalue
  have hcomplaint : (SchemaError.notObjects owner).message =
      owner ++ " types must be Object types." := rfl
  exact makeTypeTuple_agrees rfl hcomplaint (fun id hid => h.test_object (hnames id hid)) list

omit hnode

/-- A part of a defined type is worked out as its definition says. -/
theorem Linked.resolve_resolves {definition : TypeDefinition} {id : TypeId} {part : Part}
    (hdefined : (bench.type id).member part = .defined names)
    (hname : (bench.type id).name = definition.name.value)
    (hnode : Depicts origin definition.tree (bench.type id).definition)
    (hpart : part ∈ (definitions.draft definition).type.shape.parts) :
    Resolves bench (resolve id part) id part ((definitions.draft definition).fault part)
      (HoldsPart definitions place origin (definitions.draft definition).type part) := by
  have hsettle : Resolves bench
      (settle id part (partDefined names (bench.type id).definition part)) id part
      ((definitions.draft definition).fault part)
      (HoldsPart definitions place origin (definitions.draft definition).type part) := by
    obtain ⟨description, name, directives, body, loc⟩ := definition
    cases body with
    | scalar | enum values => cases hpart
    | object interfaces fields =>
      have hparts : part ∈ [Part.interfaces, .fields] := hpart
      cases part with
      | interfaces =>
        exact settle_resolves hname (h.interfaces_agree hnode
          (by simp [TypeDefinition.tree, Tree.branches]))
      | fields =>
        exact settle_resolves hname (h.fields_agree hnode
          (by simp [TypeDefinition.tree, Tree.branches]))
      | types => exact absurd hparts (by decide)
    | interface fields =>
      have hparts : part ∈ [Part.fields] := hpart
      cases part with
      | fields =>
        exact settle_resolves hname (h.fields_agree hnode
          (by simp [TypeDefinition.tree, Tree.branches]))
      | interfaces | types => exact absurd hparts (by decide)
    | union members =>
      have hparts : part ∈ [Part.types] := hpart
      cases part with
      | types =>
        exact settle_resolves hname (h.members_agree hnode
          (by simp [TypeDefinition.tree, Tree.branches]))
      | interfaces | fields => exact absurd hparts (by decide)
  constructor
  · intro hfault
    refine Gives.get_bind fun age => ?_
    simp only [show ((bench.aged age).type id).member part = .defined names from hdefined]
    exact hsettle.gives hfault
  · intro error hfault
    refine Fails.get_bind fun age => ?_
    simp only [show ((bench.aged age).type id).member part = .defined names from hdefined]
    exact hsettle.fails hfault

end Parts

end Workbench

end QueryLint
