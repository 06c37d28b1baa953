import QueryLint.Proofs.ResolvableDocuments
import QueryLint.Proofs.WrittenForm

/-!
What definitions say is what their schema says. While a schema is made, names are looked up among
the built-in scalars and the definitions; afterwards they are looked up among its types. Both ways
lead to the same types: whatever a type refers to belongs to the schema, and no two of its types
share a name. So fields, arguments, interfaces and members can be told from the definitions alone.
-/

namespace QueryLint

/-! Maps that reflect lists of items -/

namespace OrderedMap

variable {ε α ι : Type} {key : ι → String}

/-- The last item of a name. -/
def lastNamed (key : ι → String) (items : List ι) (name : String) : Option ι :=
  (items.filter (key · = name)).getLast?

theorem lastNamed_append (items : List ι) (item : ι) (name : String) :
    lastNamed key (items ++ [item]) name =
      if name = key item then some item else lastNamed key items name := by
  by_cases hsame : name = key item
  · simp [lastNamed, hsame]
  · have hother : key item ≠ name := fun h => hsame h.symm
    simp [lastNamed, hsame, hother]

/-- Every name of the items stands where it occurs first, with what its last item gives. -/
structure Reflects (key : ι → String) (gives : ι → α → Prop) (items : List ι)
    (map : OrderedMap α) : Prop where
  names : map.names = (items.map key).eraseDups
  entries : ∀ name a, map.find? name = some a →
    ∃ item, lastNamed key items name = some item ∧ gives item a

variable {gives stronger : ι → α → Prop} {items : List ι} {map : OrderedMap α}

theorem Reflects.insert (h : map.Reflects key gives items) {item : ι} {a : α}
    (ha : gives item a) : (map.insert (key item) a).Reflects key gives (items ++ [item]) := by
  have hmem : key item ∈ map.names ↔ key item ∈ items.map key := by
    rw [h.names, List.mem_eraseDups]
  constructor
  · rw [List.map_append, List.map_singleton, List.eraseDups_append, ← h.names]
    by_cases hold : key item ∈ map.names
    · have hnone : [key item].removeAll (items.map key) = [] := by
        simpa [List.removeAll] using hmem.mp hold
      rw [names_insert_of_mem hold, hnone, List.eraseDups_nil, List.append_nil]
    · have hone : [key item].removeAll (items.map key) = [key item] := by
        simpa [List.removeAll] using fun h => hold (hmem.mpr h)
      rw [insert_of_not_mem hold, hone]
      simp [OrderedMap.names, List.eraseDups_cons]
  · intro name found hfound
    rw [find?_insert] at hfound
    rw [lastNamed_append]
    by_cases hsame : name = key item
    · rw [if_pos hsame] at hfound ⊢
      cases hfound
      exact ⟨item, rfl, ha⟩
    · rw [if_neg hsame] at hfound ⊢
      exact h.entries name found hfound

theorem reflects_of_build {value : ι → Except ε α} (h : build key value items = .ok map) :
    map.Reflects key (fun item a => value item = .ok a) items := by
  induction items using List.reverseRecOn generalizing map with
  | nil =>
    cases h
    exact ⟨rfl, by simp [find?]⟩
  | append_singleton items item ih =>
    obtain ⟨before, a, hbefore, ha, rfl⟩ := accumulate_append_eq_ok_iff.mp h
    exact (ih hbefore).insert ha

/-- More may be known of the entries of the map than of what its items give. -/
theorem Reflects.strengthen (h : map.Reflects key gives items)
    (hstronger : ∀ item, ∀ entry ∈ map, gives item entry.2 → stronger item entry.2) :
    map.Reflects key stronger items := by
  refine ⟨h.names, fun name a hfound => ?_⟩
  obtain ⟨item, hitem, hgives⟩ := h.entries name a hfound
  exact ⟨item, hitem, hstronger item (name, a) (mem_of_find? hfound) hgives⟩

end OrderedMap

/-! What types of a schema reflect -/

namespace Schema

variable (schema : Schema)

/-- The type that a type expression stands for, with the same modifiers around what its name stands
for, and written the same. -/
structure Resolves (type : TypeExpr) (found : TypeRef) : Prop where
  typeOf : schema.typeOf? type = some found
  base : schema.find? type.baseName = some found.base
  print : Text.ofString (schema.table.print found) = type.words.flatMap Word.text

structure ReflectsArgument (argument : InputValueDefinition) (found : ArgumentDef) : Prop where
  origin : found.definition = some argument
  description : found.description = describe argument.description
  type : schema.Resolves argument.type found.type

structure ReflectsField (field : FieldDefinition) (found : FieldDef) : Prop where
  origin : found.definition = some field
  description : found.description = describe field.description
  deprecation : found.deprecation = field.deprecation?
  type : schema.Resolves field.type found.type
  arguments : found.arguments.Reflects (·.name.value) schema.ReflectsArgument field.arguments

/-- The type has what its definition says. -/
structure ReflectsType (definition : TypeDefinition) (type : NamedType) : Prop where
  origin : type.definition = some definition
  description : type.description = describe definition.description
  fields : type.fields.Reflects (·.name.value) schema.ReflectsField definition.body.fields
  interfaces : type.interfaces.map some =
    definition.body.interfaces.map fun interface => schema.find? interface.name.value
  members : type.members.map some =
    definition.body.members.map fun member => schema.find? member.name.value

end Schema

/-! Schemas made of definitions -/

namespace Definitions

theorem draft_definition (definitions : Definitions) (definition : TypeDefinition) :
    (definitions.draft definition).type.definition = some definition := by
  unfold draft
  cases definition.body <;> rfl

theorem draft_description (definitions : Definitions) (definition : TypeDefinition) :
    (definitions.draft definition).type.description = describe definition.description := by
  unfold draft
  cases definition.body <;> rfl

theorem typeOf_nonNull_eq_ok (definitions : Definitions) {item : TypeExpr}
    {loc : Option Location} {found : TypeRef}
    (h : definitions.typeOf (.nonNull item loc) = .ok found) :
    ∃ inner, definitions.typeOf item = .ok inner ∧ .nonNull inner = found := by
  obtain ⟨inner, hinner, hrest⟩ := bind_eq_ok_iff.mp h
  refine ⟨inner, hinner, ?_⟩
  cases inner <;> cases hrest <;> rfl

end Definitions

open Definitions

/-- The schema is assembled from the definitions, which have names of their own, and the roots. -/
structure Schema.MadeOf (types : List TypeDefinition) (given : Option SchemaDefinition)
    (roots : Roots) (schema : Schema) : Prop where
  distinct : (types.map (·.name.value)).Nodup
  roots_eq : (numbered types).rootsWith given = .ok roots
  assembled : (numbered types).graph.Assembled ((numbered types).names.map (·.2)) roots schema

theorem Schema.madeOf_of_ofDefinitions {types : List TypeDefinition}
    {given : Option SchemaDefinition} {schema : Schema}
    (h : Schema.ofDefinitions types given = .ok schema) :
    ∃ roots, schema.MadeOf types given roots := by
  rw [Schema.ofDefinitions_eq] at h
  obtain ⟨_, hdefinitions, h⟩ := bind_eq_ok_iff.mp h
  obtain ⟨hnamable, rfl⟩ := ofList_eq_ok_iff.mp hdefinitions
  obtain ⟨roots, hroots, h⟩ := bind_eq_ok_iff.mp h
  exact ⟨roots, hnamable.distinct, hroots, TypeGraph.assemble_eq_ok (mapError_eq_ok_iff.mp h)⟩

theorem Document.madeOf_of_schema {document : Document} {schema : Schema}
    (h : document.schema = .ok schema) :
    ∃ roots, schema.MadeOf document.typeDefinitions document.schemaDefinitions.getLast? roots :=
  Schema.madeOf_of_ofDefinitions h

namespace Schema.MadeOf

variable {types : List TypeDefinition} {given : Option SchemaDefinition} {roots : Roots}
  {schema : Schema} {name : String} {id : TypeId}

theorem stands (h : schema.MadeOf types given roots) (hid : id ∈ schema.types) :
    ∃ name, Stands types name id :=
  stands_of_reachable h.distinct (stands_of_mem_roots h.distinct h.roots_eq)
    ((h.assembled.complete.mem_iff id).mp hid)

theorem name_eq (h : schema.MadeOf types given roots) (hstands : Stands types name id) :
    schema.name id = name := by
  rw [Schema.name, h.assembled.type_eq, hstands.name_eq]

/-- A name leads to the type that it stands for, once the type belongs to the schema. -/
theorem find?_eq (h : schema.MadeOf types given roots) (hstands : Stands types name id)
    (hid : id ∈ schema.types) : schema.find? name = some id := by
  rw [← h.name_eq hstands]
  exact h.assembled.find?_name hid

theorem mem_of_place (h : schema.MadeOf types given roots) {position : Nat}
    {definition : TypeDefinition} (hplace : types[position]? = some definition) :
    identity definition position ∈ schema.types := by
  rw [h.assembled.complete.mem_iff]
  apply TypeGraph.Reachable.of_mem
  apply List.mem_append_left
  exact List.mem_map_of_mem (mem_identities_iff.mpr ⟨position, definition, hplace, rfl⟩)

theorem type_defined (h : schema.MadeOf types given roots) {position : Nat}
    {definition : TypeDefinition} (hplace : types[position]? = some definition) :
    schema.type (Standard.types.length + position) =
      ((numbered types).draft definition).type := by
  rw [h.assembled.type_eq, TypeGraph.type, graph_draft_defined hplace]

/-- A live definition could be read, since its type belongs to the schema. -/
theorem canBeRead (h : schema.MadeOf types given roots) {position : Nat}
    {definition : TypeDefinition} (hplace : types[position]? = some definition)
    (hlive : definition.IsLive) : (numbered types).CanBeRead definition := by
  rw [← readable_defined_iff hplace]
  apply h.assembled.complete.readable
  rw [← identity_of_live hlive]
  exact h.mem_of_place hplace

theorem lookup_resolves (h : schema.MadeOf types given roots)
    (hlookup : (numbered types).lookup name = .ok id) (hid : id ∈ schema.types) :
    schema.find? name = some id :=
  h.find?_eq ((lookup_eq_ok_iff h.distinct).mp hlookup) hid

theorem typeOf_resolves (h : schema.MadeOf types given roots) {type : TypeExpr} {found : TypeRef}
    (htype : (numbered types).typeOf type = .ok found) (hbase : found.base ∈ schema.types) :
    schema.Resolves type found := by
  induction type generalizing found with
  | named type =>
    obtain ⟨id, hid, rfl⟩ := map_eq_ok_iff.mp htype
    have hfind := h.lookup_resolves hid hbase
    have hname := h.name_eq ((lookup_eq_ok_iff h.distinct).mp hid)
    constructor
    · rw [Schema.typeOf?, hfind, Option.map_some]
    · exact hfind
    · rw [TypeTable.print, TypeExpr.words, List.flatMap_singleton]
      exact congrArg Text.ofString hname
  | list item loc ih =>
    obtain ⟨inner, hinner, rfl⟩ := map_eq_ok_iff.mp htype
    have hitem := ih hinner hbase
    constructor
    · rw [Schema.typeOf?, hitem.typeOf, Option.map_some]
    · exact hitem.base
    · rw [TypeTable.print, Text.ofString_append, Text.ofString_append, hitem.print, TypeExpr.words,
        List.flatMap_cons, List.flatMap_append, List.flatMap_singleton, List.append_assoc]
      rfl
  | nonNull item loc ih =>
    obtain ⟨inner, hinner, rfl⟩ := typeOf_nonNull_eq_ok _ htype
    have hitem := ih hinner hbase
    constructor
    · rw [Schema.typeOf?, hitem.typeOf, Option.map_some]
    · exact hitem.base
    · rw [TypeTable.print, Text.ofString_append, hitem.print, TypeExpr.words, List.flatMap_append,
        List.flatMap_singleton]
      rfl

/-- Names that are looked up one by one lead to the same types in the schema. -/
theorem lookups_resolve (h : schema.MadeOf types given roots) {names : List TypeName}
    {ids : List TypeId}
    (hlookups : (names.mapM fun type => (numbered types).lookup type.name.value) = .ok ids)
    (hids : ∀ id ∈ ids, id ∈ schema.types) :
    ids.map some = names.map fun type => schema.find? type.name.value := by
  induction names generalizing ids with
  | nil =>
    cases hlookups
    rfl
  | cons type names ih =>
    obtain ⟨id, others, hid, hothers, rfl⟩ := mapM_cons_eq_ok_iff.mp hlookups
    rw [List.forall_mem_cons] at hids
    rw [List.map_cons, List.map_cons, h.lookup_resolves hid hids.1, ih hothers hids.2]

theorem argument_reflects (h : schema.MadeOf types given roots) {argument : InputValueDefinition}
    {found : ArgumentDef} (hfound : (numbered types).argumentDef argument = .ok found)
    (hbase : found.type.base ∈ schema.types) : schema.ReflectsArgument argument found := by
  obtain ⟨type, htype, rfl⟩ := map_eq_ok_iff.mp hfound
  exact ⟨rfl, rfl, h.typeOf_resolves htype hbase⟩

theorem field_reflects (h : schema.MadeOf types given roots) {field : FieldDefinition}
    {found : FieldDef} (hfound : (numbered types).fieldDef field = .ok found)
    (hreferences : ∀ other ∈ found.references, other ∈ schema.types) :
    schema.ReflectsField field found := by
  obtain ⟨type, arguments, htype, harguments, -, rfl⟩ := fieldDef_eq_ok_iff _ |>.mp hfound
  rw [argumentMap_eq_build] at harguments
  rw [FieldDef.references, List.forall_mem_cons] at hreferences
  constructor
  · rfl
  · rfl
  · rfl
  · exact h.typeOf_resolves htype hreferences.1
  · refine (OrderedMap.reflects_of_build harguments).strengthen ?_
    intro argument entry hentry hvalue
    exact h.argument_reflects hvalue (hreferences.2 _ (List.mem_map_of_mem hentry))

/-- The type of a live definition reflects it. -/
theorem type_reflects (h : schema.MadeOf types given roots) {position : Nat}
    {definition : TypeDefinition} (hplace : types[position]? = some definition)
    (hlive : definition.IsLive) :
    schema.ReflectsType definition (schema.type (Standard.types.length + position)) := by
  have hid : Standard.types.length + position ∈ schema.types := by
    rw [← identity_of_live hlive]
    exact h.mem_of_place hplace
  have hclosed : ∀ other ∈ (schema.type (Standard.types.length + position)).references,
      other ∈ schema.types := fun other => h.assembled.closed hid
  obtain ⟨⟨interfaces, hinterfaces⟩, ⟨fields, hfields⟩, members, hmembers⟩ :=
    h.canBeRead hplace hlive
  simp only [NamedType.references, NamedType.fieldReferences, List.mem_append,
    List.mem_flatMap] at hclosed
  rw [h.type_defined hplace] at hclosed ⊢
  rw [draft_interfaces, draft_fields, draft_members, hinterfaces, hfields, hmembers] at hclosed
  constructor
  · exact draft_definition _ definition
  · exact draft_description _ definition
  · rw [draft_fields, hfields]
    have hbuild := ((numbered types).fieldsOf_eq_ok_iff.mp hfields).1
    rw [fieldMap_eq_build] at hbuild
    refine (OrderedMap.reflects_of_build hbuild).strengthen ?_
    intro field entry hentry hvalue
    exact h.field_reflects hvalue fun other hother => hclosed other (.inr ⟨entry, hentry, hother⟩)
  · rw [draft_interfaces, hinterfaces]
    have hlookups := mapError_eq_ok_iff.mp (tested_eq_ok_iff.mp hinterfaces).1
    exact h.lookups_resolve hlookups fun other hother => hclosed other (.inl (.inr hother))
  · rw [draft_members, hmembers]
    have hlookups := mapError_eq_ok_iff.mp (tested_eq_ok_iff.mp hmembers).1
    exact h.lookups_resolve hlookups fun other hother => hclosed other (.inl (.inl hother))

end Schema.MadeOf

/-- In the schema of a document, the type of every definition that is not passed over reflects it.
Each field stands where its name occurs first and comes from the last definition of that name, and
so do its arguments. Their types are what the schema finds for the type expressions, and are written
the same; interfaces and members are the types that the schema finds under their names. -/
theorem Document.schema_reflects_definitions {document : Document} {schema : Schema}
    (h : document.schema = .ok schema) {definition : TypeDefinition}
    (hmem : definition ∈ document.typeDefinitions) (hlive : definition.IsLive) :
    ∃ id ∈ schema.types, schema.find? definition.name.value = some id ∧
      schema.ReflectsType definition (schema.type id) := by
  obtain ⟨roots, hmade⟩ := document.madeOf_of_schema h
  obtain ⟨position, hplace, hstands⟩ := stands_of_mem hmem hlive
  have hid := hmade.mem_of_place hplace
  rw [identity_of_live hlive] at hid
  exact ⟨_, hid, hmade.find?_eq hstands hid, hmade.type_reflects hplace hlive⟩

theorem exists_ok_of_toOption_any {ε α : Type} {result : Except ε α} {test : α → Bool}
    (h : result.toOption.any test = true) : ∃ value, result = .ok value ∧ test value = true := by
  cases result with
  | error error => cases h
  | ok value => exact ⟨value, rfl, h⟩

/-- A field and an argument that are given twice, references ahead, in a circle and to a redefined
scalar, an interface that is listed twice and a member that is listed twice. -/
theorem Document.schema_reflects_definitions_repeated :
    let source : Source :=
      { body := "type Q implements N & N\x7bn(x:Float,y:Int=1,x:[E!]):U m:Boolean n(x:ID):[N!]!" ++
        "\x7dinterface N\x7bm:Int\x7dunion U=Q|Q enum E\x7bA\x7dscalar Int" }
    ∃ document schema, source.parse = .ok document ∧ document.schema = .ok schema ∧
      ∃ definition ∈ document.typeDefinitions, definition.name.value = "Q" ∧ definition.IsLive ∧
        ∃ id ∈ schema.types, schema.find? "Q" = some id ∧
          schema.ReflectsType definition (schema.type id) := by
  intro source
  have hcomputed : source.parse.toOption.any (fun document =>
      decide (Resolvable document.typeDefinitions document.schemaDefinitions.getLast?) &&
        document.typeDefinitions.any fun definition => definition.name.value = "Q") = true := by
    decide +kernel
  obtain ⟨document, hdocument, hcomputed⟩ := exists_ok_of_toOption_any hcomputed
  obtain ⟨hresolvable, hdefinition⟩ := Bool.and_eq_true_iff.mp hcomputed
  obtain ⟨schema, hschema⟩ := (Schema.ofDefinitions_succeeds_iff
    (Source.regular_of_parse hdocument)).mpr (of_decide_eq_true hresolvable)
  obtain ⟨definition, hmem, hname⟩ := List.any_eq_true.mp hdefinition
  replace hname : definition.name.value = "Q" := of_decide_eq_true hname
  have hlive : definition.IsLive := by
    rw [TypeDefinition.IsLive, hname]
    decide
  have hreflected := document.schema_reflects_definitions hschema hmem hlive
  rw [hname] at hreflected
  exact ⟨document, schema, hdocument, hschema, definition, hmem, hname, hlive, hreflected⟩

end QueryLint
