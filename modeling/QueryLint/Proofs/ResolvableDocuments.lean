import Mathlib.Tactic.FinCases
import QueryLint.Proofs.NameResolution

/-!
A document has a schema exactly if it is resolvable: definitions have names of their own, live ones
use no reserved names and no unknown ones, interfaces, members and roots are of the right kind.
Every definition is among the given types, so each one is read when types are collected, and what
can be reached from them is nothing but built-in scalars and live definitions.
-/

namespace QueryLint

/-! Resolvable definitions -/

namespace FieldDefinition

/-- The names of a field and its arguments. -/
def declaredNames (field : FieldDefinition) : List String :=
  field.name.value :: field.arguments.map (·.name.value)

/-- The names of the types that a field and its arguments have. -/
def usedNames (field : FieldDefinition) : List String :=
  field.type.baseName :: field.arguments.map (·.type.baseName)

end FieldDefinition

namespace TypeDefinition

/-- The names of a type, its fields, their arguments and its enum values. -/
def declaredNames (definition : TypeDefinition) : List String :=
  definition.name.value :: (definition.body.fields.flatMap FieldDefinition.declaredNames ++
    definition.body.values.map (·.name.value))

/-- The names of the types of fields and arguments, of interfaces and of union members. -/
def usedNames (definition : TypeDefinition) : List String :=
  definition.body.fields.flatMap FieldDefinition.usedNames ++
    (definition.body.interfaces ++ definition.body.members).map (·.name.value)

end TypeDefinition

/-- A live definition with a body that passes the test has the name. -/
def Defines (types : List TypeDefinition) (test : TypeBody → Bool) (name : String) : Prop :=
  ∃ definition ∈ types,
    definition.IsLive ∧ definition.name.value = name ∧ test definition.body = true

/-- The definition uses its names well, and names of others for what they stand for. -/
@[mk_iff]
structure TypeDefinition.ResolvesIn (types : List TypeDefinition) (definition : TypeDefinition) :
    Prop where
  unreserved : ∀ name ∈ definition.declaredNames, ¬IsReserved name
  known : ∀ name ∈ definition.usedNames, Known types name
  interfaces : ∀ type ∈ definition.body.interfaces,
    Defines types TypeBody.isInterface type.name.value
  members : ∀ type ∈ definition.body.members, Defines types TypeBody.isObject type.name.value

/-- The last entry for an operation. -/
def entryFor? (entries : List OperationTypeDefinition) (operation : OperationType) :
    Option OperationTypeDefinition :=
  (entries.filter (·.operation = operation)).getLast?

/-- The name of the root type of an operation. Without a schema definition it is the customary
name, if a definition has it. -/
def rootName? (types : List TypeDefinition) (schema : Option SchemaDefinition)
    (operation : OperationType) : Option String :=
  match schema with
  | some schema => (entryFor? schema.operationTypes operation).map (·.type.name.value)
  | none => (types.map (·.name.value)).find? (· = operation.customaryType)

/-- The definitions make up a schema. -/
@[mk_iff]
structure Resolvable (types : List TypeDefinition) (schema : Option SchemaDefinition) : Prop where
  distinct : (types.map (·.name.value)).Nodup
  definitions : ∀ definition ∈ types, definition.IsLive → definition.ResolvesIn types
  entries : ∀ given ∈ schema, ∀ entry ∈ given.operationTypes, Known types entry.type.name.value
  roots : ∀ operation, ∀ name ∈ rootName? types schema operation,
    Defines types TypeBody.isObject name

/-! Whether definitions are resolvable can be computed. -/

instance (name : String) : Decidable (IsReserved name) :=
  inferInstanceAs (Decidable (['_', '_'] <+: name.toList))

instance (definition : TypeDefinition) : Decidable definition.IsLive :=
  inferInstanceAs (Decidable (definition.name.value ∉ builtInNames))

instance (types : List TypeDefinition) (name : String) : Decidable (Known types name) :=
  inferInstanceAs (Decidable (name ∈ builtInNames ∨
    ∃ definition ∈ types, definition.name.value = name))

instance (types : List TypeDefinition) (test : TypeBody → Bool) (name : String) :
    Decidable (Defines types test name) :=
  inferInstanceAs (Decidable (∃ definition ∈ types,
    definition.IsLive ∧ definition.name.value = name ∧ test definition.body = true))

instance (types : List TypeDefinition) (definition : TypeDefinition) :
    Decidable (definition.ResolvesIn types) :=
  decidable_of_iff _ (TypeDefinition.resolvesIn_iff types definition).symm

instance (types : List TypeDefinition) (schema : Option SchemaDefinition) :
    Decidable (Resolvable types schema) :=
  have : Decidable (∀ operation, ∀ name ∈ rootName? types schema operation,
      Defines types TypeBody.isObject name) :=
    decidable_of_iff (∀ operation ∈ OperationType.all,
      ∀ name ∈ rootName? types schema operation, Defines types TypeBody.isObject name)
      (forall_congr' fun operation => forall_prop_of_true (by cases operation <;> decide))
  decidable_of_iff _ (resolvable_iff types schema).symm

/-! What identities stand for -/

namespace Definitions

variable {types : List TypeDefinition}

theorem graph_draft_scalar {id : TypeId} (h : id ∈ Standard.scalars) :
    (numbered types).graph.draft id = { type := Standard.types.type id } := by
  fin_cases h <;> rfl

theorem graph_draft_defined {position : Nat} {definition : TypeDefinition}
    (h : types[position]? = some definition) :
    (numbered types).graph.draft (Standard.types.length + position) =
      (numbered types).draft definition := by
  have hplace : (numbered types).graph[Standard.types.length + position]? =
      some ((numbered types).draft definition) := by
    rw [graph, List.getElem?_append_right (by simp)]
    simp [numbered, h]
  rw [TypeGraph.draft, hplace]
  rfl

theorem readable_scalar {id : TypeId} (h : id ∈ Standard.scalars) :
    (numbered types).graph.Readable id := by
  rw [TypeGraph.Readable, TypeGraph.type, graph_draft_scalar h]
  intro part _
  rfl

theorem readable_defined_iff {position : Nat} {definition : TypeDefinition}
    (h : types[position]? = some definition) :
    (numbered types).graph.Readable (Standard.types.length + position) ↔
      (numbered types).CanBeRead definition := by
  rw [TypeGraph.Readable, TypeGraph.type, graph_draft_defined h]
  exact draft_readable_iff _ definition

theorem body?_scalar {id : TypeId} (h : id ∈ Standard.scalars) :
    (numbered types).body? id = none := by
  fin_cases h <;> rfl

theorem body?_defined (position : Nat) :
    (numbered types).body? (Standard.types.length + position) =
      types[position]?.map (·.body) := by
  have houtside : ¬Standard.types.length + position < Standard.types.length := by omega
  rw [body?, if_neg houtside, Nat.add_sub_cancel_left]
  rfl

theorem isInterface_eq (id : TypeId) :
    (numbered types).isInterface id = ((numbered types).body? id).any TypeBody.isInterface := by
  rw [isInterface]
  cases (numbered types).body? id with
  | none => rfl
  | some body => cases body <;> rfl

theorem isObject_eq (id : TypeId) :
    (numbered types).isObject id = ((numbered types).body? id).any TypeBody.isObject := by
  rw [isObject]
  cases (numbered types).body? id with
  | none => rfl
  | some body => cases body <;> rfl

end Definitions

open Definitions

section Standing

variable {types : List TypeDefinition} {name : String} {id : TypeId}

theorem Stands.name_eq (h : Stands types name id) :
    ((numbered types).graph.type id).name = name := by
  cases h with
  | scalar hscalar =>
    obtain ⟨hmem, hname⟩ := Standard.mem_scalars_of_scalar? hscalar
    rw [TypeGraph.type, graph_draft_scalar hmem]
    exact hname
  | defined hlive hname hplace =>
    rw [TypeGraph.type, graph_draft_defined hplace, draft_name]
    exact hname

/-- Only object definitions become object types. -/
theorem Stands.isObject_eq (h : Stands types name id) :
    ((numbered types).graph.type id).isObject =
      ((numbered types).body? id).any TypeBody.isObject := by
  cases h with
  | scalar hscalar =>
    obtain ⟨hmem, -⟩ := Standard.mem_scalars_of_scalar? hscalar
    rw [TypeGraph.type, graph_draft_scalar hmem, body?_scalar hmem]
    fin_cases hmem <;> rfl
  | defined hlive hname hplace =>
    rw [TypeGraph.type, graph_draft_defined hplace, draft_isObject, body?_defined, hplace]
    rfl

theorem Defines.known {test : TypeBody → Bool} (h : Defines types test name) :
    Known types name := by
  obtain ⟨definition, hmem, -, hname, -⟩ := h
  exact .inr ⟨definition, hmem, hname⟩

theorem stands_of_mem {definition : TypeDefinition} (hmem : definition ∈ types)
    (hlive : definition.IsLive) :
    ∃ position, types[position]? = some definition ∧
      Stands types definition.name.value (Standard.types.length + position) := by
  obtain ⟨position, hplace⟩ := List.mem_iff_getElem?.mp hmem
  exact ⟨position, hplace, .defined hlive rfl hplace⟩

theorem stands_of_mem_names (hid : id ∈ (numbered types).names.map (·.2)) :
    ∃ name, Stands types name id := by
  obtain ⟨entry, hentry, rfl⟩ := List.mem_map.mp hid
  obtain ⟨position, definition, hplace, rfl⟩ := mem_identities_iff.mp hentry
  exact ⟨_, stands_identity hplace⟩

/-! Parts of definitions that resolve -/

theorem typeOf_known_iff {type : TypeExpr} (h : type.WellFormed) :
    Succeeds ((numbered types).typeOf type) ↔ Known types type.baseName := by
  rw [typeOf_succeeds_iff _ h, lookup_succeeds_iff]

theorem field_resolves_iff {field : FieldDefinition} (h : field.Regular) :
    (Succeeds ((numbered types).fieldDef field) ∧ Succeeds (checkName field.name.value)) ↔
      (∀ name ∈ field.declaredNames, ¬IsReserved name) ∧
        ∀ name ∈ field.usedNames, Known types name := by
  have harguments : (∀ argument ∈ field.arguments,
      Succeeds ((numbered types).typeOf argument.type) ∧
        Succeeds (checkName argument.name.value)) ↔
      (∀ argument ∈ field.arguments, Known types argument.type.baseName) ∧
        ∀ argument ∈ field.arguments, ¬IsReserved argument.name.value := by
    rw [← forall₂_and]
    apply forall₂_congr
    intro argument hargument
    have hregular := h.arguments argument hargument
    rw [typeOf_known_iff hregular.type, checkName_succeeds_iff hregular.name]
  rw [fieldDef_succeeds_iff, harguments, typeOf_known_iff h.type, checkName_succeeds_iff h.name]
  simp only [FieldDefinition.declaredNames, FieldDefinition.usedNames, List.forall_mem_cons,
    List.forall_mem_map]
  tauto

theorem fieldsOf_resolves_iff {owner : String} {fields : List FieldDefinition}
    (h : ∀ field ∈ fields, field.Regular) :
    Succeeds ((numbered types).fieldsOf owner fields) ↔
      (∀ name ∈ fields.flatMap FieldDefinition.declaredNames, ¬IsReserved name) ∧
        ∀ name ∈ fields.flatMap FieldDefinition.usedNames, Known types name := by
  rw [fieldsOf_succeeds_iff, List.forall_mem_flatMap, List.forall_mem_flatMap, ← forall₂_and]
  apply forall₂_congr
  intro field hfield
  exact field_resolves_iff (h field hfield)

theorem checkNames_resolves_iff {definition : TypeDefinition} (h : definition.Regular) :
    Succeeds definition.checkNames ↔ ¬IsReserved definition.name.value ∧
      ∀ value ∈ definition.body.values, ¬IsReserved value.name.value := by
  rw [TypeDefinition.checkNames_succeeds_iff, checkName_succeeds_iff h.name]
  apply and_congr_right
  intro _
  apply forall₂_congr
  intro value hvalue
  exact checkName_succeeds_iff (h.values value hvalue)

/-! Definitions with names of their own -/

variable (hdistinct : (types.map (·.name.value)).Nodup)
include hdistinct

theorem Stands.unique {other : TypeId} (h : Stands types name id)
    (hother : Stands types name other) : id = other := by
  have hid := (lookup_eq_ok_iff hdistinct).mpr h
  rw [(lookup_eq_ok_iff hdistinct).mpr hother] at hid
  exact (Except.ok.inj hid).symm

theorem Stands.defines_iff (h : Stands types name id) (test : TypeBody → Bool) :
    ((numbered types).body? id).any test = true ↔ Defines types test name := by
  constructor
  · intro htest
    cases h with
    | scalar hscalar =>
      obtain ⟨hmem, -⟩ := Standard.mem_scalars_of_scalar? hscalar
      rw [body?_scalar hmem] at htest
      cases htest
    | @defined position definition hlive hname hplace =>
      rw [body?_defined, hplace] at htest
      exact ⟨definition, List.mem_of_getElem? hplace, hlive, hname, htest⟩
  · rintro ⟨definition, hmem, hlive, rfl, htest⟩
    obtain ⟨position, hplace, hstands⟩ := stands_of_mem hmem hlive
    rw [h.unique hdistinct hstands, body?_defined, hplace]
    exact htest

theorem exists_lookup_iff {test : TypeBody → Bool} :
    (∃ id, (numbered types).lookup name = .ok id ∧
        ((numbered types).body? id).any test = true) ↔ Defines types test name := by
  constructor
  · rintro ⟨id, hid, htest⟩
    exact (((lookup_eq_ok_iff hdistinct).mp hid).defines_iff hdistinct test).mp htest
  · rintro ⟨definition, hmem, hlive, rfl, htest⟩
    obtain ⟨position, -, hstands⟩ := stands_of_mem hmem hlive
    have hdefines : Defines types test definition.name.value :=
      ⟨definition, hmem, hlive, rfl, htest⟩
    exact ⟨_, (lookup_eq_ok_iff hdistinct).mpr hstands,
      (hstands.defines_iff hdistinct test).mpr hdefines⟩

/-! Types that can be reached -/

theorem Stands.leads {target : TypeId} (h : Stands types name id)
    (hleads : (numbered types).graph.Leads id target) : ∃ other, Stands types other target := by
  rw [TypeGraph.Leads] at hleads
  cases h with
  | scalar hscalar =>
    obtain ⟨hmem, -⟩ := Standard.mem_scalars_of_scalar? hscalar
    rw [TypeGraph.type, graph_draft_scalar hmem] at hleads
    fin_cases hmem <;> cases hleads
  | defined hlive hname hplace =>
    rw [TypeGraph.type, graph_draft_defined hplace] at hleads
    obtain ⟨other, hother⟩ := lookup_of_mem_references _ hleads
    exact ⟨other, (lookup_eq_ok_iff hdistinct).mp hother⟩

/-- Only built-in scalars and live definitions can be reached. -/
theorem stands_of_reachable {roots : List TypeId}
    (hroots : ∀ root ∈ roots, ∃ name, Stands types name root)
    (h : (numbered types).graph.Reachable ((numbered types).names.map (·.2) ++ roots) id) :
    ∃ name, Stands types name id := by
  obtain ⟨start, hstart, hpath⟩ := h
  induction hpath with
  | refl =>
    rcases List.mem_append.mp hstart with hgiven | hroot
    · exact stands_of_mem_names hgiven
    · exact hroots start hroot
  | tail _ hleads ih =>
    obtain ⟨name, hname⟩ := ih
    exact hname.leads hdistinct hleads

theorem not_namesClash {roots : List TypeId}
    (hroots : ∀ root ∈ roots, ∃ name, Stands types name root) :
    ¬(numbered types).graph.NamesClash ((numbered types).names.map (·.2) ++ roots) := by
  rintro ⟨first, second, hfirst, hsecond, hne, hsame⟩
  obtain ⟨name, hname⟩ := stands_of_reachable hdistinct hroots hfirst
  obtain ⟨other, hother⟩ := stands_of_reachable hdistinct hroots hsecond
  rw [hname.name_eq, hother.name_eq] at hsame
  subst hsame
  exact hne (hname.unique hdistinct hother)

/-- Every live definition is read, and nothing else can fail. -/
theorem readable_iff_canBeRead {roots : List TypeId}
    (hroots : ∀ root ∈ roots, ∃ name, Stands types name root) :
    (∀ id, (numbered types).graph.Reachable ((numbered types).names.map (·.2) ++ roots) id →
        (numbered types).graph.Readable id) ↔
      ∀ definition ∈ types, definition.IsLive → (numbered types).CanBeRead definition := by
  constructor
  · intro h definition hmem hlive
    obtain ⟨position, hplace⟩ := List.mem_iff_getElem?.mp hmem
    rw [← readable_defined_iff hplace]
    apply h
    apply TypeGraph.Reachable.of_mem
    apply List.mem_append_left
    rw [← identity_of_live hlive]
    exact List.mem_map_of_mem (mem_identities_iff.mpr ⟨position, definition, hplace, rfl⟩)
  · intro h id hreachable
    obtain ⟨name, hname⟩ := stands_of_reachable hdistinct hroots hreachable
    cases hname with
    | scalar hscalar => exact readable_scalar (Standard.mem_scalars_of_scalar? hscalar).1
    | defined hlive _ hplace =>
      rw [readable_defined_iff hplace]
      exact h _ (List.mem_of_getElem? hplace) hlive

/-! Definitions that resolve -/

theorem interfacesOf_resolves_iff {owner : String} {interfaces : List TypeName} :
    Succeeds ((numbered types).interfacesOf owner interfaces) ↔
      ∀ type ∈ interfaces, Defines types TypeBody.isInterface type.name.value := by
  rw [interfacesOf_succeeds_iff]
  simp only [isInterface_eq, exists_lookup_iff hdistinct]

theorem membersOf_resolves_iff {owner : String} {members : List TypeName} :
    Succeeds ((numbered types).membersOf owner members) ↔
      ∀ type ∈ members, Defines types TypeBody.isObject type.name.value := by
  rw [membersOf_succeeds_iff]
  simp only [isObject_eq, exists_lookup_iff hdistinct]

theorem resolvesIn_iff_succeeds {definition : TypeDefinition} (h : definition.Regular) :
    definition.ResolvesIn types ↔
      Succeeds definition.checkNames ∧ (numbered types).CanBeRead definition := by
  rw [canBeRead_iff, interfacesOf_resolves_iff hdistinct, membersOf_resolves_iff hdistinct,
    fieldsOf_resolves_iff h.fields, checkNames_resolves_iff h]
  constructor
  · intro hresolves
    have hdeclared := hresolves.unreserved
    rw [TypeDefinition.declaredNames, List.forall_mem_cons, List.forall_mem_append,
      List.forall_mem_map] at hdeclared
    have hused := hresolves.known
    rw [TypeDefinition.usedNames, List.forall_mem_append] at hused
    exact ⟨⟨hdeclared.1, hdeclared.2.2⟩, hresolves.interfaces, ⟨hdeclared.2.1, hused.1⟩,
      hresolves.members⟩
  · rintro ⟨⟨hname, hvalues⟩, hinterfaces, ⟨hdeclared, hused⟩, hmembers⟩
    constructor
    · rw [TypeDefinition.declaredNames, List.forall_mem_cons, List.forall_mem_append,
        List.forall_mem_map]
      exact ⟨hname, hdeclared, hvalues⟩
    · rw [TypeDefinition.usedNames, List.forall_mem_append, List.forall_mem_map,
        List.forall_mem_append]
      exact ⟨hused, fun type htype => (hinterfaces type htype).known,
        fun type htype => (hmembers type htype).known⟩
    · exact hinterfaces
    · exact hmembers

end Standing

/-! Root types -/

def Roots.set (roots : Roots) (id : TypeId) : OperationType → Roots
  | .query => { roots with query := some id }
  | .mutation => { roots with mutation := some id }
  | .subscription => { roots with subscription := some id }

theorem Roots.get_set (roots : Roots) (id : TypeId) (operation other : OperationType) :
    (roots.set id operation).get other =
      if operation = other then some id else roots.get other := by
  cases operation <;> cases other <;> rfl

theorem Roots.mem_toList_iff {roots : Roots} {id : TypeId} :
    id ∈ roots.toList ↔ ∃ operation, roots.get operation = some id := by
  constructor
  · intro h
    simp only [toList, List.mem_append, Option.mem_toList, or_assoc] at h
    rcases h with h | h | h
    · exact ⟨.query, h⟩
    · exact ⟨.mutation, h⟩
    · exact ⟨.subscription, h⟩
  · rintro ⟨operation, h⟩
    cases operation <;> simp_all [toList, get]

theorem entryFor?_append (entries : List OperationTypeDefinition)
    (entry : OperationTypeDefinition) (operation : OperationType) :
    entryFor? (entries ++ [entry]) operation =
      if entry.operation = operation then some entry else entryFor? entries operation := by
  by_cases hsame : entry.operation = operation <;> simp [entryFor?, hsame]

namespace Definitions

variable (definitions : Definitions)

/-- The roots that a list of entries gives. -/
def rootsAmong : List OperationTypeDefinition → Except SchemaError Roots :=
  accumulate (fun roots entry id => roots.set id entry.operation)
    (fun entry => definitions.lookup entry.type.name.value) {}

theorem rootsOf_eq_rootsAmong (schema : SchemaDefinition) :
    definitions.rootsOf schema = definitions.rootsAmong schema.operationTypes := rfl

variable {definitions} {entries : List OperationTypeDefinition} {roots : Roots}

/-- The last entry for an operation gives its root. -/
theorem get_of_rootsAmong (h : definitions.rootsAmong entries = .ok roots)
    (operation : OperationType) (id : TypeId) :
    roots.get operation = some id ↔ ∃ entry, entryFor? entries operation = some entry ∧
      definitions.lookup entry.type.name.value = .ok id := by
  induction entries using List.reverseRecOn generalizing roots with
  | nil =>
    cases h
    cases operation <;> simp [Roots.get, entryFor?]
  | append_singleton entries entry ih =>
    obtain ⟨before, found, hbefore, hfound, rfl⟩ := accumulate_append_eq_ok_iff.mp h
    rw [Roots.get_set, entryFor?_append]
    by_cases hsame : entry.operation = operation
    · simp [hsame, hfound]
    · rw [if_neg hsame, if_neg hsame]
      exact ih hbefore

/-- The root types of a schema. -/
def rootsWith (definitions : Definitions) : Option SchemaDefinition → Except SchemaError Roots
  | some schema => definitions.rootsOf schema
  | none => .ok definitions.customaryRoots

variable {types : List TypeDefinition} {schema : Option SchemaDefinition}

theorem rootsWith_succeeds_iff :
    Succeeds ((numbered types).rootsWith schema) ↔
      ∀ given ∈ schema, ∀ entry ∈ given.operationTypes, Known types entry.type.name.value := by
  cases schema with
  | none => exact iff_of_true (succeeds_ok _) (by simp)
  | some given =>
    rw [rootsWith, rootsOf_eq_rootsAmong, rootsAmong, accumulate_succeeds_iff]
    simp only [Option.mem_def, Option.some.injEq, forall_eq', lookup_succeeds_iff]

theorem get_customaryRoots (operation : OperationType) (id : TypeId) :
    (numbered types).customaryRoots.get operation = some id ↔
      ∃ name ∈ rootName? types none operation, (numbered types).lookup name = .ok id := by
  have hother : operation.customaryType ∉ builtInNames := by cases operation <;> decide
  have hscalar := Standard.scalar?_eq_none_iff.mpr hother
  have hget : (numbered types).customaryRoots.get operation =
      (identities 0 types).find? operation.customaryType := by
    cases operation <;> rfl
  rw [hget]
  constructor
  · intro hfound
    have hmem : operation.customaryType ∈ types.map (·.name.value) := by
      rw [← names_identities 0 types, ← OrderedMap.find?_isSome_iff, hfound]
      rfl
    have hsome : ((types.map (·.name.value)).find? (· = operation.customaryType)).isSome = true :=
      List.find?_isSome.mpr ⟨_, hmem, by simp⟩
    obtain ⟨name, hname⟩ := Option.isSome_iff_exists.mp hsome
    obtain rfl : name = operation.customaryType := by simpa using List.find?_some hname
    exact ⟨_, hname, (lookup_eq_ok_iff_find? _ hscalar).mpr hfound⟩
  · rintro ⟨name, hname, hlookup⟩
    obtain rfl : name = operation.customaryType := by simpa using List.find?_some hname
    exact (lookup_eq_ok_iff_find? _ hscalar).mp hlookup

theorem get_of_rootsWith {roots : Roots} (h : (numbered types).rootsWith schema = .ok roots)
    (operation : OperationType) (id : TypeId) :
    roots.get operation = some id ↔
      ∃ name ∈ rootName? types schema operation, (numbered types).lookup name = .ok id := by
  cases schema with
  | none =>
    cases h
    exact get_customaryRoots operation id
  | some given =>
    rw [rootsWith, rootsOf_eq_rootsAmong] at h
    rw [get_of_rootsAmong h]
    simp [rootName?]

theorem known_of_rootName? {name : String} {operation : OperationType}
    (h : Succeeds ((numbered types).rootsWith schema))
    (hname : name ∈ rootName? types schema operation) : Known types name := by
  cases schema with
  | none =>
    obtain ⟨definition, hmem, hsame⟩ := List.mem_map.mp (List.mem_of_find?_eq_some hname)
    exact .inr ⟨definition, hmem, hsame⟩
  | some given =>
    obtain ⟨entry, hentry, rfl⟩ := Option.map_eq_some_iff.mp hname
    have hmem := (List.mem_filter.mp (List.mem_of_getLast? hentry)).1
    exact rootsWith_succeeds_iff.mp h given rfl entry hmem

theorem rootsAreObjects_iff_defines (hdistinct : (types.map (·.name.value)).Nodup) {roots : Roots}
    (h : (numbered types).rootsWith schema = .ok roots) :
    (numbered types).graph.RootsAreObjects roots ↔
      ∀ operation, ∀ name ∈ rootName? types schema operation,
        Defines types TypeBody.isObject name := by
  apply forall_congr'
  intro operation
  constructor
  · intro hobjects name hname
    obtain ⟨id, hid⟩ := lookup_succeeds_iff.mpr (known_of_rootName? ⟨roots, h⟩ hname)
    have hstands := (lookup_eq_ok_iff hdistinct).mp hid
    rw [← hstands.defines_iff hdistinct, ← hstands.isObject_eq]
    exact hobjects id ((get_of_rootsWith h operation id).mpr ⟨name, hname, hid⟩)
  · intro hdefines id hid
    obtain ⟨name, hname, hlookup⟩ := (get_of_rootsWith h operation id).mp hid
    have hstands := (lookup_eq_ok_iff hdistinct).mp hlookup
    rw [hstands.isObject_eq, hstands.defines_iff hdistinct]
    exact hdefines name hname

theorem stands_of_mem_roots (hdistinct : (types.map (·.name.value)).Nodup) {roots : Roots}
    (h : (numbered types).rootsWith schema = .ok roots) :
    ∀ root ∈ roots.toList, ∃ name, Stands types name root := by
  intro root hroot
  obtain ⟨operation, hget⟩ := Roots.mem_toList_iff.mp hroot
  obtain ⟨name, -, hlookup⟩ := (get_of_rootsWith h operation root).mp hget
  exact ⟨name, (lookup_eq_ok_iff hdistinct).mp hlookup⟩

end Definitions

/-! Schemas of documents -/

theorem Schema.ofDefinitions_eq (types : List TypeDefinition) (schema : Option SchemaDefinition) :
    Schema.ofDefinitions types schema = (do
      let definitions ← Definitions.ofList types
      let roots ← definitions.rootsWith schema
      (definitions.graph.assemble (definitions.names.map (·.2)) roots schema).mapError
        AssemblyError.toSchemaError) := by
  cases schema <;> rfl

theorem Schema.ofDefinitions_succeeds_iff {types : List TypeDefinition}
    {schema : Option SchemaDefinition} (hregular : ∀ definition ∈ types, definition.Regular) :
    Succeeds (Schema.ofDefinitions types schema) ↔ Resolvable types schema := by
  simp only [Schema.ofDefinitions_eq, bind_succeeds_iff, ofList_eq_ok_iff, mapError_succeeds_iff]
  constructor
  · rintro ⟨_, ⟨hnamable, rfl⟩, roots, hroots, hassembled⟩
    have hdistinct := hnamable.distinct
    have hstanding := stands_of_mem_roots hdistinct hroots
    obtain ⟨hobjects, hreadable, -⟩ := TypeGraph.assemble_isOk_iff.mp hassembled
    rw [readable_iff_canBeRead hdistinct hstanding] at hreadable
    constructor
    · exact hdistinct
    · intro definition hmem hlive
      rw [resolvesIn_iff_succeeds hdistinct (hregular definition hmem)]
      exact ⟨hnamable.checked definition hmem hlive, hreadable definition hmem hlive⟩
    · exact rootsWith_succeeds_iff.mp ⟨roots, hroots⟩
    · exact (rootsAreObjects_iff_defines hdistinct hroots).mp hobjects
  · rintro ⟨hdistinct, hdefinitions, hentries, hobjects⟩
    have hresolved (definition : TypeDefinition) (hmem : definition ∈ types)
        (hlive : definition.IsLive) :=
      (resolvesIn_iff_succeeds hdistinct (hregular definition hmem)).mp
        (hdefinitions definition hmem hlive)
    obtain ⟨roots, hroots⟩ := rootsWith_succeeds_iff.mpr hentries
    have hstanding := stands_of_mem_roots hdistinct hroots
    have hnamable : Namable [] types :=
      ⟨hdistinct, by simp, fun definition hmem hlive => (hresolved definition hmem hlive).1⟩
    refine ⟨_, ⟨hnamable, rfl⟩, roots, hroots, TypeGraph.assemble_isOk_iff.mpr ⟨?_, ?_, ?_⟩⟩
    · exact (rootsAreObjects_iff_defines hdistinct hroots).mpr hobjects
    · rw [readable_iff_canBeRead hdistinct hstanding]
      intro definition hmem hlive
      exact (hresolved definition hmem hlive).2
    · exact not_namesClash hdistinct hstanding

/-- A parsed document has a schema exactly if its definitions are resolvable, with the roots of its
last schema definition or else the customary ones. -/
theorem Document.schema_isOk_iff_resolvable {source : Source} {located : Bool}
    {document : Document} (h : source.parse located = .ok document) :
    (∃ schema, document.schema = .ok schema) ↔
      Resolvable document.typeDefinitions document.schemaDefinitions.getLast? :=
  Schema.ofDefinitions_succeeds_iff (Source.regular_of_parse h)

/-- Types that refer to each other in circles and ahead, a repeated field, two entries for one
operation, and a definition under the name of a built-in scalar that would not resolve. -/
theorem Document.schema_isOk_iff_resolvable_circle :
    let source : Source :=
      { body := "schema\x7bquery:U query:Q\x7dtype Q implements N\x7bn(x:E=A):N n:[U!]!q:Int\x7d" ++
        "interface N\x7bn:ID q:Q\x7dunion U=|Q|P type P\x7bu:U\x7denum E\x7bA\x7d" ++
        "type Int implements Q\x7b__n(__x:X):X\x7d" }
    ∃ document, source.parse false = .ok document ∧
      Resolvable document.typeDefinitions document.schemaDefinitions.getLast? ∧
      ∃ schema, document.schema = .ok schema := by
  intro source
  have hcomputed : (source.parse false).toOption.any (fun document => decide
      (Resolvable document.typeDefinitions document.schemaDefinitions.getLast?)) = true := by
    decide +kernel
  cases hdocument : source.parse false with
  | error error => simp [hdocument, Except.toOption] at hcomputed
  | ok document =>
    have hresolvable :
        Resolvable document.typeDefinitions document.schemaDefinitions.getLast? := by
      simpa [hdocument, Except.toOption] using hcomputed
    exact ⟨document, rfl, hresolvable,
      (Document.schema_isOk_iff_resolvable hdocument).mpr hresolvable⟩

end QueryLint
