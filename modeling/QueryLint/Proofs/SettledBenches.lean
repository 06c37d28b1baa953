import QueryLint.Proofs.NodesOfTrees
import QueryLint.Schema.Scope
import QueryLint.Workbench.Scopes

/-!
Benches on which the parts of all types are worked out. With its types such a bench makes each of
its schemas a schema in the sense of the library: types, roots, fields and what they lead to are the
same, whether they are asked for on the bench or of the schema.
-/

namespace QueryLint.Workbench

theorem nameOf_eq {origin node : Datum} {tree : Tree} {name : Name} (h : Depicts origin tree node)
    (hname : .single "name" name.tree ∈ tree.branches) :
    nameOf node = pure (.ofString name.value) := by
  obtain ⟨child, hattr, hchild⟩ := h.branch hname
  rw [nameOf, attr_eq hattr, pure_bind]
  exact attr_eq (hchild.content ("value", .ofString name.value) (by simp [Name.tree, Tree.data,
    contentAttributes, Datum.ofString]))

/-! Types and fields as values -/

/-- The value is the type that the reference means. -/
inductive RefersTo : Datum → TypeRef → Prop where
  | type (id : TypeId) : RefersTo (.type id) (.named id)
  | nonNull {id : Nat} {item : Datum} {ref : TypeRef} (below : RefersTo item ref) :
      RefersTo (.modified id .nonNull item) (.nonNull ref)
  | list {id : Nat} {modifier : Modifier} {item : Datum} {ref : TypeRef}
      (other : modifier ≠ .nonNull) (below : RefersTo item ref) :
      RefersTo (.modified id modifier item) (.list ref)

def Datum.isTypeRef : Datum → Bool
  | .type _ => true
  | .modified _ _ item => item.isTypeRef
  | _ => false

theorem refersTo_typeRef {value : Datum} (h : value.isTypeRef = true) :
    RefersTo value value.typeRef := by
  fun_induction Datum.typeRef value with
  | case1 id item ih => exact .nonNull (ih h)
  | case2 id modifier item hother ih => exact .list (fun hsame => hother hsame) (ih h)
  | case3 id => exact .type id
  | case4 value hmodified hother htype =>
    cases value with
    | _ => simp_all [Datum.isTypeRef]

/-- The value is a field with the type of the definition. -/
def IsField (value : Datum) (field : FieldDef) : Prop :=
  ∃ id type arguments description deprecation definition,
    value = .field id type arguments description deprecation definition ∧
      RefersTo type field.type

def Datum.isFieldOf (field : FieldDef) : Datum → Bool
  | .field _ result _ _ _ _ => result.isTypeRef && result.typeRef == field.type
  | _ => false

theorem isField_of_isFieldOf {value : Datum} {field : FieldDef}
    (h : value.isFieldOf field = true) : IsField value field := by
  unfold Datum.isFieldOf at h
  split at h
  · rw [Bool.and_eq_true, beq_iff_eq] at h
    exact ⟨_, _, _, _, _, _, rfl, h.2 ▸ refersTo_typeRef h.1⟩
  · cases h

theorem map_scalar_of_mapM_char? {text : Text} {chars : List Char}
    (h : text.mapM CodePoint.char? = some chars) : chars.map .scalar = text := by
  induction text generalizing chars with
  | nil =>
    cases h
    rfl
  | cons point text ih =>
    rw [List.mapM_cons] at h
    obtain ⟨char, hpoint, h⟩ := Option.bind_eq_some_iff.mp h
    obtain ⟨rest, hrest, h⟩ := Option.bind_eq_some_iff.mp h
    cases h
    cases point with
    | scalar scalar =>
      cases hpoint
      rw [List.map_cons, ih hrest]
    | surrogate index => cases hpoint

theorem ofString_of_toString? {text : Text} {string : String}
    (h : text.toString? = some string) : Text.ofString string = text := by
  obtain ⟨chars, hchars, rfl⟩ := Option.map_eq_some_iff.mp h
  rw [Text.ofString, String.toList_ofList, map_scalar_of_mapM_char? hchars]

theorem toString?_ofString (string : String) :
    (Text.ofString string).toString? = some string := by
  have hchars : (string.toList.map CodePoint.scalar).mapM CodePoint.char? = some string.toList := by
    rw [List.mapM_map]
    exact List.mapM_pure.trans (congrArg some (List.map_id' _))
  rw [Text.toString?, Text.ofString, hchars, Option.map_some, String.ofList_toList]

theorem Datum.sameKey_ofString (text : Text) (name : String) :
    (Datum.text text).sameKey (.ofString name) = true ↔ text = Text.ofString name := by
  simp [Datum.sameKey, Datum.sameHash, Datum.ofString, Datum.hashForm, Datum.equal, Datum.identity]

/-- An entry of a map of fields: a field of some type under a name. -/
def Entry.isField : Entry → Bool
  | .mk key (.field _ result (.map _ _) _ _ _) => key.string?.isSome && result.isTypeRef
  | _ => false

theorem Datum.string?_eq_some {value : Datum} {name : String} :
    value.string? = some name ↔ value = .ofString name := by
  constructor
  · intro h
    obtain ⟨text, htext, hname⟩ := Option.bind_eq_some_iff.mp h
    cases value with
    | text text' =>
      cases htext
      rw [Datum.ofString, ofString_of_toString? hname]
    | _ => cases htext
  · rintro rfl
    exact toString?_ofString name

theorem Entry.fieldDef?_of_isField {entry : Entry} (h : entry.isField = true) :
    ∃ name field, entry.key = .ofString name ∧ Datum.fieldDef? entry = some (name, field) ∧
      IsField entry.value field := by
  unfold Entry.isField at h
  split at h
  case h_1 key id result mapId arguments description deprecation definition =>
    rw [Bool.and_eq_true] at h
    obtain ⟨name, hname⟩ := Option.isSome_iff_exists.mp h.1
    refine ⟨name, { type := result.typeRef, arguments := arguments.filterMap Datum.argumentDef? },
      Datum.string?_eq_some.mp hname, ?_, ⟨_, _, _, _, _, _, rfl, refersTo_typeRef h.2⟩⟩
    rw [Datum.fieldDef?, hname, Option.map_some]
  case h_2 => cases h

/-- A field is found among the entries just where its definition is found. -/
theorem find?_fields {entries : List Entry} (h : entries.all Entry.isField = true) (name : String) :
    Option.Rel IsField (Entry.find? entries (.ofString name))
      (OrderedMap.find? (entries.filterMap Datum.fieldDef?) name) := by
  induction entries with
  | nil => exact .none
  | cons entry entries ih =>
    rw [List.all_cons, Bool.and_eq_true] at h
    obtain ⟨key, field, hkey, hdef, hfield⟩ := Entry.fieldDef?_of_isField h.1
    rw [List.filterMap_cons, hdef, OrderedMap.find?_cons, Entry.find?, List.find?_cons]
    by_cases hsame : name = key
    · have hfound : entry.key.sameKey (.ofString name) = true := by
        rw [hkey, hsame]
        exact (Datum.sameKey_ofString _ _).mpr rfl
      rw [hfound, if_pos hsame]
      exact .some hfield
    · have hother : entry.key.sameKey (.ofString name) = false := by
        rw [hkey, Bool.eq_false_iff]
        intro hkeys
        exact hsame (Text.ofString_injective ((Datum.sameKey_ofString _ _).mp hkeys)).symm
      rw [hother, if_neg hsame]
      exact ih h.2

/-! Settled benches -/

/-- Whether the part is known to hold types that pass a test. -/
def Bench.holdsTypes (bench : Bench) (test : TypeTest) : Member → Bool
  | .known value => (value.sequence?.getD []).all (bench.test test)
  | _ => false

/-- Whether the part is known to hold fields. -/
def Member.holdsFields : Member → Bool
  | .known (.map _ entries) => entries.all Entry.isField
  | _ => false

/-- Whether the parts that a type has are known. -/
def Bench.holdsParts (bench : Bench) (record : TypeRecord) : Bool :=
  match record.family with
  | .object =>
    (record.member .fields).holdsFields && bench.holdsTypes .interface (record.member .interfaces)
  | .interface => (record.member .fields).holdsFields
  | .union => bench.holdsTypes .object (record.member .types)
  | _ => true

/-- Whether the parts of all types and the meta fields are known. -/
def Bench.isSettled (bench : Bench) : Bool :=
  bench.types.all bench.holdsParts &&
    Standard.metaFields.all fun (name, field) =>
      (bench.metaFields.find? name).any (Datum.isFieldOf field)

/-- The schema of a record with the types on the bench. -/
def Bench.schemaOf (bench : Bench) (record : SchemaRecord) : Schema :=
  { record.schema with table := bench.table }

/-- Whether the roots that were given are those of the schema. Where there is none, what was given
counts as nothing. -/
def SchemaRecord.isRooted (record : SchemaRecord) : Bool :=
  OperationType.all.all fun operation =>
    match record.schema.root operation with
    | some id => (record.root operation).same (.type id)
    | none => !(record.root operation).isSome

/-- A settled bench with one of its schemas. -/
structure Settled (bench : Bench) (schema : Datum) (record : SchemaRecord) : Prop where
  settled : bench.isSettled = true
  stored : ∃ id, schema = .schema id ∧ bench.schemas[id]? = some record
  rooted : record.isRooted = true

-- The types that are there from the start, with one of them as the root of a schema.
example : ∃ record, Settled { Bench.initial "rule" with schemas := [record] } (.schema 0) record :=
  ⟨{  schema := ⟨Standard.types, [], some Standard.schema, none, none, none⟩
      root := fun operation => if operation = .query then .type Standard.schema else .null
      description := .null
      definition := .null
      typeMap := .null
      implementations := [] },
    by decide +kernel, ⟨0, rfl, rfl⟩, by decide⟩

section Tests

variable (bench : Bench)

theorem Bench.type_table (id : TypeId) : bench.table.type id = (bench.type id).namedType := by
  rw [TypeTable.type, Bench.table, List.getElem?_map, Bench.type]
  cases bench.types[id]? <;> rfl

theorem Bench.test_type {test : TypeTest} (htest : test ≠ .named) (id : TypeId) :
    bench.test test (.type id) = test.holdsOf (bench.table.type id) := by
  have hother : (test != .named) = true := bne_iff_ne.mpr htest
  rw [Bench.test, bench.type_table]
  simp only [hother, Bool.true_or, Bool.and_true]

theorem Bench.test_fields (age : Nat) (id : TypeId) :
    ((bench.aged age).test .object (.type id) || (bench.aged age).test .interface (.type id)) =
      ((bench.table.type id).isObject || (bench.table.type id).isInterface) := by
  rw [Bench.test_type _ (by decide), Bench.test_type _ (by decide)]
  rfl

variable {bench}

theorem Bench.base_eq {value : Datum} {ref : TypeRef} (h : RefersTo value ref) :
    value.base = .type ref.base := by
  induction h with
  | type id => rfl
  | nonNull below ih => exact ih
  | list other below ih => exact ih

theorem Bench.isOutput_eq {value : Datum} {ref : TypeRef} (h : RefersTo value ref) :
    bench.reader.isOutput value = (bench.table.type ref.base).isOutput := by
  cases h with
  | type id => exact bench.test_type (by decide) id
  | nonNull below | list other below =>
    simp only [Bench.reader, Bench.test, Bench.base_eq below, bench.type_table, TypeRef.base]

end Tests

/-! What is known of types -/

theorem TypeRecord.family_iff (record : TypeRecord) :
    (record.namedType.isObject = true ↔ record.family = .object) ∧
      (record.namedType.isInterface = true ↔ record.family = .interface) ∧
      (record.namedType.isUnion = true ↔ record.family = .union) := by
  obtain ⟨family, _, _, _, _, _, _⟩ := record
  cases family <;>
    simp [TypeRecord.namedType, TypeRecord.shape, NamedType.isObject, NamedType.isInterface,
      NamedType.isUnion]

theorem Member.known_of_holdsFields {member : Member} (h : member.holdsFields = true) :
    ∃ id entries, member = .known (.map id entries) ∧ entries.all Entry.isField = true := by
  unfold Member.holdsFields at h
  split at h
  · exact ⟨_, _, rfl, h⟩
  · cases h

theorem Bench.known_of_holdsTypes {bench : Bench} {test : TypeTest} {member : Member}
    (h : bench.holdsTypes test member = true) :
    ∃ value, member = .known value ∧ (value.sequence?.getD []).all (bench.test test) = true := by
  unfold Bench.holdsTypes at h
  split at h
  · exact ⟨_, rfl, h⟩
  · cases h

theorem NamedType.fields_eq_nil {type : NamedType}
    (h : ¬(type.isObject || type.isInterface) = true) : type.fields = [] := by
  obtain ⟨_, _, _, _, shape⟩ := type
  cases shape <;> first | rfl | exact absurd rfl h

theorem NamedType.isComposite_of_fields {type : NamedType}
    (h : (type.isObject || type.isInterface) = true) : type.isComposite = true := by
  rw [NamedType.isComposite, NamedType.isAbstract, ← Bool.or_assoc, h, Bool.true_or]

section Parts

variable {bench : Bench}

theorem resolve_makes {id : TypeId} {part : Part} {value : Datum}
    (h : (bench.type id).member part = .known value) :
    Makes bench (resolve id part) (· = value) := by
  refine Makes.get_bind fun age => ?_
  have haged : ((bench.aged age).type id).member part = .known value := h
  simp only [haged]
  exact Makes.pure rfl

variable (h : bench.isSettled = true)

include h

theorem Bench.holdsParts_type (id : TypeId) : bench.holdsParts (bench.type id) = true := by
  rw [Bench.isSettled, Bool.and_eq_true, List.all_eq_true] at h
  rw [Bench.type]
  rcases hfound : bench.types[id]? with _ | record
  · rfl
  · exact h.1 record (List.mem_of_getElem? hfound)

theorem fields_known {id : TypeId}
    (htype : (bench.table.type id).isObject = true ∨ (bench.table.type id).isInterface = true) :
    ∃ mapId entries, (bench.type id).member .fields = .known (.map mapId entries) ∧
      entries.all Entry.isField = true ∧
      (bench.table.type id).fields = entries.filterMap Datum.fieldDef? := by
  obtain ⟨hobject, hinterface, -⟩ := (bench.type id).family_iff
  rw [bench.type_table, hobject, hinterface] at htype
  have hparts := Bench.holdsParts_type h id
  have hmember : ((bench.type id).member .fields).holdsFields = true := by
    rw [Bench.holdsParts] at hparts
    rcases htype with hfamily | hfamily
    · rw [hfamily, Bool.and_eq_true] at hparts
      exact hparts.1
    · rw [hfamily] at hparts
      exact hparts
  obtain ⟨mapId, entries, hknown, hentries⟩ := Member.known_of_holdsFields hmember
  refine ⟨mapId, entries, hknown, hentries, ?_⟩
  rw [bench.type_table, TypeRecord.namedType, NamedType.fields, TypeRecord.shape]
  rcases htype with hfamily | hfamily <;>
    simp only [hfamily, TypeRecord.known, hknown, Datum.fieldDefs]

/-- The field of a type under a name is the one that its definition is found for. -/
theorem fieldNamed?_makes (id : TypeId) (name : String) :
    Makes bench (fieldNamed? (.type id) (.ofString name)) fun found =>
      Option.Rel IsField found ((bench.table.type id).fields.find? name) := by
  refine Makes.get_bind fun age => ?_
  rw [bench.test_fields]
  by_cases htype : ((bench.table.type id).isObject || (bench.table.type id).isInterface) = true
  · obtain ⟨mapId, entries, hknown, hentries, hfields⟩ :=
      fields_known h ((Bool.or_eq_true _ _).mp htype)
    rw [if_pos htype, hfields]
    refine Makes.bind (Makes.get_bind fun age => resolve_makes hknown) fun value hvalue => ?_
    subst hvalue
    exact Makes.pure (find?_fields hentries name)
  · rw [if_neg htype, NamedType.fields_eq_nil htype]
    exact Makes.pure .none

theorem metaField_known {name : String} {field : FieldDef}
    (hfield : (name, field) ∈ Standard.metaFields) :
    ∃ value, bench.metaFields.find? name = some value ∧ IsField value field := by
  rw [Bench.isSettled, Bool.and_eq_true, List.all_eq_true] at h
  have hany := List.all_eq_true.mp h.2 _ hfield
  rcases hfound : bench.metaFields.find? name with _ | value
  · simp only [hfound, Option.any_none, Bool.false_eq_true] at hany
  · simp only [hfound, Option.any_some] at hany
    exact ⟨value, rfl, isField_of_isFieldOf hany⟩

end Parts

/-! Questions to a schema -/

theorem Datum.identity_eq_type {value : Datum} {id : TypeId} :
    value.identity = .type id ↔ value = .type id := by
  cases value <;> simp [Datum.identity]

theorem Datum.equal_ofString (first second : String) :
    (Datum.ofString first).equal (.ofString second) = decide (first = second) := by
  have hinj : Text.ofString first = Text.ofString second ↔ first = second :=
    ⟨Text.ofString_injective, congrArg _⟩
  rw [Bool.eq_iff_iff, decide_eq_true_iff, ← hinj]
  simp [Datum.ofString, Datum.equal]

theorem IsField.nonNull? {value : Datum} {field : FieldDef} (h : IsField value field) :
    value.nonNull? = some value := by
  obtain ⟨_, _, _, _, _, _, rfl, -⟩ := h
  rfl

theorem rel_nonNull? {found : Option Datum} {field : Option FieldDef}
    (h : Option.Rel IsField found field) :
    Option.Rel IsField (found.getD .null).nonNull? field := by
  cases h with
  | none => exact .none
  | some hfield =>
    rw [Option.getD_some, hfield.nonNull?]
    exact .some hfield

section Schemas

variable {bench : Bench} {schema : Datum} {record : SchemaRecord}

theorem Settled.schemaRecord_makes (h : Settled bench schema record) :
    Makes bench (schemaRecord schema) (· = record) := by
  obtain ⟨id, rfl, hstored⟩ := h.stored
  refine Makes.get_bind fun age => ?_
  have haged : (bench.aged age).schemas[id]? = some record := hstored
  simp only [haged]
  exact Makes.pure rfl

theorem Settled.currentSchema_makes (h : Settled bench schema record) :
    Makes bench (currentSchema schema) (· = bench.schemaOf record) :=
  h.schemaRecord_makes.bind fun _ hrecord => Makes.get_bind fun age =>
    Makes.pure (by subst hrecord; rfl)

theorem Settled.same_query (h : Settled bench schema record) (id : TypeId) :
    (Datum.type id).same (record.root .query) =
      decide ((bench.schemaOf record).query = some id) := by
  have hroot := List.all_eq_true.mp h.rooted .query (by decide)
  have hquery : (bench.schemaOf record).query = record.schema.root .query := rfl
  rw [Datum.same, decide_eq_decide, hquery]
  rcases hgiven : record.schema.root .query with _ | query
  · simp only [hgiven, Bool.not_eq_true'] at hroot
    refine iff_of_false (fun hsame => ?_) (by simp)
    rw [Datum.identity_eq_type.mp hsame.symm] at hroot
    cases hroot
  · simp only [hgiven, Datum.same, decide_eq_true_iff] at hroot
    rw [hroot]
    simp [Datum.identity, eq_comm]

/-- The field that a node selects on a type is the one of the schema. -/
theorem Settled.fieldOf_makes (h : Settled bench schema record) {node : Datum} {name : String}
    (hname : nameOf node = pure (.ofString name)) (id : TypeId) :
    Makes bench (fieldOf schema (.type id) node) fun found =>
      Option.Rel IsField found.nonNull? ((bench.schemaOf record).field? id name) := by
  have hmeta {other : String} {field : FieldDef} (hfield : (other, field) ∈ Standard.metaFields) :
      Option.Rel IsField ((bench.metaFields.find? other).getD .null).nonNull? (some field) := by
    obtain ⟨value, hfound, hvalue⟩ := metaField_known h.settled hfield
    rw [hfound]
    exact rel_nonNull? (.some hvalue)
  have hfields : Makes bench (do return (← fieldNamed? (.type id) (.ofString name)).getD .null)
      fun found => Option.Rel IsField found.nonNull? ((bench.table.type id).fields.find? name) :=
    (fieldNamed?_makes h.settled id name).bind fun found hfound => Makes.pure (rel_nonNull? hfound)
  refine Makes.get_bind fun age => ?_
  rw [hname, pure_bind]
  simp only [Datum.equal_ofString, Schema.field?, Schema.metaField?]
  by_cases htypename : name = "__typename"
  · have htest : (bench.aged age).test .composite (.type id) =
        ((bench.schemaOf record).type id).isComposite := Bench.test_type _ (by decide) id
    rw [if_pos (decide_eq_true htypename), if_pos htypename, htest]
    by_cases hcomposite : ((bench.schemaOf record).type id).isComposite = true
    · rw [if_pos hcomposite, if_pos hcomposite]
      exact Makes.pure (hmeta (by decide))
    · rw [if_neg hcomposite, if_neg hcomposite, NamedType.fields_eq_nil fun hfields =>
        hcomposite (NamedType.isComposite_of_fields hfields)]
      exact Makes.pure .none
  · rw [if_neg (by simpa using htypename), if_neg htypename]
    refine h.schemaRecord_makes.bind fun found hfound => ?_
    subst hfound
    rw [h.same_query]
    by_cases hquery : (bench.schemaOf found).query = some id
    · simp only [hquery, decide_true, if_true]
      by_cases hschema : name = "__schema"
      · simp only [hschema]
        exact Makes.pure (hmeta (by decide))
      · by_cases htype : name = "__type"
        · simp only [htype]
          exact Makes.pure (hmeta (by decide))
        · rw [if_neg hschema, if_neg htype]
          simp [hschema, htype]
          exact hfields
    · simp only [hquery, decide_false, if_false]
      exact hfields

end Schemas

end QueryLint.Workbench
