import QueryLint.Proofs.BenchDefinitions

/-!
Defined types on the bench. The type definitions of a document get their places on the bench one
after the other, under the names and with the errors that the definitions have. Then every name in
the definitions stands for a type on the bench, whose parts are to be read off its definition.
-/

namespace QueryLint

theorem mapError_bind {ε η α β : Type} (f : ε → η) (result : Except ε α)
    (next : α → Except ε β) :
    (result >>= next).mapError f =
      (result.mapError f >>= fun value => (next value).mapError f) := by
  cases result <;> rfl

theorem mapError_forM {ε η α : Type} (f : ε → η) (check : α → Except ε Unit) (items : List α) :
    (items.forM check).mapError f = items.forM fun item => (check item).mapError f := by
  rw [List.forM_eq_forM, List.forM_eq_forM]
  induction items with
  | nil => rfl
  | cons item items ih => rw [List.forM_cons, List.forM_cons, mapError_bind, ih]

namespace Workbench

/-- The type that a definition describes, its parts apart. -/
structure IsRecord (origin : Datum) (definition : TypeDefinition) (record : TypeRecord) : Prop where
  family : record.family = definition.body.family
  name : record.name = definition.name.value
  introspective : record.introspective = false
  description : record.description = .ofText? (describe definition.description)
  values : (record.values.sequence?.getD []).filterMap Datum.string? =
    definition.body.values.map (·.name.value)
  depicts : Depicts origin definition.tree record.definition

/-- The bench with more types. -/
def Bench.addTypes (bench : Bench) (records : List TypeRecord) : Bench :=
  { bench with types := bench.types ++ records }

section Adding

variable {bench : Bench} {origin node : Datum} {definition : TypeDefinition}

theorem familyDefined?_eq (h : Depicts origin definition.tree node) :
    familyDefined? node = some definition.body.family := by
  obtain ⟨id, attributes, rfl, -⟩ := h.shape
  obtain ⟨description, name, directives, body, loc⟩ := definition
  cases body <;> rfl

theorem isTypeDefinition_eq (h : Depicts origin definition.tree node) :
    node.isTypeDefinition = true := by
  obtain ⟨id, attributes, rfl, -⟩ := h.shape
  obtain ⟨description, name, directives, body, loc⟩ := definition
  cases body <;> rfl

theorem definition_name (definition : TypeDefinition) :
    .single "name" definition.name.tree ∈ definition.tree.branches := by
  obtain ⟨description, name, directives, body, loc⟩ := definition
  cases body <;> simp [TypeDefinition.tree, Tree.branches]

theorem definition_description (definition : TypeDefinition) :
    descriptionBranch definition.description ∈ definition.tree.branches := by
  obtain ⟨description, name, directives, body, loc⟩ := definition
  cases body <;> simp [TypeDefinition.tree, Tree.branches]

theorem makeTypeRecord_agrees (h : Depicts origin definition.tree node) (family : TypeFamily)
    (name : String) (description : Option Text) :
    Agrees bench (makeTypeRecord family (.ofString name) (.ofText? description) node)
      ((checkName name).mapError .badName)
      fun record _ => record =
        { family, name, description := .ofText? description, definition := node } := by
  refine (checkNameOf_agrees (Text.ofString name)).bindMakes fun value _ _ hvalue => ?_
  rw [toString?_ofString, Option.getD_some] at hvalue
  subst hvalue
  rw [isTypeDefinition_eq h]
  simp only [Bool.not_true, Bool.and_false, Bool.false_eq_true, if_false]
  cases description <;> exact Makes.pure rfl

theorem makeEnumValues_agrees (owner : String) (list : Nat) (names : List String) :
    Agrees bench (makeEnumValues owner (.list list (names.map .ofString)))
      (names.forM fun name => (checkName name).mapError .badName)
      fun value _ => ∃ id, value = .tupleOf id (names.map .ofString) := by
  have htexts : (names.map Datum.ofString).any (·.text?.isNone) = false := by
    rw [List.any_map, List.any_eq_false]
    simp [Datum.ofString, Datum.text?]
  have hnames : List.Forall₂ (fun value name => value = Datum.ofString name)
      (names.map Datum.ofString) names :=
    List.forall₂_map_left_iff.mpr (List.forall₂_same.mpr fun name _ => rfl)
  have hcheck : Agrees bench
      ((names.map Datum.ofString).forM fun name => discard (checkNameOf name))
      (names.forM fun name => (checkName name).mapError .badName) fun _ _ => True := by
    refine Agrees.forM hnames ?_
    rintro _ name rfl
    exact (checkNameOf_agrees _).discard
  have hmembers : members (.list list (names.map Datum.ofString)) =
      pure (names.map Datum.ofString) := rfl
  rw [makeEnumValues, hmembers, pure_bind, htexts]
  exact hcheck.bindMakes fun _ _ _ _ => makeTuple_makes _

theorem mapM_nameOf {values : List EnumValueDefinition} {items : List Datum}
    (h : List.Forall₂ (Depicts origin) (values.map EnumValueDefinition.tree) items) :
    items.mapM nameOf = pure ((values.map (·.name.value)).map .ofString) := by
  rw [List.forall₂_map_left_iff] at h
  induction h with
  | nil => rfl
  | @cons value item values items hitem hitems ih =>
    have hname : nameOf item = pure (.ofString value.name.value) :=
      nameOf_eq hitem (by simp [EnumValueDefinition.tree, Tree.branches])
    rw [List.mapM_cons, hname, pure_bind, ih, pure_bind]
    rfl

theorem checkNames_eq (definition : TypeDefinition) :
    definition.checkNames.mapError SchemaError.badName = (do
      (checkName definition.name.value).mapError .badName
      (definition.body.values.map (·.name.value)).forM fun name : String =>
        (checkName name).mapError .badName) := by
  obtain ⟨description, name, directives, body, loc⟩ := definition
  rw [TypeDefinition.checkNames, mapError_bind]
  refine bind_congr fun _ => ?_
  cases body with
  | enum values =>
    simp only [TypeBody.values, ← mapError_forM, List.forM_eq_forM, List.forM_map]
  | _ => rfl

theorem addType_gives (record : TypeRecord) :
    Gives bench (addType record) fun id later =>
      id = bench.types.length ∧ later = bench.addTypes [record] :=
  fun _ age => ⟨_, bench.addTypes [record], age, rfl, rfl, rfl⟩

/-- A definition is put on the bench if the names in it are allowed. -/
theorem addDefined_follows (h : Depicts origin definition.tree node) :
    Follows bench (addDefined node) (definition.checkNames.mapError .badName)
      fun id later _ => id = bench.types.length ∧
        ∃ record, later = bench.addTypes [record] ∧ IsRecord origin definition record := by
  have hname := nameOf_eq h (definition_name definition)
  have hdescription := descriptionOf_eq h (definition_description definition)
  rw [checkNames_eq, addDefined, familyDefined?_eq h]
  simp only [hname, hdescription, pure_bind]
  by_cases henum : definition.body.family = .enum
  · obtain ⟨description, name, directives, body, loc⟩ := definition
    obtain ⟨values, rfl⟩ : ∃ values, body = .enum values := by
      cases body <;> first | exact ⟨_, rfl⟩ | cases henum
    obtain ⟨items, hitems, hread⟩ := itemsOf_eq h
      (.tail _ (.tail _ (.tail _ (.head _))))
    simp only [if_pos henum, hread, pure_bind, mapM_nameOf hitems]
    refine (makeList_makes _).bindFollows fun _ hlist => ?_
    obtain ⟨list, rfl⟩ := hlist
    refine (makeTypeRecord_agrees h _ _ _).bindFollows fun record _ _ hrecord => ?_
    subst hrecord
    refine (makeEnumValues_agrees name.value list _).bindGives fun _ _ _ hvalues => ?_
    obtain ⟨tuple, rfl⟩ := hvalues
    refine (addType_gives _).mono ?_
    rintro id later ⟨rfl, rfl⟩
    refine ⟨rfl, _, rfl, rfl, rfl, rfl, rfl, ?_, h⟩
    rw [Datum.sequence?_tupleOf, Option.getD_some, List.filterMap_map]
    have hstrings : Datum.string? ∘ Datum.ofString = some :=
      funext fun name => Datum.string?_eq_some.mpr rfl
    rw [hstrings, List.filterMap_some]
    rfl
  · simp only [if_neg henum]
    have hvalues : definition.body.values = [] := by
      cases hbody : definition.body with
      | enum values => rw [hbody] at henum; exact absurd rfl henum
      | _ => rfl
    rw [hvalues]
    refine (makeTypeRecord_agrees h _ _ _).bindFollows fun record _ _ hrecord => ?_
    subst hrecord
    refine .ok ((addType_gives _).mono ?_)
    rintro id later ⟨rfl, rfl⟩
    exact ⟨rfl, _, rfl, rfl, rfl, rfl, rfl, by rw [hvalues]; rfl, h⟩

end Adding

/-! Places on the bench -/

/-- The place of a type on a bench that had so many types before: built-in scalars stay where they
are, and the types of live definitions follow one after the other. -/
def placeOf (start : Nat) (types : List TypeDefinition) (id : TypeId) : TypeId :=
  if id < Standard.types.length then id
  else start + (types.take (id - Standard.types.length)).countP (·.IsLive)

section Naming

variable {bench : Bench} {origin : Datum}

theorem placeOf_scalar {name : String} {id : TypeId} (h : Standard.scalar? name = some id)
    (start : Nat) (types : List TypeDefinition) : placeOf start types id = id := by
  have hinside : ∀ id ∈ Standard.scalars, id < Standard.types.length := by decide
  exact if_pos (hinside id (Standard.mem_scalars_of_scalar? h).1)

theorem placeOf_defined (start : Nat) (before rest : List TypeDefinition) :
    placeOf start (before ++ rest) (Standard.types.length + before.length) =
      start + (before.filter (·.IsLive)).length := by
  have houtside : ¬Standard.types.length + before.length < Standard.types.length := by omega
  rw [placeOf, if_neg houtside, Nat.add_sub_cancel_left, List.take_left,
    List.countP_eq_length_filter]

theorem map_insert {α β : Type} (f : α → β) (map : OrderedMap α) (name : String) (value : α) :
    (map.insert name value).map (fun entry => (entry.1, f entry.2)) =
      OrderedMap.insert (map.map fun entry => (entry.1, f entry.2)) name (f value) := by
  induction map with
  | nil => rfl
  | cons entry map ih =>
    obtain ⟨key, old⟩ := entry
    rw [OrderedMap.insert, List.map_cons, OrderedMap.insert]
    split
    · rfl
    · rw [List.map_cons, ih]

theorem find?_map {α β : Type} (f : α → β) (map : OrderedMap α) (name : String) :
    OrderedMap.find? (map.map fun entry => (entry.1, f entry.2)) name = (map.find? name).map f := by
  induction map with
  | nil => rfl
  | cons entry map ih =>
    rw [List.map_cons, OrderedMap.find?_cons, OrderedMap.find?_cons]
    split
    · rfl
    · exact ih

theorem contains_map {α β : Type} (f : α → β) (map : OrderedMap α) (name : String) :
    OrderedMap.contains (map.map fun entry => (entry.1, f entry.2)) name = map.contains name :=
  List.any_map

/-- The definitions that remain are put on the bench behind those that are there, under their names
and with their errors. -/
theorem addAllDefined_follows {start : Nat} {types before rest : List TypeDefinition}
    (htypes : types = before ++ rest) (names : OrderedMap TypeId) {records : List TypeRecord}
    {nodes : List Datum} (hstart : bench.types.length = start)
    (hnodes : List.Forall₂ (Depicts origin) (rest.map TypeDefinition.tree) nodes)
    (hrecords : List.Forall₂ (IsRecord origin) (before.filter (·.IsLive)) records) :
    Follows (bench.addTypes records)
      (addAllDefined (names.map fun entry => (entry.1, placeOf start types entry.2)) nodes)
      (Definitions.nameAll before.length names rest)
      fun found later named =>
        found = named.map (fun entry => (entry.1, placeOf start types entry.2)) ∧
        ∃ records, later = bench.addTypes records ∧
          List.Forall₂ (IsRecord origin) (types.filter (·.IsLive)) records := by
  induction rest generalizing before names records nodes with
  | nil =>
    cases hnodes
    rw [List.append_nil] at htypes
    subst htypes
    exact .ok (Gives.pure ⟨rfl, records, rfl, hrecords⟩)
  | cons definition rest ih =>
    obtain ⟨node, others, hnode, hothers, rfl⟩ := List.forall₂_cons_left_iff.mp hnodes
    have hname := nameOf_eq hnode (definition_name definition)
    have hnext : types = (before ++ [definition]) ++ rest := by rw [htypes]; simp
    have hstring : (Datum.ofString definition.name.value).string? = some definition.name.value :=
      Datum.string?_eq_some.mpr rfl
    rw [addAllDefined, hname, pure_bind, Definitions.nameAll, hstring]
    simp only [Option.any_some, contains_map, Option.bind_some, Option.getD_some]
    by_cases hold : names.contains definition.name.value = true
    · simp only [hold, if_true]
      exact .error (failSchema_fails _).breaks.bind
    · simp only [hold]
      cases hscalar : Standard.scalar? definition.name.value with
      | some id =>
        have hdead : ¬definition.IsLive := fun hlive => by
          rw [Standard.scalar?_eq_none_iff.mpr hlive] at hscalar
          cases hscalar
        have hplace : placeOf start types id = id := placeOf_scalar hscalar start types
        have hrecords' : List.Forall₂ (IsRecord origin)
            ((before ++ [definition]).filter (·.IsLive)) records := by
          rw [List.filter_append]
          simpa [hdead] using hrecords
        have hrest := ih hnext (names.insert definition.name.value id) hothers hrecords'
        rw [map_insert, hplace, List.length_append] at hrest
        simp only [pure_bind]
        exact hrest
      | none =>
        have hlive : definition.IsLive := Standard.scalar?_eq_none_iff.mp hscalar
        refine (addDefined_follows hnode).bind fun id later _ _ hadded => ?_
        obtain ⟨rfl, record, rfl, hrecord⟩ := hadded
        have hplace : placeOf start types (Standard.types.length + before.length) =
            (bench.addTypes records).types.length := by
          rw [htypes, placeOf_defined, hrecords.length_eq, Bench.addTypes, List.length_append,
            hstart]
        have hrecords' : List.Forall₂ (IsRecord origin)
            ((before ++ [definition]).filter (·.IsLive)) (records ++ [record]) := by
          rw [List.filter_append]
          exact List.rel_append hrecords (by simpa [hlive] using hrecord)
        have hrest := ih hnext
          (names.insert definition.name.value (Standard.types.length + before.length)) hothers
          hrecords'
        rw [map_insert, hplace, List.length_append] at hrest
        have hbench : (bench.addTypes records).addTypes [record] =
            bench.addTypes (records ++ [record]) := by
          simp [Bench.addTypes]
        rw [hbench]
        exact hrest

/-- A type whose parts are to be read off its definition. -/
def TypeRecord.linked (names : OrderedMap TypeId) (record : TypeRecord) : TypeRecord :=
  { record with member := fun _ => .defined names }

theorem linkDefined_gives (names : OrderedMap TypeId) (records : List TypeRecord) :
    Gives (bench.addTypes records) (linkDefined bench.types.length names) fun _ later =>
      later = bench.addTypes (records.map (TypeRecord.linked names)) := by
  have hold : bench.types.mapIdx (fun id record =>
      if bench.types.length ≤ id then TypeRecord.linked names record else record) =
        bench.types := by
    refine List.ext_getElem? fun id => ?_
    rw [List.getElem?_mapIdx]
    rcases hfound : bench.types[id]? with _ | record
    · rfl
    · have hinside := (List.getElem?_eq_some_iff.mp hfound).1
      rw [Option.map_some, if_neg (by omega)]
  have hnew : records.mapIdx (fun id record =>
      if bench.types.length ≤ id + bench.types.length then TypeRecord.linked names record
      else record) = records.map (TypeRecord.linked names) := by
    refine List.ext_getElem? fun id => ?_
    simp only [List.getElem?_mapIdx, List.getElem?_map, Nat.le_add_left, if_true]
  have htypes : (bench.types ++ records).mapIdx (fun id record =>
      if bench.types.length ≤ id then TypeRecord.linked names record else record) =
        bench.types ++ records.map (TypeRecord.linked names) := by
    rw [List.mapIdx_append, hold, hnew]
  intro evaluate age
  have hrun : linkDefined bench.types.length names evaluate ((bench.addTypes records).aged age) =
      (.ok (), { bench with
        types := (bench.types ++ records).mapIdx fun id record =>
          if bench.types.length ≤ id then TypeRecord.linked names record else record
        next := age }) := rfl
  rw [htypes] at hrun
  exact ⟨(), bench.addTypes (records.map (TypeRecord.linked names)), age, hrun, rfl⟩

theorem exists_getElem?_of_forall₂ {α β : Type} {R : α → β → Prop} {items : List α}
    {others : List β} (h : List.Forall₂ R items others) {position : Nat} {item : α}
    (hitem : items[position]? = some item) :
    ∃ other, others[position]? = some other ∧ R item other := by
  induction h generalizing position with
  | nil => cases hitem
  | cons hfirst _ ih =>
    cases position with
    | zero =>
      cases hitem
      exact ⟨_, rfl, hfirst⟩
    | succ position => exact ih hitem

theorem getElem?_filter_live {types : List TypeDefinition} {position : Nat}
    {definition : TypeDefinition} (hplace : types[position]? = some definition)
    (hlive : definition.IsLive) :
    (types.filter (·.IsLive))[(types.take position).countP (·.IsLive)]? = some definition := by
  induction types generalizing position with
  | nil => cases hplace
  | cons first types ih =>
    cases position with
    | zero =>
      cases hplace
      simp [hlive]
    | succ position =>
      have hrest := ih hplace
      by_cases hfirst : first.IsLive
      · simpa [hfirst] using hrest
      · simpa [hfirst] using hrest

/-- Whether the built-in scalars are where they are from the start. -/
def Bench.hasScalars (bench : Bench) : Bool :=
  Standard.scalars.all fun id =>
    (bench.type id).name = (Standard.types.type id).name && (bench.type id).family = .scalar

/-- For each live definition there is a type on the bench whose parts are to be read off it. -/
def IsDrafted (bench : Bench) (names : OrderedMap TypeId) (origin : Datum)
    (types : List TypeDefinition) (place : TypeId → TypeId) : Prop :=
  ∀ position definition, types[position]? = some definition → definition.IsLive →
    ∃ record, IsRecord origin definition record ∧
      bench.type (place (Standard.types.length + position)) = record.linked names

theorem hasScalars_type (h : bench.hasScalars = true) {id : TypeId} (hid : id ∈ Standard.scalars) :
    (bench.type id).name = (Standard.types.type id).name ∧ (bench.type id).family = .scalar := by
  simpa using List.all_eq_true.mp h id hid

theorem type_addTypes_old {id : TypeId} (h : id < bench.types.length) (records : List TypeRecord) :
    (bench.addTypes records).type id = bench.type id := by
  rw [Bench.type, Bench.addTypes, List.getElem?_append_left h, Bench.type]

theorem hasScalars_addTypes (h : bench.hasScalars = true) (records : List TypeRecord) :
    (bench.addTypes records).hasScalars = true := by
  refine List.all_eq_true.mpr fun id hid => ?_
  have hinside : id < bench.types.length := by
    by_contra houtside
    have hfamily := (hasScalars_type h hid).2
    rw [Bench.type, List.getElem?_eq_none (Nat.le_of_not_lt houtside)] at hfamily
    cases hfamily
  rw [type_addTypes_old hinside]
  exact List.all_eq_true.mp h id hid

theorem type_addTypes_new {records : List TypeRecord} {position : Nat} {record : TypeRecord}
    (h : records[position]? = some record) :
    (bench.addTypes records).type (bench.types.length + position) = record := by
  rw [Bench.type, Bench.addTypes, List.getElem?_append_right (Nat.le_add_right _ _),
    Nat.add_sub_cancel_left, h, Option.getD_some]

theorem isDrafted_addTypes (bench : Bench) {types : List TypeDefinition}
    {records : List TypeRecord}
    (h : List.Forall₂ (IsRecord origin) (types.filter (·.IsLive)) records)
    (names : OrderedMap TypeId) :
    IsDrafted (bench.addTypes (records.map (TypeRecord.linked names))) names origin types
      (placeOf bench.types.length types) := by
  intro position definition hplace hlive
  obtain ⟨record, hfound, hrecord⟩ :=
    exists_getElem?_of_forall₂ h (getElem?_filter_live hplace hlive)
  have houtside : ¬Standard.types.length + position < Standard.types.length := by omega
  refine ⟨record, hrecord, ?_⟩
  rw [placeOf, if_neg houtside, Nat.add_sub_cancel_left]
  exact type_addTypes_new (by rw [List.getElem?_map, hfound]; rfl)

/-- Every name in the definitions stands for a type on the bench. -/
theorem linked_of_isDrafted {types : List TypeDefinition} {names : OrderedMap TypeId}
    {place : TypeId → TypeId} (hdistinct : (types.map (·.name.value)).Nodup)
    (hscalars : bench.hasScalars = true)
    (hplace : ∀ {name id}, Standard.scalar? name = some id → place id = id)
    (hnames : names = (Definitions.identities 0 types).map fun entry => (entry.1, place entry.2))
    (h : IsDrafted bench names origin types place) :
    Linked bench names (Definitions.numbered types) place where
  found name := by
    cases hscalar : Standard.scalar? name with
    | some id => exact congrArg some (hplace hscalar).symm
    | none =>
      rw [hnames]
      exact find?_map place (Definitions.identities 0 types) name
  types hlookup := by
    cases (Definitions.lookup_eq_ok_iff hdistinct).mp hlookup with
    | scalar hscalar =>
      obtain ⟨hmem, -⟩ := Standard.mem_scalars_of_scalar? hscalar
      have hinside : ∀ id ∈ Standard.scalars, id < Standard.types.length := by decide
      rw [hplace hscalar, Definitions.family, Definitions.body?_scalar hmem, Definitions.nameOf,
        if_pos (hinside _ hmem)]
      exact hasScalars_type hscalars hmem
    | @defined position definition hlive hname hposition =>
      obtain ⟨record, hrecord, htype⟩ := h _ _ hposition hlive
      have houtside : ¬Standard.types.length + position < Standard.types.length := by omega
      rw [htype, Definitions.family, Definitions.body?_defined, Definitions.nameOf,
        if_neg houtside, Nat.add_sub_cancel_left, Definitions.numbered, hposition]
      exact ⟨hrecord.name, hrecord.family⟩

/-- The types that the nodes of a document define are put on the bench under the names that the
definitions give them, with the parts to be read off the definitions. -/
theorem defineAll_follows {types : List TypeDefinition} {nodes : List Datum}
    (hscalars : bench.hasScalars = true)
    (hnodes : List.Forall₂ (Depicts origin) (types.map TypeDefinition.tree) nodes) :
    Follows bench (defineAll nodes) (Definitions.ofList types) fun names later definitions =>
      Linked later names definitions (placeOf bench.types.length types) ∧
      IsDrafted later names origin types (placeOf bench.types.length types) ∧
      ∃ records, later = bench.addTypes records := by
  have hadded : Follows (bench.addTypes []) (addAllDefined [] nodes)
      (Definitions.nameAll 0 [] types) _ :=
    addAllDefined_follows (List.nil_append types).symm [] rfl hnodes .nil
  rw [show bench.addTypes [] = bench by simp [Bench.addTypes]] at hadded
  refine Follows.get_bind fun age => hadded.bind fun names later named hnamed hadded => ?_
  obtain ⟨hnames, records, rfl, hrecords⟩ := hadded
  obtain ⟨hnamable, rfl⟩ := Definitions.nameAll_eq_ok_iff.mp hnamed
  refine .ok ((linkDefined_gives names records).bind fun _ later hlater => Gives.pure ?_)
  subst hlater
  have hdrafted := isDrafted_addTypes bench hrecords names
  exact ⟨linked_of_isDrafted hnamable.distinct (hasScalars_addTypes hscalars _)
    (fun hscalar => placeOf_scalar hscalar _ _) hnames hdrafted, hdrafted, _, rfl⟩

end Naming

end Workbench

end QueryLint
