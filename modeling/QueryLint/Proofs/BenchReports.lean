import QueryLint.Proofs.SettledBenches
import QueryLint.Workbench.Checks

/-!
Reports on a settled bench. What is suggested for a field there is what the schema suggests, and the
error about an undefined field has the message of the schema's report and the place of the node.
-/

namespace QueryLint.Workbench

theorem Makes.forM {α : Type} {bench : Bench} {act : α → Session Unit} {items : List α}
    (h : ∀ item ∈ items, Makes bench (act item) fun _ => True) :
    Makes bench (items.forM act) fun _ => True := by
  rw [List.forM_eq_forM]
  induction items with
  | nil => exact Makes.pure trivial
  | cons item items ih =>
    rw [List.forall_mem_cons] at h
    rw [List.forM_cons]
    exact h.1.bind fun _ _ => ih h.2

theorem Makes.discard {α : Type} {bench : Bench} {session : Session α} {holds : α → Prop}
    (h : Makes bench session holds) : Makes bench (discard session) fun _ => True :=
  Makes.map (h.mono fun _ _ => trivial)

/-! The types below a type -/

section Below

variable {bench : Bench}

theorem test_of_mem_typeIds {test : TypeTest} {value : Datum} {id : TypeId}
    (h : (value.sequence?.getD []).all (bench.test test) = true) (hid : id ∈ value.typeIds) :
    bench.test test (.type id) = true := by
  obtain ⟨item, hitem, hsome⟩ := List.mem_filterMap.mp hid
  have htest := List.all_eq_true.mp h item hitem
  split at hsome
  · cases hsome
    exact htest
  · cases hsome

theorem types_known {test : TypeTest} {record : TypeRecord} {part : Part}
    (h : bench.holdsTypes test (record.member part) = true) :
    ∃ value, record.member part = .known value ∧
      ∀ id ∈ (record.known part).typeIds, bench.test test (.type id) = true := by
  obtain ⟨value, hknown, htests⟩ := Bench.known_of_holdsTypes h
  refine ⟨value, hknown, fun id hid => ?_⟩
  rw [TypeRecord.known, hknown] at hid
  exact test_of_mem_typeIds htests hid

variable (h : bench.isSettled = true)

include h

theorem interfaces_known {id : TypeId} (htype : (bench.table.type id).isObject = true) :
    ∃ value, (bench.type id).member .interfaces = .known value ∧
      ∀ interface ∈ (bench.type id).namedType.interfaces,
        (bench.table.type interface).isInterface = true := by
  rw [bench.type_table, (bench.type id).family_iff.1] at htype
  have hparts := Bench.holdsParts_type h id
  rw [Bench.holdsParts, htype, Bool.and_eq_true] at hparts
  obtain ⟨value, hknown, htests⟩ := types_known hparts.2
  refine ⟨value, hknown, fun interface hinterface => ?_⟩
  rw [TypeRecord.namedType, NamedType.interfaces, TypeRecord.shape, htype] at hinterface
  exact (bench.test_type (by decide) interface).symm.trans (htests interface hinterface)

theorem members_known {id : TypeId} (htype : (bench.table.type id).isUnion = true) :
    ∃ value, (bench.type id).member .types = .known value ∧
      ∀ object ∈ (bench.type id).namedType.members,
        (bench.table.type object).isObject = true := by
  rw [bench.type_table, (bench.type id).family_iff.2.2] at htype
  have hparts := Bench.holdsParts_type h id
  rw [Bench.holdsParts, htype] at hparts
  obtain ⟨value, hknown, htests⟩ := types_known hparts
  refine ⟨value, hknown, fun object hobject => ?_⟩
  rw [TypeRecord.namedType, NamedType.members, TypeRecord.shape, htype] at hobject
  exact (bench.test_type (by decide) object).symm.trans (htests object hobject)

end Below

section Suggestions

variable {bench : Bench} {schema : Datum} {record : SchemaRecord}

theorem NamedType.isObject_of_mem_interfaces {type : NamedType} {id : TypeId}
    (h : id ∈ type.interfaces) : type.isObject = true := by
  obtain ⟨_, _, _, _, shape⟩ := type
  cases shape <;> first | rfl | cases h

theorem Settled.isObject_of_possible (h : Settled bench schema record) {id object : TypeId}
    (hobject : object ∈ (bench.schemaOf record).possibleTypes id) :
    (bench.table.type object).isObject = true := by
  rw [Schema.possibleTypes] at hobject
  split at hobject
  case h_1 members hshape =>
    have hunion : (bench.table.type id).isUnion = true := by
      rw [NamedType.isUnion, show (bench.table.type id).shape = .union members from hshape]
    have hmembers : (bench.type id).namedType.members = members := by
      rw [← bench.type_table, NamedType.members,
        show (bench.table.type id).shape = .union members from hshape]
    obtain ⟨-, -, hobjects⟩ := members_known h.settled hunion
    exact hobjects object (hmembers.symm ▸ hobject)
  case h_2 =>
    rw [Schema.implementations_eq] at hobject
    obtain ⟨other, -, hlisted⟩ := List.mem_flatMap.mp hobject
    obtain ⟨interface, hinterface, rfl⟩ := List.mem_map.mp hlisted
    exact NamedType.isObject_of_mem_interfaces (List.mem_filter.mp hinterface).1

theorem Settled.possibleTypesOf_makes (h : Settled bench schema record) (id : TypeId) :
    Makes bench (possibleTypesOf schema (.type id))
      (· = (bench.schemaOf record).possibleTypes id) := by
  refine Makes.get_bind fun age => ?_
  have hcurrent : Makes bench (do return (← currentSchema schema).possibleTypes id)
      (· = (bench.schemaOf record).possibleTypes id) :=
    h.currentSchema_makes.bind fun current hcurrent => Makes.pure (hcurrent ▸ rfl)
  split
  case isTrue htest =>
    rw [Bench.test_type _ (by decide)] at htest
    obtain ⟨value, hknown, -⟩ := members_known h.settled htest
    exact (resolve_makes hknown).discard.bind fun _ _ => hcurrent
  case isFalse => exact hcurrent

/-- On a settled bench nothing is left to be worked out. -/
theorem Settled.resolveBelow_makes (h : Settled bench schema record) (id : TypeId)
    (field : Option String) : Makes bench (resolveBelow schema id field) fun _ => True := by
  refine (h.possibleTypesOf_makes id).bind fun objects hobjects =>
    Makes.forM fun object hobject => ?_
  subst hobjects
  have htype := h.isObject_of_possible hobject
  obtain ⟨mapId, entries, hfields, -⟩ := fields_known h.settled (.inl htype)
  obtain ⟨value, hinterfaces, hlisted⟩ := interfaces_known h.settled htype
  refine (resolve_makes hfields).discard.bind fun _ _ => ?_
  refine h.currentSchema_makes.bind fun current hcurrent => ?_
  split
  · refine (resolve_makes hinterfaces).discard.bind fun _ _ => Makes.get_bind fun age => ?_
    refine Makes.forM fun interface hinterface => ?_
    obtain ⟨mapId, entries, hfields, -⟩ :=
      fields_known h.settled (.inr (hlisted interface hinterface))
    exact (resolve_makes hfields).discard
  · exact Makes.pure trivial

/-- The types that are suggested on the bench are those that the schema suggests. -/
theorem Settled.suggestedTypesOf_makes (h : Settled bench schema record) (id : TypeId)
    (field : String) :
    Makes bench (suggestedTypesOf schema (.type id) (.ofString field))
      (· = ((bench.schemaOf record).suggestedTypes id field).map Text.ofString) := by
  refine Makes.get_bind fun age => ?_
  have htest : (bench.aged age).test .abstract (.type id) =
      ((bench.schemaOf record).type id).isAbstract := Bench.test_type _ (by decide) id
  rw [htest]
  split
  case isTrue habstract =>
    refine (h.resolveBelow_makes id _).bind fun _ _ => ?_
    refine h.currentSchema_makes.bind fun current hcurrent => Makes.pure ?_
    subst hcurrent
    rw [Datum.string?_eq_some.mpr rfl]
    rfl
  case isFalse habstract =>
    refine Makes.pure ?_
    rw [Schema.suggestedTypes, if_neg habstract, List.map_nil]

/-- The fields that are suggested on the bench are those that the schema suggests. -/
theorem Settled.suggestedFieldsOf_makes (h : Settled bench schema record) (id : TypeId)
    (field : String) :
    Makes bench (suggestedFieldsOf (.type id) (.ofString field))
      (· = ((bench.schemaOf record).suggestedFields id field).map .text) := by
  refine Makes.get_bind fun age => ?_
  rw [bench.test_fields]
  by_cases htype : ((bench.table.type id).isObject || (bench.table.type id).isInterface) = true
  · obtain ⟨mapId, entries, hknown, -⟩ := fields_known h.settled ((Bool.or_eq_true _ _).mp htype)
    rw [htype]
    refine (resolve_makes hknown).bind fun _ _ => Makes.get_bind fun age => Makes.pure ?_
    have hcurrent : (bench.schemaOf record).type id = (bench.type id).namedType :=
      bench.type_table id
    rw [Schema.suggestedFields, hcurrent]
    rfl
  · have hnone : (bench.schemaOf record).suggestedFields id field = [] := by
      have hfields : ((bench.schemaOf record).type id).fields = [] := NamedType.fields_eq_nil htype
      rw [Schema.suggestedFields, NamedType.similarFields, hfields]
      rfl
    rw [Bool.eq_false_iff.mpr htype, hnone]
    exact Makes.pure rfl

end Suggestions

/-! Errors about nodes -/

/-- The value lists the items, or is null if there are none. -/
def Lists (value : Datum) (items : List Datum) : Prop :=
  if items = [] then value = .null else ∃ id, value = .list id items

/-- The value is the line and column at which a location starts. -/
def IsPlace (source : Source) (span : Location) (value : Datum) : Prop :=
  ∃ id, value = .place id (.int (source.locate span.start).line)
    (.int (source.locate span.start).column)

/-- The error has the message and the node of the problem, and says where the node stands. -/
def Reports (origin : Datum) (source : Source) (error : Datum) (problem : Problem) : Prop :=
  ∃ id nodes file positions places extensions node items,
    error = .error id false
      [.text problem.message, nodes, file, positions, places, extensions] .null ∧
    Lists nodes [node] ∧ Depicts origin problem.node node ∧
    Lists places items ∧ List.Forall₂ (IsPlace source) problem.node.loc.toList items

section Errors

variable {bench : Bench} {id : Nat} {source : Source}

theorem makeNonEmptyList_makes (items : List Datum) :
    Makes bench (makeNonEmptyList items) (Lists · items) := by
  cases items with
  | nil => exact Makes.pure rfl
  | cons item items =>
    refine (makeList_makes (item :: items)).mono fun value hvalue => ?_
    rwa [Lists, if_neg (List.cons_ne_nil _ _)]

theorem locateIn_makes (span : Location) :
    Makes bench (locateIn (.source id source) (.int span.start)) (IsPlace source span) := by
  have hlocate : locateIn (.source id source) (.int span.start) = (do
      return .place (← fresh) (.int (source.locate span.start).line)
        (.int (source.locate span.start).column)) := rfl
  rw [hlocate]
  exact fresh_makes.bind fun placeId _ => Makes.pure ⟨placeId, rfl⟩

/-- The source, the positions and the places that the location of a node gives to an error. -/
theorem places_of_location {loc : Option Location} {value : Datum}
    (h : Locates (.source id source) loc value) :
    ∃ file positions, errorSource .null ([value].filter (·.isSome)) = pure file ∧
      errorPositions .null ([value].filter (·.isSome)) = pure positions ∧
      Makes bench (errorPlaces file positions)
        (List.Forall₂ (IsPlace source) loc.toList) := by
  cases loc with
  | none =>
    subst h
    exact ⟨.null, [], rfl, rfl, Makes.pure .nil⟩
  | some span =>
    obtain ⟨locId, rfl⟩ := h
    refine ⟨.source id source, [.int span.start], rfl, rfl, ?_⟩
    exact (locateIn_makes span).bind fun place hplace => Makes.pure (.cons hplace .nil)

theorem makeError_makes {tree : Tree} {node : Datum} (h : Depicts (.source id source) tree node)
    (message : Text) :
    Makes bench (makeError { message := .text message, nodes := node })
      (Reports (.source id source) source · ⟨message, tree⟩) := by
  obtain ⟨nodeId, attributes, hshape, -⟩ := h.shape
  obtain ⟨loc, hattr, hloc⟩ := h.loc
  obtain ⟨file, positions, hsource, hpositions, hplaces⟩ := places_of_location hloc
  have hnodes : (if node.isNull then [] else node.sequence?.getD [node]) = [node] := by
    rw [hshape]
    rfl
  rw [makeError]
  simp only [hnodes, List.mapM_cons, List.mapM_nil, attr_eq hattr, pure_bind, hsource, hpositions]
  refine hplaces.bind fun items hitems => ?_
  refine (makeNonEmptyList_makes [node]).bind fun nodes hnodes => ?_
  refine (makeNonEmptyList_makes positions).bind fun listed _ => ?_
  refine (makeNonEmptyList_makes items).bind fun places hlists => ?_
  have hentries : entriesOf .null = pure [] := rfl
  rw [hentries, pure_bind]
  refine (makeMap_makes []).bind fun extensions _ => ?_
  refine (freshBlock_makes 2).bind fun errorId _ => Makes.pure ?_
  exact ⟨errorId, nodes, file, listed, places, extensions, node, items, rfl, hnodes, h, hlists,
    hitems⟩

end Errors

section Printing

variable {bench : Bench}

theorem print_text_makes (text : Text) : Makes bench (print (.text text)) (· = text) :=
  Makes.get_bind fun age => Makes.pure (by rw [Bench.print, Bench.render])

theorem print_type_makes (id : TypeId) :
    Makes bench (print (.type id)) (· = Text.ofString (bench.table.type id).name) := by
  refine Makes.get_bind fun age => Makes.pure ?_
  rw [Bench.print, Bench.render, bench.type_table]
  rfl

theorem print_texts_makes (texts : List Text) :
    Makes bench ((texts.map .text).mapM print) (· = texts) := by
  induction texts with
  | nil => exact Makes.pure rfl
  | cons text texts ih =>
    rw [List.map_cons, List.mapM_cons]
    refine (print_text_makes text).bind fun printed hprinted => ?_
    exact ih.bind fun rest hrest => Makes.pure (by rw [hprinted, hrest])

end Printing

/-- The error about a field that is not defined is the schema's report on it. -/
theorem Settled.undefinedFieldError_makes {bench : Bench} {schema node : Datum}
    {record : SchemaRecord} (h : Settled bench schema record) {id : Nat} {source : Source}
    {tree : Tree} (hnode : Depicts (.source id source) tree node) {name : String}
    (hname : nameOf node = pure (.ofString name)) (parent : TypeId) :
    Makes bench (undefinedFieldError schema (.type parent) node)
      (Reports (.source id source) source ·
        ⟨(bench.schemaOf record).undefinedField parent name, tree⟩) := by
  have herror (types fields : List Text) : Makes bench (do
      let field ← print (.ofString name)
      let type ← print (.type parent)
      let fields ← (fields.map .text).mapM print
      makeError { message := .text (undefinedFieldMessage field type types fields), nodes := node })
      (Reports (.source id source) source ·
        ⟨undefinedFieldMessage name ((bench.schemaOf record).name parent) types fields, tree⟩) := by
    refine (print_text_makes _).bind fun field hfield => ?_
    refine (print_type_makes parent).bind fun type htype => ?_
    refine (print_texts_makes fields).bind fun printed hprinted => ?_
    subst hfield htype hprinted
    exact makeError_makes hnode _
  rw [undefinedFieldError, hname, pure_bind, Schema.undefinedField]
  refine (h.suggestedTypesOf_makes parent name).bind fun types htypes => ?_
  subst htypes
  by_cases hnone : ((bench.schemaOf record).suggestedTypes parent name).isEmpty = true
  · simp only [List.isEmpty_map, hnone, if_true]
    refine (h.suggestedFieldsOf_makes parent name).bind fun fields hfields => ?_
    subst hfields
    exact herror _ _
  · simp only [List.isEmpty_map, hnone, pure_bind]
    exact herror _ []

end QueryLint.Workbench
