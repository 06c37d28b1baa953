import Mathlib.Data.List.Nodup
import QueryLint.Proofs.Reachability
import QueryLint.Proofs.UndefinedFields

/-!
Which types are suggested for a field that an abstract type does not define. The objects below the
type that define the field come last, in their order; in front of them come the interfaces of these
objects that define the field, the most frequent first and equally frequent ones as they occur. Each
suggested name leads back to a type that defines the field, so following a suggestion leaves nothing
to report.
-/

namespace QueryLint

/-! Counting and ranking -/

/-- One item stands before another in a ranking of a list: it occurs more often in the list, or as
often and earlier. -/
def RankedBefore {α : Type} [DecidableEq α] (items : List α) (first second : α) : Prop :=
  items.count second < items.count first ∨
    items.count first = items.count second ∧ items.idxOf first < items.idxOf second

/-- The same for names with their counts, by another order of equally frequent names. -/
def CountedBefore (earlier : String → String → Prop) (first second : String × Nat) : Prop :=
  second.2 < first.2 ∨ first.2 = second.2 ∧ earlier first.1 second.1

/-- The counts of the names in a list, in the order of their first occurrences. -/
structure Tallies (counts : OrderedMap Nat) (names : List String) : Prop where
  mem_iff : ∀ name, name ∈ counts.names ↔ name ∈ names
  order : counts.names.Pairwise fun first second => names.idxOf first < names.idxOf second
  count : ∀ name, (counts.find? name).getD 0 = names.count name

theorem Tallies.countName {counts : OrderedMap Nat} {names : List String}
    (h : Tallies counts names) (name : String) :
    Tallies (countName counts name) (names ++ [name]) := by
  have hkept : counts.names.Pairwise fun first second =>
      (names ++ [name]).idxOf first < (names ++ [name]).idxOf second := by
    apply h.order.imp_of_mem
    intro first second hfirst hsecond hlt
    rwa [List.idxOf_append_of_mem ((h.mem_iff first).mp hfirst),
      List.idxOf_append_of_mem ((h.mem_iff second).mp hsecond)]
  constructor
  · intro other
    rw [QueryLint.countName, OrderedMap.mem_names_insert, h.mem_iff, List.mem_append,
      List.mem_singleton, or_comm]
  · by_cases hold : name ∈ counts.names
    · rwa [QueryLint.countName, OrderedMap.names_insert_of_mem hold]
    · have hnew : name ∉ names := fun hname => hold ((h.mem_iff name).mpr hname)
      rw [QueryLint.countName, OrderedMap.insert_of_not_mem hold, OrderedMap.names, List.map_append,
        List.pairwise_append]
      refine ⟨hkept, List.pairwise_singleton _ _, ?_⟩
      intro first hfirst second hsecond
      have hfirst : first ∈ names := (h.mem_iff first).mp hfirst
      obtain rfl : second = name := by simpa using hsecond
      rw [List.idxOf_append_of_mem hfirst, List.idxOf_append, if_neg hnew]
      have hbound := List.idxOf_lt_length_of_mem hfirst
      omega
  · intro other
    rw [QueryLint.countName, OrderedMap.find?_insert, List.count_append, ← h.count other]
    by_cases hsame : other = name
    · simp [hsame]
    · simp [hsame, Ne.symm hsame]

theorem tallies_foldl (names : List String) : Tallies (names.foldl countName []) names := by
  have hrun (before : List String) (counts : OrderedMap Nat) (h : Tallies counts before) :
      Tallies (names.foldl countName counts) (before ++ names) := by
    induction names generalizing before counts with
    | nil => rwa [List.append_nil]
    | cons name names ih =>
      have hnext := ih (before ++ [name]) _ (h.countName name)
      rwa [List.append_assoc, List.singleton_append] at hnext
  have hstart : Tallies [] [] := by
    constructor
    · simp [OrderedMap.names]
    · exact List.Pairwise.nil
    · simp [OrderedMap.find?]
  exact hrun [] [] hstart

theorem mem_insertCounted {entry other : String × Nat} {ranked : List (String × Nat)} :
    other ∈ insertCounted entry ranked ↔ other = entry ∨ other ∈ ranked := by
  induction ranked with
  | nil => simp [insertCounted]
  | cons head tail ih =>
    unfold insertCounted
    split
    · simp
    · rw [List.mem_cons, ih, List.mem_cons]
      constructor
      · rintro (hhead | hentry | htail)
        · exact .inr (.inl hhead)
        · exact .inl hentry
        · exact .inr (.inr htail)
      · rintro (hentry | hhead | htail)
        · exact .inr (.inl hentry)
        · exact .inl hhead
        · exact .inr (.inr htail)

/-- A name that comes later than all others is ranked among them behind its equals. -/
theorem insertCounted_pairwise {earlier : String → String → Prop} {entry : String × Nat}
    {ranked : List (String × Nat)} (h : ranked.Pairwise (CountedBefore earlier))
    (hentry : ∀ other ∈ ranked, earlier other.1 entry.1) :
    (insertCounted entry ranked).Pairwise (CountedBefore earlier) := by
  induction ranked with
  | nil => exact List.pairwise_singleton _ _
  | cons head tail ih =>
    rw [List.pairwise_cons] at h
    unfold insertCounted
    split
    · rename_i hless
      rw [List.pairwise_cons, List.pairwise_cons]
      refine ⟨?_, h⟩
      intro other hother
      rcases List.mem_cons.mp hother with rfl | htail
      · exact .inl hless
      · have hhead : other.2 ≤ head.2 := by
          rcases h.1 other htail with hlt | ⟨heq, -⟩ <;> omega
        exact .inl (Nat.lt_of_le_of_lt hhead hless)
    · rename_i hless
      have htail := ih h.2 fun other hother => hentry other (List.mem_cons_of_mem _ hother)
      rw [List.pairwise_cons]
      refine ⟨?_, htail⟩
      intro other hother
      rcases mem_insertCounted.mp hother with rfl | hother
      · rcases Nat.lt_or_eq_of_le (Nat.le_of_not_lt hless) with hlt | heq
        · exact .inl hlt
        · exact .inr ⟨heq.symm, hentry head List.mem_cons_self⟩
      · exact h.1 other hother

/-- Ranking entries one after the other loses none and leaves equals in their order. -/
theorem foldl_insertCounted {earlier : String → String → Prop} (entries : List (String × Nat))
    (h : entries.Pairwise fun first second => earlier first.1 second.1)
    (ranked : List (String × Nat)) (hranked : ranked.Pairwise (CountedBefore earlier))
    (hbefore : ∀ first ∈ ranked, ∀ second ∈ entries, earlier first.1 second.1) :
    let result := entries.foldl (fun ranked entry => insertCounted entry ranked) ranked
    (∀ entry, entry ∈ result ↔ entry ∈ ranked ∨ entry ∈ entries) ∧
      result.Pairwise (CountedBefore earlier) := by
  induction entries generalizing ranked with
  | nil => exact ⟨by simp, hranked⟩
  | cons entry entries ih =>
    rw [List.pairwise_cons] at h
    have hnext := insertCounted_pairwise hranked fun other hother =>
      hbefore other hother entry List.mem_cons_self
    have hlater : ∀ first ∈ insertCounted entry ranked, ∀ second ∈ entries,
        earlier first.1 second.1 := by
      intro first hfirst second hsecond
      rcases mem_insertCounted.mp hfirst with rfl | hfirst
      · exact h.1 second hsecond
      · exact hbefore first hfirst second (List.mem_cons_of_mem _ hsecond)
    obtain ⟨hmem, hsorted⟩ := ih h.2 _ hnext hlater
    refine ⟨fun other => ?_, hsorted⟩
    rw [List.foldl_cons, hmem, mem_insertCounted, List.mem_cons]
    constructor
    · rintro ((hentry | hranked) | hentries)
      · exact .inr (.inl hentry)
      · exact .inl hranked
      · exact .inr (.inr hentries)
    · rintro (hranked | hentry | hentries)
      · exact .inl (.inr hranked)
      · exact .inl (.inl hentry)
      · exact .inr hentries

/-- The names of a list by frequency: each of them, ranked by how often and how early it occurs. -/
theorem byFrequency_spec (names : List String) :
    (∀ name, name ∈ byFrequency names ↔ name ∈ names) ∧
      (byFrequency names).Pairwise (RankedBefore names) := by
  have h := tallies_foldl names
  obtain ⟨hmem, hsorted⟩ :=
    foldl_insertCounted _ (List.pairwise_map.mp h.order) [] List.Pairwise.nil (by simp)
  have hdistinct : (names.foldl countName []).names.Nodup := by
    apply h.order.imp
    rintro first second hlt rfl
    exact absurd hlt (Nat.lt_irrefl _)
  have hcount (entry : String × Nat) (hentry : entry ∈ names.foldl countName []) :
      entry.2 = names.count entry.1 := by
    rw [← h.count, OrderedMap.find?_of_mem hdistinct hentry, Option.getD_some]
  have hentries (entry : String × Nat) :
      entry ∈ (names.foldl countName []).foldl (fun ranked entry => insertCounted entry ranked) [] ↔
        entry ∈ names.foldl countName [] := by
    simpa using hmem entry
  constructor
  · intro name
    rw [← h.mem_iff, byFrequency, List.mem_map, OrderedMap.names, List.mem_map]
    exact exists_congr fun entry => and_congr_left' (hentries entry)
  · rw [byFrequency, List.pairwise_map]
    apply hsorted.imp_of_mem
    intro first second hfirst hsecond hbefore
    rw [RankedBefore, ← hcount first ((hentries first).mp hfirst),
      ← hcount second ((hentries second).mp hsecond)]
    exact hbefore

/-- A ranking by names is one of the items themselves where names are not shared. -/
theorem RankedBefore.of_map {α : Type} [DecidableEq α] {name : α → String} {items : List α}
    (hinj : ∀ first ∈ items, ∀ second ∈ items, name first = name second → first = second)
    {first second : α} (hfirst : first ∈ items) (hsecond : second ∈ items)
    (h : RankedBefore (items.map name) (name first) (name second)) :
    RankedBefore items first second := by
  have hcount (item : α) (hitem : item ∈ items) :
      (items.map name).count (name item) = items.count item := by
    rw [List.count, List.countP_map]
    apply List.countP_congr
    intro other hother
    simp only [Function.comp_apply, beq_iff_eq]
    exact ⟨hinj other hother item hitem, fun hsame => by rw [hsame]⟩
  have hindex (item : α) (hitem : item ∈ items) :
      (items.map name).idxOf (name item) = items.idxOf item := by
    clear hcount hfirst hsecond h
    induction items with
    | nil => cases hitem
    | cons head items ih =>
      rw [List.map_cons, List.idxOf_cons, List.idxOf_cons]
      by_cases hhead : head = item
      · simp [hhead]
      · have hname : name head ≠ name item := fun hsame =>
          hhead (hinj head List.mem_cons_self item hitem hsame)
        have hrest : item ∈ items := (List.mem_cons.mp hitem).resolve_left (Ne.symm hhead)
        have hlater := ih (fun first hfirst second hsecond =>
          hinj first (List.mem_cons_of_mem _ hfirst) second (List.mem_cons_of_mem _ hsecond)) hrest
        rw [beq_eq_false_iff_ne.mpr hhead, beq_eq_false_iff_ne.mpr hname, cond_false, cond_false,
          hlater]
  rwa [RankedBefore, hcount first hfirst, hcount second hsecond, hindex first hfirst,
    hindex second hsecond] at h

/-- Names that all belong to items of a list are the names of some of its items. -/
theorem exists_named {α : Type} {name : α → String} {items : List α} (names : List String)
    (h : ∀ text ∈ names, ∃ item ∈ items, name item = text) :
    ∃ named : List α, named.map name = names ∧ ∀ item ∈ named, item ∈ items := by
  induction names with
  | nil => exact ⟨[], rfl, by simp⟩
  | cons text names ih =>
    obtain ⟨item, hitem, htext⟩ := h text List.mem_cons_self
    obtain ⟨named, hnamed, hmem⟩ := ih fun other hother => h other (List.mem_cons_of_mem _ hother)
    refine ⟨item :: named, by rw [List.map_cons, htext, hnamed], ?_⟩
    rw [List.forall_mem_cons]
    exact ⟨hitem, hmem⟩

/-! Suggested types -/

theorem NamedType.hasFields_of_contains {type : NamedType} {field : String}
    (h : type.fields.contains field = true) : type.isObject = true ∨ type.isInterface = true := by
  unfold NamedType.fields at h
  unfold NamedType.isObject NamedType.isInterface
  cases hshape : type.shape <;> simp_all [OrderedMap.contains]

/-- The selection asks for one field in an inline fragment on a type, as in `... on T { f }`. -/
inductive Selection.AsksOn (type field : String) : Selection → Prop where
  | fragment {condition : TypeName} {directives : List Directive} {aliasName : Option Name}
      {name : Name} {arguments : List Argument} {fieldDirectives : List Directive}
      {fieldLoc setLoc loc : Option Location} (hcondition : condition.name.value = type)
      (hname : name.value = field) :
      Selection.AsksOn type field (.inline (some condition) directives
        (.mk [.field aliasName name arguments fieldDirectives none fieldLoc] setLoc) loc)

namespace Schema

variable {schema : Schema} {id : TypeId} {field : String}

theorem field?_isSome_of_contains (h : (schema.type id).fields.contains field = true) :
    (schema.field? id field).isSome = true := by
  rw [OrderedMap.contains_iff, ← OrderedMap.find?_isSome_iff] at h
  unfold field?
  cases schema.metaField? id field with
  | none => simpa using h
  | some definition => rfl

/-- Nothing is reported on a field in a fragment on a type that defines it. -/
theorem finds_nothing_of_asksOn {ε σ : Type} {type : String} {selection : Selection}
    (hselection : selection.AsksOn type field) (hfind : schema.find? type = some id)
    (hfield : (schema.type id).fields.contains field = true) (scope : TypeScope) :
    schema.Finds ε σ selection.tree scope [] := by
  obtain ⟨rfl, rfl⟩ := hselection
  rename_i condition directives aliasName name arguments fieldDirectives fieldLoc setLoc loc
  have hcomposite : (schema.type id).isComposite = true := by
    rw [NamedType.isComposite, NamedType.isAbstract]
    rcases NamedType.hasFields_of_contains hfield with hobject | hinterface
    · simp [hobject]
    · simp [hinterface]
  have hdefined := field?_isSome_of_contains hfield
  have howner : schema.typeOf? (.named condition) = some (.named id) := by
    rw [Schema.typeOf?, hfind]
    rfl
  have hparent : schema.parentOf (some (.named id)) = some id := by
    simp [parentOf, TypeRef.base, Option.filter, hcomposite]
  let set : SelectionSet :=
    .mk [.field aliasName name arguments fieldDirectives none fieldLoc] setLoc
  have hsites : (set.fieldSites schema (some (.named id))).filterMap schema.problemAt? = [] := by
    simp [set, SelectionSet.fieldSites, Selection.allFieldSites, Selection.fieldSites,
      SelectionSet.optionalFieldSites, hparent, problemAt?, Option.isSome_iff_ne_none.mp hdefined]
  have howned : schema.Owned (schema.entered
      (Selection.tree (.inline (some condition) directives set loc)) scope)
      (schema.typeOf? (.named condition)) := by
    simp only [Selection.tree]
    rfl
  rw [howner] at howned
  have hset := SelectionSet.finds (ε := ε) (σ := σ) set howned
  rw [hsites] at hset
  rw [Selection.tree] at hset ⊢
  have hbelow : schema.FindsBelow ε σ [directiveBranch directives,
      .single "selection_set" set.tree] _ [] :=
    Branch.Quiet.findsBelow (by simp) (.last hset)
  exact .node (Branch.Quiet.findsBelow (by simp) hbelow)

end Schema

namespace TypeGraph

variable {ε : Type} {graph : TypeGraph ε} {given : List TypeId} {roots : Roots} {schema : Schema}
  {id : TypeId} {field : String}

theorem Assembled.possibleTypes_mem (h : graph.Assembled given roots schema)
    (hid : id ∈ schema.types) : ∀ object ∈ schema.possibleTypes id, object ∈ schema.types := by
  intro object hobject
  unfold Schema.possibleTypes at hobject
  split at hobject
  · rename_i members hshape
    apply h.closed hid
    simp only [NamedType.references, NamedType.members, hshape]
    exact List.mem_append_left _ (List.mem_append_left _ hobject)
  · rw [Schema.implementations_eq] at hobject
    obtain ⟨other, hother, hobject⟩ := List.mem_flatMap.mp hobject
    obtain ⟨listed, -, rfl⟩ := List.mem_map.mp hobject
    exact hother

theorem Assembled.interfaces_mem (h : graph.Assembled given roots schema)
    (hid : id ∈ schema.types) : ∀ other ∈ (schema.type id).interfaces, other ∈ schema.types := by
  intro other hother
  exact h.closed hid (List.mem_append_left _ (List.mem_append_right _ hother))

end TypeGraph

namespace Schema

/-- The interfaces that define a field, as often as the objects below an abstract type that define
the field list them. -/
def definingInterfaces (schema : Schema) (id : TypeId) (field : String) : List TypeId :=
  (schema.definingObjects id field).flatMap fun object =>
    (schema.type object).interfaces.filter (schema.definesField field)

variable {ε : Type} {graph : TypeGraph ε} {given : List TypeId} {roots : Roots}
  {definition : Option SchemaDefinition} {schema : Schema} {id : TypeId}

theorem suggestedTypes_eq (habstract : (schema.type id).isAbstract = true) (field : String) :
    schema.suggestedTypes id field =
      byFrequency ((schema.definingInterfaces id field).map schema.name) ++
        (schema.definingObjects id field).map schema.name := by
  rw [suggestedTypes, if_pos habstract]
  rfl

theorem definingObjects_mem (h : graph.Assembled given roots schema) (hid : id ∈ schema.types)
    {field : String} {object : TypeId} (hobject : object ∈ schema.definingObjects id field) :
    object ∈ schema.types ∧ (schema.type object).fields.contains field = true := by
  obtain ⟨hpossible, hdefines⟩ := List.mem_filter.mp hobject
  exact ⟨h.possibleTypes_mem hid object hpossible, hdefines⟩

theorem definingInterfaces_mem (h : graph.Assembled given roots schema) (hid : id ∈ schema.types)
    {field : String} {interface : TypeId}
    (hinterface : interface ∈ schema.definingInterfaces id field) :
    interface ∈ schema.types ∧ (schema.type interface).fields.contains field = true := by
  obtain ⟨object, hobject, hlisted⟩ := List.mem_flatMap.mp hinterface
  obtain ⟨hlisted, hdefines⟩ := List.mem_filter.mp hlisted
  exact ⟨h.interfaces_mem (definingObjects_mem h hid hobject).1 interface hlisted, hdefines⟩

/-- The names in front are those of the interfaces, each once and in the order of their ranks. -/
theorem byFrequency_definingInterfaces (h : graph.Assembled given roots schema)
    (hid : id ∈ schema.types) (field : String) :
    ∃ interfaces : List TypeId,
      byFrequency ((schema.definingInterfaces id field).map schema.name) =
        interfaces.map schema.name ∧
      interfaces.Nodup ∧
      (∀ interface, interface ∈ interfaces ↔ interface ∈ schema.definingInterfaces id field) ∧
      interfaces.Pairwise (RankedBefore (schema.definingInterfaces id field)) := by
  obtain ⟨hmem, hranked⟩ := byFrequency_spec ((schema.definingInterfaces id field).map schema.name)
  obtain ⟨interfaces, hnames, hlisted⟩ := exists_named _ fun text htext =>
    List.mem_map.mp ((hmem text).mp htext)
  have hinj : ∀ first ∈ schema.definingInterfaces id field,
      ∀ second ∈ schema.definingInterfaces id field,
        schema.name first = schema.name second → first = second := by
    intro first hfirst second hsecond
    exact h.name_inj (definingInterfaces_mem h hid hfirst).1
      (definingInterfaces_mem h hid hsecond).1
  rw [← hnames, List.pairwise_map] at hranked
  have hpairwise : interfaces.Pairwise (RankedBefore (schema.definingInterfaces id field)) := by
    apply hranked.imp_of_mem
    intro first second hfirst hsecond hbefore
    exact hbefore.of_map hinj (hlisted first hfirst) (hlisted second hsecond)
  refine ⟨interfaces, hnames.symm, ?_, ?_, hpairwise⟩
  · apply hpairwise.imp
    rintro first second hbefore rfl
    rcases hbefore with hlt | ⟨-, hlt⟩
    · exact Nat.lt_irrefl _ hlt
    · exact Nat.lt_irrefl _ hlt
  · intro interface
    refine ⟨hlisted interface, fun hinterface => ?_⟩
    have hname := (hmem (schema.name interface)).mpr (List.mem_map_of_mem hinterface)
    rw [← hnames] at hname
    obtain ⟨other, hother, hsame⟩ := List.mem_map.mp hname
    rwa [← hinj other (hlisted other hother) interface hinterface hsame]

/-- Without defining objects there are no interfaces of theirs to suggest. -/
theorem suggestedTypes_eq_nil_iff (habstract : (schema.type id).isAbstract = true)
    (field : String) :
    schema.suggestedTypes id field = [] ↔ schema.definingObjects id field = [] := by
  rw [suggestedTypes_eq habstract, List.append_eq_nil_iff, List.map_eq_nil_iff]
  constructor
  · exact And.right
  · intro hnone
    refine ⟨?_, hnone⟩
    simp [definingInterfaces, hnone, byFrequency]

/-- Every suggested name is that of a type of the schema that defines the field. -/
theorem mem_suggestedTypes (h : graph.Assembled given roots schema) (hid : id ∈ schema.types)
    (habstract : (schema.type id).isAbstract = true) {field name : String}
    (hname : name ∈ schema.suggestedTypes id field) :
    ∃ type ∈ schema.types, schema.name type = name ∧
      (schema.type type).fields.contains field = true := by
  rw [suggestedTypes_eq habstract] at hname
  rcases List.mem_append.mp hname with hname | hname
  · have hranked := ((byFrequency_spec _).1 name).mp hname
    obtain ⟨interface, hinterface, hsame⟩ := List.mem_map.mp hranked
    obtain ⟨hmem, hdefines⟩ := definingInterfaces_mem h hid hinterface
    exact ⟨interface, hmem, hsame, hdefines⟩
  · obtain ⟨object, hobject, hsame⟩ := List.mem_map.mp hname
    obtain ⟨hmem, hdefines⟩ := definingObjects_mem h hid hobject
    exact ⟨object, hmem, hsame, hdefines⟩

/-- The suggestions for a field on an abstract type: the interfaces that define the field and are
listed by objects below the type that define it, ranked by how often and how early they are listed,
and then these objects. There are suggestions if and only if an object below the type defines the
field. Each suggested name is found as an object or interface that defines the field, and selecting
the field in a fragment on that name leaves nothing to report. -/
theorem suggestedTypes_ranking (hschema : graph.assemble given roots definition = .ok schema)
    (hid : id ∈ schema.types) (habstract : (schema.type id).isAbstract = true) (field : String) :
    let objects := (schema.possibleTypes id).filter fun object =>
      (schema.type object).fields.contains field
    let listed := objects.flatMap fun object =>
      (schema.type object).interfaces.filter fun interface =>
        (schema.type interface).fields.contains field
    (∃ interfaces : List TypeId,
        schema.suggestedTypes id field = interfaces.map schema.name ++ objects.map schema.name ∧
        interfaces.Nodup ∧ (∀ interface, interface ∈ interfaces ↔ interface ∈ listed) ∧
        interfaces.Pairwise (RankedBefore listed)) ∧
      (schema.suggestedTypes id field ≠ [] ↔
        ∃ object ∈ schema.possibleTypes id, (schema.type object).fields.contains field = true) ∧
      ∀ name ∈ schema.suggestedTypes id field, ∃ type, schema.find? name = some type ∧
        ((schema.type type).isObject = true ∨ (schema.type type).isInterface = true) ∧
        (schema.type type).fields.contains field = true ∧
        ∀ (δ σ : Type) (selection : Selection), selection.AsksOn name field →
          ∀ scope, schema.Finds δ σ selection.tree scope [] := by
  intro objects listed
  have h := TypeGraph.assemble_eq_ok hschema
  refine ⟨?_, ?_, ?_⟩
  · obtain ⟨interfaces, hnames, hnodup, hmem, hranked⟩ :=
      byFrequency_definingInterfaces h hid field
    refine ⟨interfaces, ?_, hnodup, hmem, hranked⟩
    rw [suggestedTypes_eq habstract, hnames]
    rfl
  · rw [Ne, suggestedTypes_eq_nil_iff habstract, definingObjects, List.filter_eq_nil_iff]
    simp [definesField]
  · intro name hname
    obtain ⟨type, htype, rfl, hdefines⟩ := mem_suggestedTypes h hid habstract hname
    have hfind := h.find?_name htype
    refine ⟨type, hfind, NamedType.hasFields_of_contains hdefines, hdefines, ?_⟩
    intro δ σ selection hselection scope
    exact finds_nothing_of_asksOn hselection hfind hdefines scope

/-- A union of two objects whose interfaces overlap: the second interface is listed by both. -/
theorem suggestedTypes_ranking_pets :
    let graph : TypeGraph Empty := [
      { type := { name := "Named", shape := .interface [("name", { type := .named 5 })] } },
      { type := { name := "Being", shape := .interface [("name", { type := .named 5 })] } },
      { type := { name := "Dog", shape := .object [0, 1] [("name", { type := .named 5 })] } },
      { type := { name := "Cat", shape := .object [1] [("name", { type := .named 5 })] } },
      { type := { name := "Pet", shape := .union [2, 3] } },
      { type := { name := "String", shape := .scalar } }]
    ∃ schema, graph.assemble [4] {} = .ok schema ∧ 4 ∈ schema.types ∧
      (schema.type 4).isAbstract = true ∧ schema.suggestedTypes 4 "name" ≠ [] ∧
      ∃ interfaces : List TypeId,
        schema.suggestedTypes 4 "name" = interfaces.map schema.name ++ ["Dog", "Cat"] ∧
        (∀ interface, interface ∈ interfaces ↔ interface ∈ [0, 1, 1]) ∧
        interfaces.Pairwise (RankedBefore [0, 1, 1]) := by
  intro graph
  have hnone : graph.RootsAreObjects {} := by
    intro operation id hid
    cases operation <;> cases hid
  have hreadable (id : TypeId) : graph.Readable id := by
    intro part _
    rcases id with _ | _ | _ | _ | _ | _ | _ <;> rfl
  have hclear : ¬graph.NamesClash ([4] ++ Roots.toList {}) := by
    have hclosed : ∀ id < 6, ∀ other ∈ (graph.type id).references, other < 6 := by decide
    have hinside (id : TypeId) (hid : graph.Reachable ([4] ++ Roots.toList {}) id) : id < 6 := by
      obtain ⟨start, hstart, hpath⟩ := hid
      induction hpath with
      | refl =>
        obtain rfl : start = 4 := by simpa [Roots.toList] using hstart
        decide
      | tail _ hlast ih => exact hclosed _ ih _ hlast
    have hnames : ∀ first < 6, ∀ second < 6, first ≠ second →
        (graph.type first).name ≠ (graph.type second).name := by decide
    rintro ⟨first, second, hfirst, hsecond, hne, hsame⟩
    exact hnames first (hinside first hfirst) second (hinside second hsecond) hne hsame
  obtain ⟨schema, hschema⟩ : ∃ schema, graph.assemble [4] {} = .ok schema :=
    TypeGraph.assemble_isOk_iff.mpr ⟨hnone, fun id _ => hreadable id, hclear⟩
  have h := TypeGraph.assemble_eq_ok hschema
  have htype : schema.type = graph.type := funext h.type_eq
  have hid : 4 ∈ schema.types := (h.complete.mem_iff 4).mpr (.of_mem (by decide))
  have habstract : (schema.type 4).isAbstract = true := by
    rw [htype]
    rfl
  have hpossible : schema.possibleTypes 4 = [2, 3] := by
    rw [possibleTypes, htype]
    rfl
  obtain ⟨⟨interfaces, hnames, -, hmem, hranked⟩, hsome, -⟩ :=
    suggestedTypes_ranking hschema hid habstract "name"
  rw [hpossible, htype] at hnames hmem hranked hsome
  have hobjects : [2, 3].map schema.name = ["Dog", "Cat"] := by
    have hname : schema.name = fun id => (graph.type id).name := by
      funext id
      rw [Schema.name, htype]
    rw [hname]
    rfl
  refine ⟨schema, hschema, hid, habstract, hsome.mpr ⟨2, by decide, by decide⟩, interfaces, ?_,
    hmem, hranked⟩
  rw [hnames, ← hobjects]
  rfl

end Schema

end QueryLint
