import QueryLint.Proofs.ReflectedDefinitions

/-!
The order of the types of a schema. Going through types depth first lists each type ahead of those
it refers to. The given types and then the roots are gone through one after the other, and the types
that each adds make up a segment. A given type that has not had its turn holds its place at the
front, so no segment but its own can list it; when its turn comes it gives the place up and heads
its segment at the end.
-/

namespace QueryLint

namespace TypeGraph

variable {ε : Type} {graph : TypeGraph ε} {id : TypeId}

/-- The types that are new when types are gone through depth first, from left to right, each ahead
of those it refers to. A type that is listed already is not entered. -/
inductive Preorder (graph : TypeGraph ε) : List TypeId → List TypeId → List TypeId → Prop where
  | nil {listed : List TypeId} : graph.Preorder listed [] []
  | listed {listed later order : List TypeId} {id : TypeId} (hlisted : id ∈ listed)
      (hlater : graph.Preorder listed later order) : graph.Preorder listed (id :: later) order
  | new {listed later below order : List TypeId} {id : TypeId} (hnew : id ∉ listed)
      (hbelow : graph.Preorder (listed ++ [id]) (graph.type id).references below)
      (hlater : graph.Preorder (listed ++ id :: below) later order) :
      graph.Preorder listed (id :: later) (id :: below ++ order)

/-- One segment for each start: the types that it adds to those listed before, where the given types
other than the start itself are not entered either. -/
inductive Segments (graph : TypeGraph ε) (given : List TypeId) :
    List TypeId → List TypeId → List (List TypeId) → Prop where
  | nil {listed : List TypeId} : graph.Segments given listed [] []
  | cons {listed segment later : List TypeId} {segments : List (List TypeId)} {start : TypeId}
      (hsegment : graph.Preorder (listed ++ given.filter (· != start)) [start] segment)
      (hlater : graph.Segments given (listed ++ segment) later segments) :
      graph.Segments given listed (start :: later) (segment :: segments)

/-! Going through types depth first -/

namespace Preorder

variable {listed ids order : List TypeId}

theorem unique (h : graph.Preorder listed ids order) {order' : List TypeId}
    (h' : graph.Preorder listed ids order') : order = order' := by
  induction h generalizing order' with
  | nil =>
    cases h'
    rfl
  | listed hlisted _ ih =>
    cases h' with
    | listed _ hlater => exact ih hlater
    | new hnew => exact absurd hlisted hnew
  | new hnew _ _ ihbelow ihlater =>
    cases h' with
    | listed hlisted => exact absurd hlisted hnew
    | new _ hbelow hlater =>
      obtain rfl := ihbelow hbelow
      rw [ihlater hlater]

/-- It only matters which types are listed, not in what order. -/
theorem congr (h : graph.Preorder listed ids order) {listed' : List TypeId}
    (hsame : ∀ id, id ∈ listed ↔ id ∈ listed') : graph.Preorder listed' ids order := by
  induction h generalizing listed' with
  | nil => exact .nil
  | listed hlisted _ ih => exact .listed ((hsame _).mp hlisted) (ih hsame)
  | new hnew _ _ ihbelow ihlater =>
    refine .new (fun hlisted => hnew ((hsame _).mpr hlisted)) (ihbelow ?_) (ihlater ?_)
    · intro id
      rw [List.mem_append, List.mem_append, hsame]
    · intro id
      rw [List.mem_append, List.mem_append, hsame]

theorem not_mem_listed (h : graph.Preorder listed ids order) (hid : id ∈ order) :
    id ∉ listed := by
  induction h with
  | nil => cases hid
  | listed _ _ ih => exact ih hid
  | new hnew _ _ ihbelow ihlater =>
    rw [List.cons_append, List.mem_cons, List.mem_append] at hid
    intro hlisted
    rcases hid with rfl | hbelow | hlater
    · exact hnew hlisted
    · exact ihbelow hbelow (List.mem_append_left _ hlisted)
    · exact ihlater hlater (List.mem_append_left _ hlisted)

/-- What comes first is gone through first. -/
theorem split {first second : List TypeId} (h : graph.Preorder listed (first ++ second) order) :
    ∃ front back, front ++ back = order ∧ graph.Preorder listed first front ∧
      graph.Preorder (listed ++ front) second back := by
  induction first generalizing listed order with
  | nil => exact ⟨[], order, rfl, .nil, by rwa [List.append_nil]⟩
  | cons id first ih =>
    cases h with
    | listed hlisted hlater =>
      obtain ⟨front, back, happend, hfront, hback⟩ := ih hlater
      exact ⟨front, back, happend, .listed hlisted hfront, hback⟩
    | @new _ _ below _ _ hnew hbelow hlater =>
      obtain ⟨front, back, rfl, hfront, hback⟩ := ih hlater
      refine ⟨id :: below ++ front, back, List.append_assoc .., .new hnew hbelow hfront, ?_⟩
      rwa [← List.append_assoc]

theorem eq_nil_of_mem (h : graph.Preorder listed [id] order) (hlisted : id ∈ listed) :
    order = [] :=
  h.unique (.listed hlisted .nil)

theorem exists_cons_of_not_mem (h : graph.Preorder listed [id] order) (hnew : id ∉ listed) :
    ∃ below, order = id :: below := by
  cases h with
  | listed hlisted => exact absurd hlisted hnew
  | @new _ _ below rest => exact ⟨below ++ rest, rfl⟩

theorem mem_start (h : graph.Preorder listed [id] order) (hnew : id ∉ listed) : id ∈ order := by
  obtain ⟨below, rfl⟩ := h.exists_cons_of_not_mem hnew
  exact List.mem_cons_self

end Preorder

/-! The collection goes through types depth first -/

/-- The types that an errand is about. -/
def targets (graph : TypeGraph ε) : Errand → List TypeId
  | .type id => [id]
  | .fields id => (graph.type id).fieldReferences

theorem flatMap_targets_type (ids : List TypeId) :
    (ids.map Errand.type).flatMap graph.targets = ids := by
  rw [List.flatMap_map]
  exact List.flatMap_singleton' ids

/-- The errands that a new type brings along are about the types that it refers to. -/
theorem targets_of_expand {errands : List Errand} (h : graph.expand id = .ok errands) :
    errands.flatMap graph.targets = (graph.type id).references := by
  obtain ⟨-, rfl⟩ := expand_eq_ok h
  rw [List.flatMap_append, flatMap_targets_type, NamedType.references]
  congr 1
  by_cases hfields : Part.fields ∈ (graph.type id).shape.parts
  · rw [if_pos hfields, List.flatMap_singleton]
    rfl
  · rw [if_neg hfields, fieldReferences_eq_nil hfields, List.flatMap_nil]

theorem targets_of_expandFields {errands : List Errand}
    (h : graph.expandFields id = .ok errands) :
    errands.flatMap graph.targets = (graph.type id).fieldReferences := by
  obtain ⟨-, rfl⟩ := check_bind_eq_ok h
  exact flatMap_targets_type _

theorem collect_preorder {errands : List Errand} {collected result : List TypeId}
    (h : graph.collect errands collected = .ok result) :
    ∃ order, collected ++ order = result ∧
      graph.Preorder collected (errands.flatMap graph.targets) order := by
  fun_induction graph.collect errands collected with
  | case1 collected =>
    cases h
    exact ⟨[], List.append_nil _, .nil⟩
  | case2 collected id later hknown ih =>
    obtain ⟨order, hresult, horder⟩ := ih h
    exact ⟨order, hresult, .listed hknown horder⟩
  | case3 => cases h
  | case4 collected id later hknown errands hexpand ih =>
    obtain ⟨order, hresult, horder⟩ := ih h
    rw [List.flatMap_append, targets_of_expand hexpand] at horder
    obtain ⟨below, rest, rfl, hbelow, hrest⟩ := horder.split
    rw [List.append_assoc] at hresult hrest
    exact ⟨id :: below ++ rest, hresult, .new hknown hbelow hrest⟩
  | case5 => cases h
  | case6 collected id later errands hexpand ih =>
    obtain ⟨order, hresult, horder⟩ := ih h
    refine ⟨order, hresult, ?_⟩
    rw [List.flatMap_cons, targets, ← targets_of_expandFields hexpand, ← List.flatMap_append]
    exact horder

/-! Segments -/

namespace Segments

variable {given listed starts : List TypeId} {segments : List (List TypeId)}

theorem unique (h : graph.Segments given listed starts segments) {segments' : List (List TypeId)}
    (h' : graph.Segments given listed starts segments') : segments = segments' := by
  induction h generalizing segments' with
  | nil =>
    cases h'
    rfl
  | cons hsegment _ ih =>
    cases h' with
    | cons hsegment' hlater =>
      obtain rfl := hsegment.unique hsegment'
      rw [ih hlater]

theorem append (h : graph.Segments given listed starts segments) {further : List TypeId}
    {segments' : List (List TypeId)}
    (h' : graph.Segments given (listed ++ segments.flatten) further segments') :
    graph.Segments given listed (starts ++ further) (segments ++ segments') := by
  induction h with
  | nil => rwa [List.flatten_nil, List.append_nil] at h'
  | cons hsegment _ ih =>
    rw [List.flatten_cons, ← List.append_assoc] at h'
    exact .cons hsegment (ih h')

theorem mem_of_start (h : graph.Segments given listed starts segments) {start : TypeId}
    (hstart : start ∈ starts) : start ∈ listed ++ segments.flatten := by
  induction h with
  | nil => cases hstart
  | @cons listed segment later segments first hsegment _ ih =>
    rw [List.flatten_cons, ← List.append_assoc]
    rcases List.mem_cons.mp hstart with rfl | hlater
    · by_cases hlisted : start ∈ listed
      · exact List.mem_append_left _ (List.mem_append_left _ hlisted)
      · have hnew : start ∉ listed ++ given.filter (· != start) := by simp [hlisted]
        exact List.mem_append_left _ (List.mem_append_right _ (hsegment.mem_start hnew))
    · exact ih hlater

/-- A start that is listed before its turn comes adds nothing. -/
theorem getElem?_of_listed (h : graph.Segments given listed starts segments) {position : Nat}
    {start : TypeId} (hstart : starts[position]? = some start)
    (hlisted : start ∈ listed ++ (segments.take position).flatten) :
    segments[position]? = some [] := by
  induction h generalizing position with
  | nil => cases hstart
  | cons hsegment _ ih =>
    cases position with
    | zero =>
      obtain rfl := Option.some.inj hstart
      rw [List.take_zero, List.flatten_nil, List.append_nil] at hlisted
      obtain rfl := hsegment.eq_nil_of_mem (List.mem_append_left _ hlisted)
      rfl
    | succ position =>
      rw [List.take_succ_cons, List.flatten_cons, ← List.append_assoc] at hlisted
      exact ih hstart hlisted

/-- A given type that has not had its turn is in no segment of another start. -/
theorem not_mem_segment {start other : TypeId} {segment : List TypeId}
    (hsegment : graph.Preorder (listed ++ given.filter (· != start)) [start] segment)
    (hgiven : other ∈ given) (hne : other ≠ start) : other ∉ segment := by
  intro hmem
  apply hsegment.not_mem_listed hmem
  exact List.mem_append_right _ (List.mem_filter.mpr ⟨hgiven, by simpa using hne⟩)

/-- Given types head their segments, so they keep their order. -/
theorem sublist_flatten (h : graph.Segments given listed starts segments) (hnodup : starts.Nodup)
    (hgiven : starts ⊆ given) (hwaiting : ∀ start ∈ starts, start ∉ listed) :
    starts.Sublist segments.flatten := by
  induction h with
  | nil => exact List.Sublist.slnil
  | @cons listed segment later segments start hsegment _ ih =>
    obtain ⟨hother, hlater⟩ := List.nodup_cons.mp hnodup
    rw [List.cons_subset] at hgiven
    rw [List.forall_mem_cons] at hwaiting
    have hnew : start ∉ listed ++ given.filter (· != start) := by simp [hwaiting.1]
    obtain ⟨below, rfl⟩ := hsegment.exists_cons_of_not_mem hnew
    have hstill : ∀ other ∈ later, other ∉ listed ++ start :: below := by
      intro other hmem
      have hne : other ≠ start := ne_of_mem_of_not_mem hmem hother
      rw [List.mem_append, not_or]
      exact ⟨hwaiting.2 other hmem, not_mem_segment hsegment (hgiven.2 hmem) hne⟩
    rw [List.flatten_cons, List.cons_append]
    exact ((ih hlater hgiven.2 hstill).trans (List.sublist_append_right ..)).cons_cons start

end Segments

theorem distinct_of_nodup {ids : List TypeId} (hnodup : ids.Nodup) : distinct ids = ids := by
  have hrun (seen : List TypeId) (h : (seen ++ ids).Nodup) :
      ids.foldl (fun seen id => if id ∈ seen then seen else seen ++ [id]) seen = seen ++ ids := by
    induction ids generalizing seen with
    | nil => rw [List.foldl_nil, List.append_nil]
    | cons id ids ih =>
      have hnew : id ∉ seen := fun hmem =>
        (List.nodup_append.mp h).2.2 id hmem id List.mem_cons_self rfl
      rw [List.append_cons] at h
      rw [List.foldl_cons, if_neg hnew, ih hnodup.of_cons _ h, ← List.append_cons]
  exact hrun [] hnodup

variable {given : List TypeId}

/-- The given types that have not had their turn hold their places in front of what is listed. -/
theorem collectGiven_segments {before held listed result : List TypeId}
    (hgiven : before ++ held = given) (hnodup : given.Nodup)
    (hbefore : ∀ id ∈ before, id ∈ listed) (hheld : ∀ id ∈ held, id ∉ listed)
    (h : held.foldlM graph.collectGiven (held ++ listed) = .ok result) :
    ∃ segments, listed ++ segments.flatten = result ∧
      graph.Segments given listed held segments := by
  induction held generalizing before listed with
  | nil =>
    cases h
    exact ⟨[], List.append_nil _, .nil⟩
  | cons id held ih =>
    rw [List.foldlM_cons] at h
    obtain ⟨collected, hcollected, h⟩ := bind_eq_ok_iff.mp h
    rw [List.forall_mem_cons] at hheld
    have hother : id ∉ before ∧ id ∉ held := by
      rw [← hgiven, List.nodup_middle, List.nodup_cons, List.mem_append, not_or] at hnodup
      exact hnodup.1
    -- only the place of the type itself is given up
    have hplaces : (id :: held ++ listed).filter (· != id) = held ++ listed := by
      rw [List.cons_append, List.filter_cons_of_neg (by simp), List.filter_eq_self]
      intro other hmem
      have hne : other ≠ id := by
        rintro rfl
        exact (List.mem_append.mp hmem).elim hother.2 hheld.1
      simpa using hne
    rw [collectGiven, hplaces] at hcollected
    obtain ⟨segment, rfl, hsegment⟩ := collect_preorder hcollected
    have hsame : ∀ other, other ∈ held ++ listed ↔
        other ∈ listed ++ given.filter (· != id) := by
      intro other
      simp only [← hgiven, List.mem_append, List.mem_filter, List.mem_cons, bne_iff_ne]
      grind
    replace hsegment := hsegment.congr hsame
    have hlisted : ∀ other ∈ before ++ [id], other ∈ listed ++ segment := by
      intro other hmem
      rcases List.mem_append.mp hmem with hearlier | hself
      · exact List.mem_append_left _ (hbefore other hearlier)
      · obtain rfl := List.mem_singleton.mp hself
        exact List.mem_append_right _ (hsegment.mem_start (by simp [hheld.1]))
    have hstill : ∀ other ∈ held, other ∉ listed ++ segment := by
      intro other hmem
      have hne : other ≠ id := ne_of_mem_of_not_mem hmem hother.2
      have hin : other ∈ given := by
        rw [← hgiven]
        exact List.mem_append_right _ (List.mem_cons_of_mem _ hmem)
      rw [List.mem_append, not_or]
      exact ⟨hheld.2 other hmem, Segments.not_mem_segment hsegment hin hne⟩
    rw [List.append_cons] at hgiven
    rw [List.append_assoc] at h
    obtain ⟨segments, rfl, hsegments⟩ := ih hgiven hlisted hstill h
    refine ⟨segment :: segments, ?_, .cons hsegment hsegments⟩
    rw [List.flatten_cons, List.append_assoc]

/-- When all given types are listed, no place is held any more. -/
theorem collectRoots_segments {roots listed result : List TypeId}
    (hgiven : ∀ id ∈ given, id ∈ listed)
    (h : roots.foldlM (fun collected id => graph.collect [.type id] collected) listed =
      .ok result) :
    ∃ segments, listed ++ segments.flatten = result ∧
      graph.Segments given listed roots segments := by
  induction roots generalizing listed with
  | nil =>
    cases h
    exact ⟨[], List.append_nil _, .nil⟩
  | cons id roots ih =>
    rw [List.foldlM_cons] at h
    obtain ⟨collected, hcollected, h⟩ := bind_eq_ok_iff.mp h
    obtain ⟨segment, rfl, hsegment⟩ := collect_preorder hcollected
    obtain ⟨segments, rfl, hsegments⟩ :=
      ih (fun other hmem => List.mem_append_left _ (hgiven other hmem)) h
    refine ⟨segment :: segments, ?_, .cons (hsegment.congr ?_) hsegments⟩
    · rw [List.flatten_cons, List.append_assoc]
    · intro other
      rw [List.mem_append, iff_self_or]
      exact fun hmem => hgiven other (List.mem_of_mem_filter hmem)

theorem collectAll_segments {roots types : List TypeId} (hnodup : given.Nodup)
    (h : graph.collectAll given roots = .ok types) :
    ∃ segments, segments.flatten = types ∧ graph.Segments given [] (given ++ roots) segments ∧
      given.Sublist types := by
  obtain ⟨collected, hcollected, h⟩ := bind_eq_ok_iff.mp h
  have hstart : distinct given = given ++ [] := by
    rw [distinct_of_nodup hnodup, List.append_nil]
  rw [hstart] at hcollected
  obtain ⟨segments, rfl, hsegments⟩ := collectGiven_segments (List.nil_append given) hnodup
    (by simp) (by simp) hcollected
  obtain ⟨segments', rfl, hsegments'⟩ :=
    collectRoots_segments (fun id hid => hsegments.mem_of_start hid) h
  refine ⟨segments ++ segments', List.flatten_append, hsegments.append hsegments', ?_⟩
  have hgiven := hsegments.sublist_flatten hnodup (List.Subset.refl _) (by simp)
  exact hgiven.trans (List.sublist_append_left ..)

/-! Schemas -/

section Schemas

variable {roots : Roots} {definition : Option SchemaDefinition} {schema : Schema}

theorem collectAll_of_assemble (h : graph.assemble given roots definition = .ok schema) :
    graph.collectAll given roots.toList = .ok schema.types := by
  unfold assemble at h
  split at h
  · cases h
  · split at h
    · cases h
    · rename_i types hcollect
      split at h
      · cases h
      · cases h
        exact hcollect

theorem interfaces_eq_nil {type : NamedType} (h : type.isObject = false) :
    type.interfaces = [] := by
  unfold NamedType.isObject at h
  unfold NamedType.interfaces
  split
  · simp_all
  · rfl

theorem flatMap_filter_of_nil {α β : Type} {items : List α} {test : α → Bool} {f : α → List β}
    (h : ∀ item, test item = false → f item = []) :
    (items.filter test).flatMap f = items.flatMap f := by
  induction items with
  | nil => rfl
  | cons item items ih =>
    cases htest : test item with
    | true => rw [List.filter_cons_of_pos htest, List.flatMap_cons, List.flatMap_cons, ih]
    | false =>
      rw [List.filter_cons_of_neg (by simp [htest]), ih, List.flatMap_cons, h item htest,
        List.nil_append]

/-- The objects that list an interface, in the order of the schema. -/
theorem Assembled.possibleTypes_eq (h : graph.Assembled given roots schema)
    (hid : id ∈ schema.types) (hinterface : (schema.type id).isInterface = true) :
    schema.possibleTypes id =
      (schema.types.filter fun object => (schema.type object).isObject).flatMap fun object =>
        List.replicate ((schema.type object).interfaces.count id) object := by
  have hpossible : schema.possibleTypes id = schema.implementations (schema.name id) := by
    unfold NamedType.isInterface at hinterface
    unfold Schema.possibleTypes
    split
    · simp_all
    · rfl
  have hobjects : ∀ object, (schema.type object).isObject = false →
      List.replicate ((schema.type object).interfaces.count id) object = [] := by
    intro object hobject
    rw [interfaces_eq_nil hobject, List.count_nil, List.replicate_zero]
  rw [hpossible, flatMap_filter_of_nil hobjects, Schema.implementations_eq]
  apply List.flatMap_congr
  intro object hobject
  -- interfaces belong to the schema, where a name is as good as the type itself
  have hsame : ∀ listed ∈ (schema.type object).interfaces,
      (schema.name listed == schema.name id) = (listed == id) := by
    intro listed hlisted
    have hreference : listed ∈ (schema.type object).references :=
      List.mem_append_left _ (List.mem_append_right _ hlisted)
    rw [Bool.eq_iff_iff, beq_iff_eq, beq_iff_eq]
    exact ⟨h.name_inj (h.closed hobject hreference) hid, congrArg schema.name⟩
  rw [List.filter_congr hsame, List.map_const', List.count, List.countP_eq_length_filter]

end Schemas

end TypeGraph

/-- The definitions of a document are the first types that its schema is made of, in their order. -/
theorem Schema.names_sublist_of_ofDefinitions {types : List TypeDefinition}
    {given : Option SchemaDefinition} {schema : Schema}
    (h : Schema.ofDefinitions types given = .ok schema) :
    (types.map (·.name.value)).Sublist (schema.types.map schema.name) := by
  obtain ⟨_, hmade⟩ := Schema.madeOf_of_ofDefinitions h
  rw [Schema.ofDefinitions_eq] at h
  obtain ⟨_, hdefinitions, h⟩ := bind_eq_ok_iff.mp h
  obtain ⟨hnamable, rfl⟩ := Definitions.ofList_eq_ok_iff.mp hdefinitions
  obtain ⟨roots, -, h⟩ := bind_eq_ok_iff.mp h
  replace h := TypeGraph.collectAll_of_assemble (mapError_eq_ok_iff.mp h)
  have hnames : ((Definitions.numbered types).names.map (·.2)).map schema.name =
      types.map (·.name.value) := by
    rw [← Definitions.names_identities 0, OrderedMap.names, List.map_map]
    apply List.map_congr_left
    intro entry hentry
    obtain ⟨position, definition, hplace, rfl⟩ := Definitions.mem_identities_iff.mp hentry
    exact hmade.name_eq (Definitions.stands_identity hplace)
  have hnodup : ((Definitions.numbered types).names.map (·.2)).Nodup := by
    apply List.Nodup.of_map schema.name
    rw [hnames]
    exact hnamable.distinct
  obtain ⟨_, -, -, hsublist⟩ := TypeGraph.collectAll_segments hnodup h
  rw [← hnames]
  exact hsublist.map schema.name

/-- The types of a schema come in segments, one for each given type and then one for each root,
which list depth first what it adds without entering types that are listed already or other given
types. A root that is listed already adds nothing. So given types keep their order, and in the
schema of a document the types keep the order of their definitions. The possible types of an
interface follow the order of the schema, each object as often as it lists the interface. -/
theorem schema_types_keep_order :
    (∀ {ε : Type} (graph : TypeGraph ε) (given : List TypeId) (roots : Roots)
      (definition : Option SchemaDefinition), given.Nodup → graph.RootsAreObjects roots →
      (∀ id, graph.Reachable (given ++ roots.toList) id → graph.Readable id) →
      ¬graph.NamesClash (given ++ roots.toList) →
      ∃ schema, graph.assemble given roots definition = .ok schema ∧
        (∀ types, schema.types = types ↔ ∃ segments, segments.flatten = types ∧
          graph.Segments given [] (given ++ roots.toList) segments) ∧
        (∀ segments, graph.Segments given [] (given ++ roots.toList) segments →
          ∀ position start, (given ++ roots.toList)[position]? = some start →
            start ∈ (segments.take position).flatten → segments[position]? = some []) ∧
        given.Sublist schema.types ∧
        ∀ id ∈ schema.types, (schema.type id).isInterface = true →
          schema.possibleTypes id =
            (schema.types.filter fun object => (schema.type object).isObject).flatMap
              fun object => List.replicate ((schema.type object).interfaces.count id) object) ∧
    ∀ (document : Document) (schema : Schema), document.schema = .ok schema →
      (document.typeDefinitions.map (·.name.value)).Sublist (schema.types.map schema.name) := by
  constructor
  · intro ε graph given roots definition hgiven hobjects hreadable hnames
    obtain ⟨schema, hok⟩ : ∃ schema, graph.assemble given roots definition = .ok schema :=
      TypeGraph.assemble_isOk_iff.mpr ⟨hobjects, hreadable, hnames⟩
    obtain ⟨segments, hflatten, hsegments, hsublist⟩ :=
      TypeGraph.collectAll_segments hgiven (TypeGraph.collectAll_of_assemble hok)
    refine ⟨schema, hok, ?_, ?_, hsublist, ?_⟩
    · intro types
      constructor
      · rintro rfl
        exact ⟨segments, hflatten, hsegments⟩
      · rintro ⟨others, rfl, hothers⟩
        rw [← hflatten, hsegments.unique hothers]
    · intro others hothers position start hstart hlisted
      exact hothers.getElem?_of_listed hstart hlisted
    · intro id hid hinterface
      exact (TypeGraph.assemble_eq_ok hok).possibleTypes_eq hid hinterface
  · intro document schema h
    exact Schema.names_sublist_of_ofDefinitions h

/-- Types in a circle, a given type that an earlier one refers to, an interface that is listed
twice, roots that are listed and one that is not; definitions that refer back and ahead and redefine
a scalar. -/
theorem schema_types_keep_order_places :
    let graph : TypeGraph Empty := [
      { type := { name := "Query", shape := .object [] [("pets", {
          type := .list (.named 2), arguments := [("key", { type := .nonNull (.named 3) })] })] } },
      { type := { name := "Node", shape := .interface [("self", { type := .named 1 })] } },
      { type := { name := "Pet", shape := .union [4, 0] } },
      { type := { name := "ID", shape := .scalar } },
      { type := { name := "Dog", shape := .object [1, 1] [("home", { type := .named 0 })] } },
      { type := { name := "Watch", shape := .object [] [("key", { type := .named 3 })] } }]
    let roots : Roots := { query := some 0, mutation := some 4, subscription := some 5 }
    let source : Source :=
      { body := "type Query\x7bb:B u:[U]\x7dscalar Int type B\x7bq:Query\x7dunion U=Query|B" }
    (∃ schema, graph.assemble [4, 2] roots = .ok schema ∧
        schema.types = [4, 1, 0, 3, 2, 5] ∧ schema.possibleTypes 1 = [4, 4]) ∧
      ∃ document schema, source.parse = .ok document ∧ document.schema = .ok schema ∧
        ["Query", "Int", "B", "U"].Sublist (schema.types.map schema.name) := by
  intro graph roots source
  constructor
  · have hobjects : graph.RootsAreObjects roots := by
      intro operation id hid
      cases operation <;> cases hid <;> rfl
    have hreadable : ∀ id part, (graph.draft id).fault part = none := by
      intro id part
      rcases id with _ | _ | _ | _ | _ | _ | _ <;> rfl
    have hclear : ¬graph.NamesClash ([4, 2] ++ roots.toList) := by
      have hclosed : ∀ id < 6, ∀ other ∈ (graph.type id).references, other < 6 := by decide
      have hstarts : ∀ start ∈ [4, 2] ++ roots.toList, start < 6 := by decide
      have hinside (id : TypeId) (hid : graph.Reachable ([4, 2] ++ roots.toList) id) : id < 6 := by
        obtain ⟨start, hstart, hpath⟩ := hid
        induction hpath with
        | refl => exact hstarts start hstart
        | tail _ hlast ih => exact hclosed _ ih _ hlast
      have hnames : ∀ first < 6, ∀ second < 6, first ≠ second →
          (graph.type first).name ≠ (graph.type second).name := by decide
      rintro ⟨first, second, hfirst, hsecond, hne, hsame⟩
      exact hnames first (hinside first hfirst) second (hinside second hsecond) hne hsame
    obtain ⟨schema, hok, hsegments, -, -, hpossible⟩ := schema_types_keep_order.1 graph [4, 2] roots
      none (by decide) hobjects (fun id _ part _ => hreadable id part) hclear
    have htypes : schema.types = [4, 1, 0, 3, 2, 5] := by
      apply (hsegments _).mpr
      -- the union is not entered from the query, since its place is held
      have hquery : graph.Preorder [2, 4, 1] [0] [0, 3] :=
        @TypeGraph.Preorder.new _ _ _ _ [3] [] _ (by decide)
          (.listed (by decide) (@TypeGraph.Preorder.new _ _ _ _ [] [] _ (by decide) .nil .nil)) .nil
      have hbelow : graph.Preorder [2, 4] [1, 1, 0] [1, 0, 3] :=
        @TypeGraph.Preorder.new _ _ _ _ [] [0, 3] _ (by decide) (.listed (by decide) .nil)
          (.listed (by decide) hquery)
      have hdog : graph.Preorder [2] [4] [4, 1, 0, 3] :=
        @TypeGraph.Preorder.new _ _ _ _ [1, 0, 3] [] _ (by decide) hbelow .nil
      have hpet : graph.Preorder [4, 1, 0, 3, 4] [2] [2] :=
        @TypeGraph.Preorder.new _ _ _ _ [] [] _ (by decide)
          (.listed (by decide) (.listed (by decide) .nil)) .nil
      have hwatch : graph.Preorder [4, 1, 0, 3, 2, 4, 2] [5] [5] :=
        @TypeGraph.Preorder.new _ _ _ _ [] [] _ (by decide) (.listed (by decide) .nil) .nil
      exact ⟨[[4, 1, 0, 3], [2], [], [], [5]], rfl, .cons hdog (.cons hpet
        (.cons (.listed (by decide) .nil) (.cons (.listed (by decide) .nil) (.cons hwatch .nil))))⟩
    refine ⟨schema, hok, htypes, ?_⟩
    have htype := (TypeGraph.assemble_eq_ok hok).type_eq
    rw [hpossible 1 (by simp [htypes]) (by rw [htype]; rfl)]
    simp only [htypes, htype]
    decide
  · have hcomputed : source.parse.toOption.any (fun document =>
        decide (Resolvable document.typeDefinitions document.schemaDefinitions.getLast?) &&
          document.typeDefinitions.map (·.name.value) == ["Query", "Int", "B", "U"]) = true := by
      decide +kernel
    obtain ⟨document, hdocument, hcomputed⟩ := exists_ok_of_toOption_any hcomputed
    obtain ⟨hresolvable, hnames⟩ := Bool.and_eq_true_iff.mp hcomputed
    obtain ⟨schema, hschema⟩ := (Schema.ofDefinitions_succeeds_iff
      (Source.regular_of_parse hdocument)).mpr (of_decide_eq_true hresolvable)
    have hsublist := schema_types_keep_order.2 document schema hschema
    rw [eq_of_beq hnames] at hsublist
    exact ⟨document, schema, hdocument, hschema, hsublist⟩

end QueryLint
