import QueryLint.Proofs.Reachability

/-!
Graphs that are read by and by. A half-read graph shows the types of a whole one, perhaps in other
places, but does not yet tell all their parts. Types are collected in both graphs in step. Where the
collection in the half-read graph stops, it has come to a part that is still to be read; if that part
of the whole graph has a fault, the collection there ends with it.
-/

namespace QueryLint

/-- The types that a part of a type refers to. -/
def NamedType.partReferences (type : NamedType) : Part → List TypeId
  | .interfaces => type.interfaces
  | .fields => type.fieldReferences
  | .types => type.members

theorem NamedType.mem_references {type : NamedType} (part : Part) {id : TypeId}
    (h : id ∈ type.partReferences part) : id ∈ type.references := by
  rw [NamedType.references, List.mem_append, List.mem_append]
  cases part with
  | interfaces => exact .inl (.inr h)
  | fields => exact .inr h
  | types => exact .inl (.inl h)

/-- Having interfaces is what makes a type an object. -/
theorem NamedType.isObject_iff_parts {type : NamedType} :
    type.isObject = true ↔ .interfaces ∈ type.shape.parts := by
  rw [NamedType.isObject]
  cases type.shape <;> simp [TypeShape.parts]

/-- The roots with other identities. -/
def Roots.rename (place : TypeId → TypeId) (roots : Roots) : Roots where
  query := roots.query.map place
  mutation := roots.mutation.map place
  subscription := roots.subscription.map place

theorem Roots.get_rename (place : TypeId → TypeId) (roots : Roots) (operation : OperationType) :
    (roots.rename place).get operation = (roots.get operation).map place := by
  cases operation <;> rfl

theorem Roots.toList_rename (place : TypeId → TypeId) (roots : Roots) :
    (roots.rename place).toList = roots.toList.map place := by
  simp only [Roots.toList, Roots.rename, List.map_append, Option.toList_map]

namespace TypeGraph

variable {ε η α β γ δ : Type}

def Errand.rename (place : TypeId → TypeId) : Errand → Errand
  | .type id => .type (place id)
  | .fields id => .fields (place id)

/-- The half-read graph shows the known types of the whole one in their places. -/
structure Shows (half : TypeGraph η) (whole : TypeGraph ε) (place : TypeId → TypeId)
    (known : TypeId → Prop) : Prop where
  injective : ∀ {id other}, known id → known other → place id = place other → id = other
  closed : ∀ {id target}, known id → target ∈ (whole.type id).references → known target
  name : ∀ {id}, known id → (half.type (place id)).name = (whole.type id).name
  parts : ∀ {id}, known id → (half.type (place id)).shape.parts = (whole.type id).shape.parts
  read : ∀ {id part}, known id → part ∈ (whole.type id).shape.parts →
    (half.draft (place id)).fault part = none →
    (whole.draft id).fault part = none ∧
      (half.type (place id)).partReferences part =
        ((whole.type id).partReferences part).map place

/-- Results that go together: related ones, or one that stops at a part of a known type, where the
other meets the fault of that part if it has one. -/
inductive Meets (half : TypeGraph η) (whole : TypeGraph ε) (place : TypeId → TypeId)
    (known : TypeId → Prop) (related : α → β → Prop) : Except η α → Except ε β → Prop where
  | ok {found : α} {other : β} (h : related found other) :
      Meets half whole place known related (.ok found) (.ok other)
  | stuck {id : TypeId} {part : Part} {error : η} {result : Except ε β} (hknown : known id)
      (hpart : part ∈ (whole.type id).shape.parts)
      (hfault : (half.draft (place id)).fault part = some error)
      (hresult : ∀ cause, (whole.draft id).fault part = some cause → result = .error cause) :
      Meets half whole place known related (.error error) result

/-- Assemblies that go together: schemas of the same known types, the same complaint, or one
assembly that stops at a part of a known type, where the other meets the fault of that part if it
has one. -/
inductive Joins (half : TypeGraph η) (whole : TypeGraph ε) (place : TypeId → TypeId)
    (known : TypeId → Prop) :
    Except (AssemblyError η) Schema → Except (AssemblyError ε) Schema → Prop where
  | made {schema other : Schema} (htypes : schema.types = other.types.map place)
      (hknown : ∀ id ∈ other.types, known id) :
      Joins half whole place known (.ok schema) (.ok other)
  | notObject (operation : OperationType) :
      Joins half whole place known (.error (.notObject operation)) (.error (.notObject operation))
  | clash (name : String) :
      Joins half whole place known (.error (.clash name)) (.error (.clash name))
  | stuck {id : TypeId} {part : Part} {error : η} {result : Except (AssemblyError ε) Schema}
      (hknown : known id) (hpart : part ∈ (whole.type id).shape.parts)
      (hfault : (half.draft (place id)).fault part = some error)
      (hresult : ∀ cause, (whole.draft id).fault part = some cause →
        result = .error (.unreadable cause)) :
      Joins half whole place known (.error (.unreadable error)) result

section Rules

variable {half : TypeGraph η} {whole : TypeGraph ε} {place : TypeId → TypeId}
  {known : TypeId → Prop} {related : α → β → Prop} {later : γ → δ → Prop}

theorem Meets.bindError {result : Except η α} {next : α → Except η γ} {error : ε}
    (h : Meets half whole place known related result (.error error)) :
    Meets half whole place known later (result >>= next) (.error error) := by
  cases h with
  | stuck hknown hpart hfault hresult =>
    refine .stuck hknown hpart hfault fun cause hcause => ?_
    cases hresult cause hcause
    rfl

theorem Meets.bindOk {result : Except η α} {next : α → Except η γ} {value : β}
    {final : Except ε δ} (h : Meets half whole place known related result (.ok value))
    (hnext : ∀ found, related found value →
      Meets half whole place known later (next found) final) :
    Meets half whole place known later (result >>= next) final := by
  cases h with
  | ok hrelated => exact hnext _ hrelated
  | stuck hknown hpart hfault hresult =>
    refine .stuck hknown hpart hfault fun cause hcause => ?_
    cases hresult cause hcause

theorem Meets.bind {result : Except η α} {other : Except ε β} {next : α → Except η γ}
    {further : β → Except ε δ} (h : Meets half whole place known related result other)
    (hnext : ∀ found value, related found value →
      Meets half whole place known later (next found) (further value)) :
    Meets half whole place known later (result >>= next) (other >>= further) := by
  cases other with
  | error error => exact h.bindError
  | ok value => exact h.bindOk fun found => hnext found value

theorem Meets.mono {related' : α → β → Prop} {result : Except η α} {other : Except ε β}
    (h : Meets half whole place known related result other)
    (himp : ∀ found value, related found value → related' found value) :
    Meets half whole place known related' result other := by
  cases h with
  | ok hrelated => exact .ok (himp _ _ hrelated)
  | stuck hknown hpart hfault hresult => exact .stuck hknown hpart hfault hresult

theorem Meets.foldlM {σ τ : Type} {step : σ → γ → Except η σ} {stride : τ → δ → Except ε τ}
    {same : σ → τ → Prop} {given : γ → δ → Prop} {items : List γ} {others : List δ}
    (hitems : List.Forall₂ given items others)
    (h : ∀ state other item found, given item found → same state other →
      Meets half whole place known same (step state item) (stride other found))
    {state : σ} {other : τ} (hstate : same state other) :
    Meets half whole place known same (items.foldlM step state) (others.foldlM stride other) := by
  induction hitems generalizing state other with
  | nil => exact .ok hstate
  | cons hitem _ ih =>
    rw [List.foldlM_cons, List.foldlM_cons]
    exact (h _ _ _ _ hitem hstate).bind fun state other hstate => ih hstate

end Rules

/-! Steps of the collection -/

section Steps

variable (graph : TypeGraph ε)

/-- A new type asks for what its upper parts refer to, and for its fields if it can have any. -/
theorem expand_eq_do (id : TypeId) :
    graph.expand id = (do
      let upper := (graph.type id).shape.parts.filter (· ≠ .fields)
      upper.forM (graph.check id)
      return (upper.flatMap (graph.type id).partReferences).map .type ++
        if .fields ∈ (graph.type id).shape.parts then [.fields id] else []) := by
  unfold expand
  cases hshape : (graph.type id).shape with
  | union | object =>
    simp [TypeShape.parts, NamedType.partReferences, NamedType.members, NamedType.interfaces,
      hshape, List.forM_eq_forM]
  | _ => rfl

theorem collect_type {id : TypeId} {collected : List TypeId} (h : id ∉ collected)
    (later : List Errand) :
    graph.collect (.type id :: later) collected =
      graph.expand id >>= fun errands => graph.collect (errands ++ later) (collected ++ [id]) := by
  rw [collect, dif_neg h]
  split
  case h_1 error hexpand =>
    rw [hexpand]
    rfl
  case h_2 errands hexpand =>
    rw [hexpand]
    rfl

theorem collect_fields (id : TypeId) (collected : List TypeId) (later : List Errand) :
    graph.collect (.fields id :: later) collected =
      graph.expandFields id >>= fun errands => graph.collect (errands ++ later) collected := by
  rw [collect]
  split
  case h_1 error hexpand =>
    rw [hexpand]
    rfl
  case h_2 errands hexpand =>
    rw [hexpand]
    rfl

end Steps

/-! Collections in step -/

/-- The errand is about a known type. -/
def Concerns (graph : TypeGraph ε) (known : TypeId → Prop) : Errand → Prop
  | .type id => known id
  | .fields id => known id ∧ .fields ∈ (graph.type id).shape.parts

/-- The same known types in their places. -/
def Placed (place : TypeId → TypeId) (known : TypeId → Prop) (ids others : List TypeId) : Prop :=
  ids = others.map place ∧ ∀ id ∈ others, known id

section Collections

variable {half : TypeGraph η} {whole : TypeGraph ε} {place : TypeId → TypeId}
  {known : TypeId → Prop} (h : half.Shows whole place known) {id : TypeId}

include h

theorem Shows.mem_map_iff (hid : known id) {ids : List TypeId} (hids : ∀ id ∈ ids, known id) :
    place id ∈ ids.map place ↔ id ∈ ids := by
  constructor
  · intro hmem
    obtain ⟨other, hother, hsame⟩ := List.mem_map.mp hmem
    rwa [← h.injective (hids other hother) hid hsame]
  · exact List.mem_map_of_mem

theorem Shows.check_meets (hid : known id) {part : Part}
    (hpart : part ∈ (whole.type id).shape.parts) :
    Meets half whole place known
      (fun _ _ => (half.type (place id)).partReferences part =
        ((whole.type id).partReferences part).map place)
      (half.check (place id) part) (whole.check id part) := by
  cases hfault : (half.draft (place id)).fault part with
  | some error =>
    rw [check_eq_error_iff.mpr hfault]
    exact .stuck hid hpart hfault fun cause hcause => check_eq_error_iff.mpr hcause
  | none =>
    obtain ⟨hwhole, hreferences⟩ := h.read hid hpart hfault
    rw [check_eq_ok_iff.mpr hfault, check_eq_ok_iff.mpr hwhole]
    exact .ok hreferences

theorem Shows.forM_check_meets (hid : known id) {parts : List Part}
    (hparts : ∀ part ∈ parts, part ∈ (whole.type id).shape.parts) :
    Meets half whole place known
      (fun _ _ => parts.flatMap (half.type (place id)).partReferences =
        (parts.flatMap (whole.type id).partReferences).map place)
      (parts.forM (half.check (place id))) (parts.forM (whole.check id)) := by
  rw [List.forM_eq_forM, List.forM_eq_forM]
  induction parts with
  | nil => exact .ok rfl
  | cons part parts ih =>
    rw [List.forall_mem_cons] at hparts
    rw [List.forM_cons, List.forM_cons]
    refine (h.check_meets hid hparts.1).bind fun _ _ hpart => ?_
    refine (ih hparts.2).mono fun _ _ hrest => ?_
    rw [List.flatMap_cons, List.flatMap_cons, List.map_append, hpart, hrest]

/-- A known type brings along the same errands in both graphs. -/
theorem Shows.expand_meets (hid : known id) :
    Meets half whole place known
      (fun errands others => errands = others.map (Errand.rename place) ∧
        ∀ errand ∈ others, whole.Concerns known errand)
      (half.expand (place id)) (whole.expand id) := by
  rw [expand_eq_do, expand_eq_do, h.parts hid]
  have hupper : ∀ part ∈ (whole.type id).shape.parts.filter (· ≠ .fields),
      part ∈ (whole.type id).shape.parts := fun part hpart => (List.mem_filter.mp hpart).1
  refine (h.forM_check_meets hid hupper).bind fun _ _ hreferences => .ok ⟨?_, ?_⟩
  · rw [hreferences, List.map_append, List.map_map, List.map_map]
    split <;> rfl
  · intro errand herrand
    rcases List.mem_append.mp herrand with hnew | hfields
    · obtain ⟨other, hother, rfl⟩ := List.mem_map.mp hnew
      obtain ⟨part, -, hmem⟩ := List.mem_flatMap.mp hother
      exact h.closed hid (NamedType.mem_references part hmem)
    · split at hfields
      · rw [List.mem_singleton] at hfields
        subst hfields
        exact ⟨hid, ‹_›⟩
      · cases hfields

theorem Shows.expandFields_meets (hid : known id)
    (hfields : .fields ∈ (whole.type id).shape.parts) :
    Meets half whole place known
      (fun errands others => errands = others.map (Errand.rename place) ∧
        ∀ errand ∈ others, whole.Concerns known errand)
      (half.expandFields (place id)) (whole.expandFields id) := by
  refine (h.check_meets hid hfields).bind fun _ _ hreferences => .ok ⟨?_, ?_⟩
  · rw [List.map_map]
    exact (congrArg (List.map Errand.type) hreferences).trans List.map_map
  · intro errand herrand
    obtain ⟨other, hother, rfl⟩ := List.mem_map.mp herrand
    exact h.closed hid (NamedType.mem_references .fields hother)

/-- The collections go in step until one stops at a part that is still to be read. -/
theorem Shows.collect_meets (errands : List Errand) (collected : List TypeId)
    (herrands : ∀ errand ∈ errands, whole.Concerns known errand)
    (hcollected : ∀ id ∈ collected, known id) :
    Meets half whole place known (Placed place known)
      (half.collect (errands.map (Errand.rename place)) (collected.map place))
      (whole.collect errands collected) := by
  fun_induction whole.collect errands collected with
  | case1 collected =>
    rw [List.map_nil, collect]
    exact .ok ⟨rfl, hcollected⟩
  | case2 collected id later hmem ih =>
    rw [List.forall_mem_cons] at herrands
    rw [List.map_cons, Errand.rename, collect, dif_pos (List.mem_map_of_mem hmem)]
    exact ih herrands.2 hcollected
  | case3 collected id later hnew error hexpand =>
    have hid : known id := herrands (.type id) List.mem_cons_self
    have hmeets := h.expand_meets hid
    rw [hexpand] at hmeets
    rw [List.map_cons, Errand.rename,
      half.collect_type (mt (h.mem_map_iff hid hcollected).mp hnew)]
    exact hmeets.bindError
  | case4 collected id later hnew errands hexpand ih =>
    rw [List.forall_mem_cons] at herrands
    have hmeets := h.expand_meets herrands.1
    rw [hexpand] at hmeets
    rw [List.map_cons, Errand.rename,
      half.collect_type (mt (h.mem_map_iff herrands.1 hcollected).mp hnew)]
    refine hmeets.bindOk ?_
    rintro _ ⟨rfl, hconcerns⟩
    have hrest := ih (List.forall_mem_append.mpr ⟨hconcerns, herrands.2⟩)
      (List.forall_mem_append.mpr ⟨hcollected, List.forall_mem_singleton.mpr herrands.1⟩)
    rw [List.map_append, List.map_append] at hrest
    exact hrest
  | case5 collected id later error hexpand =>
    obtain ⟨hid, hfields⟩ : whole.Concerns known (.fields id) := herrands _ List.mem_cons_self
    have hmeets := h.expandFields_meets hid hfields
    rw [hexpand] at hmeets
    rw [List.map_cons, Errand.rename, collect_fields]
    exact hmeets.bindError
  | case6 collected id later errands hexpand ih =>
    rw [List.forall_mem_cons] at herrands
    have hmeets := h.expandFields_meets herrands.1.1 herrands.1.2
    rw [hexpand] at hmeets
    rw [List.map_cons, Errand.rename, collect_fields]
    refine hmeets.bindOk ?_
    rintro _ ⟨rfl, hconcerns⟩
    have hrest := ih (List.forall_mem_append.mpr ⟨hconcerns, herrands.2⟩) hcollected
    rw [List.map_append] at hrest
    exact hrest

theorem Shows.collectGiven_meets {collected others : List TypeId} (hid : known id)
    (hplaced : Placed place known collected others) :
    Meets half whole place known (Placed place known)
      (half.collectGiven collected (place id)) (whole.collectGiven others id) := by
  obtain ⟨rfl, hothers⟩ := hplaced
  have hfilter : (others.map place).filter (· != place id) =
      (others.filter (· != id)).map place := by
    rw [List.filter_map]
    refine congrArg (List.map place) (List.filter_congr fun other hother => ?_)
    rw [Bool.eq_iff_iff, Function.comp_apply, bne_iff_ne, bne_iff_ne]
    exact not_congr ⟨h.injective (hothers other hother) hid, congrArg place⟩
  rw [collectGiven, hfilter]
  exact h.collect_meets [.type id] _ (List.forall_mem_singleton.mpr hid)
    fun other hother => hothers other (List.mem_filter.mp hother).1

theorem Shows.distinct_map {ids : List TypeId} (hids : ∀ id ∈ ids, known id) :
    distinct (ids.map place) = (distinct ids).map place := by
  have hrun (seen : List TypeId) (hseen : ∀ id ∈ seen, known id) :
      (ids.map place).foldl (fun seen id => if id ∈ seen then seen else seen ++ [id])
        (seen.map place) =
      (ids.foldl (fun seen id => if id ∈ seen then seen else seen ++ [id]) seen).map place := by
    induction ids generalizing seen with
    | nil => rfl
    | cons id ids ih =>
      rw [List.forall_mem_cons] at hids
      rw [List.map_cons, List.foldl_cons, List.foldl_cons]
      by_cases hmem : id ∈ seen
      · rw [if_pos hmem, if_pos (List.mem_map_of_mem hmem)]
        exact ih hids.2 seen hseen
      · have hnext := ih hids.2 (seen ++ [id])
          (List.forall_mem_append.mpr ⟨hseen, List.forall_mem_singleton.mpr hids.1⟩)
        rw [if_neg hmem, if_neg (mt (h.mem_map_iff hids.1 hseen).mp hmem)]
        rwa [List.map_append] at hnext
  exact hrun [] (by simp)

/-- What given types and roots bring along is the same in both graphs. -/
theorem Shows.collectAll_meets {given roots : List TypeId} (hgiven : ∀ id ∈ given, known id)
    (hroots : ∀ id ∈ roots, known id) :
    Meets half whole place known (Placed place known)
      (half.collectAll (given.map place) (roots.map place)) (whole.collectAll given roots) := by
  have hplaces (ids : List TypeId) (hids : ∀ id ∈ ids, known id) :
      List.Forall₂ (fun id other => id = place other ∧ known other) (ids.map place) ids :=
    List.forall₂_map_left_iff.mpr (List.forall₂_same.mpr fun id hid => ⟨rfl, hids id hid⟩)
  have hstart : Placed place known (distinct (given.map place)) (distinct given) :=
    ⟨h.distinct_map hgiven, fun id hid => hgiven id (((distinct_spec given).2 id).mp hid)⟩
  refine (Meets.foldlM (hplaces given hgiven) ?_ hstart).bind fun collected others hplaced =>
    Meets.foldlM (hplaces roots hroots) ?_ hplaced
  · rintro collected others _ id ⟨rfl, hid⟩ hplaced
    exact h.collectGiven_meets hid hplaced
  · rintro _ others _ id ⟨rfl, hid⟩ ⟨rfl, hothers⟩
    exact h.collect_meets [.type id] others (List.forall_mem_singleton.mpr hid) hothers

theorem Shows.clash?_eq {ids : List TypeId} (hids : ∀ id ∈ ids, known id) (names : List String) :
    half.clash? names (ids.map place) = whole.clash? names ids := by
  induction ids generalizing names with
  | nil => rfl
  | cons id ids ih =>
    rw [List.forall_mem_cons] at hids
    rw [List.map_cons, clash?, clash?, h.name hids.1, ih hids.2]

theorem Shows.isObject_eq (hid : known id) :
    (half.type (place id)).isObject = (whole.type id).isObject := by
  rw [Bool.eq_iff_iff, NamedType.isObject_iff_parts, NamedType.isObject_iff_parts, h.parts hid]

/-- Schemas are assembled from both graphs in step. -/
theorem Shows.assemble_joins {given : List TypeId} {roots : Roots}
    (hgiven : ∀ id ∈ given, known id) (hroots : ∀ operation, ∀ id ∈ roots.get operation, known id)
    (definition : Option SchemaDefinition) :
    Joins half whole place known (half.assemble (given.map place) (roots.rename place))
      (whole.assemble given roots definition) := by
  have hobjects (operation : OperationType) :
      (((roots.rename place).get operation).any fun id => !(half.type id).isObject) =
        (roots.get operation).any fun id => !(whole.type id).isObject := by
    rw [Roots.get_rename]
    cases hroot : roots.get operation with
    | none => rfl
    | some id => simp [h.isObject_eq (hroots operation id hroot)]
  have hstarts : ∀ id ∈ roots.toList, known id := by
    intro id hid
    simp only [Roots.toList, List.mem_append, Option.mem_toList, or_assoc] at hid
    rcases hid with hid | hid | hid
    · exact hroots .query id hid
    · exact hroots .mutation id hid
    · exact hroots .subscription id hid
  have hcollect := h.collectAll_meets hgiven hstarts
  rw [assemble, assemble, funext hobjects, Roots.toList_rename]
  cases OperationType.all.find? _ with
  | some operation => exact .notObject operation
  | none =>
    generalize half.collectAll (given.map place) (roots.toList.map place) = found at hcollect
    generalize whole.collectAll given roots.toList = other at hcollect
    cases hcollect with
    | stuck hknown hpart hfault hresult =>
      refine .stuck hknown hpart hfault fun cause hcause => ?_
      rw [hresult cause hcause]
    | ok hplaced =>
      obtain ⟨rfl, hknown⟩ := hplaced
      dsimp only
      rw [h.clash?_eq hknown]
      cases whole.clash? [] _ with
      | some name => exact .clash name
      | none => exact .made rfl hknown

end Collections

end TypeGraph

end QueryLint
