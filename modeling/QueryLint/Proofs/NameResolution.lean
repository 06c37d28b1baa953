import Mathlib.Data.List.Induction
import QueryLint.Proofs.ParsedTypes
import QueryLint.Proofs.Reachability

/-!
Which names in type definitions resolve. A name stands for a built-in scalar or else for the one
definition of that name, and each part of a definition can be made up exactly if the names in it
may be used and stand for types of the right kind. What a part refers to is always something that
a name stands for.
-/

namespace QueryLint

/-! Names and where definitions use them -/

def builtInNames : List String := ["String", "Int", "Float", "Boolean", "ID"]

/-- Two underscores in front of a name are reserved. -/
def IsReserved (name : String) : Prop := ['_', '_'] <+: name.toList

/-- The name below all modifiers. -/
def TypeExpr.baseName : TypeExpr → String
  | .named type => type.name.value
  | .list item _ | .nonNull item _ => item.baseName

/-- A definition under the name of a built-in scalar is passed over. -/
def TypeDefinition.IsLive (definition : TypeDefinition) : Prop :=
  definition.name.value ∉ builtInNames

/-! Computations that give a result -/

section Results

variable {ε ε' α β ι σ : Type}

def Succeeds (outcome : Except ε α) : Prop := ∃ result, outcome = .ok result

theorem succeeds_ok (result : α) : Succeeds (.ok result : Except ε α) := ⟨result, rfl⟩

theorem bind_eq_ok_iff {outcome : Except ε α} {next : α → Except ε β} {final : β} :
    (outcome >>= next) = .ok final ↔ ∃ result, outcome = .ok result ∧ next result = .ok final := by
  cases outcome with
  | error error =>
    constructor
    · intro h
      cases h
    · rintro ⟨_, h, -⟩
      cases h
  | ok result =>
    constructor
    · intro h
      exact ⟨result, rfl, h⟩
    · rintro ⟨_, h, hnext⟩
      cases h
      exact hnext

theorem bind_succeeds_iff {outcome : Except ε α} {next : α → Except ε β} :
    Succeeds (outcome >>= next) ↔ ∃ result, outcome = .ok result ∧ Succeeds (next result) := by
  simp only [Succeeds, bind_eq_ok_iff]
  constructor
  · rintro ⟨final, result, hresult, hfinal⟩
    exact ⟨result, hresult, final, hfinal⟩
  · rintro ⟨result, hresult, final, hfinal⟩
    exact ⟨final, result, hresult, hfinal⟩

theorem check_bind_eq_ok_iff {check : Except ε Unit} {next : Unit → Except ε β} {final : β} :
    (check >>= next) = .ok final ↔ Succeeds check ∧ next () = .ok final := by
  rw [bind_eq_ok_iff]
  constructor
  · rintro ⟨_, hcheck, hnext⟩
    exact ⟨⟨_, hcheck⟩, hnext⟩
  · rintro ⟨⟨_, hcheck⟩, hnext⟩
    exact ⟨_, hcheck, hnext⟩

theorem check_bind_succeeds_iff {check : Except ε Unit} {next : Unit → Except ε β} :
    Succeeds (check >>= next) ↔ Succeeds check ∧ Succeeds (next ()) := by
  simp only [Succeeds, check_bind_eq_ok_iff, exists_and_left]

theorem mapError_eq_ok_iff {outcome : Except ε α} {wrap : ε → ε'} {result : α} :
    outcome.mapError wrap = .ok result ↔ outcome = .ok result := by
  cases outcome <;> simp [Except.mapError]

theorem mapError_succeeds_iff {outcome : Except ε α} {wrap : ε → ε'} :
    Succeeds (outcome.mapError wrap) ↔ Succeeds outcome :=
  exists_congr fun _ => mapError_eq_ok_iff

theorem map_eq_ok_iff {outcome : Except ε α} {f : α → β} {final : β} :
    f <$> outcome = .ok final ↔ ∃ result, outcome = .ok result ∧ f result = final := by
  cases outcome <;> simp [Functor.map, Except.map]

theorem map_succeeds_iff {outcome : Except ε α} {f : α → β} :
    Succeeds (f <$> outcome) ↔ Succeeds outcome := by
  cases outcome <;> simp [Succeeds, Functor.map, Except.map]

theorem forM_succeeds_iff {check : ι → Except ε Unit} {items : List ι} :
    Succeeds (items.forM check) ↔ ∀ item ∈ items, Succeeds (check item) := by
  induction items with
  | nil => simp [succeeds_ok, pure, Except.pure]
  | cons item items ih =>
    rw [List.forM_eq_forM] at ih ⊢
    rw [List.forM_cons, check_bind_succeeds_iff, List.forall_mem_cons, ih]

theorem mapM_cons_eq_ok_iff {f : ι → Except ε α} {item : ι} {items : List ι} {results : List α} :
    (item :: items).mapM f = .ok results ↔
      ∃ a others, f item = .ok a ∧ items.mapM f = .ok others ∧ a :: others = results := by
  simp only [List.mapM_cons, bind_eq_ok_iff, pure, Except.pure, Except.ok.injEq]
  constructor
  · rintro ⟨a, ha, others, hothers, h⟩
    exact ⟨a, others, ha, hothers, h⟩
  · rintro ⟨a, others, ha, hothers, h⟩
    exact ⟨a, ha, others, hothers, h⟩

theorem mapM_forall_iff {f : ι → Except ε α} {passes : α → Prop} {items : List ι} :
    (∃ results, items.mapM f = .ok results ∧ ∀ a ∈ results, passes a) ↔
      ∀ item ∈ items, ∃ a, f item = .ok a ∧ passes a := by
  induction items with
  | nil => simp [pure, Except.pure]
  | cons item items ih =>
    rw [List.forall_mem_cons, ← ih]
    simp only [mapM_cons_eq_ok_iff]
    constructor
    · rintro ⟨_, ⟨a, others, ha, hothers, rfl⟩, hall⟩
      obtain ⟨hfirst, hrest⟩ := List.forall_mem_cons.mp hall
      exact ⟨⟨a, ha, hfirst⟩, others, hothers, hrest⟩
    · rintro ⟨⟨a, ha, hfirst⟩, others, hothers, hrest⟩
      exact ⟨_, ⟨a, others, ha, hothers, rfl⟩, List.forall_mem_cons.mpr ⟨hfirst, hrest⟩⟩

theorem exists_of_mem_mapM {f : ι → Except ε α} {items : List ι} {results : List α}
    (h : items.mapM f = .ok results) {a : α} (ha : a ∈ results) :
    ∃ item ∈ items, f item = .ok a := by
  induction items generalizing results with
  | nil =>
    cases h
    cases ha
  | cons item items ih =>
    obtain ⟨first, others, hfirst, hothers, rfl⟩ := mapM_cons_eq_ok_iff.mp h
    rcases List.mem_cons.mp ha with rfl | hlater
    · exact ⟨item, List.mem_cons_self, hfirst⟩
    · obtain ⟨other, hother, hvalue⟩ := ih hothers hlater
      exact ⟨other, List.mem_cons_of_mem item hother, hvalue⟩

/-- Results that must all pass a test. -/
theorem tested_eq_ok_iff {outcome : Except ε (List α)} {test : α → Bool} {refusal : ε}
    {results : List α} :
    (outcome >>= fun found => if found.all test then pure found else throw refusal) = .ok results ↔
      outcome = .ok results ∧ ∀ a ∈ results, test a = true := by
  rw [bind_eq_ok_iff]
  constructor
  · rintro ⟨found, hfound, htested⟩
    by_cases hall : found.all test = true
    · rw [if_pos hall] at htested
      cases htested
      exact ⟨hfound, List.all_eq_true.mp hall⟩
    · rw [if_neg hall] at htested
      cases htested
  · rintro ⟨hfound, hall⟩
    refine ⟨results, hfound, ?_⟩
    rw [if_pos (List.all_eq_true.mpr hall)]
    rfl

/-- The values of the items, each put into the state in turn. -/
def accumulate (put : σ → ι → α → σ) (value : ι → Except ε α) (start : σ) (items : List ι) :
    Except ε σ :=
  items.foldlM (fun state item => put state item <$> value item) start

section Accumulated

variable {put : σ → ι → α → σ} {value : ι → Except ε α} {start final : σ} {items : List ι}

theorem accumulate_append_eq_ok_iff {item : ι} :
    accumulate put value start (items ++ [item]) = .ok final ↔ ∃ before a,
      accumulate put value start items = .ok before ∧ value item = .ok a ∧
        put before item a = final := by
  rw [accumulate, List.foldlM_append, ← accumulate]
  simp only [List.foldlM_cons, List.foldlM_nil, bind_pure, bind_eq_ok_iff, map_eq_ok_iff,
    exists_and_left]

theorem accumulate_succeeds_iff :
    Succeeds (accumulate put value start items) ↔ ∀ item ∈ items, Succeeds (value item) := by
  induction items using List.reverseRecOn with
  | nil => exact iff_of_true (succeeds_ok start) (by simp)
  | append_singleton items item ih =>
    simp only [List.mem_append, List.mem_singleton, or_imp, forall_and, forall_eq, ← ih]
    constructor
    · rintro ⟨final, h⟩
      obtain ⟨before, a, hbefore, ha, -⟩ := accumulate_append_eq_ok_iff.mp h
      exact ⟨⟨before, hbefore⟩, a, ha⟩
    · rintro ⟨⟨before, hbefore⟩, a, ha⟩
      exact ⟨_, accumulate_append_eq_ok_iff.mpr ⟨before, a, hbefore, ha, rfl⟩⟩

end Accumulated

end Results

/-! Maps made up item by item -/

namespace OrderedMap

variable {ε α ι : Type} (key : ι → String) (value : ι → Except ε α)

/-- The values of the items, each put under its name in turn. -/
def build : List ι → Except ε (OrderedMap α) :=
  accumulate (fun map item a => map.insert (key item) a) value []

/-- The map has the names of the items, and values that items have. -/
structure MadeOf (items : List ι) (map : OrderedMap α) : Prop where
  names : ∀ name, name ∈ map.names ↔ ∃ item ∈ items, key item = name
  entries : ∀ entry ∈ map, ∃ item ∈ items, value item = .ok entry.2

variable {key value} {items : List ι} {map : OrderedMap α}

theorem MadeOf.insert (h : map.MadeOf key value items) {item : ι} {a : α}
    (ha : value item = .ok a) : (map.insert (key item) a).MadeOf key value (items ++ [item]) := by
  constructor
  · intro name
    rw [mem_names_insert, h.names]
    simp only [List.mem_append, List.mem_singleton, or_and_right, exists_or, exists_eq_left]
    rw [eq_comm]
    exact or_comm
  · intro entry hentry
    rcases eq_or_mem_of_mem_insert hentry with rfl | hold
    · exact ⟨item, by simp, ha⟩
    · obtain ⟨other, hother, hvalue⟩ := h.entries entry hold
      exact ⟨other, List.mem_append_left _ hother, hvalue⟩

theorem madeOf_of_build (h : build key value items = .ok map) : map.MadeOf key value items := by
  induction items using List.reverseRecOn generalizing map with
  | nil =>
    cases h
    exact ⟨by simp [names], by simp⟩
  | append_singleton items item ih =>
    obtain ⟨before, a, hbefore, ha, rfl⟩ := accumulate_append_eq_ok_iff.mp h
    exact (ih hbefore).insert ha

theorem build_succeeds_iff :
    Succeeds (build key value items) ↔ ∀ item ∈ items, Succeeds (value item) :=
  accumulate_succeeds_iff

end OrderedMap

/-! Names that may be used -/

theorem IsName.not_mem_newline {name : String} (h : IsName name) :
    .scalar '\n' ∉ Text.ofString name := by
  obtain ⟨first, rest, htext, hfirst, hrest⟩ := h
  rw [htext]
  intro hmem
  rcases List.mem_cons.mp hmem with rfl | hlater
  · revert hfirst
    decide
  · have hpoint := List.all_eq_true.mp hrest _ hlater
    revert hpoint
    decide

theorem IsName.isName_ofString {name : String} (h : IsName name) :
    (Text.ofString name).isName = true := by
  have hnewline : (Text.ofString name).getLast? ≠ some (.scalar '\n') := fun hlast =>
    h.not_mem_newline (List.mem_of_getLast? hlast)
  obtain ⟨first, rest, htext, hfirst, hrest⟩ := h
  rw [Text.isName, Text.dropFinalNewline, if_neg hnewline, htext]
  simp only [hfirst, hrest, Bool.and_self]

theorem isReserved_ofString_iff {name : String} :
    (Text.ofString name).isReserved = true ↔ IsReserved name := by
  have hpair : ([.scalar '_', .scalar '_'] : Text) = ['_', '_'].map .scalar := rfl
  have hinj : Function.Injective CodePoint.scalar := fun _ _ h => CodePoint.scalar.inj h
  rw [Text.isReserved, beq_iff_eq, Text.ofString, ← List.map_take, hpair,
    (List.map_injective_iff.mpr hinj).eq_iff, IsReserved, List.prefix_iff_eq_take, eq_comm]
  rfl

theorem checkName_succeeds_iff {name : String} (h : IsName name) :
    Succeeds (checkName name) ↔ ¬IsReserved name := by
  rw [← isReserved_ofString_iff, checkName, h.isName_ofString]
  cases (Text.ofString name).isReserved <;> simp [Succeeds]

theorem TypeDefinition.checkNames_succeeds_iff (definition : TypeDefinition) :
    Succeeds definition.checkNames ↔ Succeeds (checkName definition.name.value) ∧
      ∀ value ∈ definition.body.values, Succeeds (checkName value.name.value) := by
  rw [checkNames, check_bind_succeeds_iff, and_congr_right_iff]
  intro _
  cases definition.body with
  | enum values => exact forM_succeeds_iff
  | _ => exact iff_of_true (succeeds_ok ()) (by simp [TypeBody.values])

/-! What names stand for -/

theorem Standard.scalar?_eq_none_iff {name : String} :
    Standard.scalar? name = none ↔ name ∉ builtInNames := by
  have hnames : builtInNames = Standard.scalars.map fun id => (Standard.types.type id).name := rfl
  rw [Standard.scalar?, List.find?_eq_none, hnames, List.mem_map]
  simp only [beq_iff_eq, not_exists, not_and]

theorem Standard.mem_scalars_of_scalar? {name : String} {id : TypeId}
    (h : Standard.scalar? name = some id) :
    id ∈ Standard.scalars ∧ (Standard.types.type id).name = name := by
  have hname := List.find?_some h
  exact ⟨List.mem_of_find?_eq_some h, by simpa using hname⟩

/-- The name is that of a built-in scalar or of a definition. -/
def Known (types : List TypeDefinition) (name : String) : Prop :=
  name ∈ builtInNames ∨ ∃ definition ∈ types, definition.name.value = name

/-- What a name stands for: a built-in scalar, or else a definition in its place. -/
inductive Stands (types : List TypeDefinition) (name : String) : TypeId → Prop where
  | scalar {id : TypeId} (hscalar : Standard.scalar? name = some id) : Stands types name id
  | defined {position : Nat} {definition : TypeDefinition} (hlive : definition.IsLive)
      (hname : definition.name.value = name) (hplace : types[position]? = some definition) :
      Stands types name (Standard.types.length + position)

namespace Definitions

/-- The identity of the definition in a position. -/
def identity (definition : TypeDefinition) (position : Nat) : TypeId :=
  (Standard.scalar? definition.name.value).getD (Standard.types.length + position)

theorem identity_of_live {definition : TypeDefinition} (hlive : definition.IsLive)
    (position : Nat) : identity definition position = Standard.types.length + position := by
  rw [identity, Standard.scalar?_eq_none_iff.mpr hlive, Option.getD_none]

theorem stands_identity {types : List TypeDefinition} {position : Nat}
    {definition : TypeDefinition} (hplace : types[position]? = some definition) :
    Stands types definition.name.value (identity definition position) := by
  by_cases hlive : definition.IsLive
  · rw [identity_of_live hlive]
    exact .defined hlive rfl hplace
  · obtain ⟨id, hscalar⟩ := Option.ne_none_iff_exists'.mp (mt Standard.scalar?_eq_none_iff.mp hlive)
    rw [identity, hscalar]
    exact .scalar hscalar

/-- The identities under their names. -/
def identities (position : Nat) (types : List TypeDefinition) : OrderedMap TypeId :=
  (types.zipIdx position).map fun entry => (entry.1.name.value, identity entry.1 entry.2)

/-- The definitions with their identities. -/
def numbered (types : List TypeDefinition) : Definitions := ⟨types, identities 0 types⟩

theorem names_identities (position : Nat) (types : List TypeDefinition) :
    (identities position types).names = types.map (·.name.value) := by
  induction types generalizing position with
  | nil => rfl
  | cons definition types ih =>
    have hrest := ih (position + 1)
    simp only [OrderedMap.names, identities] at hrest ⊢
    simp [List.zipIdx_cons, hrest]

/-- One definition is named. -/
theorem nameAll_cons_eq_ok_iff {position : Nat} {names result : OrderedMap TypeId}
    {definition : TypeDefinition} {types : List TypeDefinition} :
    nameAll position names (definition :: types) = .ok result ↔
      (definition.name.value ∉ names.names ∧ (definition.IsLive → Succeeds definition.checkNames)) ∧
        nameAll (position + 1) (names ++ [(definition.name.value, identity definition position)])
          types = .ok result := by
  by_cases hold : definition.name.value ∈ names.names
  · refine iff_of_false ?_ fun h => h.1.1 hold
    rw [nameAll, if_pos (OrderedMap.contains_iff.mpr hold)]
    intro h
    cases h
  · have hfresh : ¬names.contains definition.name.value = true :=
      fun h => hold (OrderedMap.contains_iff.mp h)
    rw [nameAll, if_neg hfresh]
    simp only [OrderedMap.insert_of_not_mem hold, hold, not_false_eq_true, true_and]
    cases hscalar : Standard.scalar? definition.name.value with
    | some id =>
      have hdead : ¬definition.IsLive := by
        intro hlive
        rw [Standard.scalar?_eq_none_iff.mpr hlive] at hscalar
        cases hscalar
      simp [identity, hscalar, hdead]
    | none =>
      have hlive : definition.IsLive := Standard.scalar?_eq_none_iff.mp hscalar
      simp only [check_bind_eq_ok_iff, mapError_succeeds_iff, identity, hscalar, hlive,
        forall_true_left, Option.getD_none]

/-- The definitions can be named: no name is repeated, and live ones may have their names. -/
structure Namable (names : List String) (types : List TypeDefinition) : Prop where
  distinct : (types.map (·.name.value)).Nodup
  fresh : ∀ definition ∈ types, definition.name.value ∉ names
  checked : ∀ definition ∈ types, definition.IsLive → Succeeds definition.checkNames

theorem namable_cons_iff {names : List String} {definition : TypeDefinition}
    {types : List TypeDefinition} :
    Namable names (definition :: types) ↔
      (definition.name.value ∉ names ∧ (definition.IsLive → Succeeds definition.checkNames)) ∧
        Namable (names ++ [definition.name.value]) types := by
  constructor
  · rintro ⟨hdistinct, hfresh, hchecked⟩
    rw [List.map_cons, List.nodup_cons] at hdistinct
    rw [List.forall_mem_cons] at hfresh hchecked
    refine ⟨⟨hfresh.1, hchecked.1⟩, hdistinct.2, ?_, hchecked.2⟩
    intro other hother hmem
    rcases List.mem_append.mp hmem with hold | hsame
    · exact hfresh.2 other hother hold
    · apply hdistinct.1
      rw [← List.mem_singleton.mp hsame]
      exact List.mem_map_of_mem hother
  · rintro ⟨⟨hfirst, hchecked⟩, hrest⟩
    refine ⟨?_, ?_, List.forall_mem_cons.mpr ⟨hchecked, hrest.checked⟩⟩
    · rw [List.map_cons, List.nodup_cons]
      refine ⟨?_, hrest.distinct⟩
      intro hmem
      obtain ⟨other, hother, hsame⟩ := List.mem_map.mp hmem
      exact hrest.fresh other hother (by simp [hsame])
    · refine List.forall_mem_cons.mpr ⟨hfirst, fun other hother hmem => ?_⟩
      exact hrest.fresh other hother (List.mem_append_left _ hmem)

theorem nameAll_eq_ok_iff {position : Nat} {names result : OrderedMap TypeId}
    {types : List TypeDefinition} :
    nameAll position names types = .ok result ↔
      Namable names.names types ∧ names ++ identities position types = result := by
  induction types generalizing position names with
  | nil =>
    have hnil : Namable names.names [] := ⟨List.nodup_nil, by simp, by simp⟩
    simp [nameAll, identities, hnil]
  | cons definition types ih =>
    have hnames (id : TypeId) : OrderedMap.names (names ++ [(definition.name.value, id)]) =
        names.names ++ [definition.name.value] := by
      simp [OrderedMap.names]
    rw [nameAll_cons_eq_ok_iff, ih, namable_cons_iff, hnames, and_assoc, and_assoc, and_assoc,
      List.append_assoc]
    simp [identities, List.zipIdx_cons]

theorem ofList_eq_ok_iff {types : List TypeDefinition} {definitions : Definitions} :
    ofList types = .ok definitions ↔ Namable [] types ∧ numbered types = definitions := by
  simp only [ofList, bind_eq_ok_iff, nameAll_eq_ok_iff]
  constructor
  · rintro ⟨names, ⟨hnamable, rfl⟩, h⟩
    cases h
    exact ⟨hnamable, rfl⟩
  · rintro ⟨hnamable, rfl⟩
    exact ⟨_, ⟨hnamable, rfl⟩, rfl⟩

/-! Looking names up -/

theorem mem_identities_iff {types : List TypeDefinition} {entry : String × TypeId} :
    entry ∈ identities 0 types ↔ ∃ position definition, types[position]? = some definition ∧
      (definition.name.value, identity definition position) = entry := by
  rw [identities, List.mem_map]
  constructor
  · rintro ⟨⟨definition, position⟩, hplace, h⟩
    exact ⟨position, definition, List.mk_mem_zipIdx_iff_getElem?.mp hplace, h⟩
  · rintro ⟨position, definition, hplace, h⟩
    exact ⟨(definition, position), List.mk_mem_zipIdx_iff_getElem?.mpr hplace, h⟩

variable {types : List TypeDefinition} {name : String} {id : TypeId}

theorem lookup_of_scalar? (definitions : Definitions) (h : Standard.scalar? name = some id) :
    definitions.lookup name = .ok id := by
  simp [lookup, h]

theorem lookup_eq_ok_iff_find? (definitions : Definitions) (h : Standard.scalar? name = none) :
    definitions.lookup name = .ok id ↔ definitions.names.find? name = some id := by
  rw [lookup, h]
  cases definitions.names.find? name <;> simp

theorem lookup_succeeds_iff : Succeeds ((numbered types).lookup name) ↔ Known types name := by
  cases hscalar : Standard.scalar? name with
  | some id =>
    refine iff_of_true ⟨id, lookup_of_scalar? _ hscalar⟩ (.inl ?_)
    by_contra hother
    rw [Standard.scalar?_eq_none_iff.mpr hother] at hscalar
    cases hscalar
  | none =>
    have hother : name ∉ builtInNames := Standard.scalar?_eq_none_iff.mp hscalar
    calc Succeeds ((numbered types).lookup name)
      _ ↔ ((identities 0 types).find? name).isSome = true := by
        rw [Option.isSome_iff_exists]
        exact exists_congr fun id => lookup_eq_ok_iff_find? _ hscalar
      _ ↔ Known types name := by
        rw [OrderedMap.find?_isSome_iff, names_identities, List.mem_map]
        exact (or_iff_right hother).symm

theorem lookup_eq_ok_iff (hdistinct : (types.map (·.name.value)).Nodup) :
    (numbered types).lookup name = .ok id ↔ Stands types name id := by
  cases hscalar : Standard.scalar? name with
  | some found =>
    rw [lookup_of_scalar? _ hscalar, Except.ok.injEq]
    constructor
    · rintro rfl
      exact .scalar hscalar
    · rintro (hsame | ⟨hlive, rfl, -⟩)
      · exact Option.some.inj (hscalar.symm.trans hsame)
      · rw [Standard.scalar?_eq_none_iff.mpr hlive] at hscalar
        cases hscalar
  | none =>
    rw [lookup_eq_ok_iff_find? _ hscalar]
    constructor
    · intro hfound
      obtain ⟨position, definition, hplace, hentry⟩ :=
        mem_identities_iff.mp (OrderedMap.mem_of_find? hfound)
      obtain ⟨rfl, rfl⟩ := Prod.mk.inj hentry
      exact stands_identity hplace
    · rintro (hsame | @⟨position, definition, hlive, rfl, hplace⟩)
      · rw [hscalar] at hsame
        cases hsame
      · have hnames : (identities 0 types).names.Nodup := by rwa [names_identities]
        rw [← identity_of_live hlive]
        exact OrderedMap.find?_of_mem hnames
          (mem_identities_iff.mpr ⟨position, definition, hplace, rfl⟩)

/-! What parts of definitions need -/

variable (definitions : Definitions)

theorem lookup_of_typeOf {type : TypeExpr} {found : TypeRef}
    (h : definitions.typeOf type = .ok found) :
    definitions.lookup type.baseName = .ok found.base := by
  induction type generalizing found with
  | named type =>
    obtain ⟨id, hid, rfl⟩ := map_eq_ok_iff.mp h
    exact hid
  | list item loc ih =>
    obtain ⟨inner, hinner, rfl⟩ := map_eq_ok_iff.mp h
    have hbase := ih hinner
    exact hbase
  | nonNull item loc ih =>
    obtain ⟨inner, hinner, hrest⟩ := bind_eq_ok_iff.mp h
    have hbase := ih hinner
    cases inner with
    | nonNull inner => cases hrest
    | _ =>
      cases hrest
      exact hbase

theorem typeOf_ne_nonNull {type : TypeExpr} (h : type.isNonNull = false) (found : TypeRef) :
    definitions.typeOf type ≠ .ok (.nonNull found) := by
  intro hfound
  cases type with
  | named type =>
    obtain ⟨_, -, h⟩ := map_eq_ok_iff.mp hfound
    cases h
  | list item loc =>
    obtain ⟨_, -, h⟩ := map_eq_ok_iff.mp hfound
    cases h
  | nonNull item loc => cases h

theorem typeOf_succeeds_iff {type : TypeExpr} (h : type.WellFormed) :
    Succeeds (definitions.typeOf type) ↔ Succeeds (definitions.lookup type.baseName) := by
  induction h with
  | named => exact map_succeeds_iff
  | list hitem ih => exact map_succeeds_iff.trans ih
  | @nonNull item loc hitem hnullable ih =>
    rw [TypeExpr.baseName, ← ih]
    refine bind_succeeds_iff.trans (exists_congr fun found => ?_)
    rw [and_iff_left_iff_imp]
    intro hfound
    cases found with
    | nonNull inner => exact absurd hfound (definitions.typeOf_ne_nonNull hnullable inner)
    | _ => exact succeeds_ok _

/-- The argument with the type of its definition. -/
def argumentDef (argument : InputValueDefinition) : Except SchemaError ArgumentDef :=
  (fun type => ⟨type, describe argument.description, some argument⟩) <$>
    definitions.typeOf argument.type

theorem argumentMap_eq_build (arguments : List InputValueDefinition) :
    definitions.argumentMap arguments =
      OrderedMap.build (·.name.value) definitions.argumentDef arguments := by
  unfold argumentMap OrderedMap.build accumulate
  congr
  funext map argument
  rw [argumentDef]
  cases definitions.typeOf argument.type <;> rfl

theorem fieldMap_eq_build (fields : List FieldDefinition) :
    definitions.fieldMap fields =
      OrderedMap.build (·.name.value) definitions.fieldDef fields := by
  rfl

theorem argumentMap_succeeds_iff {arguments : List InputValueDefinition} :
    Succeeds (definitions.argumentMap arguments) ↔
      ∀ argument ∈ arguments, Succeeds (definitions.typeOf argument.type) := by
  rw [argumentMap_eq_build, OrderedMap.build_succeeds_iff]
  simp only [argumentDef, map_succeeds_iff]

/-- The names of a map made of items may be used if those of the items may. -/
theorem forM_checkName_succeeds_iff {α ι : Type} {key : ι → String}
    {value : ι → Except SchemaError α} {items : List ι} {map : OrderedMap α}
    (h : map.MadeOf key value items) :
    Succeeds (map.names.forM fun name => (checkName name).mapError SchemaError.badName) ↔
      ∀ item ∈ items, Succeeds (checkName (key item)) := by
  simp only [forM_succeeds_iff, h.names, mapError_succeeds_iff]
  constructor
  · intro hnames item hitem
    exact hnames _ ⟨item, hitem, rfl⟩
  · rintro hitems _ ⟨item, hitem, rfl⟩
    exact hitems item hitem

theorem fieldDef_eq_ok_iff {field : FieldDefinition} {found : FieldDef} :
    definitions.fieldDef field = .ok found ↔ ∃ type arguments,
      definitions.typeOf field.type = .ok type ∧
      definitions.argumentMap field.arguments = .ok arguments ∧
      (∀ argument ∈ field.arguments, Succeeds (checkName argument.name.value)) ∧
      ⟨type, arguments, describe field.description, field.deprecation?, some field⟩ = found := by
  rw [fieldDef]
  constructor
  · intro h
    obtain ⟨type, htype, h⟩ := bind_eq_ok_iff.mp h
    obtain ⟨arguments, harguments, h⟩ := bind_eq_ok_iff.mp h
    obtain ⟨hnames, h⟩ := check_bind_eq_ok_iff.mp h
    cases h
    have hmade := OrderedMap.madeOf_of_build (definitions.argumentMap_eq_build _ ▸ harguments)
    exact ⟨type, arguments, htype, harguments, (forM_checkName_succeeds_iff hmade).mp hnames, rfl⟩
  · rintro ⟨type, arguments, htype, harguments, hnames, rfl⟩
    have hmade := OrderedMap.madeOf_of_build (definitions.argumentMap_eq_build _ ▸ harguments)
    rw [bind_eq_ok_iff]
    refine ⟨type, htype, bind_eq_ok_iff.mpr ⟨arguments, harguments, ?_⟩⟩
    exact check_bind_eq_ok_iff.mpr ⟨(forM_checkName_succeeds_iff hmade).mpr hnames, rfl⟩

theorem fieldDef_succeeds_iff {field : FieldDefinition} :
    Succeeds (definitions.fieldDef field) ↔ Succeeds (definitions.typeOf field.type) ∧
      ∀ argument ∈ field.arguments,
        Succeeds (definitions.typeOf argument.type) ∧ Succeeds (checkName argument.name.value) := by
  rw [forall₂_and, ← argumentMap_succeeds_iff]
  constructor
  · rintro ⟨found, h⟩
    obtain ⟨type, arguments, htype, harguments, hnames, -⟩ := (definitions.fieldDef_eq_ok_iff).mp h
    exact ⟨⟨type, htype⟩, ⟨arguments, harguments⟩, hnames⟩
  · rintro ⟨⟨type, htype⟩, ⟨arguments, harguments⟩, hnames⟩
    exact ⟨_, (definitions.fieldDef_eq_ok_iff).mpr
      ⟨type, arguments, htype, harguments, hnames, rfl⟩⟩

theorem fieldsOf_eq_ok_iff {owner : String} {fields : List FieldDefinition}
    {map : OrderedMap FieldDef} :
    definitions.fieldsOf owner fields = .ok map ↔ definitions.fieldMap fields = .ok map ∧
      ∀ field ∈ fields, Succeeds (checkName field.name.value) := by
  rw [fieldsOf]
  constructor
  · intro h
    obtain ⟨found, hfound, h⟩ := bind_eq_ok_iff.mp h
    obtain ⟨hnames, h⟩ := check_bind_eq_ok_iff.mp h
    cases h
    have hfields := mapError_eq_ok_iff.mp hfound
    have hmade := OrderedMap.madeOf_of_build (definitions.fieldMap_eq_build _ ▸ hfields)
    exact ⟨hfields, (forM_checkName_succeeds_iff hmade).mp hnames⟩
  · rintro ⟨hfields, hnames⟩
    have hmade := OrderedMap.madeOf_of_build (definitions.fieldMap_eq_build _ ▸ hfields)
    rw [bind_eq_ok_iff]
    refine ⟨map, mapError_eq_ok_iff.mpr hfields, ?_⟩
    exact check_bind_eq_ok_iff.mpr ⟨(forM_checkName_succeeds_iff hmade).mpr hnames, rfl⟩

theorem fieldsOf_succeeds_iff {owner : String} {fields : List FieldDefinition} :
    Succeeds (definitions.fieldsOf owner fields) ↔
      ∀ field ∈ fields, Succeeds (definitions.fieldDef field) ∧
        Succeeds (checkName field.name.value) := by
  rw [forall₂_and, ← OrderedMap.build_succeeds_iff, ← fieldMap_eq_build]
  simp only [Succeeds, fieldsOf_eq_ok_iff, exists_and_right]

/-- The types of a list of names, if all of them pass a test. -/
theorem resolved_succeeds_iff {names : List TypeName} {test : TypeId → Bool}
    {wrap : SchemaError → SchemaError} {refusal : SchemaError} :
    Succeeds ((names.mapM fun type => definitions.lookup type.name.value).mapError wrap >>=
        fun ids => if ids.all test then pure ids else throw refusal) ↔
      ∀ type ∈ names, ∃ id, definitions.lookup type.name.value = .ok id ∧ test id = true := by
  simp only [Succeeds, tested_eq_ok_iff, mapError_eq_ok_iff]
  exact mapM_forall_iff

theorem lookup_of_mem_resolved {names : List TypeName} {test : TypeId → Bool}
    {wrap : SchemaError → SchemaError} {refusal : SchemaError} {ids : List TypeId}
    (h : ((names.mapM fun type => definitions.lookup type.name.value).mapError wrap >>=
        fun ids => if ids.all test then pure ids else throw refusal) = .ok ids)
    {id : TypeId} (hid : id ∈ ids) : ∃ name, definitions.lookup name = .ok id := by
  have hlookups := mapError_eq_ok_iff.mp (tested_eq_ok_iff.mp h).1
  obtain ⟨type, -, htype⟩ := exists_of_mem_mapM hlookups hid
  exact ⟨_, htype⟩

theorem interfacesOf_succeeds_iff {owner : String} {interfaces : List TypeName} :
    Succeeds (definitions.interfacesOf owner interfaces) ↔ ∀ type ∈ interfaces,
      ∃ id, definitions.lookup type.name.value = .ok id ∧ definitions.isInterface id = true :=
  definitions.resolved_succeeds_iff

theorem membersOf_succeeds_iff {owner : String} {members : List TypeName} :
    Succeeds (definitions.membersOf owner members) ↔ ∀ type ∈ members,
      ∃ id, definitions.lookup type.name.value = .ok id ∧ definitions.isObject id = true :=
  definitions.resolved_succeeds_iff

/-! Drafts -/

theorem faultOf_eq_none_iff {α : Type} {outcome : Except SchemaError α} :
    faultOf outcome = none ↔ Succeeds outcome := by
  cases outcome <;> simp [faultOf, Succeeds]

theorem eq_ok_of_mem_getD {α : Type} {outcome : Except SchemaError (List α)} {a : α}
    (h : a ∈ outcome.toOption.getD []) : ∃ results, outcome = .ok results ∧ a ∈ results := by
  cases outcome with
  | error error => cases h
  | ok results => exact ⟨results, rfl, h⟩

theorem draft_name (definition : TypeDefinition) :
    (definitions.draft definition).type.name = definition.name.value := by
  unfold draft
  cases definition.body <;> rfl

theorem draft_isObject (definition : TypeDefinition) :
    (definitions.draft definition).type.isObject = definition.body.isObject := by
  unfold draft
  cases definition.body <;> rfl

theorem draft_interfaces (definition : TypeDefinition) :
    (definitions.draft definition).type.interfaces =
      (definitions.interfacesOf definition.name.value definition.body.interfaces).toOption.getD
        [] := by
  unfold draft
  cases definition.body <;> rfl

theorem draft_fields (definition : TypeDefinition) :
    (definitions.draft definition).type.fields =
      (definitions.fieldsOf definition.name.value definition.body.fields).toOption.getD [] := by
  unfold draft
  cases definition.body <;> rfl

theorem draft_members (definition : TypeDefinition) :
    (definitions.draft definition).type.members =
      (definitions.membersOf definition.name.value definition.body.members).toOption.getD [] := by
  unfold draft
  cases definition.body <;> rfl

/-- All parts of the definition can be made up. -/
@[mk_iff]
structure CanBeRead (definition : TypeDefinition) : Prop where
  interfaces :
    Succeeds (definitions.interfacesOf definition.name.value definition.body.interfaces)
  fields : Succeeds (definitions.fieldsOf definition.name.value definition.body.fields)
  members : Succeeds (definitions.membersOf definition.name.value definition.body.members)

theorem draft_readable_iff (definition : TypeDefinition) :
    (∀ part ∈ (definitions.draft definition).type.shape.parts,
        (definitions.draft definition).fault part = none) ↔ definitions.CanBeRead definition := by
  -- The parts that a body does not have are empty.
  have hinterfaces : Succeeds (definitions.interfacesOf definition.name.value []) := ⟨[], rfl⟩
  have hfields : Succeeds (definitions.fieldsOf definition.name.value []) := ⟨[], rfl⟩
  have hmembers : Succeeds (definitions.membersOf definition.name.value []) := ⟨[], rfl⟩
  rw [canBeRead_iff]
  unfold draft
  cases definition.body <;>
    simp [TypeShape.parts, TypeBody.interfaces, TypeBody.fields, TypeBody.members,
      faultOf_eq_none_iff, hinterfaces, hfields, hmembers]

theorem lookup_of_mem_fieldReferences {owner : String} {fields : List FieldDefinition}
    {map : OrderedMap FieldDef} (h : definitions.fieldsOf owner fields = .ok map)
    {entry : String × FieldDef} (hentry : entry ∈ map) {target : TypeId}
    (htarget : target ∈ entry.2.references) : ∃ name, definitions.lookup name = .ok target := by
  have hbuild := (definitions.fieldsOf_eq_ok_iff.mp h).1
  rw [fieldMap_eq_build] at hbuild
  obtain ⟨field, -, hfield⟩ := (OrderedMap.madeOf_of_build hbuild).entries entry hentry
  obtain ⟨type, arguments, htype, harguments, -, hfound⟩ := definitions.fieldDef_eq_ok_iff.mp hfield
  rw [← hfound, FieldDef.references] at htarget
  rcases List.mem_cons.mp htarget with rfl | hargument
  · exact ⟨_, definitions.lookup_of_typeOf htype⟩
  · obtain ⟨⟨name, argument⟩, hmem, rfl⟩ := List.mem_map.mp hargument
    rw [argumentMap_eq_build] at harguments
    obtain ⟨source, -, hsource⟩ := (OrderedMap.madeOf_of_build harguments).entries _ hmem
    obtain ⟨type, htype, rfl⟩ := map_eq_ok_iff.mp hsource
    exact ⟨_, definitions.lookup_of_typeOf htype⟩

/-- A draft refers to nothing but what names stand for. -/
theorem lookup_of_mem_references {definition : TypeDefinition} {target : TypeId}
    (h : target ∈ (definitions.draft definition).type.references) :
    ∃ name, definitions.lookup name = .ok target := by
  rw [NamedType.references, NamedType.fieldReferences, draft_members, draft_interfaces,
    draft_fields, List.append_assoc, List.mem_append, List.mem_append] at h
  rcases h with hmember | hinterface | hfield
  · obtain ⟨ids, hids, hmem⟩ := eq_ok_of_mem_getD hmember
    exact definitions.lookup_of_mem_resolved hids hmem
  · obtain ⟨ids, hids, hmem⟩ := eq_ok_of_mem_getD hinterface
    exact definitions.lookup_of_mem_resolved hids hmem
  · obtain ⟨entry, hentry, htarget⟩ := List.mem_flatMap.mp hfield
    obtain ⟨map, hmap, hmem⟩ := eq_ok_of_mem_getD hentry
    exact definitions.lookup_of_mem_fieldReferences hmap hmem htarget

end Definitions

end QueryLint
