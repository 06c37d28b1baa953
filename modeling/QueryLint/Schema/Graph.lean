import QueryLint.Schema.Type

/-!
Which types a set of types brings along. Reading a part of a type, such as its fields, may fail, so
a draft of a type says for each part what goes wrong there, if anything. Types are collected depth
first: the members of a union, the interfaces of an object, and then for each field its type and
the types of its arguments. A part is only read when its turn comes.
-/

namespace QueryLint

inductive Part where
  | interfaces | fields | types
  deriving DecidableEq

def Part.text : Part → String
  | .interfaces => "interfaces"
  | .fields => "fields"
  | .types => "types"

/-- A type some of whose parts may be unreadable. -/
structure TypeDraft (ε : Type) where
  type : NamedType
  fault : Part → Option ε := fun _ => none

abbrev TypeGraph (ε : Type) := List (TypeDraft ε)

namespace TypeGraph

variable {ε : Type}

/-- The types as they are where all parts can be read. -/
def table (graph : TypeGraph ε) : TypeTable := graph.map (·.type)

def draft (graph : TypeGraph ε) (id : TypeId) : TypeDraft ε :=
  graph[id]?.getD { type := { name := "", shape := .bare } }

def type (graph : TypeGraph ε) (id : TypeId) : NamedType := (graph.draft id).type

/-- Fails if a part of a type cannot be read. -/
def check (graph : TypeGraph ε) (id : TypeId) (part : Part) : Except ε Unit :=
  match (graph.draft id).fault part with
  | some error => .error error
  | none => .ok ()

/-- A step of the collection that is still to be done. -/
inductive Errand where
  | type (id : TypeId)
  | fields (id : TypeId)
  deriving DecidableEq

def Errand.isFields : Errand → Bool
  | .type _ => false
  | .fields _ => true

/-- The errands that a new type brings along. -/
def expand (graph : TypeGraph ε) (id : TypeId) : Except ε (List Errand) :=
  match (graph.type id).shape with
  | .union members => do
    graph.check id .types
    return members.map .type
  | .object interfaces _ => do
    graph.check id .interfaces
    return interfaces.map .type ++ [.fields id]
  | .interface _ => .ok [.fields id]
  | _ => .ok []

/-- The errands that the fields of a type bring along. -/
def expandFields (graph : TypeGraph ε) (id : TypeId) : Except ε (List Errand) := do
  graph.check id .fields
  return ((graph.type id).fields.flatMap fun (_, field) => field.references).map .type

/-- How many types of the graph are not collected yet. -/
def missing (graph : TypeGraph ε) (collected : List TypeId) : Nat :=
  ((List.range graph.length).filter fun id => !collected.contains id).length

theorem missing_append (graph : TypeGraph ε) {id : TypeId} {collected : List TypeId}
    (hfresh : id ∉ collected) :
    graph.missing (collected ++ [id]) + (List.range graph.length).count id =
      graph.missing collected := by
  unfold missing
  induction List.range graph.length with
  | nil => rfl
  | cons key keys ih =>
    by_cases hsame : key = id
    · subst hsame
      rw [List.filter_cons_of_neg (by simp), List.filter_cons_of_pos (by simp [hfresh]),
        List.count_cons_self, List.length_cons, ← ih]
      omega
    · rw [List.count_cons_of_ne hsame]
      by_cases hold : key ∈ collected
      · rw [List.filter_cons_of_neg (by simp [hold]), List.filter_cons_of_neg (by simp [hold])]
        exact ih
      · rw [List.filter_cons_of_pos (by simp [hold, hsame]),
          List.filter_cons_of_pos (by simp [hold]), List.length_cons, List.length_cons, ← ih]
        omega

/-- A collected type is one less that is missing. -/
theorem missing_append_lt (graph : TypeGraph ε) {id : TypeId} {collected : List TypeId}
    (hfresh : id ∉ collected) (hinside : id < graph.length) :
    graph.missing (collected ++ [id]) < graph.missing collected := by
  have htotal := graph.missing_append hfresh
  have hcount : 0 < (List.range graph.length).count id :=
    List.count_pos_iff.mpr (List.mem_range.mpr hinside)
  omega

theorem missing_append_of_length_le (graph : TypeGraph ε) {id : TypeId} {collected : List TypeId}
    (hfresh : id ∉ collected) (houtside : graph.length ≤ id) :
    graph.missing (collected ++ [id]) = graph.missing collected := by
  have hcount : (List.range graph.length).count id = 0 :=
    List.count_eq_zero.mpr fun hmem => Nat.not_lt.mpr houtside (List.mem_range.mp hmem)
  have htotal := graph.missing_append hfresh
  omega

theorem type_of_length_le (graph : TypeGraph ε) {id : TypeId} (houtside : graph.length ≤ id) :
    (graph.type id).shape = .bare := by
  simp [type, draft, List.getElem?_eq_none houtside]

theorem check_eq_ok_iff {graph : TypeGraph ε} {id : TypeId} {part : Part} :
    graph.check id part = .ok () ↔ (graph.draft id).fault part = none := by
  unfold check
  cases (graph.draft id).fault part <;> simp

theorem check_eq_error_iff {graph : TypeGraph ε} {id : TypeId} {part : Part} {error : ε} :
    graph.check id part = .error error ↔ (graph.draft id).fault part = some error := by
  unfold check
  cases (graph.draft id).fault part <;> simp

theorem check_bind_eq_ok {α : Type} {graph : TypeGraph ε} {id : TypeId} {part : Part}
    {errands result : α} (h : (do graph.check id part; return errands) = Except.ok result) :
    (graph.draft id).fault part = none ∧ result = errands := by
  cases hcheck : graph.check id part with
  | error error =>
    rw [hcheck] at h
    cases h
  | ok =>
    rw [hcheck] at h
    cases h
    exact ⟨check_eq_ok_iff.mp hcheck, rfl⟩

theorem check_bind_eq_error {α : Type} {graph : TypeGraph ε} {id : TypeId} {part : Part}
    {errands : α} {error : ε}
    (h : (do graph.check id part; return errands) = Except.error error) :
    (graph.draft id).fault part = some error := by
  cases hcheck : graph.check id part with
  | ok =>
    rw [hcheck] at h
    cases h
  | error found =>
    rw [hcheck] at h
    cases h
    exact check_eq_error_iff.mp hcheck

theorem countP_map_type (ids : List TypeId) : (ids.map Errand.type).countP Errand.isFields = 0 := by
  rw [List.countP_map, List.countP_eq_zero]
  intro id _
  exact Bool.false_ne_true

theorem countP_expand_le (graph : TypeGraph ε) {id : TypeId} {errands : List Errand}
    (h : graph.expand id = .ok errands) : errands.countP Errand.isFields ≤ 1 := by
  unfold expand at h
  split at h
  · obtain ⟨-, rfl⟩ := check_bind_eq_ok h
    rw [countP_map_type]
    exact Nat.zero_le 1
  · obtain ⟨-, rfl⟩ := check_bind_eq_ok h
    rw [List.countP_append, countP_map_type, Nat.zero_add]
    exact List.countP_le_length
  · cases h
    exact List.countP_le_length
  · cases h
    exact Nat.zero_le 1

theorem expand_of_length_le (graph : TypeGraph ε) {id : TypeId} (houtside : graph.length ≤ id) :
    graph.expand id = .ok [] := by
  simp [expand, graph.type_of_length_le houtside]

theorem countP_expandFields (graph : TypeGraph ε) {id : TypeId} {errands : List Errand}
    (h : graph.expandFields id = .ok errands) : errands.countP Errand.isFields = 0 := by
  obtain ⟨-, rfl⟩ := check_bind_eq_ok h
  exact countP_map_type _

/-- Runs errands in order, each followed by those it brings along, and adds new types at the
end. -/
def collect (graph : TypeGraph ε) (errands : List Errand) (collected : List TypeId) :
    Except ε (List TypeId) :=
  match errands with
  | [] => .ok collected
  | .type id :: later =>
    if _hknown : id ∈ collected then graph.collect later collected
    else
      match _hexpanded : graph.expand id with
      | .error error => .error error
      | .ok errands => graph.collect (errands ++ later) (collected ++ [id])
  | .fields id :: later =>
    match _hexpanded : graph.expandFields id with
    | .error error => .error error
    | .ok errands => graph.collect (errands ++ later) collected
  -- a type counts twice: it takes itself away, and may bring along the errand for its fields
  termination_by (2 * graph.missing collected + errands.countP Errand.isFields, errands.length)
  decreasing_by
    · rw [List.countP_cons_of_neg Bool.false_ne_true]
      exact Prod.Lex.right _ (Nat.lt_succ_self _)
    · rw [List.countP_append, List.countP_cons_of_neg Bool.false_ne_true]
      by_cases hinside : id < graph.length
      · have hfewer := graph.missing_append_lt _hknown hinside
        have hone := graph.countP_expand_le _hexpanded
        apply Prod.Lex.left
        omega
      · have houtside := Nat.le_of_not_lt hinside
        have hnone := graph.expand_of_length_le houtside
        rw [_hexpanded] at hnone
        cases hnone
        rw [graph.missing_append_of_length_le _hknown houtside, List.countP_nil, Nat.zero_add]
        exact Prod.Lex.right _ (Nat.lt_succ_self _)
    · rw [List.countP_append, graph.countP_expandFields _hexpanded, List.countP_cons_of_pos rfl]
      apply Prod.Lex.left
      omega

end TypeGraph

end QueryLint
