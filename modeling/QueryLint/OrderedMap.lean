/-!
Maps from names that keep the order in which names were first inserted.
-/

namespace QueryLint

abbrev OrderedMap (α : Type) := List (String × α)

namespace OrderedMap

variable {α : Type}

def find? (map : OrderedMap α) (name : String) : Option α := map.lookup name

def contains (map : OrderedMap α) (name : String) : Bool := map.any (·.1 == name)

def names (map : OrderedMap α) : List String := map.map (·.1)

/-- Puts a value under a name, in the place of what was there or else at the end. -/
def insert (map : OrderedMap α) (name : String) (value : α) : OrderedMap α :=
  match map with
  | [] => [(name, value)]
  | (key, old) :: rest =>
    if key = name then (key, value) :: rest else (key, old) :: insert rest name value

/-- The map of the entries, each put under its name in turn. -/
def ofList (entries : List (String × α)) : OrderedMap α :=
  entries.foldl (fun map (name, value) => map.insert name value) []

theorem contains_iff {map : OrderedMap α} {name : String} :
    map.contains name = true ↔ name ∈ map.names := by
  simp [contains, names]

theorem find?_cons (entry : String × α) (map : OrderedMap α) (name : String) :
    find? (entry :: map) name = if name = entry.1 then some entry.2 else map.find? name := by
  obtain ⟨key, value⟩ := entry
  by_cases same : name = key
  · simp [find?, same]
  · have differ : (name == key) = false := beq_eq_false_iff_ne.mpr same
    simp [find?, List.lookup_cons, same, differ]

theorem find?_isSome_iff {map : OrderedMap α} {name : String} :
    (map.find? name).isSome = true ↔ name ∈ map.names := by
  induction map with
  | nil => simp [find?, names]
  | cons entry map ih =>
    rw [find?_cons]
    by_cases same : name = entry.1
    · simp [names, same]
    · rw [if_neg same, ih]
      simp [names, same]

/-- Where names are not repeated, every entry is found under its name. -/
theorem find?_of_mem {map : OrderedMap α} (distinct : map.names.Nodup) {entry : String × α}
    (mem : entry ∈ map) : map.find? entry.1 = some entry.2 := by
  induction map with
  | nil => cases mem
  | cons head map ih =>
    simp only [names, List.map_cons, List.nodup_cons] at distinct
    rw [find?_cons]
    rcases List.mem_cons.mp mem with rfl | later
    · rw [if_pos rfl]
    · have other : entry.1 ≠ head.1 := by
        intro same
        exact distinct.1 (same ▸ List.mem_map_of_mem later)
      rw [if_neg other, ih distinct.2 later]

theorem mem_of_find? {map : OrderedMap α} {name : String} {value : α}
    (found : map.find? name = some value) : (name, value) ∈ map := by
  induction map with
  | nil => cases found
  | cons entry map ih =>
    rw [find?_cons] at found
    by_cases same : name = entry.1
    · rw [if_pos same] at found
      cases found
      exact same ▸ List.mem_cons_self
    · rw [if_neg same] at found
      exact List.mem_cons_of_mem entry (ih found)

theorem find?_insert (map : OrderedMap α) (name key : String) (value : α) :
    (map.insert name value).find? key = if key = name then some value else map.find? key := by
  induction map with
  | nil => simp [insert, find?_cons]
  | cons entry map ih =>
    by_cases here : entry.1 = name
    · subst here
      by_cases same : key = entry.1 <;> simp [insert, find?_cons, same]
    · by_cases first : key = entry.1
      · simp [insert, here, find?_cons, first]
      · simp [insert, here, find?_cons, first, ih]

/-- A new name goes to the end. -/
theorem insert_of_not_mem {map : OrderedMap α} {name : String} (fresh : name ∉ map.names)
    (value : α) : map.insert name value = map ++ [(name, value)] := by
  induction map with
  | nil => rfl
  | cons entry map ih =>
    simp only [names, List.map_cons, List.mem_cons, not_or] at fresh
    simp [insert, Ne.symm fresh.1, ih fresh.2]

/-- A name that is there already keeps its place. -/
theorem names_insert_of_mem {map : OrderedMap α} {name : String} (old : name ∈ map.names)
    (value : α) : (map.insert name value).names = map.names := by
  induction map with
  | nil => simp [names] at old
  | cons entry map ih =>
    by_cases here : entry.1 = name
    · simp [insert, names, here]
    · have rest : name ∈ names map := by
        simpa [names, Ne.symm here] using old
      have later := ih rest
      simp only [names] at later
      simp [insert, names, here, later]

theorem mem_names_insert {map : OrderedMap α} {name key : String} {value : α} :
    key ∈ (map.insert name value).names ↔ key = name ∨ key ∈ map.names := by
  rw [← find?_isSome_iff, find?_insert, ← find?_isSome_iff]
  by_cases same : key = name <;> simp [same]

theorem eq_or_mem_of_mem_insert {map : OrderedMap α} {name : String} {value : α}
    {entry : String × α} (mem : entry ∈ map.insert name value) :
    entry = (name, value) ∨ entry ∈ map := by
  induction map with
  | nil => exact .inl (List.mem_singleton.mp mem)
  | cons head map ih =>
    by_cases here : head.1 = name
    · rw [insert, if_pos here, here] at mem
      exact (List.mem_cons.mp mem).imp id (List.mem_cons_of_mem head)
    · rw [insert, if_neg here] at mem
      rcases List.mem_cons.mp mem with first | later
      · exact .inr (List.mem_cons.mpr (.inl first))
      · exact (ih later).imp id (List.mem_cons_of_mem head)

end OrderedMap

end QueryLint
