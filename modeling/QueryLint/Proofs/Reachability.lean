import Mathlib.Data.List.Nodup
import Mathlib.Logic.Relation
import QueryLint.Schema.Basic

/-!
The types of a schema are exactly those that can be reached from the given types and the roots.
While types are collected, a given type may hold its place without having been expanded; every
other collected type has all its references collected, or they are among the errands that are
still to be done. When no place is held any more, the collected types are closed.
-/

namespace QueryLint

/-- The parts that have to be read to know what a type refers to. -/
def TypeShape.parts : TypeShape → List Part
  | .object _ _ => [.interfaces, .fields]
  | .interface _ => [.fields]
  | .union _ => [.types]
  | _ => []

/-- The types that the fields of a type refer to. -/
def NamedType.fieldReferences (type : NamedType) : List TypeId :=
  type.fields.flatMap fun (_, field) => field.references

/-- The types that a type refers to: members of a union, interfaces, types of fields and types of
their arguments. -/
def NamedType.references (type : NamedType) : List TypeId :=
  type.members ++ type.interfaces ++ type.fieldReferences

namespace TypeGraph

variable {ε : Type} (graph : TypeGraph ε)

def Leads (source target : TypeId) : Prop := target ∈ (graph.type source).references

/-- A type can be reached if references lead to it from one of the starts. -/
def Reachable (starts : List TypeId) (id : TypeId) : Prop :=
  ∃ start ∈ starts, Relation.ReflTransGen graph.Leads start id

/-- All that has to be known of a type can be read. -/
def Readable (id : TypeId) : Prop :=
  ∀ part ∈ (graph.type id).shape.parts, (graph.draft id).fault part = none

/-- A type whose references have all been collected. -/
structure Expanded (collected : List TypeId) (id : TypeId) : Prop where
  readable : graph.Readable id
  closed : ∀ other ∈ (graph.type id).references, other ∈ collected

/-- What an errand asks for has been collected. -/
def Done (collected : List TypeId) : Errand → Prop
  | .type id => id ∈ collected
  | .fields id => (graph.draft id).fault .fields = none ∧
      ∀ other ∈ (graph.type id).fieldReferences, other ∈ collected

/-- The errand is about something that can be reached. -/
def Due (starts : List TypeId) : Errand → Prop
  | .type id => graph.Reachable starts id
  | .fields id => graph.Reachable starts id ∧ .fields ∈ (graph.type id).shape.parts

/-- A collection ends well, or fails at a part of a type that can be reached. -/
def Outcome (starts : List TypeId) (post : List TypeId → Prop) : Except ε (List TypeId) → Prop
  | .ok collected => post collected
  | .error error => ∃ id part, graph.Reachable starts id ∧ part ∈ (graph.type id).shape.parts ∧
      (graph.draft id).fault part = some error

variable {graph} {starts : List TypeId} {id : TypeId}

theorem Reachable.of_mem (h : id ∈ starts) : graph.Reachable starts id := ⟨id, h, .refl⟩

theorem Reachable.step (h : graph.Reachable starts id) {other : TypeId}
    (hother : other ∈ (graph.type id).references) : graph.Reachable starts other := by
  obtain ⟨start, hstart, hpath⟩ := h
  exact ⟨start, hstart, hpath.tail hother⟩

theorem Expanded.mono {collected larger : List TypeId} (h : graph.Expanded collected id)
    (hsubset : collected ⊆ larger) : graph.Expanded larger id :=
  ⟨h.readable, fun other hother => hsubset (h.closed other hother)⟩

theorem Outcome.mono {post weaker : List TypeId → Prop} {result : Except ε (List TypeId)}
    (h : graph.Outcome starts post result)
    (hweaker : ∀ collected, post collected → weaker collected) :
    graph.Outcome starts weaker result := by
  cases result with
  | error error => exact h
  | ok collected => exact hweaker collected h

/-- What each round keeps, a whole run keeps. -/
theorem Outcome.foldlM {step : List TypeId → TypeId → Except ε (List TypeId)}
    (invariant : List TypeId → List TypeId → Prop)
    (hstep : ∀ id later collected, invariant (id :: later) collected →
      graph.Outcome starts (invariant later) (step collected id))
    (ids collected : List TypeId) (h : invariant ids collected) :
    graph.Outcome starts (invariant []) (ids.foldlM step collected) := by
  induction ids generalizing collected with
  | nil => exact h
  | cons id later ih =>
    have hfirst := hstep id later collected h
    rw [List.foldlM_cons]
    cases hrun : step collected id with
    | error error =>
      rw [hrun] at hfirst
      exact hfirst
    | ok next =>
      rw [hrun] at hfirst
      exact ih next hfirst

/-! Single steps of the collection -/

/-- A new type asks for the types in its upper part, and for its fields if it can have any. -/
theorem expand_eq_ok {errands : List Errand} (h : graph.expand id = .ok errands) :
    (∀ part ∈ (graph.type id).shape.parts, part ≠ .fields →
      (graph.draft id).fault part = none) ∧
    errands = ((graph.type id).members ++ (graph.type id).interfaces).map .type ++
      if .fields ∈ (graph.type id).shape.parts then [.fields id] else [] := by
  unfold expand at h
  cases hshape : (graph.type id).shape with
  | union members =>
    rw [hshape] at h
    obtain ⟨hfault, rfl⟩ := check_bind_eq_ok h
    simp [TypeShape.parts, NamedType.members, NamedType.interfaces, hshape, hfault]
  | object interfaces fields =>
    rw [hshape] at h
    obtain ⟨hfault, rfl⟩ := check_bind_eq_ok h
    simp [TypeShape.parts, NamedType.members, NamedType.interfaces, hshape, hfault]
  | _ =>
    rw [hshape] at h
    cases h
    simp [TypeShape.parts, NamedType.members, NamedType.interfaces, hshape]

theorem expand_eq_error {error : ε} (h : graph.expand id = .error error) :
    ∃ part ∈ (graph.type id).shape.parts, (graph.draft id).fault part = some error := by
  unfold expand at h
  cases hshape : (graph.type id).shape with
  | union members =>
    rw [hshape] at h
    exact ⟨.types, by simp [TypeShape.parts], check_bind_eq_error h⟩
  | object interfaces fields =>
    rw [hshape] at h
    exact ⟨.interfaces, by simp [TypeShape.parts], check_bind_eq_error h⟩
  | _ =>
    rw [hshape] at h
    cases h

theorem fieldReferences_eq_nil {type : NamedType} (h : .fields ∉ type.shape.parts) :
    type.fieldReferences = [] := by
  unfold NamedType.fieldReferences NamedType.fields
  cases hshape : type.shape <;> simp_all [TypeShape.parts]

theorem expand_due {errands : List Errand} (h : graph.expand id = .ok errands)
    (hid : graph.Reachable starts id) : ∀ errand ∈ errands, graph.Due starts errand := by
  obtain ⟨-, rfl⟩ := expand_eq_ok h
  intro errand herrand
  rcases List.mem_append.mp herrand with hupper | hlower
  · obtain ⟨other, hother, rfl⟩ := List.mem_map.mp hupper
    exact hid.step (List.mem_append_left _ hother)
  · by_cases hfields : Part.fields ∈ (graph.type id).shape.parts
    · rw [if_pos hfields, List.mem_singleton] at hlower
      subst hlower
      exact ⟨hid, hfields⟩
    · rw [if_neg hfields] at hlower
      cases hlower

/-- A type is expanded once the errands that it brings along are done. -/
theorem expand_done {errands : List Errand} {collected : List TypeId}
    (h : graph.expand id = .ok errands) (hdone : ∀ errand ∈ errands, graph.Done collected errand) :
    graph.Expanded collected id := by
  obtain ⟨hupper, rfl⟩ := expand_eq_ok h
  have hfields (hpart : Part.fields ∈ (graph.type id).shape.parts) :
      graph.Done collected (.fields id) := by
    apply hdone
    rw [if_pos hpart]
    exact List.mem_append_right _ List.mem_cons_self
  constructor
  · intro part hpart
    by_cases hcase : part = .fields
    · subst hcase
      exact (hfields hpart).1
    · exact hupper part hpart hcase
  · intro other hother
    rcases List.mem_append.mp hother with hother | hother
    · have htype : Errand.type other ∈ _ := List.mem_map_of_mem hother
      exact hdone _ (List.mem_append_left _ htype)
    · by_cases hpart : Part.fields ∈ (graph.type id).shape.parts
      · exact (hfields hpart).2 other hother
      · rw [fieldReferences_eq_nil hpart] at hother
        cases hother

theorem expandFields_due {errands : List Errand} (h : graph.expandFields id = .ok errands)
    (hid : graph.Reachable starts id) : ∀ errand ∈ errands, graph.Due starts errand := by
  obtain ⟨-, rfl⟩ := check_bind_eq_ok h
  intro errand herrand
  obtain ⟨other, hother, rfl⟩ := List.mem_map.mp herrand
  exact hid.step (List.mem_append_right _ hother)

theorem expandFields_done {errands : List Errand} {collected : List TypeId}
    (h : graph.expandFields id = .ok errands)
    (hdone : ∀ errand ∈ errands, graph.Done collected errand) :
    graph.Done collected (.fields id) := by
  obtain ⟨hfault, rfl⟩ := check_bind_eq_ok h
  exact ⟨hfault, fun other hother => hdone (.type other) (List.mem_map_of_mem hother)⟩

/-! A whole run -/

/-- What running errands adds to the types collected so far. -/
structure Gathered (graph : TypeGraph ε) (starts : List TypeId) (errands : List Errand)
    (collected result : List TypeId) : Prop where
  kept : collected <+: result
  nodup : collected.Nodup → result.Nodup
  done : ∀ errand ∈ errands, graph.Done result errand
  added : ∀ id ∈ result, id ∈ collected ∨
    graph.Reachable starts id ∧ graph.Expanded result id

theorem collect_outcome (errands : List Errand) (collected : List TypeId)
    (hdue : ∀ errand ∈ errands, graph.Due starts errand) :
    graph.Outcome starts (graph.Gathered starts errands collected)
      (graph.collect errands collected) := by
  fun_induction graph.collect errands collected with
  | case1 collected =>
    exact ⟨List.prefix_refl _, fun h => h, by simp, fun id hid => .inl hid⟩
  | case2 collected id later hknown ih =>
    apply (ih fun errand herrand => hdue errand (List.mem_cons_of_mem _ herrand)).mono
    intro result h
    refine ⟨h.kept, h.nodup, ?_, h.added⟩
    rintro errand (_ | ⟨_, herrand⟩)
    · exact h.kept.subset hknown
    · exact h.done errand herrand
  | case3 collected id later hknown error hexpand =>
    obtain ⟨part, hpart, hfault⟩ := expand_eq_error hexpand
    exact ⟨id, part, hdue (.type id) List.mem_cons_self, hpart, hfault⟩
  | case4 collected id later hknown errands hexpand ih =>
    have hid : graph.Reachable starts id := hdue (.type id) List.mem_cons_self
    have hnext : ∀ errand ∈ errands ++ later, graph.Due starts errand := by
      intro errand herrand
      rcases List.mem_append.mp herrand with hnew | hlater
      · exact expand_due hexpand hid errand hnew
      · exact hdue errand (List.mem_cons_of_mem _ hlater)
    apply (ih hnext).mono
    intro result h
    have hmem : id ∈ result := h.kept.subset (List.mem_append_right _ List.mem_cons_self)
    constructor
    · exact (List.prefix_append collected [id]).trans h.kept
    · intro hnodup
      apply h.nodup
      rw [← List.concat_eq_append]
      exact hnodup.concat hknown
    · rintro errand (_ | ⟨_, herrand⟩)
      · exact hmem
      · exact h.done errand (List.mem_append_right _ herrand)
    · intro other hother
      rcases h.added other hother with hold | hnew
      · rcases List.mem_append.mp hold with hold | hself
        · exact .inl hold
        · rw [List.mem_singleton] at hself
          subst hself
          have hdone := expand_done hexpand fun errand herrand =>
            h.done errand (List.mem_append_left _ herrand)
          exact .inr ⟨hid, hdone⟩
      · exact .inr hnew
  | case5 collected id later error hexpand =>
    obtain ⟨hid, hpart⟩ := hdue (.fields id) List.mem_cons_self
    exact ⟨id, .fields, hid, hpart, check_bind_eq_error hexpand⟩
  | case6 collected id later errands hexpand ih =>
    obtain ⟨hid, -⟩ := hdue (.fields id) List.mem_cons_self
    have hnext : ∀ errand ∈ errands ++ later, graph.Due starts errand := by
      intro errand herrand
      rcases List.mem_append.mp herrand with hnew | hlater
      · exact expandFields_due hexpand hid errand hnew
      · exact hdue errand (List.mem_cons_of_mem _ hlater)
    apply (ih hnext).mono
    intro result h
    refine ⟨h.kept, h.nodup, ?_, h.added⟩
    rintro errand (_ | ⟨_, herrand⟩)
    · exact expandFields_done hexpand fun errand herrand =>
        h.done errand (List.mem_append_left _ herrand)
    · exact h.done errand (List.mem_append_right _ herrand)

/-- The types collected while places of given types are still held and some roots are awaited. All
of them can be reached, and all but the held ones are expanded. -/
structure Collecting (graph : TypeGraph ε) (starts held awaited collected : List TypeId) :
    Prop where
  nodup : collected.Nodup
  places : ∀ id ∈ held, id ∈ collected
  reachable : ∀ id ∈ collected, graph.Reachable starts id
  expanded : ∀ id ∈ collected, id ∈ held ∨ graph.Expanded collected id
  asked : ∀ id ∈ awaited, id ∈ starts
  covered : ∀ start ∈ starts, start ∈ awaited ∨ start ∈ collected

/-- One more type is collected, from a part of the types that leaves out no expanded one. -/
theorem Collecting.next {held held' awaited awaited' base collected result : List TypeId}
    (h : graph.Collecting starts held awaited collected)
    (hresult : graph.Gathered starts [.type id] base result) (hbase : base.Sublist collected)
    (hkept : collected ⊆ result) (hplaces : held' ⊆ held)
    (hheld : ∀ other ∈ base, other ∈ held → other ∈ held') (hasked : awaited' ⊆ awaited)
    (hawaited : ∀ other ∈ awaited, other ∈ awaited' ∨ other ∈ result) :
    graph.Collecting starts held' awaited' result := by
  constructor
  · exact hresult.nodup (h.nodup.sublist hbase)
  · exact fun other hother => hkept (h.places other (hplaces hother))
  · intro other hother
    rcases hresult.added other hother with hold | hnew
    · exact h.reachable other (hbase.subset hold)
    · exact hnew.1
  · intro other hother
    rcases hresult.added other hother with hold | hnew
    · rcases h.expanded other (hbase.subset hold) with hplace | hdone
      · exact .inl (hheld other hold hplace)
      · exact .inr (hdone.mono hkept)
    · exact .inr hnew.2
  · exact fun other hother => h.asked other (hasked hother)
  · intro start hstart
    rcases h.covered start hstart with hlater | hold
    · exact hawaited start hlater
    · exact .inr (hkept hold)

theorem gather_outcome (hid : graph.Reachable starts id) (base : List TypeId) :
    graph.Outcome starts (graph.Gathered starts [.type id] base)
      (graph.collect [.type id] base) := by
  apply collect_outcome
  intro errand herrand
  rw [List.mem_singleton] at herrand
  subst herrand
  exact hid

/-- A given type gives up its place and is expanded. -/
theorem collectGiven_outcome {held awaited collected : List TypeId}
    (h : graph.Collecting starts (id :: held) awaited collected) :
    graph.Outcome starts (graph.Collecting starts held awaited)
      (graph.collectGiven collected id) := by
  have hid := h.reachable id (h.places id List.mem_cons_self)
  apply (gather_outcome hid (collected.filter (· != id))).mono
  intro result hresult
  have hkept : collected ⊆ result := by
    intro other hother
    by_cases hcase : other = id
    · subst hcase
      exact hresult.done (.type other) List.mem_cons_self
    · exact hresult.kept.subset (List.mem_filter.mpr ⟨hother, by simpa using hcase⟩)
  have hheld : ∀ other ∈ collected.filter (· != id), other ∈ id :: held → other ∈ held := by
    intro other hother hplace
    have hne : other ≠ id := by simpa using (List.mem_filter.mp hother).2
    exact (List.mem_cons.mp hplace).resolve_left hne
  exact h.next hresult List.filter_sublist hkept (List.subset_cons_self id held) hheld
    (List.Subset.refl _) fun other hother => .inl hother

/-- Roots are collected when no place is held any more. -/
theorem collectRoot_outcome {awaited collected : List TypeId}
    (h : graph.Collecting starts [] (id :: awaited) collected) :
    graph.Outcome starts (graph.Collecting starts [] awaited)
      (graph.collect [.type id] collected) := by
  have hid : graph.Reachable starts id := .of_mem (h.asked id List.mem_cons_self)
  apply (gather_outcome hid collected).mono
  intro result hresult
  have hawaited : ∀ other ∈ id :: awaited, other ∈ awaited ∨ other ∈ result := by
    intro other hother
    rcases List.mem_cons.mp hother with rfl | hlater
    · exact .inr (hresult.done (.type other) List.mem_cons_self)
    · exact .inl hlater
  exact h.next hresult (List.Sublist.refl _) hresult.kept.subset (List.Subset.refl _)
    (fun _ _ hplace => hplace) (List.subset_cons_self id awaited) hawaited

/-- Types that are all expanded are closed under references. -/
theorem Collecting.mem_of_reachable {collected : List TypeId}
    (h : graph.Collecting starts [] [] collected) (hid : graph.Reachable starts id) :
    id ∈ collected := by
  obtain ⟨start, hstart, hpath⟩ := hid
  induction hpath with
  | refl => exact (h.covered start hstart).resolve_left List.not_mem_nil
  | tail _ hlast ih =>
    have hdone := (h.expanded _ ih).resolve_left List.not_mem_nil
    exact hdone.closed _ hlast

theorem distinct_spec (ids : List TypeId) :
    (distinct ids).Nodup ∧ ∀ id, id ∈ distinct ids ↔ id ∈ ids := by
  have hrun (seen : List TypeId) (hseen : seen.Nodup) :
      (ids.foldl (fun seen id => if id ∈ seen then seen else seen ++ [id]) seen).Nodup ∧
      ∀ id, id ∈ ids.foldl (fun seen id => if id ∈ seen then seen else seen ++ [id]) seen ↔
        id ∈ seen ∨ id ∈ ids := by
    induction ids generalizing seen with
    | nil => exact ⟨hseen, by simp⟩
    | cons first ids ih =>
      rw [List.foldl_cons]
      by_cases hfirst : first ∈ seen
      · rw [if_pos hfirst]
        obtain ⟨hnodup, hmem⟩ := ih seen hseen
        refine ⟨hnodup, fun id => ?_⟩
        rw [hmem, List.mem_cons]
        constructor
        · rintro (hid | hid)
          · exact .inl hid
          · exact .inr (.inr hid)
        · rintro (hid | rfl | hid)
          · exact .inl hid
          · exact .inl hfirst
          · exact .inr hid
      · rw [if_neg hfirst]
        have hnext : (seen ++ [first]).Nodup := by
          rw [← List.concat_eq_append]
          exact hseen.concat hfirst
        obtain ⟨hnodup, hmem⟩ := ih _ hnext
        refine ⟨hnodup, fun id => ?_⟩
        rw [hmem, List.mem_append, List.mem_singleton, List.mem_cons, or_assoc]
  obtain ⟨hnodup, hmem⟩ := hrun [] List.nodup_nil
  exact ⟨hnodup, fun id => by simpa [distinct] using hmem id⟩

/-- The collected types, where the collection ends well: each type that can be reached once. -/
structure Complete (graph : TypeGraph ε) (starts types : List TypeId) : Prop where
  nodup : types.Nodup
  mem_iff : ∀ id, id ∈ types ↔ graph.Reachable starts id
  readable : ∀ id ∈ types, graph.Readable id

theorem Collecting.complete {collected : List TypeId}
    (h : graph.Collecting starts [] [] collected) : graph.Complete starts collected := by
  constructor
  · exact h.nodup
  · exact fun id => ⟨h.reachable id, h.mem_of_reachable⟩
  · exact fun id hid => ((h.expanded id hid).resolve_left List.not_mem_nil).readable

theorem collectAll_outcome (graph : TypeGraph ε) (given roots : List TypeId) :
    graph.Outcome (given ++ roots) (graph.Complete (given ++ roots))
      (graph.collectAll given roots) := by
  obtain ⟨hnodup, hmem⟩ := distinct_spec given
  have hstart : graph.Collecting (given ++ roots) given roots (distinct given) := by
    constructor
    · exact hnodup
    · exact fun id hid => (hmem id).mpr hid
    · exact fun id hid => .of_mem (List.mem_append_left _ ((hmem id).mp hid))
    · exact fun id hid => .inl ((hmem id).mp hid)
    · exact fun id hid => List.mem_append_right _ hid
    · intro start hstart
      rcases List.mem_append.mp hstart with hgiven | hroot
      · exact .inr ((hmem start).mpr hgiven)
      · exact .inl hroot
  have hgiven : graph.Outcome (given ++ roots) (graph.Collecting (given ++ roots) [] roots)
      (given.foldlM graph.collectGiven (distinct given)) :=
    Outcome.foldlM (fun held => graph.Collecting (given ++ roots) held roots)
      (fun _ _ _ h => collectGiven_outcome h) given _ hstart
  unfold collectAll
  cases hrun : given.foldlM graph.collectGiven (distinct given) with
  | error error =>
    rw [hrun] at hgiven
    exact hgiven
  | ok collected =>
    rw [hrun] at hgiven
    have hroots : graph.Outcome (given ++ roots) (graph.Collecting (given ++ roots) [] [])
        (roots.foldlM (fun collected id => graph.collect [.type id] collected) collected) :=
      Outcome.foldlM (graph.Collecting (given ++ roots) [])
        (fun _ _ _ h => collectRoot_outcome h) roots _ hgiven
    exact hroots.mono fun types h => h.complete

theorem collectAll_eq_ok {given roots types : List TypeId}
    (h : graph.collectAll given roots = .ok types) : graph.Complete (given ++ roots) types := by
  have houtcome := collectAll_outcome graph given roots
  rwa [h] at houtcome

/-- Nothing but an unreadable part of a type that can be reached makes the collection fail. -/
theorem collectAll_isOk {given roots : List TypeId}
    (h : ∀ id, graph.Reachable (given ++ roots) id → graph.Readable id) :
    ∃ types, graph.collectAll given roots = .ok types := by
  have houtcome := collectAll_outcome graph given roots
  cases hrun : graph.collectAll given roots with
  | ok types => exact ⟨types, rfl⟩
  | error error =>
    rw [hrun] at houtcome
    obtain ⟨id, part, hid, hpart, hfault⟩ := houtcome
    rw [h id hid part hpart] at hfault
    cases hfault

/-! Schemas -/

theorem clash?_eq_none_iff (names : List String) (ids : List TypeId) :
    graph.clash? names ids = none ↔
      (ids.map fun id => (graph.type id).name).Nodup ∧
        ∀ id ∈ ids, (graph.type id).name ∉ names := by
  induction ids generalizing names with
  | nil => simp [clash?]
  | cons id ids ih =>
    unfold clash?
    by_cases hname : (graph.type id).name ∈ names
    · simp [hname]
    · rw [if_neg hname, ih, List.map_cons, List.nodup_cons, List.mem_map, List.forall_mem_cons]
      constructor
      · rintro ⟨hnodup, hother⟩
        refine ⟨⟨?_, hnodup⟩, hname, fun other hmem hin => hother other hmem (.tail _ hin)⟩
        rintro ⟨other, hmem, hsame⟩
        exact hother other hmem (hsame ▸ .head _)
      · rintro ⟨⟨hfirst, hnodup⟩, -, hother⟩
        refine ⟨hnodup, fun other hmem hin => ?_⟩
        rcases List.mem_cons.mp hin with hsame | hin
        · exact hfirst ⟨other, hmem, hsame⟩
        · exact hother other hmem hin

/-- Two types that can be reached are different and have one name. -/
def NamesClash (graph : TypeGraph ε) (starts : List TypeId) : Prop :=
  ∃ first second, graph.Reachable starts first ∧ graph.Reachable starts second ∧
    first ≠ second ∧ (graph.type first).name = (graph.type second).name

theorem Complete.clash?_eq_none_iff {types : List TypeId} (h : graph.Complete starts types) :
    graph.clash? [] types = none ↔ ¬graph.NamesClash starts := by
  rw [TypeGraph.clash?_eq_none_iff]
  constructor
  · rintro ⟨hnodup, -⟩ ⟨first, second, hfirst, hsecond, hne, hsame⟩
    have hinj := List.inj_on_of_nodup_map hnodup
    exact hne (hinj ((h.mem_iff first).mpr hfirst) ((h.mem_iff second).mpr hsecond) hsame)
  · intro hclear
    refine ⟨h.nodup.map_on ?_, by simp⟩
    intro first hfirst second hsecond hsame
    by_contra hne
    exact hclear ⟨first, second, (h.mem_iff first).mp hfirst, (h.mem_iff second).mp hsecond, hne,
      hsame⟩

def RootsAreObjects (graph : TypeGraph ε) (roots : Roots) : Prop :=
  ∀ operation, ∀ id ∈ roots.get operation, (graph.type id).isObject = true

theorem rootsAreObjects_iff {roots : Roots} :
    (OperationType.all.find? fun operation =>
        (roots.get operation).any fun id => !(graph.type id).isObject) = none ↔
      graph.RootsAreObjects roots := by
  have hall (operation : OperationType) : operation ∈ OperationType.all := by
    cases operation <;> decide
  rw [List.find?_eq_none]
  constructor
  · intro h operation id hid
    have hroot := h operation (hall operation)
    rw [Option.mem_def.mp hid] at hroot
    simpa using hroot
  · intro h operation _
    cases hroot : roots.get operation with
    | none => simp
    | some id => simp [h operation id hroot]

/-- The types that a schema is assembled from can all be reached and read, and have names of their
own. -/
structure Assembled (graph : TypeGraph ε) (given : List TypeId) (roots : Roots)
    (schema : Schema) : Prop where
  table : schema.table = graph.table
  complete : graph.Complete (given ++ roots.toList) schema.types
  names : ¬graph.NamesClash (given ++ roots.toList)
  objects : graph.RootsAreObjects roots
  root : ∀ operation, schema.root operation = roots.get operation

variable {given : List TypeId} {roots : Roots} {definition : Option SchemaDefinition}

theorem assemble_eq_ok {schema : Schema} (h : graph.assemble given roots definition = .ok schema) :
    graph.Assembled given roots schema := by
  unfold assemble at h
  split at h
  · cases h
  · rename_i hroots
    cases hcollect : graph.collectAll given roots.toList with
    | error error => simp [hcollect] at h
    | ok types =>
      have hcomplete := collectAll_eq_ok hcollect
      cases hclash : graph.clash? [] types with
      | some name => simp [hcollect, hclash] at h
      | none =>
        simp only [hcollect, hclash, Except.ok.injEq] at h
        subst h
        constructor
        · rfl
        · exact hcomplete
        · exact hcomplete.clash?_eq_none_iff.mp hclash
        · exact rootsAreObjects_iff.mp hroots
        · intro operation
          cases operation <;> rfl

/-- The outcome when roots are objects and all types can be read: a schema, unless names clash. -/
theorem assemble_of_readable (given : List TypeId) (definition : Option SchemaDefinition)
    (hobjects : graph.RootsAreObjects roots)
    (hreadable : ∀ id, graph.Reachable (given ++ roots.toList) id → graph.Readable id) :
    (graph.NamesClash (given ++ roots.toList) ∧
        ∃ name, graph.assemble given roots definition = .error (.clash name)) ∨
      ∃ schema, graph.assemble given roots definition = .ok schema := by
  obtain ⟨types, hcollect⟩ := collectAll_isOk hreadable
  have hcomplete := collectAll_eq_ok hcollect
  unfold assemble
  rw [rootsAreObjects_iff.mpr hobjects, hcollect]
  dsimp only
  cases hclash : graph.clash? [] types with
  | none => exact .inr ⟨_, rfl⟩
  | some name =>
    refine .inl ⟨?_, name, rfl⟩
    by_contra hclear
    rw [hcomplete.clash?_eq_none_iff.mpr hclear] at hclash
    cases hclash

theorem assemble_isOk_iff :
    (∃ schema, graph.assemble given roots definition = .ok schema) ↔
      graph.RootsAreObjects roots ∧
      (∀ id, graph.Reachable (given ++ roots.toList) id → graph.Readable id) ∧
      ¬graph.NamesClash (given ++ roots.toList) := by
  constructor
  · rintro ⟨schema, h⟩
    have hassembled := assemble_eq_ok h
    refine ⟨hassembled.objects, fun id hid => ?_, hassembled.names⟩
    exact hassembled.complete.readable id ((hassembled.complete.mem_iff id).mpr hid)
  · rintro ⟨hobjects, hreadable, hnames⟩
    rcases assemble_of_readable given definition hobjects hreadable with ⟨hclash, -⟩ | hok
    · exact absurd hclash hnames
    · exact hok

theorem table_type (graph : TypeGraph ε) (id : TypeId) : graph.table.type id = graph.type id := by
  unfold TypeTable.type TypeGraph.type table draft
  rw [List.getElem?_map]
  cases graph[id]? <;> rfl

theorem Assembled.type_eq {schema : Schema} (h : graph.Assembled given roots schema)
    (id : TypeId) : schema.type id = graph.type id := by
  rw [Schema.type, h.table, table_type]

theorem Assembled.closed {schema : Schema} (h : graph.Assembled given roots schema)
    (hid : id ∈ schema.types) {other : TypeId} (hother : other ∈ (schema.type id).references) :
    other ∈ schema.types := by
  rw [h.type_eq] at hother
  rw [h.complete.mem_iff] at hid ⊢
  exact hid.step hother

/-- Every type of a schema is found under its own name. -/
theorem Assembled.find?_name {schema : Schema} (h : graph.Assembled given roots schema)
    (hid : id ∈ schema.types) : schema.find? (schema.name id) = some id := by
  have hfound : schema.types.find? (fun other => schema.name other == schema.name id) =
      some id := by
    obtain ⟨found, hfound⟩ : ∃ found,
        schema.types.find? (fun other => schema.name other == schema.name id) = some found := by
      rw [← Option.isSome_iff_exists, List.find?_isSome]
      exact ⟨id, hid, by simp⟩
    have hname : schema.name found = schema.name id := by simpa using List.find?_some hfound
    have hmem := List.mem_of_find?_eq_some hfound
    have hsame : found = id := by
      by_contra hne
      apply h.names
      refine ⟨found, id, (h.complete.mem_iff found).mp hmem, (h.complete.mem_iff id).mp hid, hne,
        ?_⟩
      rwa [Schema.name, Schema.name, h.type_eq, h.type_eq] at hname
    rw [hfound, hsame]
  rw [Schema.find?, hfound]
  rfl

theorem Assembled.name_inj {schema : Schema} (h : graph.Assembled given roots schema)
    {first second : TypeId} (hfirst : first ∈ schema.types) (hsecond : second ∈ schema.types)
    (hsame : schema.name first = schema.name second) : first = second := by
  have hfound := h.find?_name hfirst
  rw [hsame, h.find?_name hsecond] at hfound
  exact (Option.some.inj hfound).symm

/-- The types of a schema are exactly those that can be reached. Where all types can be read and the
roots are objects, a schema is made unless two types that can be reached share a name. It has each
type that can be reached once, under its own name, and no others, so every type that one of its
types refers to is among them. -/
theorem assemble_collects_reachable (graph : TypeGraph ε) (given : List TypeId) (roots : Roots)
    (definition : Option SchemaDefinition)
    (hreadable : ∀ id part, (graph.draft id).fault part = none)
    (hobjects : graph.RootsAreObjects roots) :
    ((∃ name, graph.assemble given roots definition = .error (.clash name)) ↔
        graph.NamesClash (given ++ roots.toList)) ∧
      (¬graph.NamesClash (given ++ roots.toList) →
        ∃ schema, graph.assemble given roots definition = .ok schema ∧
          schema.types.Nodup ∧
          (∀ id, id ∈ schema.types ↔ graph.Reachable (given ++ roots.toList) id) ∧
          (∀ id ∈ schema.types, schema.type id = graph.type id ∧
            schema.find? (graph.type id).name = some id) ∧
          ∀ id ∈ schema.types, ∀ other ∈ (schema.type id).references, other ∈ schema.types) := by
  have houtcome := assemble_of_readable given definition hobjects
    fun id _ part _ => hreadable id part
  constructor
  · constructor
    · rintro ⟨name, hclash⟩
      rcases houtcome with ⟨hnames, -⟩ | ⟨schema, hok⟩
      · exact hnames
      · rw [hclash] at hok
        cases hok
    · intro hnames
      rcases houtcome with ⟨-, hclash⟩ | ⟨schema, hok⟩
      · exact hclash
      · exact absurd hnames (assemble_eq_ok hok).names
  · intro hnames
    obtain ⟨schema, hok⟩ := houtcome.resolve_left fun h => hnames h.1
    have h := assemble_eq_ok hok
    refine ⟨schema, hok, h.complete.nodup, h.complete.mem_iff, ?_, fun id hid other => h.closed hid⟩
    intro id hid
    refine ⟨h.type_eq id, ?_⟩
    rw [← h.type_eq]
    exact h.find?_name hid

/-- Types in a circle, with a second type of the name `Node` that only some starts lead to. -/
theorem assemble_collects_reachable_circle :
    let graph : TypeGraph Empty := [
      { type := { name := "Query", shape := .object [1] [("pets", {
          type := .list (.named 2), arguments := [("key", { type := .nonNull (.named 3) })] })] } },
      { type := { name := "Node", shape := .interface [("self", { type := .named 1 })] } },
      { type := { name := "Pet", shape := .union [0] } },
      { type := { name := "ID", shape := .scalar } },
      { type := { name := "Node", shape := .scalar } }]
    (∀ id part, (graph.draft id).fault part = none) ∧
      graph.RootsAreObjects { query := some 0 } ∧
      (∃ name, graph.assemble [4, 2] { query := some 0 } = .error (.clash name)) ∧
      ∃ schema, graph.assemble [2, 3, 2] { query := some 0 } = .ok schema ∧
        schema.find? "Node" = some 1 := by
  intro graph
  have hreadable : ∀ id part, (graph.draft id).fault part = none := by
    intro id part
    rcases id with _ | _ | _ | _ | _ | _ <;> rfl
  have hobjects : graph.RootsAreObjects { query := some 0 } := by
    intro operation id hid
    cases operation with
    | query =>
      obtain rfl : 0 = id := by simpa [Roots.get] using hid
      rfl
    | _ => cases hid
  have hnode (starts : List TypeId) (hstart : 0 ∈ starts) : graph.Reachable starts 1 :=
    Reachable.step (.of_mem hstart) (by decide)
  -- no reference leads from the first four types to the last one, and their names differ
  have hclear : ¬graph.NamesClash ([2, 3, 2] ++ Roots.toList { query := some 0 }) := by
    have hclosed : ∀ id < 4, ∀ other ∈ (graph.type id).references, other < 4 := by decide
    have hinside (id : TypeId)
        (hid : graph.Reachable ([2, 3, 2] ++ Roots.toList { query := some 0 }) id) : id < 4 := by
      obtain ⟨start, hstart, hpath⟩ := hid
      induction hpath with
      | refl =>
        have hstarts : ∀ start ∈ [2, 3, 2] ++ Roots.toList { query := some 0 }, start < 4 := by
          decide
        exact hstarts start hstart
      | tail _ hlast ih => exact hclosed _ ih _ hlast
    have hnames : ∀ first < 4, ∀ second < 4, first ≠ second →
        (graph.type first).name ≠ (graph.type second).name := by decide
    rintro ⟨first, second, hfirst, hsecond, hne, hsame⟩
    exact hnames first (hinside first hfirst) second (hinside second hsecond) hne hsame
  refine ⟨hreadable, hobjects, ?_, ?_⟩
  · apply (assemble_collects_reachable graph [4, 2] _ none hreadable hobjects).1.mpr
    exact ⟨4, 1, .of_mem (by decide), hnode _ (by decide), by decide, rfl⟩
  · obtain ⟨schema, hok, -, hmem, hfound, -⟩ :=
      (assemble_collects_reachable graph [2, 3, 2] _ none hreadable hobjects).2 hclear
    exact ⟨schema, hok, (hfound 1 ((hmem 1).mpr (hnode _ (by decide)))).2⟩

end TypeGraph

end QueryLint
