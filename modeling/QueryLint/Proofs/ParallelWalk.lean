import Mathlib.Logic.Function.Basic
import QueryLint.Document.Parallel
import QueryLint.Document.Traversal
import QueryLint.Proofs.Walk

/-!
A common walk of several visitors is, for each of them, the walk it would make alone. A visitor in
its slot of a common walk gets no calls while it stands aside, which takes the place of pruning
the walk; `walk_slot` says that this makes no difference. The common walk shows each slot as it is
by itself, as long as the visitors leave each other's states alone.
-/

namespace QueryLint

variable {ε σ τ : Type}

namespace Visitor

def NeverFails (visitor : Visitor ε σ) : Prop :=
  ∀ phase tree place state, ∃ reply next,
    visitor.visit phase tree place state = (.ok reply, next)

/-- A visitor in its slot of a common walk, with its standing there. It never asks the walk to stop
or to skip. -/
def slot (visitor : Visitor ε τ) : Visitor ε (Standing × τ) where
  visit
    | .enter, tree, place, (.active, state) =>
      match visitor.visit .enter tree place state with
      | (.error error, state) => (.error error, .active, state)
      | (.ok reply, state) => (.ok .silent, .afterEnter place.path reply, state)
    | .leave, tree, place, (.active, state) =>
      match visitor.visit .leave tree place state with
      | (.error error, state) => (.error error, .active, state)
      | (.ok reply, state) => (.ok .silent, .afterLeave reply, state)
    | .leave, _, place, (.skipping path, state) =>
      (.ok .silent, if path = place.path then .active else .skipping path, state)
    | _, _, _, (standing, state) => (.ok .silent, standing, state)

end Visitor

/-- Standing aside at a place and at all places below: broken off, or skipping a node above. -/
def Standing.AsideAt (place : Place) : Standing → Prop
  | .active => False
  | .skipping path => path.length < place.path.length
  | .broken => True

theorem Tree.Below.path_length_lt {tree node : Tree} {place next : Place}
    (h : tree.Below place node next) : place.path.length < next.path.length := by
  cases h <;> simp [Place.child, Place.item]

theorem Standing.AsideAt.below {standing : Standing} {tree node : Tree} {place next : Place}
    (h : standing.AsideAt place) (hbelow : tree.Below place node next) :
    standing.AsideAt next := by
  cases standing with
  | active => exact h
  | skipping path => exact Nat.lt_trans h hbelow.path_length_lt
  | broken => trivial

/-- A slot whose visitor stands aside comes out of the walk of a node as it was. -/
theorem Tree.walk_slot_aside (visitor : Visitor ε τ) (tree : Tree) (place : Place)
    (standing : Standing) (state : τ) (haside : standing.AsideAt place) :
    tree.walk visitor.slot place (standing, state) = (.onward, standing, state) := by
  have hkeeps : WalkInvariant visitor.slot
      (fun place _ slot => slot = (standing, state) ∧ standing.AsideAt place)
      (fun place _ slot => slot = (standing, state) ∧ standing.AsideAt place)
      (fun _ => False) (fun _ _ => False) := by
    refine ⟨?_, ?_, ?_⟩
    · rintro place tree slot ⟨rfl, haside⟩
      cases standing with
      | active => exact haside.elim
      | skipping path => exact ⟨rfl, haside⟩
      | broken => exact ⟨rfl, haside⟩
    · rintro place tree slot ⟨rfl, haside⟩
      cases standing with
      | active => exact haside.elim
      | skipping path =>
        have hother : path ≠ place.path := fun same => by
          simp [Standing.AsideAt, same] at haside
        simpa [Visitor.slot, Reply.Leads, hother] using haside
      | broken => exact ⟨rfl, haside⟩
    · rintro place tree slot node next ⟨rfl, haside⟩ hbelow
      exact ⟨⟨rfl, haside.below hbelow⟩, fun later hlater => ⟨hlater.1, haside⟩⟩
  have hwalk := hkeeps.walk tree place (standing, state) ⟨rfl, haside⟩
  exact (hwalk.mono fun _ hlast => hlast.1).eq_onward

theorem Tree.walkAll_slot_broken (visitor : Visitor ε τ) (place : Nat → Place) (position : Nat)
    (trees : List Tree) (state : τ) :
    Tree.walkAll visitor.slot place position trees (.broken, state) =
      (.onward, .broken, state) := by
  induction trees generalizing position with
  | nil => rfl
  | cons node rest ih =>
    rw [Tree.walkAll_cons, node.walk_slot_aside visitor (place position) .broken state trivial]
    exact ih (position + 1)

theorem Branch.walkAll_slot_broken (visitor : Visitor ε τ) (tree : Tree) (place : Place)
    (branches : List Branch) (state : τ) :
    Branch.walkAll visitor.slot tree place branches (.broken, state) =
      (.onward, .broken, state) := by
  induction branches with
  | nil => rfl
  | cons branch rest ih =>
    cases branch with
    | absent name => exact ih
    | single name node =>
      rw [Branch.walkAll_single, node.walk_slot_aside visitor _ .broken state trivial]
      exact ih
    | sequence name nodes =>
      rw [Branch.walkAll_sequence, Tree.walkAll_slot_broken]
      exact ih

/-- A slot that skips a node passes over all its branches. -/
theorem Branch.walkAll_slot_skipping (visitor : Visitor ε τ) (tree : Tree) (place : Place)
    (state : τ) :
    Branch.walkAll visitor.slot tree place tree.branches (.skipping place.path, state) =
      (.onward, .skipping place.path, state) := by
  have hbelow : ∀ (node : Tree) (next : Place) (slot : Standing × τ), tree.Below place node next →
      slot = (.skipping place.path, state) →
      Flow.Ends (· = (.skipping place.path, state)) (fun _ => False) (fun _ _ => False)
        (node.walk visitor.slot next slot) := by
    rintro node next _ hbelow rfl
    rw [node.walk_slot_aside visitor next (.skipping place.path) state hbelow.path_length_lt]
    rfl
  exact (Branch.walkAll_ends hbelow tree.branches (fun _ member => member) _ rfl).eq_onward

/-- What a slot makes of a walk: breaking off only changes the standing. -/
def Flow.inSlot : Flow ε × τ → Flow ε × Standing × τ
  | (.onward, state) => (.onward, .active, state)
  | (.stopped, state) => (.onward, .broken, state)
  | (.failed error, state) => (.failed error, .active, state)

theorem Flow.andThen_inSlot {first : Flow ε × τ} {rest : τ → Flow ε × τ}
    {slotRest : Standing × τ → Flow ε × Standing × τ}
    (hactive : ∀ state, slotRest (.active, state) = Flow.inSlot (rest state))
    (hbroken : ∀ state, slotRest (.broken, state) = (.onward, .broken, state)) :
    Flow.andThen (Flow.inSlot first) slotRest = Flow.inSlot (Flow.andThen first rest) := by
  obtain ⟨_ | _ | _, state⟩ := first
  · exact hactive state
  · exact hbroken state
  · rfl

theorem Tree.walkAll_slot (visitor : Visitor ε τ) (place : Nat → Place) (trees : List Tree)
    (hnodes : ∀ node ∈ trees, ∀ (next : Place) (state : τ),
      node.walk visitor.slot next (.active, state) = Flow.inSlot (node.walk visitor next state))
    (position : Nat) (state : τ) :
    Tree.walkAll visitor.slot place position trees (.active, state) =
      Flow.inSlot (Tree.walkAll visitor place position trees state) := by
  induction trees generalizing position state with
  | nil => rfl
  | cons node rest ih =>
    rw [Tree.walkAll_cons, Tree.walkAll_cons, hnodes node (List.mem_cons_self ..)]
    exact Flow.andThen_inSlot
      (ih (fun node member => hnodes node (List.mem_cons_of_mem _ member)) (position + 1))
      (Tree.walkAll_slot_broken visitor place (position + 1) rest)

theorem Branch.walkAll_slot (visitor : Visitor ε τ) (tree : Tree) (place : Place)
    (branches : List Branch)
    (hbelow : ∀ node ∈ branches.flatMap Branch.nodes, ∀ (next : Place) (state : τ),
      node.walk visitor.slot next (.active, state) = Flow.inSlot (node.walk visitor next state))
    (state : τ) :
    Branch.walkAll visitor.slot tree place branches (.active, state) =
      Flow.inSlot (Branch.walkAll visitor tree place branches state) := by
  induction branches generalizing state with
  | nil => rfl
  | cons branch rest ih =>
    have hnodes := fun node member => hbelow node (List.mem_append_left _ member)
    have hrest := ih fun node member => hbelow node (List.mem_append_right _ member)
    have hbroken := Branch.walkAll_slot_broken visitor tree place rest
    cases branch with
    | absent name => exact hrest state
    | single name node =>
      rw [Branch.walkAll_single, Branch.walkAll_single, hnodes node (List.mem_singleton_self _)]
      exact Flow.andThen_inSlot hrest hbroken
    | sequence name nodes =>
      rw [Branch.walkAll_sequence, Branch.walkAll_sequence, Tree.walkAll_slot _ _ nodes hnodes]
      exact Flow.andThen_inSlot hrest hbroken

theorem Visitor.leaving_slot (visitor : Visitor ε τ) (tree : Tree) (place : Place) (state : τ) :
    visitor.slot.leaving tree place (.active, state) =
      Flow.inSlot (visitor.leaving tree place state) := by
  simp only [Visitor.leaving, Visitor.slot]
  rcases visitor.visit .leave tree place state with ⟨error | reply, left⟩
  · rfl
  · by_cases hstop : reply.action? = some .stop <;>
      simp [hstop, Standing.afterLeave, Flow.inSlot]

/-- In its slot a visitor makes the walk that it makes alone. Where the walk alone skips a node the
slot stands aside until the node is left, and where it stops the slot stands aside to the end. -/
theorem Tree.walk_slot (visitor : Visitor ε τ) (tree : Tree) (place : Place) (state : τ) :
    tree.walk visitor.slot place (.active, state) =
      Flow.inSlot (tree.walk visitor place state) := by
  induction tree using Tree.induction_below generalizing place state with
  | hstep tree ih =>
    rcases hvisit : visitor.visit .enter tree place state with ⟨error | reply, entered⟩
    · have hslot : visitor.slot.visit .enter tree place (.active, state) =
          (.error error, .active, entered) := by simp only [Visitor.slot, hvisit]
      rw [Tree.walk_of_error hvisit, Tree.walk_of_error hslot]
      rfl
    · have hslot : visitor.slot.visit .enter tree place (.active, state) =
          (.ok .silent, .afterEnter place.path reply, entered) := by
        simp only [Visitor.slot, hvisit]
      rw [Tree.walk_of_none hslot rfl]
      rcases haction : reply.action? with _ | _ | _
      · rw [Tree.walk_of_none hvisit haction, Standing.afterEnter, haction]
        simp only
        rw [Branch.walkAll_slot visitor tree place tree.branches ih]
        exact Flow.andThen_inSlot (visitor.leaving_slot tree place) (fun _ => rfl)
      · rw [Tree.walk_of_stop hvisit haction, Standing.afterEnter, haction]
        simp only
        rw [Branch.walkAll_slot_broken]
        rfl
      · rw [Tree.walk_of_skip hvisit haction, Standing.afterEnter, haction]
        simp only
        rw [Branch.walkAll_slot_skipping]
        simp [Flow.andThen, Visitor.leaving, Visitor.slot, Flow.inSlot]

/-! The slots of a common walk -/

namespace Visitor

/-- One round of a common walk. -/
def callEach (phase : Phase) (tree : Tree) (place : Place) (visitors : List (Visitor ε σ))
    (standings : List Standing) (state : σ) : Except ε Unit × List Standing × σ :=
  match phase with
  | .enter => enterEach tree place visitors standings state
  | .leave => leaveEach tree place visitors standings state

theorem parallel_visit (visitors : List (Visitor ε σ)) (phase : Phase) (tree : Tree)
    (place : Place) (standings : List Standing) (state : σ) :
    (parallel visitors).visit phase tree place (standings, state) =
      ((callEach phase tree place visitors standings state).1.map fun _ => .silent,
        (callEach phase tree place visitors standings state).2) := by
  cases phase <;> rfl

theorem callEach_nil (phase : Phase) (tree : Tree) (place : Place) (standings : List Standing)
    (state : σ) :
    callEach phase tree place ([] : List (Visitor ε σ)) standings state =
      (.ok (), standings, state) := by
  cases phase <;> rfl

/-- The first visitor is called in its slot, and unless it fails the others follow. -/
theorem callEach_cons (phase : Phase) (tree : Tree) (place : Place) (visitor : Visitor ε σ)
    (visitors : List (Visitor ε σ)) (standing : Standing) (standings : List Standing) (state : σ) :
    callEach phase tree place (visitor :: visitors) (standing :: standings) state =
      match visitor.slot.visit phase tree place (standing, state) with
      | (.error error, standing, state) => (.error error, standing :: standings, state)
      | (.ok _, standing, state) =>
        let (result, standings, state) := callEach phase tree place visitors standings state
        (result, standing :: standings, state) := by
  cases phase <;> cases standing <;> simp only [callEach, enterEach, leaveEach, slot]
  · rcases visitor.visit .enter tree place state with ⟨error | reply, next⟩ <;> rfl
  · rcases visitor.visit .leave tree place state with ⟨error | reply, next⟩ <;> rfl

/-- Does to a part of its state what another visitor does, and replies the same. -/
def ActsAs (part : σ → τ) (visitor : Visitor ε σ) (own : Visitor ε τ) : Prop :=
  ∀ phase tree place state, own.visit phase tree place (part state) =
    ((visitor.visit phase tree place state).1, part (visitor.visit phase tree place state).2)

def Spares (part : σ → τ) (visitor : Visitor ε σ) : Prop :=
  ∀ phase tree place state, part (visitor.visit phase tree place state).2 = part state

theorem NeverFails.slot {visitor : Visitor ε σ} (h : visitor.NeverFails) (phase : Phase)
    (tree : Tree) (place : Place) (standing : Standing) (state : σ) :
    ∃ standing' state', visitor.slot.visit phase tree place (standing, state) =
      (.ok .silent, standing', state') := by
  obtain ⟨reply, next, hvisit⟩ := h phase tree place state
  cases phase <;> cases standing <;> simp [Visitor.slot, hvisit]

theorem ActsAs.slot {part : σ → τ} {visitor : Visitor ε σ} {own : Visitor ε τ}
    (h : visitor.ActsAs part own) (phase : Phase) (tree : Tree) (place : Place)
    (standing : Standing) (state : σ) :
    own.slot.visit phase tree place (standing, part state) =
      ((visitor.slot.visit phase tree place (standing, state)).1,
        (visitor.slot.visit phase tree place (standing, state)).2.1,
        part (visitor.slot.visit phase tree place (standing, state)).2.2) := by
  have hown := h phase tree place state
  cases phase <;> cases standing <;> simp only [Visitor.slot]
  · rcases hvisit : visitor.visit .enter tree place state with ⟨error | reply, next⟩ <;>
      simp [hown, hvisit]
  · rcases hvisit : visitor.visit .leave tree place state with ⟨error | reply, next⟩ <;>
      simp [hown, hvisit]

theorem Spares.slot {part : σ → τ} {visitor : Visitor ε σ} (h : visitor.Spares part)
    (phase : Phase) (tree : Tree) (place : Place) (standing : Standing) (state : σ) :
    part (visitor.slot.visit phase tree place (standing, state)).2.2 = part state := by
  have hspares := h phase tree place state
  cases phase <;> cases standing <;> simp only [Visitor.slot]
  · rcases hvisit : visitor.visit .enter tree place state with ⟨error | reply, next⟩ <;>
      simpa [hvisit] using hspares
  · rcases hvisit : visitor.visit .leave tree place state with ⟨error | reply, next⟩ <;>
      simpa [hvisit] using hspares

theorem callEach_spares {part : σ → τ} {visitors : List (Visitor ε σ)}
    (hcalm : ∀ visitor ∈ visitors, visitor.NeverFails)
    (hspares : ∀ visitor ∈ visitors, visitor.Spares part) (phase : Phase) (tree : Tree)
    (place : Place) (standings : List Standing) (state : σ) :
    (callEach phase tree place visitors standings state).1 = .ok () ∧
      part (callEach phase tree place visitors standings state).2.2 = part state := by
  induction visitors generalizing standings state with
  | nil => cases phase <;> exact ⟨rfl, rfl⟩
  | cons visitor rest ih =>
    cases standings with
    | nil => cases phase <;> exact ⟨rfl, rfl⟩
    | cons standing standings =>
      obtain ⟨standing', state', hvisit⟩ :=
        (hcalm visitor (List.mem_cons_self ..)).slot phase tree place standing state
      have hkept := (hspares visitor (List.mem_cons_self ..)).slot phase tree place standing state
      have hrest := ih (fun visitor member => hcalm visitor (List.mem_cons_of_mem _ member))
        (fun visitor member => hspares visitor (List.mem_cons_of_mem _ member)) standings state'
      rw [hvisit] at hkept
      rw [callEach_cons, hvisit]
      exact ⟨hrest.1, hrest.2.trans hkept⟩

theorem callEach_ok {visitors : List (Visitor ε σ)}
    (hcalm : ∀ visitor ∈ visitors, visitor.NeverFails) (phase : Phase) (tree : Tree)
    (place : Place) (standings : List Standing) (state : σ) :
    (callEach phase tree place visitors standings state).1 = .ok () := by
  have hspares : ∀ visitor ∈ visitors, visitor.Spares fun _ => () := fun _ _ _ _ _ _ => rfl
  exact (callEach_spares hcalm hspares phase tree place standings state).1

theorem callEach_length (visitors : List (Visitor ε σ)) (phase : Phase) (tree : Tree)
    (place : Place) (standings : List Standing) (state : σ) :
    (callEach phase tree place visitors standings state).2.1.length = standings.length := by
  induction visitors generalizing standings state with
  | nil => cases phase <;> rfl
  | cons visitor rest ih =>
    cases standings with
    | nil => cases phase <;> rfl
    | cons standing standings =>
      rw [callEach_cons]
      rcases visitor.slot.visit phase tree place (standing, state) with ⟨_ | _, next, later⟩
      · rfl
      · simp [ih standings later]

/-- A visitor with a state of its own among visitors that never fail: at its index the common
state is changed in one part, and elsewhere that part is left alone. -/
structure Occupies (part : σ → τ) (own : Visitor ε τ) (visitors : List (Visitor ε σ))
    (index : Nat) : Prop where
  calm : ∀ visitor ∈ visitors, visitor.NeverFails
  acts : ∃ visitor, visitors[index]? = some visitor ∧ visitor.ActsAs part own
  spares : ∀ other visitor, other ≠ index → visitors[other]? = some visitor →
    visitor.Spares part

/-- A round of the common walk shows the slot at an index as if it were called by itself. -/
theorem Occupies.callEach {part : σ → τ} {own : Visitor ε τ} {visitors : List (Visitor ε σ)}
    {index : Nat} (h : Occupies part own visitors index) (phase : Phase) (tree : Tree)
    (place : Place) {standings : List Standing} {standing : Standing} (state : σ)
    (hstanding : standings[index]? = some standing) :
    ∃ standing', own.slot.visit phase tree place (standing, part state) =
        (.ok .silent, standing', part (callEach phase tree place visitors standings state).2.2) ∧
      (callEach phase tree place visitors standings state).2.1[index]? = some standing' := by
  induction visitors generalizing index standings state with
  | nil =>
    obtain ⟨visitor, hvisitor, -⟩ := h.acts
    simp at hvisitor
  | cons visitor rest ih =>
    cases standings with
    | nil => simp at hstanding
    | cons head standings =>
      have hcalm := fun other member => h.calm other (List.mem_cons_of_mem visitor member)
      obtain ⟨next, later, hvisit⟩ :=
        (h.calm visitor (List.mem_cons_self ..)).slot phase tree place head state
      rw [callEach_cons, hvisit]
      cases index with
      | zero =>
        obtain ⟨_, hvisitor, hacts⟩ := h.acts
        obtain rfl : visitor = _ := by simpa using hvisitor
        obtain rfl : head = standing := by simpa using hstanding
        have hrest : ∀ other ∈ rest, other.Spares part := by
          intro other member
          obtain ⟨position, hposition⟩ := List.mem_iff_getElem?.mp member
          exact h.spares (position + 1) other (by simp) (by simpa using hposition)
        have hkept := (callEach_spares hcalm hrest phase tree place standings later).2
        refine ⟨next, ?_, rfl⟩
        rw [hacts.slot, hvisit, hkept]
      | succ index =>
        have hkept := (h.spares 0 visitor (by simp) rfl).slot phase tree place head state
        rw [hvisit] at hkept
        have hrest : Occupies part own rest index := by
          refine ⟨hcalm, by simpa using h.acts, ?_⟩
          intro other visitor hother hvisitor
          exact h.spares (other + 1) visitor (by simpa using hother) (by simpa using hvisitor)
        obtain ⟨standing', hown, hlater⟩ := ih hrest later (by simpa using hstanding)
        rw [← hkept]
        exact ⟨standing', hown, by simpa using hlater⟩

/-- A common walk simulates the walk of each slot by itself. -/
theorem Occupies.simulates {part : σ → τ} {own : Visitor ε τ} {visitors : List (Visitor ε σ)}
    {index : Nat} (h : Occupies part own visitors index) :
    Simulates (fun (common : List Standing × σ) (slot : Standing × τ) =>
      common.1[index]? = some slot.1 ∧ part common.2 = slot.2) (parallel visitors) own.slot := by
  rintro phase tree place ⟨standings, state⟩ ⟨standing, _⟩ ⟨hstanding, rfl⟩
  have hcommon := callEach_ok h.calm phase tree place standings state
  obtain ⟨standing', hown, hlater⟩ := h.callEach phase tree place state hstanding
  rw [parallel_visit, hcommon, hown]
  exact ⟨rfl, hlater, rfl⟩

/-- A common walk of visitors that never fail goes through the whole tree and keeps one standing
for each of them. -/
theorem walk_parallel_ends {visitors : List (Visitor ε σ)}
    (hcalm : ∀ visitor ∈ visitors, visitor.NeverFails) (tree : Tree) (place : Place)
    (standings : List Standing) (state : σ) :
    Flow.Ends (fun common : List Standing × σ => common.1.length = standings.length)
      (fun _ => False) (fun _ _ => False)
      (tree.walk (parallel visitors) place (standings, state)) := by
  have hround : ∀ (phase : Phase) (tree : Tree) (place : Place) (common : List Standing × σ),
      common.1.length = standings.length →
      ∃ next, (parallel visitors).visit phase tree place common = (.ok .silent, next) ∧
        next.1.length = standings.length := by
    rintro phase tree place ⟨current, state⟩ hlength
    have hok := callEach_ok hcalm phase tree place current state
    refine ⟨_, by rw [parallel_visit, hok]; rfl, ?_⟩
    exact (callEach_length visitors phase tree place current state).trans hlength
  have hkeeps : WalkInvariant (parallel visitors)
      (fun _ _ common => common.1.length = standings.length)
      (fun _ _ common => common.1.length = standings.length)
      (fun _ => False) (fun _ _ => False) := by
    refine ⟨?_, ?_, ?_⟩
    · intro place tree common hlength
      obtain ⟨next, hvisit, hnext⟩ := hround .enter tree place common hlength
      rw [hvisit]
      exact hnext
    · intro place tree common hlength
      obtain ⟨next, hvisit, hnext⟩ := hround .leave tree place common hlength
      rw [hvisit]
      exact hnext
    · intro place tree common node next hlength _
      exact ⟨hlength, fun _ hlater => hlater⟩
  exact hkeeps.walk tree place (standings, state) rfl

end Visitor

/-! Visitors with states of their own -/

namespace Visitor

/-- The visitor, writing down all its calls. -/
def recording (visitor : Visitor ε σ) : Visitor ε (List Call × σ) where
  visit phase tree place state :=
    let (result, own) := visitor.visit phase tree place state.2
    (result, state.1 ++ [⟨phase, tree, place⟩], own)

theorem NeverFails.recording {visitor : Visitor ε σ} (h : visitor.NeverFails) :
    visitor.recording.NeverFails := by
  intro phase tree place state
  obtain ⟨reply, next, hvisit⟩ := h phase tree place state.2
  exact ⟨reply, _, by simp only [Visitor.recording, hvisit]; rfl⟩

variable {count : Nat} {states : Fin count → Type}

/-- The visitor on its own one of several states. -/
def onOwn (index : Fin count) (visitor : Visitor ε (states index)) :
    Visitor ε ((index : Fin count) → states index) where
  visit phase tree place state :=
    let (result, own) := visitor.visit phase tree place (state index)
    (result, Function.update state index own)

/-- Visitors with states of their own, to walk side by side. -/
def sideBySide (visitors : (index : Fin count) → Visitor ε (states index)) :
    List (Visitor ε ((index : Fin count) → states index)) :=
  List.ofFn fun index => (visitors index).onOwn index

theorem sideBySide_neverFails {visitors : (index : Fin count) → Visitor ε (states index)}
    (hcalm : ∀ index, (visitors index).NeverFails) :
    ∀ visitor ∈ sideBySide visitors, visitor.NeverFails := by
  intro visitor member phase tree place state
  obtain ⟨index, rfl⟩ := List.mem_ofFn.mp member
  obtain ⟨reply, next, hvisit⟩ := hcalm index phase tree place (state index)
  exact ⟨reply, _, by simp only [onOwn, hvisit]; rfl⟩

theorem sideBySide_occupies {visitors : (index : Fin count) → Visitor ε (states index)}
    (hcalm : ∀ index, (visitors index).NeverFails) (index : Fin count) :
    Occupies (fun state => state index) (visitors index) (sideBySide visitors) index := by
  refine ⟨sideBySide_neverFails hcalm, ?_, ?_⟩
  · refine ⟨(visitors index).onOwn index, by simp [sideBySide], ?_⟩
    intro phase tree place state
    simp [onOwn]
  · intro other visitor hother hvisitor phase tree place state
    obtain ⟨hbound, rfl⟩ := List.getElem?_eq_some_iff.mp hvisitor
    have hne : index ≠ ⟨other, by simpa [sideBySide] using hbound⟩ := by
      rintro rfl
      exact hother rfl
    simp [sideBySide, onOwn, Function.update_of_ne hne]

end Visitor

/-- The standing in a common walk of a visitor whose walk alone ends this way. -/
def Flow.standing : Flow ε → Standing
  | .stopped => .broken
  | _ => .active

theorem Flow.inSlot_snd (walk : Flow ε × τ) :
    (Flow.inSlot walk).2 = (walk.1.standing, walk.2) := by
  obtain ⟨_ | _ | _, state⟩ := walk <;> rfl

/-- Side by side, each of several visitors that never fail gets the calls that it gets alone, in
the same order and at the same places, and comes to the same state, whatever the others reply. It
has broken off in the end if and only if its walk alone stops. -/
theorem walk_sideBySide_eq_alone {count : Nat} {states : Fin count → Type}
    (visitors : (index : Fin count) → Visitor ε (states index))
    (hcalm : ∀ index, (visitors index).NeverFails) (root : Tree)
    (state : (index : Fin count) → states index) :
    let alone (index : Fin count) := root.walk (visitors index).recording .root ([], state index)
    root.visit (.parallel (Visitor.sideBySide fun index => (visitors index).recording))
        (Standing.fresh count, fun index => ([], state index)) =
      (.ok (), List.ofFn fun index => (alone index).1.standing,
        fun index => (alone index).2) := by
  intro alone
  have hrecording : ∀ index, (visitors index).recording.NeverFails := fun index =>
    (hcalm index).recording
  have hends := Visitor.walk_parallel_ends (Visitor.sideBySide_neverFails hrecording) root .root
    (Standing.fresh count) (fun index => ([], state index))
  have hslots (index : Fin count) :=
    (Visitor.sideBySide_occupies hrecording index).simulates.walk root .root
      (Standing.fresh count, fun index => ([], state index)) (.active, [], state index)
      ⟨by simp [Standing.fresh], rfl⟩
  rw [Tree.visit_eq]
  generalize root.walk (.parallel (Visitor.sideBySide fun index => (visitors index).recording))
    .root (Standing.fresh count, fun index => ([], state index)) = common at hends hslots ⊢
  rcases common with ⟨_ | _ | _, standings, final⟩
  · have hslot (index : Fin count) : standings[index.val]? = some (alone index).1.standing ∧
        final index = (alone index).2 := by
      have hrelated := (hslots index).2
      rw [Tree.walk_slot, Flow.inSlot_snd] at hrelated
      exact hrelated
    have hlength : standings.length = count := by
      simpa [Flow.Ends, Standing.fresh] using hends
    have hstandings : standings = List.ofFn fun index => (alone index).1.standing := by
      apply List.ext_getElem?
      intro position
      by_cases hposition : position < count
      · rw [show standings[position]? = _ from (hslot ⟨position, hposition⟩).1]
        simp [hposition]
      · rw [List.getElem?_eq_none (by omega), List.getElem?_eq_none (by simp; omega)]
    rw [hstandings, funext fun index => (hslot index).2]
    rfl
  · exact hends.elim
  · exact hends.elim

/-- One visitor passes over fields and the other breaks off on leaving a name: both stop getting
calls in the first of two fields, but only the first visitor is called again. -/
theorem walk_sideBySide_skip_and_break :
    let reply (index : Fin 2) (phase : Phase) (kind : NodeKind) : Reply :=
      match index, phase, kind with
      | 0, .enter, .field => .flag false
      | 1, .leave, .name => .flag true
      | _, _, _ => .other
    let visitors (index : Fin 2) : Visitor Empty Nat :=
      ⟨fun phase tree _ calls => (.ok (reply index phase tree.kind), calls + 1)⟩
    let name (value : String) : Tree := .node ⟨.name, .name value, none⟩ []
    let field (value : String) : Tree :=
      .node ⟨.field, .none, none⟩ [.single "name" (name value)]
    let root : Tree :=
      .node ⟨.selectionSet, .none, none⟩ [.sequence "selections" [field "a", field "b"]]
    (∀ index, (visitors index).NeverFails) ∧
      let alone (index : Fin 2) := root.walk (visitors index).recording .root ([], 0)
      (alone 0).2.1.length = 4 ∧ (alone 1).2.1.length = 4 ∧
        root.visit (.parallel (Visitor.sideBySide fun index => (visitors index).recording))
            (Standing.fresh 2, fun _ => ([], 0)) =
          (.ok (), [.active, .broken], fun index => (alone index).2) := by
  intro reply visitors name field root
  have hcalm : ∀ index, (visitors index).NeverFails := fun index phase tree _ calls =>
    ⟨reply index phase tree.kind, calls + 1, rfl⟩
  exact ⟨hcalm, rfl, rfl, walk_sideBySide_eq_alone visitors hcalm root fun _ => 0⟩

end QueryLint
