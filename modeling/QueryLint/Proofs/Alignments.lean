import Mathlib.Algebra.Order.BigOperators.Group.List
import Mathlib.Algebra.Order.Ring.Nat
import Mathlib.Data.List.Induction
import Mathlib.Order.Bounds.Basic
import QueryLint.Check.EditDistance

/-!
The distance of two texts is the cost of their best alignment. An alignment goes through both texts
from left to right, and each of its steps keeps, replaces, deletes, inserts or swaps items. What is
in front of the last step is an alignment of shorter texts, so each cell of the distance matrix,
which is worked out from the cells before it, is the least cost for two prefixes.
-/

namespace QueryLint

/-! Alignments -/

inductive AlignmentStep (α : Type) where
  | keep (item : α)
  | replace (item other : α)
  | delete (item : α)
  | insert (other : α)
  | swap (first second : α)

namespace AlignmentStep

variable {α : Type}

/-- The items that a step reads. -/
def source : AlignmentStep α → List α
  | .keep item | .replace item _ | .delete item => [item]
  | .insert _ => []
  | .swap first second => [first, second]

/-- The items that a step leaves in their place. -/
def target : AlignmentStep α → List α
  | .keep item => [item]
  | .replace _ other | .insert other => [other]
  | .delete _ => []
  | .swap first second => [second, first]

def cost : AlignmentStep α → Nat
  | .keep _ => 0
  | _ => 1

/-- The step that leads back. -/
def flip : AlignmentStep α → AlignmentStep α
  | .keep item => .keep item
  | .replace item other => .replace other item
  | .delete item => .insert item
  | .insert other => .delete other
  | .swap first second => .swap second first

@[simp] theorem source_flip (step : AlignmentStep α) : step.flip.source = step.target := by
  cases step <;> rfl

@[simp] theorem target_flip (step : AlignmentStep α) : step.flip.target = step.source := by
  cases step <;> rfl

@[simp] theorem cost_flip (step : AlignmentStep α) : step.flip.cost = step.cost := by
  cases step <;> rfl

theorem length_target_le (step : AlignmentStep α) :
    step.target.length ≤ step.source.length + step.cost := by
  cases step <;> simp [source, target, cost]

theorem source_eq_target {step : AlignmentStep α} (h : step.cost = 0) :
    step.source = step.target := by
  cases step with
  | keep item => rfl
  | _ => cases h

end AlignmentStep

/-- Steps that read one sequence and leave the other. -/
structure Alignment {α : Type} (items others : List α) where
  steps : List (AlignmentStep α)
  source : steps.flatMap AlignmentStep.source = items
  target : steps.flatMap AlignmentStep.target = others

namespace Alignment

variable {α : Type} {items others : List α}

def cost (alignment : Alignment items others) : Nat :=
  (alignment.steps.map AlignmentStep.cost).sum

/-- What the alignments of two sequences cost. -/
def costs (items others : List α) : Set Nat := Set.range (cost : Alignment items others → Nat)

/-- One more step at the end. -/
def snoc (alignment : Alignment items others) (step : AlignmentStep α) :
    Alignment (items ++ step.source) (others ++ step.target) where
  steps := alignment.steps ++ [step]
  source := by simp [alignment.source]
  target := by simp [alignment.target]

theorem cost_snoc (alignment : Alignment items others) (step : AlignmentStep α) :
    (alignment.snoc step).cost = alignment.cost + step.cost := by
  simp [cost, snoc]

/-- The steps that lead back. -/
def flip (alignment : Alignment items others) : Alignment others items where
  steps := alignment.steps.map AlignmentStep.flip
  source := by simpa [List.flatMap_map] using alignment.target
  target := by simpa [List.flatMap_map] using alignment.source

theorem cost_flip (alignment : Alignment items others) : alignment.flip.cost = alignment.cost := by
  simp [cost, flip, Function.comp_def]

theorem length_le (alignment : Alignment items others) :
    others.length ≤ items.length + alignment.cost := by
  obtain ⟨steps, rfl, rfl⟩ := alignment
  change _ ≤ _ + (steps.map AlignmentStep.cost).sum
  induction steps with
  | nil => simp
  | cons step steps ih =>
    have hstep := step.length_target_le
    simp only [List.flatMap_cons, List.length_append, List.map_cons, List.sum_cons]
    omega

theorem eq_of_cost_eq_zero (alignment : Alignment items others) (h : alignment.cost = 0) :
    items = others := by
  have hkept : ∀ step ∈ alignment.steps, step.source = step.target := by
    intro step hstep
    apply AlignmentStep.source_eq_target
    exact List.sum_eq_zero_iff.mp h _ (List.mem_map_of_mem hstep)
  calc items
    _ = alignment.steps.flatMap AlignmentStep.source := alignment.source.symm
    _ = alignment.steps.flatMap AlignmentStep.target := List.flatMap_congr hkept
    _ = others := alignment.target

theorem mem_costs_snoc {cost : Nat} (h : cost ∈ costs items others) (step : AlignmentStep α) :
    cost + step.cost ∈ costs (items ++ step.source) (others ++ step.target) := by
  obtain ⟨alignment, rfl⟩ := h
  exact ⟨alignment.snoc step, alignment.cost_snoc step⟩

/-- An alignment has no steps, or a last one behind an alignment of what is in front of it. -/
theorem mem_costs_cases {cost : Nat} (h : cost ∈ costs items others) :
    (items = [] ∧ others = [] ∧ cost = 0) ∨
      ∃ (step : AlignmentStep α) (before : Nat) (items' others' : List α),
        items = items' ++ step.source ∧ others = others' ++ step.target ∧
          before ∈ costs items' others' ∧ cost = before + step.cost := by
  obtain ⟨⟨steps, rfl, rfl⟩, rfl⟩ := h
  rcases List.eq_nil_or_concat steps with rfl | ⟨steps, step, rfl⟩
  · exact .inl ⟨rfl, rfl, rfl⟩
  · refine .inr ⟨step, _, _, _, ?_, ?_, ⟨⟨steps, rfl, rfl⟩, rfl⟩, ?_⟩
    · simp
    · simp
    · simp [Alignment.cost]

theorem costs_subset_flip (items others : List α) : costs items others ⊆ costs others items := by
  rintro _ ⟨alignment, rfl⟩
  exact ⟨alignment.flip, alignment.cost_flip⟩

theorem costs_comm (items others : List α) : costs items others = costs others items :=
  Set.Subset.antisymm (costs_subset_flip items others) (costs_subset_flip others items)

/-- What bounds the costs without the last step, whichever that is, bounds those with it. -/
theorem mem_lowerBounds_costs {item other : α} {bound : Nat}
    (hkeep : item = other → ∀ cost ∈ costs items others, bound ≤ cost)
    (hreplace : ∀ cost ∈ costs items others, bound ≤ cost + 1)
    (hdelete : ∀ cost ∈ costs items (others ++ [other]), bound ≤ cost + 1)
    (hinsert : ∀ cost ∈ costs (items ++ [item]) others, bound ≤ cost + 1)
    (hswap : ∀ items' others', items = items' ++ [other] → others = others' ++ [item] →
      ∀ cost ∈ costs items' others', bound ≤ cost + 1) :
    bound ∈ lowerBounds (costs (items ++ [item]) (others ++ [other])) := by
  intro cost hcost
  rcases mem_costs_cases hcost with ⟨hnil, -⟩ | ⟨step, before, items', others', hitems, hothers,
    hbefore, rfl⟩
  · simp at hnil
  · cases step with
    | keep kept =>
      obtain ⟨rfl, rfl⟩ : items = items' ∧ item = kept := by
        simpa [AlignmentStep.source] using hitems
      obtain ⟨rfl, rfl⟩ : others = others' ∧ other = item := by
        simpa [AlignmentStep.target] using hothers
      exact hkeep rfl before hbefore
    | replace first second =>
      obtain ⟨rfl, rfl⟩ : items = items' ∧ item = first := by
        simpa [AlignmentStep.source] using hitems
      obtain ⟨rfl, rfl⟩ : others = others' ∧ other = second := by
        simpa [AlignmentStep.target] using hothers
      exact hreplace before hbefore
    | delete deleted =>
      obtain ⟨rfl, rfl⟩ : items = items' ∧ item = deleted := by
        simpa [AlignmentStep.source] using hitems
      obtain rfl : others ++ [other] = others' := by simpa [AlignmentStep.target] using hothers
      exact hdelete before hbefore
    | insert inserted =>
      obtain rfl : items ++ [item] = items' := by simpa [AlignmentStep.source] using hitems
      obtain ⟨rfl, rfl⟩ : others = others' ∧ other = inserted := by
        simpa [AlignmentStep.target] using hothers
      exact hinsert before hbefore
    | swap first second =>
      have hsplit (front : List α) (a b : α) : front ++ [a, b] = (front ++ [a]) ++ [b] := by simp
      rw [AlignmentStep.source, hsplit, List.append_singleton_inj] at hitems
      rw [AlignmentStep.target, hsplit, List.append_singleton_inj] at hothers
      obtain ⟨hitems, rfl⟩ := hitems
      obtain ⟨hothers, rfl⟩ := hothers
      exact hswap items' others' hitems hothers before hbefore

end Alignment

/-! The distance matrix -/

namespace EditDistance

variable {α : Type}

/-- The least that an alignment of two sequences costs. -/
abbrev Least (items others : List α) (cost : Nat) : Prop :=
  IsLeast (Alignment.costs items others) cost

/-- From nothing, every item has to be inserted. -/
theorem least_nil (others : List α) : Least [] others others.length := by
  constructor
  · induction others using List.reverseRecOn with
    | nil => exact ⟨⟨[], rfl, rfl⟩, rfl⟩
    | append_singleton others other ih =>
      rw [List.length_append]
      exact Alignment.mem_costs_snoc ih (.insert other)
  · rintro _ ⟨alignment, rfl⟩
    simpa using alignment.length_le

theorem least_of_nil (items : List α) : Least items [] items.length := by
  rw [Least, Alignment.costs_comm]
  exact least_nil items

/-- The cells of a row from some column on: the least costs for the items and for what has been
passed of the other sequence, with ever more of what is still to come. -/
inductive Row (items : List α) : List α → List α → List Nat → Prop where
  | last {passed : List α} {cost : Nat} (hcost : Least items passed cost) :
      Row items passed [] [cost]
  | cons {passed others : List α} {other : α} {cost : Nat} {row : List Nat}
      (hcost : Least items passed cost) (hrest : Row items (passed ++ [other]) others row) :
      Row items passed (other :: others) (cost :: row)

theorem Row.head {items passed others : List α} {cost : Nat} {row : List Nat}
    (h : Row items passed others (cost :: row)) : Least items passed cost := by
  cases h with
  | last hcost => exact hcost
  | cons hcost _ => exact hcost

theorem Row.exists_cons {items passed others : List α} {row : List Nat}
    (h : Row items passed others row) : ∃ cost rest, row = cost :: rest := by
  cases h with
  | last _ => exact ⟨_, _, rfl⟩
  | cons _ _ => exact ⟨_, _, rfl⟩

theorem Row.getLastD {items passed others : List α} {row : List Nat}
    (h : Row items passed others row) : Least items (passed ++ others) (row.getLastD 0) := by
  induction h with
  | last hcost => simpa using hcost
  | @cons passed others other cost row hcost hrest ih =>
    obtain ⟨next, rest, rfl⟩ := hrest.exists_cons
    simpa using ih

theorem row_range (passed others : List α) :
    Row [] passed others (List.range' passed.length (others.length + 1)) := by
  induction others generalizing passed with
  | nil => exact .last (least_nil passed)
  | cons other others ih =>
    have hrest := ih (passed ++ [other])
    rw [List.length_append, List.length_singleton] at hrest
    exact .cons (least_nil passed) hrest

/-- The row two above begins one column before the last passed item, if there is one. -/
structure Behind (items passed others : List α) (lastItem lastOther : Option α)
    (back : List Nat) : Prop where
  lastItem : lastItem = items.getLast?
  lastOther : lastOther = passed.getLast?
  row : ∀ items' before, items = items' ++ [before] →
    Row items' passed.dropLast (passed.getLast?.toList ++ others) back

section Behind

variable {items passed others : List α} {other : α} {lastItem lastOther : Option α}
  {back : List Nat}

theorem Behind.next (h : Behind items passed (other :: others) lastItem lastOther back) :
    Behind items (passed ++ [other]) others lastItem (some other)
      (if lastOther.isSome then back.tail else back) where
  lastItem := h.lastItem
  lastOther := by simp
  row items' before hitems := by
    have hrow := h.row items' before hitems
    rw [h.lastOther]
    rcases List.eq_nil_or_concat passed with rfl | ⟨passed, otherBefore, rfl⟩
    · simpa using hrow
    · simp only [List.concat_eq_append, List.dropLast_concat, List.getLast?_concat,
        Option.toList_some, List.singleton_append] at hrow ⊢
      cases hrow with
      | cons _ hrest => exact hrest

/-- Where both sequences have a last item, the row two above begins in front of both. -/
theorem Behind.exists_swapped {items' passed' : List α} {before otherBefore : α}
    (h : Behind (items' ++ [before]) (passed' ++ [otherBefore]) others lastItem lastOther back) :
    lastItem = some before ∧ lastOther = some otherBefore ∧
      ∃ swapped rest, back = swapped :: rest ∧ Least items' passed' swapped := by
  have hrow := h.row items' before rfl
  rw [List.dropLast_concat] at hrow
  obtain ⟨swapped, rest, rfl⟩ := hrow.exists_cons
  exact ⟨by simpa using h.lastItem, by simpa using h.lastOther, swapped, rest, rfl, hrow.head⟩

end Behind

variable [DecidableEq α]

/-- The cost of a cell without a swap. -/
def plainCell (item other : α) (diagonal above left : Nat) : Nat :=
  min (diagonal + if item = other then 0 else 1) (min (above + 1) (left + 1))

/-- The cost of a cell. -/
def cell (item other : α) (lastItem lastOther : Option α) (back : List Nat)
    (diagonal above left : Nat) : Nat :=
  match lastItem, lastOther, back with
  | some before, some otherBefore, swapped :: _ =>
    if item = otherBefore ∧ before = other then
      min (plainCell item other diagonal above left) (swapped + 1)
    else plainCell item other diagonal above left
  | _, _, _ => plainCell item other diagonal above left

theorem cells_cons (item : α) (lastItem lastOther : Option α) (back : List Nat)
    (diagonal above : Nat) (previous : List Nat) (left : Nat) (other : α) (others : List α) :
    cells item lastItem lastOther back (diagonal :: above :: previous) left (other :: others) =
      cell item other lastItem lastOther back diagonal above left ::
        cells item lastItem (some other) (if lastOther.isSome then back.tail else back)
          (above :: previous) (cell item other lastItem lastOther back diagonal above left)
          others :=
  rfl

section Cell

variable {items passed others : List α} {item other : α} {lastItem lastOther : Option α}
  {back : List Nat} {diagonal above left : Nat}

theorem cell_le_plainCell : cell item other lastItem lastOther back diagonal above left ≤
    plainCell item other diagonal above left := by
  unfold cell
  split
  · split_ifs
    · exact Nat.min_le_left _ _
    · exact Nat.le_refl _
  · exact Nat.le_refl _

theorem cell_swap (item other : α) (swapped : Nat) (rest : List Nat) (diagonal above left : Nat) :
    cell item other (some other) (some item) (swapped :: rest) diagonal above left =
      min (plainCell item other diagonal above left) (swapped + 1) :=
  if_pos ⟨rfl, rfl⟩

theorem cell_eq_plainCell (h : ¬(lastItem = some other ∧ lastOther = some item)) :
    cell item other lastItem lastOther back diagonal above left =
      plainCell item other diagonal above left := by
  unfold cell
  split
  · refine if_neg fun hsame => h ?_
    rw [hsame.1, hsame.2]
    exact ⟨rfl, rfl⟩
  · rfl

theorem plainCell_mem_costs (hdiagonal : diagonal ∈ Alignment.costs items passed)
    (habove : above ∈ Alignment.costs items (passed ++ [other]))
    (hleft : left ∈ Alignment.costs (items ++ [item]) passed) :
    plainCell item other diagonal above left ∈
      Alignment.costs (items ++ [item]) (passed ++ [other]) := by
  rw [plainCell]
  rcases min_choice (diagonal + if item = other then 0 else 1) (min (above + 1) (left + 1)) with
    hmin | hmin <;> rw [hmin]
  · by_cases hsame : item = other
    · subst hsame
      rw [if_pos rfl]
      exact Alignment.mem_costs_snoc hdiagonal (.keep item)
    · rw [if_neg hsame]
      exact Alignment.mem_costs_snoc hdiagonal (.replace item other)
  · rcases min_choice (above + 1) (left + 1) with hmin | hmin <;> rw [hmin]
    · simpa [AlignmentStep.source, AlignmentStep.target, AlignmentStep.cost] using
        Alignment.mem_costs_snoc habove (.delete item)
    · simpa [AlignmentStep.source, AlignmentStep.target, AlignmentStep.cost] using
        Alignment.mem_costs_snoc hleft (.insert other)

theorem cell_mem_costs (hback : Behind items passed (other :: others) lastItem lastOther back)
    (hdiagonal : diagonal ∈ Alignment.costs items passed)
    (habove : above ∈ Alignment.costs items (passed ++ [other]))
    (hleft : left ∈ Alignment.costs (items ++ [item]) passed) :
    cell item other lastItem lastOther back diagonal above left ∈
      Alignment.costs (items ++ [item]) (passed ++ [other]) := by
  have hplain := plainCell_mem_costs hdiagonal habove hleft
  by_cases hswap : lastItem = some other ∧ lastOther = some item
  · obtain ⟨rfl, rfl⟩ := hswap
    obtain ⟨items', rfl⟩ := List.getLast?_eq_some_iff.mp hback.lastItem.symm
    obtain ⟨passed', rfl⟩ := List.getLast?_eq_some_iff.mp hback.lastOther.symm
    obtain ⟨-, -, swapped, rest, rfl, hswapped⟩ := hback.exists_swapped
    rw [cell_swap]
    rcases min_choice (plainCell item other diagonal above left) (swapped + 1) with hmin | hmin <;>
      rw [hmin]
    · exact hplain
    · rw [List.append_assoc, List.append_assoc]
      exact Alignment.mem_costs_snoc hswapped.1 (.swap other item)
  · rwa [cell_eq_plainCell hswap]

/-- A cell is the least cost if the cells around it are. -/
theorem least_cell (hback : Behind items passed (other :: others) lastItem lastOther back)
    (hdiagonal : Least items passed diagonal) (habove : Least items (passed ++ [other]) above)
    (hleft : Least (items ++ [item]) passed left) :
    Least (items ++ [item]) (passed ++ [other])
      (cell item other lastItem lastOther back diagonal above left) := by
  refine ⟨cell_mem_costs hback hdiagonal.1 habove.1 hleft.1, ?_⟩
  have hplain : cell item other lastItem lastOther back diagonal above left ≤
      min (diagonal + if item = other then 0 else 1) (min (above + 1) (left + 1)) :=
    cell_le_plainCell
  apply Alignment.mem_lowerBounds_costs
  · intro hsame cost hcost
    have hleast := hdiagonal.2 hcost
    rw [if_pos hsame] at hplain
    omega
  · intro cost hcost
    have hleast := hdiagonal.2 hcost
    have hone : (if item = other then 0 else 1) ≤ 1 := by split_ifs <;> decide
    omega
  · intro cost hcost
    have hleast := habove.2 hcost
    omega
  · intro cost hcost
    have hleast := hleft.2 hcost
    omega
  · rintro items' passed' rfl rfl cost hcost
    obtain ⟨rfl, rfl, swapped, rest, rfl, hswapped⟩ := hback.exists_swapped
    have hleast := hswapped.2 hcost
    rw [cell_swap]
    omega

end Cell

/-- The next row, from some column on. -/
theorem row_cells {items : List α} {item : α} {lastItem : Option α} (others : List α) :
    ∀ {passed : List α} {lastOther : Option α} {back previous : List Nat} {left : Nat},
      Behind items passed others lastItem lastOther back → Row items passed others previous →
      Least (items ++ [item]) passed left →
      Row (items ++ [item]) passed others
        (left :: cells item lastItem lastOther back previous left others) := by
  induction others with
  | nil =>
    intro passed lastOther back previous left hback hprevious hleft
    cases hprevious with
    | last hcost => exact .last hleft
  | cons other others ih =>
    intro passed lastOther back previous left hback hprevious hleft
    cases hprevious with
    | @cons _ _ _ diagonal _ hdiagonal hrest =>
      obtain ⟨above, previous, rfl⟩ := hrest.exists_cons
      have hcell := least_cell hback hdiagonal hrest.head hleft
      rw [cells_cons]
      exact .cons hleft (ih hback.next hrest hcell)

/-- All rows behind those of the items that have been passed. -/
theorem row_rows (others items : List α) :
    ∀ {before : List α} {lastItem : Option α} {back previous : List Nat},
      Behind before [] others lastItem none back → Row before [] others previous →
      Row (before ++ items) [] others
        (rows others lastItem back previous (before.length + 1) items) := by
  induction items with
  | nil =>
    intro before lastItem back previous hback hprevious
    rwa [List.append_nil]
  | cons item items ih =>
    intro before lastItem back previous hback hprevious
    have hleft : Least (before ++ [item]) [] (before.length + 1) := by
      simpa using least_of_nil (before ++ [item])
    have hcurrent := row_cells others hback hprevious hleft
    have hbehind : Behind (before ++ [item]) [] others (some item) none previous := by
      refine ⟨by simp, rfl, fun items' last hsame => ?_⟩
      obtain ⟨rfl, -⟩ := List.append_singleton_inj.mp hsame
      exact hprevious
    have hrows := ih hbehind hcurrent
    rw [List.append_assoc, List.length_append] at hrows
    exact hrows

theorem least_between (items others : List α) : Least items others (between items others) := by
  have hstart : Row [] [] others (List.range (others.length + 1)) := by
    rw [List.range_eq_range']
    exact row_range [] others
  have hbehind : Behind [] [] others none none [] := ⟨rfl, rfl, fun _ _ hsame => by simp at hsame⟩
  exact (row_rows others items hbehind hstart).getLastD

theorem between_comm (items others : List α) : between items others = between others items := by
  have hcomm := least_between others items
  rw [Least, Alignment.costs_comm] at hcomm
  exact (least_between items others).unique hcomm

theorem eq_of_between_eq_zero {items others : List α} (h : between items others = 0) :
    items = others := by
  obtain ⟨alignment, hcost⟩ := (least_between items others).1
  exact alignment.eq_of_cost_eq_zero (hcost.trans h)

end EditDistance

/-! Texts -/

theorem editDistance_of_lowerCase_eq {text other : Text} (hne : text ≠ other)
    (hcase : text.lowerCase = other.lowerCase) : editDistance text other = 1 := by
  rw [editDistance, if_neg hne, if_pos hcase]

theorem editDistance_of_lowerCase_ne {text other : Text}
    (hcase : text.lowerCase ≠ other.lowerCase) :
    editDistance text other = EditDistance.between text.lowerCase other.lowerCase := by
  have hne : text ≠ other := fun hsame => hcase (congrArg Text.lowerCase hsame)
  rw [editDistance, if_neg hne, if_neg hcase]

theorem editDistance_comm (text other : Text) :
    editDistance text other = editDistance other text := by
  by_cases hsame : text = other
  · rw [hsame]
  · by_cases hcase : text.lowerCase = other.lowerCase
    · rw [editDistance_of_lowerCase_eq hsame hcase,
        editDistance_of_lowerCase_eq (Ne.symm hsame) hcase.symm]
    · rw [editDistance_of_lowerCase_ne hcase, editDistance_of_lowerCase_ne (Ne.symm hcase),
        EditDistance.between_comm]

theorem editDistance_eq_zero_iff {text other : Text} :
    editDistance text other = 0 ↔ text = other := by
  constructor
  · intro hzero
    by_contra hne
    by_cases hcase : text.lowerCase = other.lowerCase
    · rw [editDistance_of_lowerCase_eq hne hcase] at hzero
      cases hzero
    · rw [editDistance_of_lowerCase_ne hcase] at hzero
      exact hcase (EditDistance.eq_of_between_eq_zero hzero)
  · intro hsame
    exact if_pos hsame

/-- The distance is zero for equal texts and one for texts that differ in case alone, and otherwise
it is the least cost of an alignment of both in lower case. So it is the same in both directions,
and zero only for equal texts. -/
theorem editDistance_optimal (text other : Text) :
    (text = other → editDistance text other = 0) ∧
    (text ≠ other → text.lowerCase = other.lowerCase → editDistance text other = 1) ∧
    (text.lowerCase ≠ other.lowerCase →
      IsLeast (Alignment.costs text.lowerCase other.lowerCase) (editDistance text other)) ∧
    editDistance text other = editDistance other text ∧
    (editDistance text other = 0 → text = other) := by
  refine ⟨editDistance_eq_zero_iff.mpr, editDistance_of_lowerCase_eq, fun hcase => ?_,
    editDistance_comm text other, editDistance_eq_zero_iff.mp⟩
  rw [editDistance_of_lowerCase_ne hcase]
  exact EditDistance.least_between _ _

/-- Two swaps and an insertion, with a letter that is kept between them. -/
theorem editDistance_optimal_swaps :
    let text : Text := Text.ofString "abCde"
    let other : Text := Text.ofString "BAcedx"
    text.lowerCase ≠ other.lowerCase ∧
      IsLeast (Alignment.costs text.lowerCase other.lowerCase) 3 := by
  intro text other
  have hcase : text.lowerCase ≠ other.lowerCase := by decide +kernel
  have hdistance : editDistance text other = 3 := by decide +kernel
  have hleast := (editDistance_optimal text other).2.2.1 hcase
  rw [hdistance] at hleast
  exact ⟨hcase, hleast⟩

end QueryLint
