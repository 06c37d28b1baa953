import Mathlib.Data.List.FinRange
import QueryLint.Check.Rule
import QueryLint.Proofs.ParallelWalk
import QueryLint.Proofs.WalkEvents

/-!
Rules of one check do not get in each other's way. In each round of the common walk every rule takes
its turn by itself, and its problems are put behind those of the rules before it. A rule therefore
gets the calls that it would get alone, in the same types, and the problems of all rules come in the
order of the calls and, at each call, of the rules. The scope comes out of a check as it went in, so
checks can be repeated.
-/

namespace QueryLint

variable {ε σ : Type}

namespace Rule

def NeverFails (rule : Rule ε σ) : Prop :=
  ∀ scope phase tree place state, ∃ reply problems next,
    rule.visit scope phase tree place state = (.ok reply, problems, next)

/-- What a call makes of a rule in its slot: its standing, what it reports and its state. -/
def turn (rule : Rule ε σ) (scope : TypeScope) (call : Call) (slot : Standing × σ) :
    Standing × List Problem × σ :=
  ((rule.visitor scope).slot.visit call.phase call.tree call.place (slot.1, [], slot.2)).2

theorem visitor_neverFails {rule : Rule ε σ} (h : rule.NeverFails) (scope : TypeScope) :
    (rule.visitor scope).NeverFails := by
  intro phase tree place state
  obtain ⟨reply, problems, next, hvisit⟩ := h scope phase tree place state.2
  exact ⟨reply, _, by simp only [visitor, hvisit]; rfl⟩

/-- In its slot a rule adds its problems to those before. -/
theorem slot_visit_eq {rule : Rule ε σ} (h : rule.NeverFails) (scope : TypeScope) (call : Call)
    (standing : Standing) (problems : List Problem) (state : σ) :
    let turn := rule.turn scope call (standing, state)
    (rule.visitor scope).slot.visit call.phase call.tree call.place (standing, problems, state) =
      (.ok .silent, turn.1, problems ++ turn.2.1, turn.2.2) := by
  obtain ⟨phase, tree, place⟩ := call
  obtain ⟨reply, found, next, hvisit⟩ := h scope phase tree place state
  cases phase <;> cases standing <;> simp [turn, Visitor.slot, visitor, hvisit]

/-- A rule that stands aside reports nothing and keeps its state. -/
theorem turn_aside (rule : Rule ε σ) (scope : TypeScope) (call : Call) {standing : Standing}
    (hstanding : standing ≠ .active) (state : σ) :
    (rule.turn scope call (standing, state)).2 = ([], state) := by
  obtain ⟨phase, tree, place⟩ := call
  cases phase <;> cases standing <;> first | exact absurd rfl hstanding | rfl

/-! Rules with states of their own -/

variable {count : Nat} {states : Fin count → Type}

/-- The rule on its own one of several states. -/
def onOwn (index : Fin count) (rule : Rule ε (states index)) :
    Rule ε ((index : Fin count) → states index) where
  visit scope phase tree place state :=
    let (result, problems, own) := rule.visit scope phase tree place (state index)
    (result, problems, Function.update state index own)

/-- Rules with states of their own, to check side by side. -/
def sideBySide (rules : (index : Fin count) → Rule ε (states index)) :
    List (Rule ε ((index : Fin count) → states index)) :=
  List.ofFn fun index => (rules index).onOwn index

theorem NeverFails.onOwn {index : Fin count} {rule : Rule ε (states index)} (h : rule.NeverFails) :
    (rule.onOwn index).NeverFails := by
  intro scope phase tree place state
  obtain ⟨reply, problems, next, hvisit⟩ := h scope phase tree place (state index)
  exact ⟨reply, problems, _, by simp only [Rule.onOwn, hvisit]; rfl⟩

theorem sideBySide_neverFails {rules : (index : Fin count) → Rule ε (states index)}
    (hcalm : ∀ index, (rules index).NeverFails) : ∀ rule ∈ sideBySide rules, rule.NeverFails := by
  intro rule hrule
  obtain ⟨index, rfl⟩ := List.mem_ofFn.mp hrule
  exact (hcalm index).onOwn

theorem turn_onOwn {index : Fin count} {rule : Rule ε (states index)} (h : rule.NeverFails)
    (scope : TypeScope) (call : Call) (standing : Standing)
    (state : (index : Fin count) → states index) :
    let turn := rule.turn scope call (standing, state index)
    (rule.onOwn index).turn scope call (standing, state) =
      (turn.1, turn.2.1, Function.update state index turn.2.2) := by
  obtain ⟨phase, tree, place⟩ := call
  obtain ⟨reply, problems, next, hvisit⟩ := h scope phase tree place (state index)
  cases phase <;> cases standing <;> simp [turn, Visitor.slot, visitor, Rule.onOwn, hvisit]

end Rule

section Round

variable {count : Nat} {states : Fin count → Type}
  (rules : (index : Fin count) → Rule ε (states index)) (scope : TypeScope) (call : Call)
  (slots : (index : Fin count) → Standing × states index)

/-- A round of the common walk gives each rule its turn, whatever the others do in theirs. -/
theorem callEach_onOwn (hcalm : ∀ index, (rules index).NeverFails) {indices : List (Fin count)}
    (hdistinct : indices.Nodup) (problems : List Problem)
    (state : (index : Fin count) → states index)
    (hstate : ∀ index ∈ indices, state index = (slots index).2) :
    let turn index := (rules index).turn scope call (slots index)
    Visitor.callEach call.phase call.tree call.place
        (indices.map fun index => ((rules index).onOwn index).visitor scope)
        (indices.map fun index => (slots index).1) (problems, state) =
      (.ok (), indices.map fun index => (turn index).1,
        problems ++ indices.flatMap fun index => (turn index).2.1,
        fun index => if index ∈ indices then (turn index).2.2 else state index) := by
  intro turn
  induction indices generalizing problems state with
  | nil => simp [Visitor.callEach_nil]
  | cons first rest ih =>
    obtain ⟨hfirst, hrest⟩ := List.nodup_cons.mp hdistinct
    obtain ⟨hown, hothers⟩ := List.forall_mem_cons.mp hstate
    have hturn := Rule.turn_onOwn (hcalm first) scope call (slots first).1 state
    rw [hown] at hturn
    have hslot := Rule.slot_visit_eq (hcalm first).onOwn scope call (slots first).1 problems state
    rw [hturn] at hslot
    let next := Function.update state first (turn first).2.2
    have hnext : ∀ index ∈ rest, next index = (slots index).2 := by
      intro index hindex
      have hne : index ≠ first := fun hsame => hfirst (hsame ▸ hindex)
      rw [← hothers index hindex]
      exact Function.update_of_ne hne _ _
    have hlater := ih hrest (problems ++ (turn first).2.1) next hnext
    rw [List.map_cons, List.map_cons, Visitor.callEach_cons, hslot]
    dsimp only
    rw [hlater]
    have hstates : (fun index => if index ∈ rest then (turn index).2.2 else next index) =
        fun index => if index ∈ first :: rest then (turn index).2.2 else state index := by
      funext index
      by_cases hindex : index = first
      · subst hindex
        simp [hfirst, next]
      · simp [hindex, next]
    simp only [hstates, List.map_cons, List.flatMap_cons, List.append_assoc]
    rfl

end Round

/-! What a rule notes -/

/-- What a rule is called for, what it reads off the scope there, and what it reports. -/
structure Note where
  call : Call
  view : ScopeView TypeRef FieldDef
  problems : List Problem

/-- The problems that are noted at a call. -/
def reportsAt (notes : List Note) (event : Call) : List Problem :=
  (notes.filter fun note => note.call.key = event.key).flatMap Note.problems

namespace Rule

/-- The rule, writing down all its calls. -/
def noting (rule : Rule ε σ) : Rule ε (List Note × σ) where
  visit scope phase tree place state :=
    let (result, problems, own) := rule.visit scope phase tree place state.2
    (result, problems, state.1 ++ [⟨⟨phase, tree, place⟩, scope.view, problems⟩], own)

theorem NeverFails.noting {rule : Rule ε σ} (h : rule.NeverFails) : rule.noting.NeverFails := by
  intro scope phase tree place state
  obtain ⟨reply, problems, next, hvisit⟩ := h scope phase tree place state.2
  exact ⟨reply, problems, _, by simp only [Rule.noting, hvisit]; rfl⟩

/-- A turn is noted if the rule does not stand aside. -/
def noteOf (rule : Rule ε σ) (scope : TypeScope) (call : Call) (slot : Standing × σ) :
    Option Note :=
  if slot.1 = .active then some ⟨call, scope.view, (rule.turn scope call slot).2.1⟩ else none

theorem turn_noting {rule : Rule ε σ} (h : rule.NeverFails) (scope : TypeScope) (call : Call)
    (standing : Standing) (log : List Note) (state : σ) :
    let turn := rule.turn scope call (standing, state)
    rule.noting.turn scope call (standing, log, state) =
      (turn.1, turn.2.1, log ++ (rule.noteOf scope call (standing, state)).toList, turn.2.2) := by
  obtain ⟨phase, tree, place⟩ := call
  obtain ⟨reply, problems, next, hvisit⟩ := h scope phase tree place state
  cases phase <;> cases standing <;>
    simp [turn, noteOf, Visitor.slot, visitor, Rule.noting, hvisit]

theorem flatMap_problems_noteOf (rule : Rule ε σ) (scope : TypeScope) (call : Call)
    (slot : Standing × σ) :
    (rule.noteOf scope call slot).toList.flatMap Note.problems =
      (rule.turn scope call slot).2.1 := by
  rw [noteOf]
  split
  · simp
  · rename_i haside
    rw [rule.turn_aside scope call haside]
    rfl

theorem call_of_mem_noteOf {rule : Rule ε σ} {scope : TypeScope} {call : Call}
    {slot : Standing × σ} {note : Note} (h : note ∈ (rule.noteOf scope call slot).toList) :
    note.call = call := by
  rw [noteOf] at h
  split at h
  · rw [List.mem_singleton.mp h]
  · simp at h

section Run

variable (scopeAt : Call → TypeScope)

/-- The slot of a rule behind a call. -/
def after (rule : Rule ε σ) (slot : Standing × σ) (call : Call) : Standing × σ :=
  ((rule.turn (scopeAt call) call slot).1, (rule.turn (scopeAt call) call slot).2.2)

/-- What a rule notes at calls in a row. -/
def notes (rule : Rule ε σ) : Standing × σ → List Call → List Note
  | _, [] => []
  | slot, call :: calls =>
    (rule.noteOf (scopeAt call) call slot).toList ++
      rule.notes (rule.after scopeAt slot call) calls

theorem call_mem_of_mem_notes {rule : Rule ε σ} {slot : Standing × σ} {calls : List Call}
    {note : Note} (h : note ∈ rule.notes scopeAt slot calls) : note.call ∈ calls := by
  induction calls generalizing slot with
  | nil => simp [notes] at h
  | cons call calls ih =>
    rw [notes, List.mem_append] at h
    rcases h with hown | hlater
    · rw [call_of_mem_noteOf hown]
      exact List.mem_cons_self
    · exact List.mem_cons_of_mem _ (ih hlater)

theorem foldl_after_noting {rule : Rule ε σ} (h : rule.NeverFails) (calls : List Call)
    (standing : Standing) (log : List Note) (state : σ) :
    let last := calls.foldl (rule.after scopeAt) (standing, state)
    calls.foldl (rule.noting.after scopeAt) (standing, log, state) =
      (last.1, log ++ rule.notes scopeAt (standing, state) calls, last.2) := by
  induction calls generalizing standing log state with
  | nil => simp [notes]
  | cons call calls ih =>
    have hafter : rule.noting.after scopeAt (standing, log, state) call =
        ((rule.after scopeAt (standing, state) call).1,
          log ++ (rule.noteOf (scopeAt call) call (standing, state)).toList,
          (rule.after scopeAt (standing, state) call).2) := by
      rw [after, turn_noting h]
      rfl
    rw [List.foldl_cons, List.foldl_cons, hafter, notes, ← List.append_assoc]
    exact ih _ _ _

end Run

end Rule

/-! Checks as folds over the calls of a walk -/

section Check

variable {count : Nat} {states : Fin count → Type}
  (rules : (index : Fin count) → Rule ε (states index)) (scopeAt : Call → TypeScope)

/-- What rules report side by side at calls in a row. -/
def Rule.reported : ((index : Fin count) → Standing × states index) → List Call → List Problem
  | _, [] => []
  | slots, call :: calls =>
    ((List.finRange count).flatMap fun index =>
        ((rules index).turn (scopeAt call) call (slots index)).2.1) ++
      Rule.reported (fun index => (rules index).after scopeAt (slots index) call) calls

variable {rules scopeAt}

theorem Rule.reported_noting (hcalm : ∀ index, (rules index).NeverFails) (calls : List Call)
    (slots : (index : Fin count) → Standing × states index)
    (logs : Fin count → List Note) :
    Rule.reported (fun index => (rules index).noting) scopeAt
        (fun index => ((slots index).1, logs index, (slots index).2)) calls =
      Rule.reported rules scopeAt slots calls := by
  induction calls generalizing slots logs with
  | nil => rfl
  | cons call calls ih =>
    have hturn (index : Fin count) :=
      Rule.turn_noting (hcalm index) (scopeAt call) call (slots index).1 (logs index)
        (slots index).2
    simp only [Rule.reported, Rule.after, hturn]
    rw [← ih]

theorem reportsAt_append (notes later : List Note) (event : Call) :
    reportsAt (notes ++ later) event = reportsAt notes event ++ reportsAt later event := by
  simp [reportsAt]

theorem reportsAt_eq_nil {notes : List Note} {event : Call}
    (h : ∀ note ∈ notes, note.call.key ≠ event.key) : reportsAt notes event = [] := by
  have hnone : notes.filter (fun note => note.call.key = event.key) = [] := by
    simpa [List.filter_eq_nil_iff] using h
  rw [reportsAt, hnone]
  rfl

theorem reportsAt_eq_flatMap {notes : List Note} {event : Call}
    (h : ∀ note ∈ notes, note.call = event) :
    reportsAt notes event = notes.flatMap Note.problems := by
  have hall : notes.filter (fun note => note.call.key = event.key) = notes := by
    rw [List.filter_eq_self]
    intro note hnote
    simp [h note hnote]
  rw [reportsAt, hall]

/-- Problems come in the order of the calls, and at each call in the order of the rules. -/
theorem Rule.reported_eq_flatMap {calls : List Call} (hkeys : (calls.map Call.key).Nodup)
    (slots : (index : Fin count) → Standing × states index) :
    Rule.reported rules scopeAt slots calls = calls.flatMap fun event =>
      (List.finRange count).flatMap fun index =>
        reportsAt ((rules index).notes scopeAt (slots index) calls) event := by
  induction calls generalizing slots with
  | nil => rfl
  | cons call calls ih =>
    rw [List.map_cons, List.nodup_cons] at hkeys
    obtain ⟨hnew, hkeys⟩ := hkeys
    have hhere (index : Fin count) :
        reportsAt ((rules index).notes scopeAt (slots index) (call :: calls)) call =
          ((rules index).turn (scopeAt call) call (slots index)).2.1 := by
      rw [Rule.notes, reportsAt_append, reportsAt_eq_flatMap fun _ => Rule.call_of_mem_noteOf,
        Rule.flatMap_problems_noteOf, reportsAt_eq_nil fun note hnote hkey => ?_, List.append_nil]
      exact hnew (hkey ▸ List.mem_map_of_mem (Rule.call_mem_of_mem_notes scopeAt hnote))
    have hlater (index : Fin count) {event : Call} (hevent : event ∈ calls) :
        reportsAt ((rules index).notes scopeAt (slots index) (call :: calls)) event =
          reportsAt ((rules index).notes scopeAt ((rules index).after scopeAt (slots index) call)
            calls) event := by
      rw [Rule.notes, reportsAt_append, reportsAt_eq_nil fun note hnote hkey => ?_, List.nil_append]
      rw [Rule.call_of_mem_noteOf hnote] at hkey
      exact hnew (hkey ▸ List.mem_map_of_mem hevent)
    rw [Rule.reported, ih hkeys, List.flatMap_cons]
    simp only [hhere]
    congr 1
    refine List.flatMap_congr fun event hevent => ?_
    simp only [hlater _ hevent]

end Check

namespace Schema

variable {count : Nat} {states : Fin count → Type} (schema : Schema) (lookup : FieldLookup)
  (start : TypeScope)

/-- The scope of the way to the node of a call. -/
def scopeAt (call : Call) : TypeScope := start.along schema.reader (schema.step lookup) call.way

/-- What calls make of rules that check side by side. -/
def follow (rules : List (Rule ε σ)) (state : List Standing × List Problem × σ)
    (calls : List Call) : List Standing × List Problem × σ :=
  start.follow schema.reader (schema.step lookup)
    (fun scope => .parallel (rules.map (·.visitor scope))) state calls

variable {schema lookup start}

theorem follow_cons (rules : List (Rule ε σ)) (state : List Standing × List Problem × σ)
    (call : Call) (calls : List Call) :
    schema.follow lookup start rules state (call :: calls) =
      schema.follow lookup start rules
        ((Visitor.parallel (rules.map (·.visitor (schema.scopeAt lookup start call)))).visit
          call.phase call.tree call.place state).2 calls := rfl

theorem parallel_isSilent {rules : List (Rule ε σ)} (hcalm : ∀ rule ∈ rules, rule.NeverFails)
    (scope : TypeScope) : (Visitor.parallel (rules.map (·.visitor scope))).IsSilent := by
  intro phase tree place state
  have hvisitors : ∀ visitor ∈ rules.map (·.visitor scope), visitor.NeverFails := by
    rw [List.forall_mem_map]
    exact fun rule hrule => Rule.visitor_neverFails (hcalm rule hrule) scope
  rw [Visitor.parallel_visit, Visitor.callEach_ok hvisitors]
  rfl

/-- A check brings back its scope and is a fold over all calls of the tree. -/
theorem check_eq_follow {rules : List (Rule ε σ)} (hcalm : ∀ rule ∈ rules, rule.NeverFails)
    (tree : Tree) (state : σ) :
    let ended := schema.follow lookup start rules (Standing.fresh rules.length, [], state)
      (tree.events .root)
    schema.check lookup rules tree start state = ⟨.ok (), start, ended.2.1, ended.2.2⟩ := by
  intro ended
  have hwalk :
      tree.walk (schema.visitor lookup fun scope => .parallel (rules.map (·.visitor scope))) .root
        (start, Standing.fresh rules.length, [], state) = (.onward, start, ended) :=
    Tree.walk_follows (schema.step_undone lookup) (parallel_isSilent hcalm) tree .root _
  simp only [check, Tree.visit_eq, hwalk, Flow.result]

variable (schema lookup start)

theorem follow_sideBySide {rules : (index : Fin count) → Rule ε (states index)}
    (hcalm : ∀ index, (rules index).NeverFails) (calls : List Call) (problems : List Problem)
    (slots : (index : Fin count) → Standing × states index) :
    let last index := calls.foldl ((rules index).after (schema.scopeAt lookup start)) (slots index)
    schema.follow lookup start (Rule.sideBySide rules)
        ((List.finRange count).map fun index => (slots index).1, problems,
          fun index => (slots index).2) calls =
      ((List.finRange count).map fun index => (last index).1,
        problems ++ Rule.reported rules (schema.scopeAt lookup start) slots calls,
        fun index => (last index).2) := by
  induction calls generalizing problems slots with
  | nil => simp [follow, Scope.follow, Rule.reported]
  | cons call calls ih =>
    have hround := callEach_onOwn rules (schema.scopeAt lookup start call) call slots hcalm
      (List.nodup_finRange count) problems (fun index => (slots index).2) fun _ _ => rfl
    have hvisitors : (Rule.sideBySide rules).map (·.visitor (schema.scopeAt lookup start call)) =
        (List.finRange count).map fun index =>
          ((rules index).onOwn index).visitor (schema.scopeAt lookup start call) := by
      rw [Rule.sideBySide, List.ofFn_eq_map, List.map_map]
      rfl
    rw [follow_cons, Visitor.parallel_visit, hvisitors, hround, Rule.reported, ← List.append_assoc]
    simp only [List.mem_finRange, if_true]
    exact ih _ fun index => (rules index).after (schema.scopeAt lookup start) (slots index) call

theorem follow_alone {rule : Rule ε σ} (hcalm : rule.NeverFails) (calls : List Call)
    (problems : List Problem) (slot : Standing × σ) :
    let last := calls.foldl (rule.after (schema.scopeAt lookup start)) slot
    schema.follow lookup start [rule] ([slot.1], problems, slot.2) calls =
      ([last.1],
        problems ++ (rule.notes (schema.scopeAt lookup start) slot calls).flatMap Note.problems,
        last.2) := by
  induction calls generalizing problems slot with
  | nil => simp [follow, Scope.follow, Rule.notes]
  | cons call calls ih =>
    have hslot := Rule.slot_visit_eq hcalm (schema.scopeAt lookup start call) call slot.1 problems
      slot.2
    rw [follow_cons, Visitor.parallel_visit, List.map_singleton, Visitor.callEach_cons, hslot,
      Rule.notes, List.flatMap_append, Rule.flatMap_problems_noteOf, ← List.append_assoc]
    dsimp only
    rw [Visitor.callEach_nil]
    exact ih _ (rule.after (schema.scopeAt lookup start) slot call)

variable {schema lookup start}

theorem check_sideBySide {rules : (index : Fin count) → Rule ε (states index)}
    (hcalm : ∀ index, (rules index).NeverFails) (tree : Tree)
    (state : (index : Fin count) → states index) :
    schema.check lookup (Rule.sideBySide rules) tree start state =
      ⟨.ok (), start,
        Rule.reported rules (schema.scopeAt lookup start) (fun index => (.active, state index))
          (tree.events .root),
        fun index => ((tree.events .root).foldl
          ((rules index).after (schema.scopeAt lookup start)) (.active, state index)).2⟩ := by
  have hfresh : Standing.fresh (Rule.sideBySide rules).length =
      (List.finRange count).map fun _ => .active := by
    simp [Standing.fresh, Rule.sideBySide, List.map_const']
  have hfollow := schema.follow_sideBySide lookup start hcalm (tree.events .root) []
    fun index => (.active, state index)
  rw [check_eq_follow (Rule.sideBySide_neverFails hcalm), hfresh, hfollow]
  rfl

theorem check_alone {rule : Rule ε σ} (hcalm : rule.NeverFails) (tree : Tree) (state : σ) :
    schema.check lookup [rule] tree start state =
      ⟨.ok (), start,
        (rule.notes (schema.scopeAt lookup start) (.active, state) (tree.events .root)).flatMap
          Note.problems,
        ((tree.events .root).foldl (rule.after (schema.scopeAt lookup start))
          (.active, state)).2⟩ := by
  have hfollow := schema.follow_alone lookup start hcalm (tree.events .root) [] (.active, state)
  have hfresh : Standing.fresh [rule].length = [.active] := rfl
  rw [check_eq_follow (List.forall_mem_singleton.mpr hcalm), hfresh, hfollow]
  rfl

/-- Checks a document again and again, each time in the scope that the check before has left. -/
def recheck (schema : Schema) (lookup : FieldLookup) (rules : List (Rule ε σ)) (tree : Tree)
    (scope : TypeScope) (state : σ) : Nat → Verdict ε σ
  | 0 => schema.check lookup rules tree scope state
  | times + 1 =>
    schema.check lookup rules tree (schema.recheck lookup rules tree scope state times).scope state

theorem recheck_eq {rules : List (Rule ε σ)} (hcalm : ∀ rule ∈ rules, rule.NeverFails) (tree : Tree)
    (state : σ) (times : Nat) :
    schema.recheck lookup rules tree start state times =
      schema.check lookup rules tree start state := by
  induction times with
  | zero => rfl
  | succ times ih =>
    have hscope : (schema.check lookup rules tree start state).scope = start := by
      rw [check_eq_follow hcalm]
    rw [recheck, ih, hscope]

/-- Checking brings the scope back and repeats itself, and rules that never fail do not get in each
other's way. However often a document is checked, it does not fail, the scope is what it was, and
the problems are the same. Each rule gets the calls, reads the types and reports the problems that
it does alone. The problems of all rules come in the order in which the nodes of the document are
entered and left, and at each of these events in the order of the rules. -/
theorem check_sideBySide_eq_alone (schema : Schema) (lookup : FieldLookup)
    (rules : (index : Fin count) → Rule ε (states index))
    (hcalm : ∀ index, (rules index).NeverFails) (document : Document) (scope : TypeScope)
    (state : (index : Fin count) → states index) :
    let checked := schema.check lookup (Rule.sideBySide rules) document.tree scope state
    let noted := schema.check lookup (Rule.sideBySide fun index => (rules index).noting)
      document.tree scope fun index => ([], state index)
    let alone index := schema.check lookup [(rules index).noting] document.tree scope
      ([], state index)
    let events := document.tree.events .root
    checked.result = .ok () ∧ checked.scope = scope ∧
      (∀ times, schema.recheck lookup (Rule.sideBySide rules) document.tree scope state times =
        checked) ∧
      noted.problems = checked.problems ∧
      (∀ index, noted.state index = (alone index).state ∧
        (schema.check lookup [rules index] document.tree scope (state index)).problems =
          (alone index).state.1.flatMap Note.problems) ∧
      (events.map Call.key).Nodup ∧
      checked.problems = events.flatMap fun event =>
        (List.finRange count).flatMap fun index => reportsAt (alone index).state.1 event := by
  intro checked noted alone events
  have hnoting : ∀ index, (rules index).noting.NeverFails := fun index => (hcalm index).noting
  have hkeys : (events.map Call.key).Nodup := document.shaped.nodup_keys_events .root
  have hchecked : checked = _ := check_sideBySide hcalm document.tree state
  have hnoted : noted = _ := check_sideBySide hnoting document.tree _
  have hlast (index : Fin count) := Rule.foldl_after_noting (schema.scopeAt lookup scope)
    (hcalm index) events .active [] (state index)
  have halone (index : Fin count) : (alone index).state =
      ((rules index).notes (schema.scopeAt lookup scope) (.active, state index) events, _) :=
    (congrArg Verdict.state (check_alone (hnoting index) document.tree _)).trans
      (congrArg Prod.snd (hlast index))
  refine ⟨by rw [hchecked], by rw [hchecked], recheck_eq (Rule.sideBySide_neverFails hcalm) _ _,
    ?_, fun index => ⟨?_, ?_⟩, hkeys, ?_⟩
  · rw [hnoted, hchecked]
    exact Rule.reported_noting hcalm events (fun index => (.active, state index)) fun _ => []
  · rw [hnoted, halone index]
    exact congrArg Prod.snd (hlast index)
  · rw [check_alone (hcalm index), halone index]
  · rw [hchecked]
    simp only [halone]
    exact Rule.reported_eq_flatMap hkeys _

/-- Two fields with one rule that passes over fields and one that breaks off behind the first name.
Both report in front of that name, and the first rule again at the second field. -/
theorem check_sideBySide_skip_and_break :
    let schema : Schema :=
      { table := Standard.types, types := [], query := none, mutation := none,
        subscription := none }
    let field (name : String) : Selection := .field none ⟨name, none⟩ [] [] none none
    let document : Document :=
      ⟨[.operation ⟨.query, none, [], [], .mk [field "a", field "b"] none, none⟩], none⟩
    let reply (index : Fin 2) (phase : Phase) (kind : NodeKind) : Reply :=
      match index, phase, kind with
      | 0, .enter, .field => .flag false
      | 1, .leave, .name => .action .stop
      | _, _, _ => .other
    let rules (index : Fin 2) : Rule Empty Nat :=
      ⟨fun _ phase tree _ calls => (.ok (reply index phase tree.kind),
        if tree.kind = .field then [⟨[.ofNat index], tree⟩] else [], calls + 1)⟩
    let scope : TypeScope := ⟨[none], [], [none]⟩
    let checked := schema.check schema.lookup (Rule.sideBySide rules) document.tree scope fun _ => 0
    let again := schema.recheck schema.lookup (Rule.sideBySide rules) document.tree scope
      (fun _ => 0) 2
    (∀ index, (rules index).NeverFails) ∧
      checked.problems.map Problem.message = [[.ofNat 0], [.ofNat 1], [.ofNat 0]] ∧
      checked.scope = scope ∧ again.problems = checked.problems := by
  intro schema field document reply rules scope checked again
  have hcalm : ∀ index, (rules index).NeverFails := fun index _ phase tree _ calls =>
    ⟨reply index phase tree.kind, _, calls + 1, rfl⟩
  have hchecked := schema.check_sideBySide_eq_alone schema.lookup rules hcalm document scope
    fun _ => 0
  exact ⟨hcalm, by decide +kernel, hchecked.2.1, congrArg Verdict.problems (hchecked.2.2.1 2)⟩

end Schema

end QueryLint
