import QueryLint.Proofs.ParallelWalk
import QueryLint.Proofs.ScopeChain

/-!
What the replies of a visitor mean. A walk asks of a reply only whether it stops or skips, so a
visitor and the same visitor with each reply put into plain words make one and the same walk, alone
and side by side with others. A scope asks for more: any reply on entering makes it leave the node
at once. The walk in a scope agrees with its plain form exactly as long as no reply without a
meaning is made on entering a node that moves the scope; from the first such reply on the scope has
lost its way.
-/

namespace QueryLint

variable {ε σ σ₁ σ₂ τ φ : Type}

/-! Replies in plain words -/

/-- The action that a reply stands for, and silence if it stands for none. -/
def Reply.meaning : Reply → Reply
  | .flag true => .action .stop
  | .flag false => .action .skip
  | .other => .silent
  | reply => reply

@[simp] theorem Reply.action?_meaning (reply : Reply) : reply.meaning.action? = reply.action? := by
  rcases reply with _ | _ | ⟨_ | _⟩ | _ <;> rfl

theorem Reply.meaning_ne_other (reply : Reply) : reply.meaning ≠ .other := by
  rcases reply with _ | _ | ⟨_ | _⟩ | _ <;> simp [Reply.meaning]

namespace Visitor

/-- The visitor with all its replies in plain words. -/
def meaning (visitor : Visitor ε σ) : Visitor ε σ where
  visit phase tree place state :=
    let called := visitor.visit phase tree place state
    (called.1.map Reply.meaning, called.2)

theorem NeverFails.meaning {visitor : Visitor ε σ} (h : visitor.NeverFails) :
    visitor.meaning.NeverFails := by
  intro phase tree place state
  obtain ⟨reply, next, hvisit⟩ := h phase tree place state
  exact ⟨reply.meaning, next, by simp only [Visitor.meaning, hvisit, Except.map]⟩

theorem meaning_simulates (visitor : Visitor ε σ) :
    Simulates (· = ·) visitor.meaning visitor := by
  rintro phase tree place state _ rfl
  simp only [meaning, and_true]
  cases (visitor.visit phase tree place state).1 <;> simp [Except.map]

/-- Alone, a visitor walks as its replies mean. -/
theorem walk_meaning (visitor : Visitor ε σ) (tree : Tree) (place : Place) (state : σ) :
    tree.walk visitor.meaning place state = tree.walk visitor place state :=
  Prod.ext_iff.mpr (visitor.meaning_simulates.walk tree place state state rfl)

theorem recording_meaning (visitor : Visitor ε σ) :
    visitor.meaning.recording = visitor.recording.meaning := rfl

theorem NeverFails.visit_eq_ok {visitor : Visitor ε σ} (h : visitor.NeverFails) (tree : Tree)
    (state : σ) : (tree.visit visitor state).1 = .ok () := by
  have hkeeps : WalkInvariant visitor (fun _ _ _ => True) (fun _ _ _ => True) (fun _ => True)
      (fun _ _ => False) := by
    have hleads (phase : Phase) (tree : Tree) (place : Place) (state : σ) :
        Reply.Leads (fun _ => True) (fun _ => True) (fun _ => True) (fun _ _ => False)
          (visitor.visit phase tree place state) := by
      obtain ⟨reply, next, hvisit⟩ := h phase tree place state
      rw [hvisit, Reply.Leads]
      split <;> trivial
    exact ⟨fun _ => hleads .enter _ _ _, fun _ => hleads .leave _ _ _,
      fun _ _ => ⟨trivial, fun _ _ => trivial⟩⟩
  have hwalk := hkeeps.walk tree .root state trivial
  rw [Tree.visit_eq]
  generalize tree.walk visitor .root state = ended at hwalk ⊢
  rcases ended with ⟨_ | _ | _, last⟩
  · rfl
  · rfl
  · exact hwalk.elim

/-! Side by side -/

theorem slot_meaning (visitor : Visitor ε σ) : visitor.meaning.slot = visitor.slot := by
  have hvisit (phase : Phase) (tree : Tree) (place : Place) (slot : Standing × σ) :
      visitor.meaning.slot.visit phase tree place slot =
        visitor.slot.visit phase tree place slot := by
    obtain ⟨standing, state⟩ := slot
    cases phase <;> cases standing <;> simp only [slot, meaning]
    · rcases visitor.visit .enter tree place state with ⟨error | reply, next⟩
      · rfl
      · simp [Except.map, Standing.afterEnter]
    · rcases visitor.visit .leave tree place state with ⟨error | reply, next⟩
      · rfl
      · simp [Except.map, Standing.afterLeave]
  exact congrArg Visitor.mk (by funext phase tree place slot; exact hvisit phase tree place slot)

theorem callEach_meaning (visitor : Visitor ε σ) (before after : List (Visitor ε σ))
    (phase : Phase) (tree : Tree) (place : Place) (standings : List Standing) (state : σ) :
    callEach phase tree place (before ++ visitor.meaning :: after) standings state =
      callEach phase tree place (before ++ visitor :: after) standings state := by
  induction before generalizing standings state with
  | nil =>
    cases standings with
    | nil => cases phase <;> rfl
    | cons standing standings =>
      rw [List.nil_append, List.nil_append, callEach_cons, callEach_cons, slot_meaning]
  | cons first before ih =>
    cases standings with
    | nil => cases phase <;> rfl
    | cons standing standings =>
      rw [List.cons_append, List.cons_append, callEach_cons, callEach_cons]
      simp only [ih]

/-- Among others, a visitor has the effect that its replies mean. -/
theorem parallel_meaning (visitor : Visitor ε σ) (before after : List (Visitor ε σ)) :
    parallel (before ++ visitor.meaning :: after) = parallel (before ++ visitor :: after) := by
  have hvisit (phase : Phase) (tree : Tree) (place : Place) (common : List Standing × σ) :
      (parallel (before ++ visitor.meaning :: after)).visit phase tree place common =
        (parallel (before ++ visitor :: after)).visit phase tree place common := by
    obtain ⟨standings, state⟩ := common
    rw [parallel_visit, parallel_visit, callEach_meaning]
  exact congrArg Visitor.mk (by
    funext phase tree place common
    exact hvisit phase tree place common)

theorem parallel_neverFails {visitors : List (Visitor ε σ)}
    (hcalm : ∀ visitor ∈ visitors, visitor.NeverFails) : (parallel visitors).NeverFails := by
  rintro phase tree place ⟨standings, state⟩
  rw [parallel_visit, callEach_ok hcalm phase tree place standings state]
  exact ⟨.silent, _, rfl⟩

end Visitor

/-! Two visitors for a while -/

/-- What holds of the state behind a call held before it. -/
def Visitor.NeverRestores (visitor : Visitor ε σ) (ok : σ → Prop) : Prop :=
  ∀ phase tree place state, ok (visitor.visit phase tree place state).2 → ok state

/-- As long as the states of the first visitor are in order, both reply to the same effect and come
to related states. -/
def Visitor.SimulatesWhile (ok : σ₁ → Prop) (related : σ₁ → σ₂ → Prop) (first : Visitor ε σ₁)
    (second : Visitor ε σ₂) : Prop :=
  ∀ phase tree place state₁ state₂, related state₁ state₂ →
    ok (first.visit phase tree place state₁).2 →
      (first.visit phase tree place state₁).1.map Reply.action? =
          (second.visit phase tree place state₂).1.map Reply.action? ∧
        related (first.visit phase tree place state₁).2 (second.visit phase tree place state₂).2

theorem Flow.Ends.snd {holds : σ → Prop} {walk : Flow ε × σ}
    (h : Flow.Ends holds holds (fun _ => holds) walk) : holds walk.2 := by
  obtain ⟨_ | _ | _, state⟩ := walk <;> exact h

/-- Two walks, or parts of them, are alike if the first ends in order. -/
def Flow.AlikeIf (ok : σ₁ → Prop) (related : σ₁ → σ₂ → Prop) (first : Flow ε × σ₁)
    (second : Flow ε × σ₂) : Prop :=
  ok first.2 → Flow.Alike related first second

theorem Flow.ok_of_andThen {ok : σ → Prop} {first : Flow ε × σ} {rest : σ → Flow ε × σ}
    (hback : ∀ state, ok (rest state).2 → ok state) (hok : ok (Flow.andThen first rest).2) :
    ok first.2 := by
  obtain ⟨_ | _ | _, state⟩ := first
  · exact hback state hok
  · exact hok
  · exact hok

theorem Flow.AlikeIf.andThen {ok : σ₁ → Prop} {related : σ₁ → σ₂ → Prop} {first : Flow ε × σ₁}
    {second : Flow ε × σ₂} {rest₁ : σ₁ → Flow ε × σ₁} {rest₂ : σ₂ → Flow ε × σ₂}
    (hfirst : Flow.AlikeIf ok related first second)
    (hback : ∀ state, ok (rest₁ state).2 → ok state)
    (hrest : ∀ state₁ state₂, related state₁ state₂ →
      Flow.AlikeIf ok related (rest₁ state₁) (rest₂ state₂)) :
    Flow.AlikeIf ok related (Flow.andThen first rest₁) (Flow.andThen second rest₂) := by
  intro hok
  obtain ⟨hflow, hstate⟩ := hfirst (Flow.ok_of_andThen hback hok)
  obtain ⟨flow₁, state₁⟩ := first
  obtain ⟨flow₂, state₂⟩ := second
  change flow₁ = flow₂ at hflow
  subst hflow
  cases flow₁ with
  | onward => exact hrest state₁ state₂ hstate hok
  | stopped => exact ⟨rfl, hstate⟩
  | failed error => exact ⟨rfl, hstate⟩

namespace Visitor

section Restores

variable {visitor : Visitor ε σ} {ok : σ → Prop}

/-- Once out of order, a walk stays so. -/
theorem NeverRestores.walk (h : visitor.NeverRestores ok) (tree : Tree) (place : Place) (state : σ)
    (hlost : ¬ok state) :
    Flow.Ends (fun state => ¬ok state) (fun state => ¬ok state) (fun _ state => ¬ok state)
      (tree.walk visitor place state) := by
  have hleads (phase : Phase) (tree : Tree) (place : Place) (state : σ) (hlost : ¬ok state) :
      Reply.Leads (fun state => ¬ok state) (fun state => ¬ok state) (fun state => ¬ok state)
        (fun _ state => ¬ok state) (visitor.visit phase tree place state) := by
    have hnext : ¬ok (visitor.visit phase tree place state).2 := fun hok =>
      hlost (h phase tree place state hok)
    generalize visitor.visit phase tree place state = call at hnext ⊢
    obtain ⟨error | reply, next⟩ := call
    · exact hnext
    · rw [Reply.Leads]
      split <;> exact hnext
  have hkeeps : WalkInvariant visitor (fun _ _ state => ¬ok state) (fun _ _ state => ¬ok state)
      (fun state => ¬ok state) (fun _ state => ¬ok state) :=
    ⟨hleads .enter _ _ _, hleads .leave _ _ _, fun hlost _ => ⟨hlost, fun _ hlater => hlater⟩⟩
  exact hkeeps.walk tree place state hlost

theorem NeverRestores.walkBranches (h : visitor.NeverRestores ok) (tree : Tree) (place : Place)
    {branches : List Branch} (hbranches : ∀ branch ∈ branches, branch ∈ tree.branches) (state : σ)
    (hok : ok (Branch.walkAll visitor tree place branches state).2) : ok state := by
  by_contra hlost
  exact (Branch.walkAll_ends (fun node next state _ => h.walk node next state) branches hbranches
    state hlost).snd hok

theorem NeverRestores.walkNodes (h : visitor.NeverRestores ok) {tree : Tree} {place : Place}
    {name : String} {nodes trees : List Tree} {position : Nat}
    (htrees : nodes.drop position = trees) (state : σ)
    (hok : ok (Tree.walkAll visitor (place.item tree name nodes) position trees state).2) :
    ok state := by
  by_contra hlost
  exact (Tree.walkAll_ends (fun _ node state _ => h.walk node _ state) trees position htrees
    state hlost).snd hok

theorem NeverRestores.leaving (h : visitor.NeverRestores ok) (tree : Tree) (place : Place)
    (state : σ) (hok : ok (visitor.leaving tree place state).2) : ok state := by
  apply h .leave tree place state
  unfold Visitor.leaving at hok
  generalize visitor.visit .leave tree place state = call at hok ⊢
  obtain ⟨error | reply, next⟩ := call <;> exact hok

/-- A walk that ends in order was in order once its root was entered. -/
theorem NeverRestores.entered (h : visitor.NeverRestores ok) {tree : Tree} {place : Place}
    {state : σ} (hok : ok (tree.walk visitor place state).2) :
    ok (visitor.visit .enter tree place state).2 := by
  rcases hvisit : visitor.visit .enter tree place state with ⟨error | reply, next⟩
  · rwa [Tree.walk_of_error hvisit] at hok
  · rcases haction : reply.action? with _ | _ | _
    · rw [Tree.walk_of_none hvisit haction] at hok
      exact h.walkBranches tree place (fun _ member => member) next
        (Flow.ok_of_andThen (h.leaving tree place) hok)
    · rwa [Tree.walk_of_stop hvisit haction] at hok
    · rwa [Tree.walk_of_skip hvisit haction] at hok

end Restores

section While

variable {ok : σ₁ → Prop} {related : σ₁ → σ₂ → Prop} {first : Visitor ε σ₁} {second : Visitor ε σ₂}

theorem SimulatesWhile.leaving (h : SimulatesWhile ok related first second) (tree : Tree)
    (place : Place) (state₁ : σ₁) (state₂ : σ₂) (hstart : related state₁ state₂) :
    Flow.AlikeIf ok related (first.leaving tree place state₁)
      (second.leaving tree place state₂) := by
  have hcall := h .leave tree place state₁ state₂ hstart
  unfold Visitor.leaving
  generalize first.visit .leave tree place state₁ = call₁ at hcall ⊢
  generalize second.visit .leave tree place state₂ = call₂ at hcall ⊢
  rcases call₁ with ⟨error₁ | reply₁, next₁⟩ <;> rcases call₂ with ⟨error₂ | reply₂, next₂⟩ <;>
    intro hok <;> obtain ⟨hreply, hnext⟩ := hcall hok <;> simp [Except.map] at hreply
  · exact ⟨by rw [hreply], hnext⟩
  · exact ⟨by simp only [hreply], hnext⟩

section Below

variable {tree : Tree} {place : Place} (hback : first.NeverRestores ok)
  (hbelow : ∀ node ∈ tree.children, ∀ (next : Place) (state₁ : σ₁) (state₂ : σ₂),
    related state₁ state₂ →
      Flow.AlikeIf ok related (node.walk first next state₁) (node.walk second next state₂))
include hback hbelow

theorem SimulatesWhile.walkNodes {name : String} {nodes : List Tree}
    (hmember : .sequence name nodes ∈ tree.branches) (trees : List Tree) (position : Nat)
    (htrees : nodes.drop position = trees) (state₁ : σ₁) (state₂ : σ₂)
    (hstart : related state₁ state₂) :
    Flow.AlikeIf ok related
      (Tree.walkAll first (place.item tree name nodes) position trees state₁)
      (Tree.walkAll second (place.item tree name nodes) position trees state₂) := by
  induction trees generalizing position state₁ state₂ with
  | nil => exact fun _ => ⟨rfl, hstart⟩
  | cons node rest ih =>
    have hhere : nodes[position]? = some node := by
      rw [← List.head?_drop, htrees, List.head?_cons]
    have hrest : nodes.drop (position + 1) = rest := by
      rw [← List.tail_drop, htrees, List.tail_cons]
    have hnode : tree.Below place node _ := .item hmember hhere
    rw [Tree.walkAll_cons, Tree.walkAll_cons]
    exact (hbelow node hnode.mem_children _ state₁ state₂ hstart).andThen (hback.walkNodes hrest)
      (ih (position + 1) hrest)

theorem SimulatesWhile.walkBranches (branches : List Branch)
    (hbranches : ∀ branch ∈ branches, branch ∈ tree.branches) (state₁ : σ₁) (state₂ : σ₂)
    (hstart : related state₁ state₂) :
    Flow.AlikeIf ok related (Branch.walkAll first tree place branches state₁)
      (Branch.walkAll second tree place branches state₂) := by
  induction branches generalizing state₁ state₂ with
  | nil => exact fun _ => ⟨rfl, hstart⟩
  | cons branch rest ih =>
    have hmember := hbranches branch List.mem_cons_self
    have hothers := fun branch member => hbranches branch (List.mem_cons_of_mem _ member)
    have hrest := ih hothers
    have hlater := hback.walkBranches tree place hothers
    cases branch with
    | absent name => exact hrest state₁ state₂ hstart
    | single name node =>
      have hnode : tree.Below place node _ := .child hmember
      rw [Branch.walkAll_single, Branch.walkAll_single]
      exact (hbelow node hnode.mem_children _ state₁ state₂ hstart).andThen hlater hrest
    | sequence name nodes =>
      rw [Branch.walkAll_sequence, Branch.walkAll_sequence]
      exact (walkNodes hback hbelow hmember nodes 0 rfl state₁ state₂ hstart).andThen hlater hrest

end Below

/-- A walk that ends in order is the walk of the other visitor. -/
theorem SimulatesWhile.walk (h : SimulatesWhile ok related first second)
    (hback : first.NeverRestores ok) (tree : Tree) (place : Place) (state₁ : σ₁) (state₂ : σ₂)
    (hstart : related state₁ state₂) :
    Flow.AlikeIf ok related (tree.walk first place state₁) (tree.walk second place state₂) := by
  induction tree using Tree.induction_below generalizing place state₁ state₂ with
  | hstep tree ih =>
    intro hok
    obtain ⟨hreply, hnext⟩ := h .enter tree place state₁ state₂ hstart (hback.entered hok)
    rcases hfirst : first.visit .enter tree place state₁ with ⟨error₁ | reply₁, next₁⟩ <;>
      rcases hsecond : second.visit .enter tree place state₂ with ⟨error₂ | reply₂, next₂⟩ <;>
      simp only [hfirst, hsecond, Except.map, Except.error.injEq, Except.ok.injEq, reduceCtorEq]
        at hreply hnext
    · rw [Tree.walk_of_error hfirst, Tree.walk_of_error hsecond, hreply]
      exact ⟨rfl, hnext⟩
    · rcases haction : reply₂.action? with _ | _ | _ <;> rw [haction] at hreply
      · rw [Tree.walk_of_none hfirst hreply] at hok ⊢
        rw [Tree.walk_of_none hsecond haction]
        exact (walkBranches hback ih tree.branches (fun _ member => member) next₁ next₂
          hnext).andThen (hback.leaving tree place) (h.leaving tree place) hok
      · rw [Tree.walk_of_stop hfirst hreply, Tree.walk_of_stop hsecond haction]
        exact ⟨rfl, hnext⟩
      · rw [Tree.walk_of_skip hfirst hreply, Tree.walk_of_skip hsecond haction]
        exact ⟨rfl, hnext⟩

end While

end Visitor

/-! How high a scope is -/

/-- Entering a node of the kind moves the scope. -/
def NodeKind.isScoped : NodeKind → Bool
  | .operationDefinition | .fragmentDefinition | .inlineFragment | .selectionSet | .field => true
  | _ => false

def Scope.height (scope : Scope τ φ) : Nat :=
  scope.types.length + scope.parents.length + scope.fields.length

def ScopeStep.height : ScopeStep τ φ → Nat
  | .own _ | .inherit | .selections => 1
  | .field _ => 2
  | .pass => 0

theorem Scope.height_enter (reader : TypeReader τ φ) (step : ScopeStep τ φ) (scope : Scope τ φ) :
    (scope.enter reader step).height = scope.height + step.height := by
  cases step <;> simp only [Scope.enter, Scope.pushType, Scope.height, ScopeStep.height,
    List.length_cons] <;> omega

theorem Scope.leave_of_not_isScoped {kind : NodeKind} (h : kind.isScoped = false)
    (scope : Scope τ φ) : scope.leave kind = (.ok (), scope) := by
  cases kind with
  | operationDefinition | fragmentDefinition | inlineFragment | selectionSet | field => cases h
  | _ => rfl

theorem Scope.height_popType_lt {scope left : Scope τ φ} (h : scope.popType = (.ok (), left)) :
    left.height < scope.height := by
  obtain ⟨types, parents, fields⟩ := scope
  cases types with
  | nil => cases h
  | cons type types =>
    cases h
    simp only [Scope.height, List.length_cons]
    omega

theorem Scope.height_leave_lt {kind : NodeKind} (hkind : kind.isScoped = true)
    {scope left : Scope τ φ} (h : scope.leave kind = (.ok (), left)) :
    left.height < scope.height := by
  cases kind with
  | operationDefinition | fragmentDefinition | inlineFragment => exact Scope.height_popType_lt h
  | selectionSet =>
    obtain ⟨types, parents, fields⟩ := scope
    cases parents with
    | nil => cases h
    | cons parent parents =>
      cases h
      simp only [Scope.height, List.length_cons]
      omega
  | field =>
    obtain ⟨types, parents, fields⟩ := scope
    cases fields with
    | nil => cases h
    | cons field fields =>
      have hlower := Scope.height_popType_lt h
      simp only [Scope.height, List.length_cons] at hlower ⊢
      omega
  | _ => cases hkind

section Undone

variable {reader : TypeReader τ φ} {step : Tree → ScopeStep τ φ}
  (hundo : ScopeStep.Undone reader step)
include hundo

theorem Scope.enter_of_not_isScoped {tree : Tree} (h : tree.kind.isScoped = false)
    (scope : Scope τ φ) : scope.enter reader (step tree) = scope := by
  have hleave := hundo tree scope
  rw [Scope.leave_of_not_isScoped h] at hleave
  exact (Prod.mk.inj hleave).2

theorem Scope.height_enter_ne {tree : Tree} (h : tree.kind.isScoped = true) (scope : Scope τ φ) :
    scope.height ≠ (scope.enter reader (step tree)).height :=
  Nat.ne_of_lt (Scope.height_leave_lt h (hundo tree scope))

end Undone

/-! Walks in a scope -/

/-- A call with the scope at its node and what was replied. -/
structure ScopedReply (τ φ : Type) where
  call : Call
  scope : Scope τ φ
  reply : Reply

namespace ScopedReply

/-- A reply without a meaning, on entering a node that moves the scope. -/
def Misleads (entry : ScopedReply τ φ) : Prop :=
  entry.call.phase = .enter ∧ entry.reply = .other ∧ entry.call.tree.kind.isScoped = true

/-- The scope is what the way to the node leads to. -/
def OnWay (reader : TypeReader τ φ) (step : Tree → ScopeStep τ φ) (start : Scope τ φ)
    (entry : ScopedReply τ φ) : Prop :=
  entry.scope = start.along reader step entry.call.way

def meaning (entry : ScopedReply τ φ) : ScopedReply τ φ :=
  { entry with reply := entry.reply.meaning }

end ScopedReply

/-- No reply of the log has misled the scope. -/
def Unmisled (log : List (ScopedReply τ φ)) : Prop := ∀ entry ∈ log, ¬entry.Misleads

theorem unmisled_append {log : List (ScopedReply τ φ)} {entry : ScopedReply τ φ} :
    Unmisled (log ++ [entry]) ↔ Unmisled log ∧ ¬entry.Misleads := by
  simp [Unmisled, or_imp, forall_and]

namespace Visitor

/-- The visitor, writing down all its calls with the scope and with its replies. -/
def answering (inner : Scope τ φ → Visitor ε σ) (scope : Scope τ φ) :
    Visitor ε (List (ScopedReply τ φ) × σ) where
  visit phase tree place state :=
    match (inner scope).visit phase tree place state.2 with
    | (.error error, own) => (.error error, state.1, own)
    | (.ok reply, own) => (.ok reply, state.1 ++ [⟨⟨phase, tree, place⟩, scope, reply⟩], own)

theorem NeverFails.answering {inner : Scope τ φ → Visitor ε σ} {scope : Scope τ φ}
    (h : (inner scope).NeverFails) (phase : Phase) (tree : Tree) (place : Place)
    (log : List (ScopedReply τ φ)) (state : σ) :
    ∃ reply next, (inner scope).visit phase tree place state = (.ok reply, next) ∧
      (Visitor.answering inner scope).visit phase tree place (log, state) =
        (.ok reply, log ++ [⟨⟨phase, tree, place⟩, scope, reply⟩], next) := by
  obtain ⟨reply, next, hvisit⟩ := h phase tree place state
  exact ⟨reply, next, hvisit, by simp only [Visitor.answering, hvisit]⟩

variable {reader : TypeReader τ φ} {step : Tree → ScopeStep τ φ}
  {inner : Scope τ φ → Visitor ε σ}

/-- The scope that a call is made in: the node is entered before the visitor is called, and left
behind it. -/
def scopeAt (reader : TypeReader τ φ) (step : Tree → ScopeStep τ φ) (phase : Phase) (tree : Tree)
    (scope : Scope τ φ) : Scope τ φ :=
  match phase with
  | .enter => scope.enter reader (step tree)
  | .leave => scope

/-- Whatever becomes of the scope, the visitor has been called. -/
theorem scoped_visit_state {phase : Phase} {tree : Tree} {place : Place} {scope : Scope τ φ}
    {state next : σ} {reply : Reply}
    (hvisit : (inner (scopeAt reader step phase tree scope)).visit phase tree place state =
      (.ok reply, next)) :
    ((Visitor.scoped reader step inner).visit phase tree place (scope, state)).2.2 = next := by
  cases phase with
  | enter =>
    simp only [scopeAt] at hvisit
    cases reply <;> simp only [Visitor.scoped, hvisit]
  | leave =>
    simp only [scopeAt] at hvisit
    simp only [Visitor.scoped, hvisit]

end Visitor

section Tracks

variable (reader : TypeReader τ φ) (step : Tree → ScopeStep τ φ) (start : Scope τ φ)

/-- All calls were made with the scope that the way to their node leads to. -/
def AllOnWay (log : List (ScopedReply τ φ)) : Prop :=
  ∀ entry ∈ log, entry.OnWay reader step start

/-- Where a walk stands behind a way. Either no reply has misled the scope and it is where the way
leads; or one has, and this shows in a call or, inside the node of that reply, in the height. -/
def Tracks (way : List Tree) (state : Scope τ φ × List (ScopedReply τ φ) × σ) : Prop :=
  (Unmisled state.2.1 ∧ AllOnWay reader step start state.2.1 ∧
      state.1 = start.along reader step way) ∨
    (¬Unmisled state.2.1 ∧ (AllOnWay reader step start state.2.1 →
      way ≠ [] ∧ state.1.height ≠ (start.along reader step way).height))

variable {reader step start}

theorem allOnWay_append {log : List (ScopedReply τ φ)} {entry : ScopedReply τ φ} :
    AllOnWay reader step start (log ++ [entry]) ↔
      AllOnWay reader step start log ∧ entry.OnWay reader step start := by
  simp [AllOnWay, or_imp, forall_and]

/-- Once a misled scope shows in a call, nothing depends on the state any more. -/
theorem leads_of_lost {call : Except (ScopedError ε) Reply ×
      Scope τ φ × List (ScopedReply τ φ) × σ} (hmisled : ¬Unmisled call.2.2.1)
    (hoff : ¬AllOnWay reader step start call.2.2.1) (outer inner : List Tree) :
    Reply.Leads (fun state => Unmisled state.2.1 ↔ AllOnWay reader step start state.2.1)
      (Tracks reader step start outer) (Tracks reader step start inner)
      (fun _ state => ¬Unmisled state.2.1) call := by
  obtain ⟨error | reply, state⟩ := call
  · exact hmisled
  · rw [Reply.Leads]
    split
    · exact iff_of_false hmisled hoff
    · exact .inr ⟨hmisled, fun hall => (hoff hall).elim⟩
    · exact .inr ⟨hmisled, fun hall => (hoff hall).elim⟩

/-- A call in a misled scope shows it: entering a node keeps heights apart. -/
theorem leads_of_misled {inner : Scope τ φ → Visitor ε σ}
    (hcalm : ∀ scope, (inner scope).NeverFails) (phase : Phase) {tree : Tree} {place : Place}
    {scope : Scope τ φ} {log : List (ScopedReply τ φ)} {state : σ} (hmisled : ¬Unmisled log)
    (hoff : AllOnWay reader step start log →
      (Visitor.scopeAt reader step phase tree scope).height ≠
        (start.along reader step (place.nodes ++ [tree])).height) (outer below : List Tree) :
    Reply.Leads (fun state => Unmisled state.2.1 ↔ AllOnWay reader step start state.2.1)
      (Tracks reader step start outer) (Tracks reader step start below)
      (fun _ state => ¬Unmisled state.2.1)
      ((Visitor.scoped reader step (Visitor.answering inner)).visit phase tree place
        (scope, log, state)) := by
  obtain ⟨reply, next, -, hvisit⟩ :=
    (hcalm (Visitor.scopeAt reader step phase tree scope)).answering phase tree place log state
  have hstate := Visitor.scoped_visit_state hvisit
  apply leads_of_lost
  · rw [hstate, unmisled_append]
    exact fun h => hmisled h.1
  · rw [hstate, allOnWay_append]
    rintro ⟨hall, honWay⟩
    exact hoff hall (congrArg Scope.height honWay)

section Calm

variable {inner : Scope τ φ → Visitor ε σ} (hundo : ScopeStep.Undone reader step)
  (hcalm : ∀ scope, (inner scope).NeverFails)
include hundo hcalm

/-- Entering a node from a scope that is where the way leads. A reply without a meaning takes the
scope back out of the node while the walk goes in. -/
theorem leads_enter_onWay (tree : Tree) (place : Place) {log : List (ScopedReply τ φ)} (state : σ)
    (hclean : Unmisled log) (hall : AllOnWay reader step start log) :
    Reply.Leads (fun state => Unmisled state.2.1 ↔ AllOnWay reader step start state.2.1)
      (Tracks reader step start place.nodes) (Tracks reader step start (place.nodes ++ [tree]))
      (fun _ state => ¬Unmisled state.2.1)
      ((Visitor.scoped reader step (Visitor.answering inner)).visit .enter tree place
        (start.along reader step place.nodes, log, state)) := by
  let entered := (start.along reader step place.nodes).enter reader (step tree)
  have hentered : _ = entered := Scope.along_append reader step start place.nodes tree
  obtain ⟨reply, next, -, hvisit⟩ := (hcalm entered).answering .enter tree place log state
  let entry : ScopedReply τ φ := ⟨⟨.enter, tree, place⟩, entered, reply⟩
  have hlog : AllOnWay reader step start (log ++ [entry]) :=
    allOnWay_append.mpr ⟨hall, hentered.symm⟩
  have hmeant (hreply : ¬(reply = .other ∧ tree.kind.isScoped = true)) :
      Unmisled (log ++ [entry]) :=
    unmisled_append.mpr ⟨hclean, fun hmisleads => hreply hmisleads.2⟩
  by_cases hsilent : reply = .silent
  · subst hsilent
    rw [Visitor.scoped_enter_silent hvisit]
    exact .inl ⟨hmeant (by simp), hlog, hentered.symm⟩
  · rw [Visitor.scoped_enter_reply hundo hvisit hsilent]
    rcases reply with _ | ⟨_ | _⟩ | ⟨_ | _⟩ | _
    · exact (hsilent rfl).elim
    · exact iff_of_true (hmeant (by simp)) hlog
    · exact .inl ⟨hmeant (by simp), hlog, rfl⟩
    · exact .inl ⟨hmeant (by simp), hlog, rfl⟩
    · exact iff_of_true (hmeant (by simp)) hlog
    · cases hkind : tree.kind.isScoped with
      | false =>
        have hsame := Scope.enter_of_not_isScoped hundo hkind (start.along reader step place.nodes)
        exact .inl ⟨hmeant (by simp [hkind]), hlog, (hentered.trans hsame).symm⟩
      | true =>
        refine .inr ⟨fun h => (unmisled_append.mp h).2 ⟨rfl, rfl, hkind⟩, fun _ => ?_⟩
        rw [hentered]
        exact ⟨by simp, Scope.height_enter_ne hundo hkind _⟩

/-- Leaving a node from a scope that is where the way leads. -/
theorem leads_leave_onWay (tree : Tree) (place : Place) {log : List (ScopedReply τ φ)} (state : σ)
    (hclean : Unmisled log) (hall : AllOnWay reader step start log) :
    Reply.Leads (fun state => Unmisled state.2.1 ↔ AllOnWay reader step start state.2.1)
      (Tracks reader step start place.nodes) (Tracks reader step start place.nodes)
      (fun _ state => ¬Unmisled state.2.1)
      ((Visitor.scoped reader step (Visitor.answering inner)).visit .leave tree place
        (start.along reader step (place.nodes ++ [tree]), log, state)) := by
  let entered := (start.along reader step place.nodes).enter reader (step tree)
  have hentered : _ = entered := Scope.along_append reader step start place.nodes tree
  obtain ⟨reply, next, -, hvisit⟩ := (hcalm entered).answering .leave tree place log state
  let entry : ScopedReply τ φ := ⟨⟨.leave, tree, place⟩, entered, reply⟩
  have hlog : AllOnWay reader step start (log ++ [entry]) :=
    allOnWay_append.mpr ⟨hall, hentered.symm⟩
  have hmeant : Unmisled (log ++ [entry]) := unmisled_append.mpr ⟨hclean, fun h => nomatch h.1⟩
  rw [hentered, Visitor.scoped_leave hundo hvisit, Reply.Leads]
  split
  · exact iff_of_true hmeant hlog
  · exact .inl ⟨hmeant, hlog, rfl⟩
  · exact .inl ⟨hmeant, hlog, rfl⟩

/-- A walk keeps track of whether its scope has been misled. -/
theorem scoped_tracks (start : Scope τ φ) :
    WalkInvariant (Visitor.scoped reader step (Visitor.answering inner))
      (fun place _ => Tracks reader step start place.nodes)
      (fun place tree => Tracks reader step start (place.nodes ++ [tree]))
      (fun state => Unmisled state.2.1 ↔ AllOnWay reader step start state.2.1)
      (fun _ state => ¬Unmisled state.2.1) := by
  refine ⟨?_, ?_, ?_⟩
  · rintro place tree ⟨scope, log, state⟩ (⟨hclean, hall, rfl⟩ | ⟨hmisled, hoff⟩)
    · exact leads_enter_onWay hundo hcalm tree place state hclean hall
    · refine leads_of_misled hcalm .enter hmisled (fun hall => ?_) _ _
      rw [Visitor.scopeAt, Scope.along_append, Scope.height_enter, Scope.height_enter]
      exact fun hsame => (hoff hall).2 (Nat.add_right_cancel hsame)
  · rintro place tree ⟨scope, log, state⟩ (⟨hclean, hall, rfl⟩ | ⟨hmisled, hoff⟩)
    · exact leads_leave_onWay hundo hcalm tree place state hclean hall
    · exact leads_of_misled hcalm .leave hmisled (fun hall => (hoff hall).2) _ _
  · rintro place tree ⟨scope, log, state⟩ node next htracks hbelow
    rw [hbelow.nodes_eq]
    exact ⟨htracks, fun later hlater => hlater⟩

/-- Unless a walk fails, its calls are all on the way if and only if no reply misled the scope, and
it fails only behind such a reply. -/
theorem visit_scoped_tracks (start : Scope τ φ) (root : Tree) (state : σ) :
    let ended := root.visit (Visitor.scoped reader step (Visitor.answering inner))
      (start, [], state)
    (Unmisled ended.2.2.1 → ended.1 = .ok ()) ∧
      (ended.1 = .ok () → (Unmisled ended.2.2.1 ↔ AllOnWay reader step start ended.2.2.1)) := by
  have hstart : Tracks reader step start Place.root.nodes (start, [], state) :=
    .inl ⟨by simp [Unmisled], by simp [AllOnWay], rfl⟩
  have hwalk := (scoped_tracks hundo hcalm start).walk root .root (start, [], state) hstart
  simp only [Tree.visit_eq]
  generalize root.walk (.scoped reader step (.answering inner)) .root (start, [], state) = ended
    at hwalk ⊢
  rcases ended with ⟨_ | _ | error, scope, log, last⟩
  · refine ⟨fun _ => rfl, fun _ => ?_⟩
    rcases hwalk with ⟨hclean, hall, -⟩ | ⟨hmisled, hoff⟩
    · exact iff_of_true hclean hall
    · exact iff_of_false hmisled fun hall => (hoff hall).1 rfl
  · exact ⟨fun _ => rfl, fun _ => hwalk⟩
  · exact ⟨fun hclean => (hwalk hclean).elim, fun hok => nomatch hok⟩

end Calm

end Tracks

/-! The walk in a scope and its plain form -/

section Plain

variable {reader : TypeReader τ φ} {step : Tree → ScopeStep τ φ}
  {inner : Scope τ φ → Visitor ε σ} (hcalm : ∀ scope, (inner scope).NeverFails)
include hcalm

theorem scoped_neverRestores :
    (Visitor.scoped reader step (Visitor.answering inner)).NeverRestores
      fun state => Unmisled state.2.1 := by
  rintro phase tree place ⟨scope, log, state⟩ hclean
  obtain ⟨reply, next, -, hvisit⟩ :=
    (hcalm (Visitor.scopeAt reader step phase tree scope)).answering phase tree place log state
  rw [Visitor.scoped_visit_state hvisit, unmisled_append] at hclean
  exact hclean.1

/-- Until a reply misleads the scope, it makes no difference whether replies are put into plain
words. -/
theorem scoped_simulatesWhile :
    Visitor.SimulatesWhile (fun state => Unmisled state.2.1)
      (fun state plain => plain = (state.1, state.2.1.map ScopedReply.meaning, state.2.2))
      (Visitor.scoped reader step (Visitor.answering inner))
      (Visitor.scoped reader step (Visitor.answering fun scope => (inner scope).meaning)) := by
  rintro phase tree place ⟨scope, log, state⟩ _ rfl hclean
  let here := Visitor.scopeAt reader step phase tree scope
  obtain ⟨reply, next, hinner, hfirst⟩ := (hcalm here).answering phase tree place log state
  have hsecond : (Visitor.answering (fun scope => (inner scope).meaning) here).visit phase tree
      place (log.map ScopedReply.meaning, state) =
        (.ok reply.meaning, log.map ScopedReply.meaning ++
          [⟨⟨phase, tree, place⟩, here, reply.meaning⟩], next) := by
    simp only [Visitor.answering, Visitor.meaning, hinner, Except.map]
  rw [Visitor.scoped_visit_state hfirst, unmisled_append] at hclean
  cases phase with
  | leave =>
    simp only [here, Visitor.scopeAt] at hfirst hsecond
    simp only [Visitor.scoped, hfirst, hsecond]
    cases (scope.leave tree.kind).1 <;>
      simp [Except.map, Except.mapError, ScopedReply.meaning]
  | enter =>
    simp only [here, Visitor.scopeAt] at hfirst hsecond
    cases reply with
    | silent =>
      simp only [Visitor.scoped, hfirst, hsecond, Reply.meaning]
      simp [ScopedReply.meaning, Reply.meaning]
    | action chosen =>
      simp only [Visitor.scoped, hfirst, hsecond, Reply.meaning]
      simp [ScopedReply.meaning, Reply.meaning]
    | flag value =>
      cases value <;> simp only [Visitor.scoped, hfirst, hsecond, Reply.meaning] <;>
        cases ((scope.enter reader (step tree)).leave tree.kind).1 <;>
        simp [Except.map, Except.mapError, ScopedReply.meaning, Reply.meaning, Reply.action?]
    | other =>
      have hkind : tree.kind.isScoped = false := by
        simpa [ScopedReply.Misleads] using hclean.2
      simp only [Visitor.scoped, hfirst, hsecond, Reply.meaning,
        Scope.leave_of_not_isScoped hkind]
      simp [Except.map, Except.mapError, ScopedReply.meaning, Reply.meaning, Reply.action?]

/-- No reply in plain words misleads the scope. -/
theorem visit_scoped_meaning_unmisled (start : Scope τ φ) (root : Tree) (state : σ) :
    Unmisled (root.visit (Visitor.scoped reader step
      (Visitor.answering fun scope => (inner scope).meaning)) (start, [], state)).2.2.1 := by
  have hkeeps : (Visitor.scoped reader step
      (Visitor.answering fun scope => (inner scope).meaning)).NeverRestores
        fun state => ¬Unmisled state.2.1 := by
    rintro phase tree place ⟨scope, log, state⟩ hmisled hclean
    let here := Visitor.scopeAt reader step phase tree scope
    obtain ⟨reply, next, hinner, -⟩ := (hcalm here).answering phase tree place log state
    have hvisit : (Visitor.answering (fun scope => (inner scope).meaning) here).visit phase tree
        place (log, state) =
          (.ok reply.meaning, log ++ [⟨⟨phase, tree, place⟩, here, reply.meaning⟩], next) := by
      simp only [Visitor.answering, Visitor.meaning, hinner, Except.map]
    rw [Visitor.scoped_visit_state hvisit, unmisled_append] at hmisled
    exact hmisled ⟨hclean, fun hmisleads => reply.meaning_ne_other hmisleads.2.1⟩
  rw [Tree.visit_eq]
  exact not_not.mp (hkeeps.walk root .root (start, [], state)
    (not_not.mpr (by simp [Unmisled]))).snd

/-- A walk in a scope comes out as its plain form does if and only if no reply misled the scope. -/
theorem visit_scoped_meaning_iff (hundo : ScopeStep.Undone reader step) (start : Scope τ φ)
    (root : Tree) (state : σ) :
    let actual := root.visit (Visitor.scoped reader step (Visitor.answering inner))
      (start, [], state)
    let plain := root.visit (Visitor.scoped reader step
      (Visitor.answering fun scope => (inner scope).meaning)) (start, [], state)
    plain.1 = .ok () ∧
      (plain = (actual.1, actual.2.1, actual.2.2.1.map ScopedReply.meaning, actual.2.2.2) ↔
        Unmisled actual.2.2.1) := by
  intro actual plain
  have hclean : Unmisled plain.2.2.1 := visit_scoped_meaning_unmisled hcalm start root state
  obtain ⟨hplain, hall⟩ := visit_scoped_tracks hundo (fun scope => (hcalm scope).meaning) start
    root state
  have hok : plain.1 = .ok () := hplain hclean
  have honWay : AllOnWay reader step start plain.2.2.1 := (hall hok).mp hclean
  refine ⟨hok, fun hsame => ?_, fun hactual => ?_⟩
  · rw [hsame] at hok honWay
    refine ((visit_scoped_tracks hundo hcalm start root state).2 hok).mpr fun entry member => ?_
    exact honWay entry.meaning (List.mem_map_of_mem member)
  · simp only [actual, plain, Tree.visit_eq] at hactual ⊢
    obtain ⟨hflow, hstate⟩ := (scoped_simulatesWhile hcalm).walk (scoped_neverRestores hcalm) root
      .root (start, [], state) (start, [], state) rfl hactual
    rw [← hflow, hstate]

end Plain

namespace Schema

/-- Replies other than actions, their flags and silence. Alone and among other visitors, a visitor
that never fails gets the same calls and comes to the same state as with all its replies put into
plain words. In a scope it does so, with the same scope at every call and in the end and without
an error, if and only if it makes no such reply on entering a node that moves the scope. -/
theorem visit_meaning_eq_iff {ε σ : Type} (schema : Schema) (lookup : FieldLookup)
    (initial : Option TypeRef) (root : Tree) (inner : TypeScope → Visitor ε σ)
    (hcalm : ∀ scope, (inner scope).NeverFails) (state : σ) :
    (∀ scope, root.visit (inner scope).meaning.recording ([], state) =
        root.visit (inner scope).recording ([], state) ∧
      (root.visit (inner scope).recording ([], state)).1 = .ok ()) ∧
    (∀ scope (before after : List (Visitor ε (List Call × σ))),
      (∀ visitor ∈ before ++ after, visitor.NeverFails) → ∀ standings,
        root.visit (.parallel (before ++ (inner scope).meaning.recording :: after))
            (standings, [], state) =
          root.visit (.parallel (before ++ (inner scope).recording :: after))
            (standings, [], state) ∧
        (root.visit (.parallel (before ++ (inner scope).recording :: after))
          (standings, [], state)).1 = .ok ()) ∧
    let start := Scope.initial schema.reader initial
    let actual := root.visit (schema.visitor lookup (Visitor.answering inner)) (start, [], state)
    let plain := root.visit (schema.visitor lookup
      (Visitor.answering fun scope => (inner scope).meaning)) (start, [], state)
    plain.1 = .ok () ∧
      (plain = (actual.1, actual.2.1, actual.2.2.1.map ScopedReply.meaning, actual.2.2.2) ↔
        ∀ entry ∈ actual.2.2.1, entry.call.phase = .enter → entry.reply = .other →
          entry.call.tree.kind.isScoped = false) := by
  refine ⟨fun scope => ?_, fun scope before after hothers standings => ?_, ?_⟩
  · rw [Visitor.recording_meaning, Tree.visit_eq, Visitor.walk_meaning, ← Tree.visit_eq]
    exact ⟨rfl, (hcalm scope).recording.visit_eq_ok root _⟩
  · rw [Visitor.recording_meaning, Visitor.parallel_meaning]
    refine ⟨rfl, (Visitor.parallel_neverFails fun visitor member => ?_).visit_eq_ok root _⟩
    rcases List.mem_append.mp member with hbefore | hlater
    · exact hothers visitor (List.mem_append_left _ hbefore)
    · rcases List.mem_cons.mp hlater with rfl | hafter
      · exact (hcalm scope).recording
      · exact hothers visitor (List.mem_append_right _ hafter)
  · intro start actual plain
    have hiff := visit_scoped_meaning_iff hcalm (schema.step_undone lookup) start root state
    have hmisleads (entry : ScopedReply TypeRef FieldDef) : ¬entry.Misleads ↔
        (entry.call.phase = .enter → entry.reply = .other →
          entry.call.tree.kind.isScoped = false) := by
      simp [ScopedReply.Misleads]
    simp only [Unmisled, hmisleads] at hiff
    exact hiff

/-- A visitor that has nothing to say on entering names and on leaving, but says so by other values
and flags: these leave the walk below a selection set in the query type as it is. -/
theorem visit_meaning_eq_iff_leaving :
    let query : TypeId := Standard.types.length
    let schema : Schema :=
      { table := Standard.types ++ [⟨"Query", none, none, false,
          .object [] [("a", Standard.plain (.named query))]⟩],
        types := [query], query := some query, mutation := none, subscription := none }
    let field : Tree := .node ⟨.field, .none, none⟩
      [.single "name" (.node ⟨.name, .name "a", none⟩ [])]
    let root : Tree := .node ⟨.selectionSet, .none, none⟩ [.sequence "selections" [field, field]]
    let reply (phase : Phase) (kind : NodeKind) : Reply :=
      match phase, kind with
      | .enter, .name => .other
      | .leave, .name => .flag false
      | .leave, _ => .other
      | _, _ => .silent
    let inner (_ : TypeScope) : Visitor Empty Nat :=
      ⟨fun phase tree _ calls => (.ok (reply phase tree.kind), calls + 1)⟩
    let start := Scope.initial schema.reader (some (.named query))
    let actual := root.visit (schema.visitor schema.lookup (Visitor.answering inner))
      (start, [], 0)
    let plain := root.visit (schema.visitor schema.lookup
      (Visitor.answering fun scope => (inner scope).meaning)) (start, [], 0)
    (∀ scope, (inner scope).NeverFails) ∧ actual.2.2.1.length = 10 ∧
      (actual.2.2.1.filter fun entry => entry.reply == .other).length = 5 ∧
      plain = (actual.1, actual.2.1, actual.2.2.1.map ScopedReply.meaning, actual.2.2.2) := by
  intro query schema field root reply inner start actual plain
  have hcalm : ∀ scope, (inner scope).NeverFails := fun scope phase tree place calls =>
    ⟨reply phase tree.kind, calls + 1, rfl⟩
  refine ⟨hcalm, by decide +kernel, by decide +kernel, ?_⟩
  apply (schema.visit_meaning_eq_iff schema.lookup _ root inner hcalm 0).2.2.2.mpr
  have hkinds : actual.2.2.1.map (fun entry =>
      (entry.call.phase, entry.reply, entry.call.tree.kind.isScoped)) =
        [(.enter, .silent, true), (.enter, .silent, true), (.enter, .other, false),
          (.leave, .flag false, false), (.leave, .other, true), (.enter, .silent, true),
          (.enter, .other, false), (.leave, .flag false, false), (.leave, .other, true),
          (.leave, .other, true)] := by decide +kernel
  intro entry member hphase hreply
  have hentry := List.mem_map_of_mem (f := fun entry : ScopedReply TypeRef FieldDef =>
    (entry.call.phase, entry.reply, entry.call.tree.kind.isScoped)) member
  rw [hkinds, hphase, hreply] at hentry
  simpa using hentry

/-- A visitor of a query for one field that replies some other value on entering each node: the
scope is left on entering and again on leaving, until there is nothing to leave. In plain words the
same visitor comes to the end. -/
theorem visit_meaning_ne_underflow :
    let query : TypeId := Standard.types.length
    let schema : Schema :=
      { table := Standard.types ++ [⟨"Query", none, none, false,
          .object [] [("a", Standard.plain (.named query))]⟩],
        types := [query], query := some query, mutation := none, subscription := none }
    let document : Document :=
      ⟨[.operation ⟨.query, none, [], [],
        .mk [.field none ⟨"a", none⟩ [] [] none none] none, none⟩], none⟩
    let inner (_ : TypeScope) : Visitor Empty Unit :=
      ⟨fun phase _ _ calls => (.ok (if phase = .enter then .other else .silent), calls)⟩
    (document.tree.visit (schema.visitor schema.lookup inner) (.empty, ())).1 =
        .error .underflow ∧
      (document.tree.visit (schema.visitor schema.lookup fun scope => (inner scope).meaning)
        (.empty, ())).1 = .ok () := by
  simp only [Tree.visit_eq]
  exact ⟨rfl, rfl⟩

end Schema

end QueryLint
