import Mathlib.Data.List.Chain
import QueryLint.Document.Traversal
import QueryLint.Proofs.Walk
import QueryLint.Schema.Scope

/-!
The types at a node of a walk depend on nothing but the nodes on the way to it. Leaving a node
undoes entering it, so at each node the stacks of the scope are those that entering the nodes of
the way builds up, and what can be read off them is a fold over the way that needs no stack.
-/

namespace QueryLint

/-! The way to a node -/

def Container.node? : Container → Option Tree
  | .node tree => some tree
  | .sequence _ => none

/-- The nodes above a place, the root first. -/
def Place.nodes (place : Place) : List Tree := place.above.filterMap Container.node?

/-- The nodes on the way to the node of a call, that node included. -/
def Call.way (call : Call) : List Tree := call.place.nodes ++ [call.tree]

/-- A way down from the root to a node, each node directly below the one before. -/
structure Tree.IsWay (root tree : Tree) (way : List Tree) : Prop where
  first : way.head? = some root
  last : way.getLast? = some tree
  steps : way.IsChain fun tree node => node ∈ tree.children

theorem Place.nodes_child (place : Place) (tree : Tree) (name : String) :
    (place.child tree name).nodes = place.nodes ++ [tree] := by
  simp [Place.nodes, Place.above, Place.child, Container.node?]

theorem Place.nodes_item (place : Place) (tree : Tree) (name : String) (nodes : List Tree)
    (position : Nat) : (place.item tree name nodes position).nodes = place.nodes ++ [tree] := by
  simp [Place.nodes, Place.above, Place.item, Container.node?]

theorem Tree.Below.nodes_eq {tree node : Tree} {place next : Place}
    (h : tree.Below place node next) : next.nodes = place.nodes ++ [tree] := by
  cases h with
  | child member => exact place.nodes_child tree _
  | item member here => exact place.nodes_item tree _ _ _

theorem Tree.Reaches.isWay {root tree : Tree} {place : Place} (h : root.Reaches tree place) :
    root.IsWay tree (place.nodes ++ [tree]) := by
  induction h with
  | start => exact ⟨rfl, rfl, List.isChain_singleton _⟩
  | @step tree node place next _ hbelow ih =>
    rw [hbelow.nodes_eq]
    refine ⟨?_, by simp, ?_⟩
    · rw [List.head?_append, ih.first]
      rfl
    · rw [List.isChain_append]
      refine ⟨ih.steps, List.isChain_singleton _, ?_⟩
      intro last hlast first hfirst
      obtain rfl : tree = last := by simpa using hlast
      obtain rfl : node = first := by simpa using hfirst
      exact hbelow.mem_children

/-! What can be read off a scope -/

/-- The type, the parent type and the field that a visitor can ask for. -/
structure ScopeView (τ φ : Type) where
  type : Option τ
  parent : Option τ
  field : Option φ

variable {ε σ τ φ : Type}

def Scope.view (scope : Scope τ φ) : ScopeView τ φ :=
  ⟨scope.type?, scope.parent?, scope.field?⟩

/-- What is read off a scope once a node is entered, told from what was read off it before. -/
def ScopeView.enter (reader : TypeReader τ φ) (step : ScopeStep τ φ) (view : ScopeView τ φ) :
    ScopeView τ φ :=
  match step with
  | .own type => { view with type := type.filter reader.isOutput }
  | .inherit => { view with type := (view.type.map reader.base).filter reader.isOutput }
  | .selections => { view with parent := (view.type.map reader.base).filter reader.isComposite }
  | .field lookup =>
    let field := view.parent.bind lookup
    { view with field := field, type := (field.map reader.fieldType).filter reader.isOutput }
  | .pass => view

theorem Scope.view_enter (reader : TypeReader τ φ) (step : ScopeStep τ φ) (scope : Scope τ φ) :
    (scope.enter reader step).view = scope.view.enter reader step := by
  cases step <;> rfl

theorem Scope.view_initial (reader : TypeReader τ φ) (type : Option τ) :
    (Scope.initial reader type).view =
      ⟨type.filter reader.isOutput, type.filter reader.isComposite, none⟩ := by
  have htop (entry : Option τ) : (entry.map some).toList.head?.join = entry := by
    cases entry <;> rfl
  rw [Scope.view, Scope.initial, Scope.type?, Scope.parent?, htop, htop]
  rfl

/-- The scope that entering the nodes of a way leads to. -/
def Scope.along (reader : TypeReader τ φ) (step : Tree → ScopeStep τ φ) (scope : Scope τ φ)
    (way : List Tree) : Scope τ φ :=
  way.foldl (fun scope node => scope.enter reader (step node)) scope

def ScopeView.along (reader : TypeReader τ φ) (step : Tree → ScopeStep τ φ)
    (view : ScopeView τ φ) (way : List Tree) : ScopeView τ φ :=
  way.foldl (fun view node => view.enter reader (step node)) view

theorem Scope.along_append (reader : TypeReader τ φ) (step : Tree → ScopeStep τ φ)
    (scope : Scope τ φ) (way : List Tree) (node : Tree) :
    scope.along reader step (way ++ [node]) =
      (scope.along reader step way).enter reader (step node) := by
  simp [Scope.along]

theorem Scope.view_along (reader : TypeReader τ φ) (step : Tree → ScopeStep τ φ)
    (scope : Scope τ φ) (way : List Tree) :
    (scope.along reader step way).view = scope.view.along reader step way := by
  induction way generalizing scope with
  | nil => rfl
  | cons node rest ih =>
    change ((scope.enter reader (step node)).along reader step rest).view = _
    rw [ih, Scope.view_enter]
    rfl

/-! Walks in a scope -/

/-- Leaving a node brings back the scope in which it was entered. -/
def ScopeStep.Undone (reader : TypeReader τ φ) (step : Tree → ScopeStep τ φ) : Prop :=
  ∀ (tree : Tree) (scope : Scope τ φ),
    (scope.enter reader (step tree)).leave tree.kind = (.ok (), scope)

namespace Visitor

section Scoped

variable {reader : TypeReader τ φ} {step : Tree → ScopeStep τ φ}
  {inner : Scope τ φ → Visitor ε σ} {tree : Tree} {place : Place} {scope : Scope τ φ}
  {state next : σ} {reply : Reply}

theorem scoped_enter_silent
    (hvisit : (inner (scope.enter reader (step tree))).visit .enter tree place state =
      (.ok .silent, next)) :
    (Visitor.scoped reader step inner).visit .enter tree place (scope, state) =
      (.ok .silent, scope.enter reader (step tree), next) := by
  simp only [Visitor.scoped, hvisit]

/-- Any reply on entering makes the scope leave the node. -/
theorem scoped_enter_reply (hundo : ScopeStep.Undone reader step)
    (hvisit : (inner (scope.enter reader (step tree))).visit .enter tree place state =
      (.ok reply, next)) (hreply : reply ≠ .silent) :
    (Visitor.scoped reader step inner).visit .enter tree place (scope, state) =
      (.ok reply, scope, next) := by
  simp only [Visitor.scoped, hvisit]
  cases reply with
  | silent => exact (hreply rfl).elim
  | action chosen => simp only [hundo tree scope]; rfl
  | flag value => simp only [hundo tree scope]; rfl
  | other => simp only [hundo tree scope]; rfl

theorem scoped_leave (hundo : ScopeStep.Undone reader step)
    (hvisit : (inner (scope.enter reader (step tree))).visit .leave tree place state =
      (.ok reply, next)) :
    (Visitor.scoped reader step inner).visit .leave tree place
        (scope.enter reader (step tree), state) = (.ok reply, scope, next) := by
  simp only [Visitor.scoped, hvisit, hundo tree scope]
  rfl

end Scoped

/-- The visitor replies nothing but the actions, their flags, or nothing at all, and never
fails. -/
def RepliesPlainly (visitor : Visitor ε σ) : Prop :=
  ∀ phase tree place state, ∃ reply next,
    visitor.visit phase tree place state = (.ok reply, next) ∧ reply ≠ .other

/-- The visitor, writing down all its calls with what it can read off the scope. -/
def noting (inner : Scope τ φ → Visitor ε σ) (scope : Scope τ φ) :
    Visitor ε (List (Call × ScopeView τ φ) × σ) where
  visit phase tree place state :=
    let (result, own) := (inner scope).visit phase tree place state.2
    (result, state.1 ++ [(⟨phase, tree, place⟩, scope.view)], own)

theorem RepliesPlainly.noting {inner : Scope τ φ → Visitor ε σ} {scope : Scope τ φ}
    (h : (inner scope).RepliesPlainly) (phase : Phase) (tree : Tree) (place : Place)
    (log : List (Call × ScopeView τ φ)) (state : σ) :
    ∃ reply next, (Visitor.noting inner scope).visit phase tree place (log, state) =
        (.ok reply, log ++ [(⟨phase, tree, place⟩, scope.view)], next) ∧ reply ≠ .other := by
  obtain ⟨reply, next, hvisit, hreply⟩ := h phase tree place state
  exact ⟨reply, next, by simp only [Visitor.noting, hvisit], hreply⟩

end Visitor

section Along

variable (reader : TypeReader τ φ) (step : Tree → ScopeStep τ φ) (start : Scope τ φ) (root : Tree)

/-- Each call was made at a node below the root, with the types that the way there leads to. -/
def NotedAlong (log : List (Call × ScopeView τ φ)) : Prop :=
  ∀ entry ∈ log, root.Reaches entry.1.tree entry.1.place ∧
    entry.2 = start.view.along reader step entry.1.way

variable {reader step start root}

theorem NotedAlong.snoc {log : List (Call × ScopeView τ φ)}
    (h : NotedAlong reader step start root log) {tree : Tree} {place : Place}
    (hreached : root.Reaches tree place) (phase : Phase) :
    NotedAlong reader step start root (log ++
      [(⟨phase, tree, place⟩, (start.along reader step (place.nodes ++ [tree])).view)]) := by
  intro entry member
  rcases List.mem_append.mp member with hold | hnew
  · exact h entry hold
  · obtain rfl := List.mem_singleton.mp hnew
    exact ⟨hreached, Scope.view_along reader step start _⟩

/-- Between nodes the scope is what the nodes above lead to, and inside a node also the node
itself. A visitor's reply on entering makes the scope leave the node at once, just where the walk
does not leave it later. -/
theorem scoped_invariant (start : Scope τ φ) (root : Tree)
    (hundo : ScopeStep.Undone reader step) {inner : Scope τ φ → Visitor ε σ}
    (hplain : ∀ scope, (inner scope).RepliesPlainly) :
    WalkInvariant (Visitor.scoped reader step (Visitor.noting inner))
      (fun place tree state => root.Reaches tree place ∧
        state.1 = start.along reader step place.nodes ∧
        NotedAlong reader step start root state.2.1)
      (fun place tree state => root.Reaches tree place ∧
        state.1 = start.along reader step (place.nodes ++ [tree]) ∧
        NotedAlong reader step start root state.2.1)
      (fun state => NotedAlong reader step start root state.2.1) (fun _ _ => False) := by
  refine ⟨?_, ?_, ?_⟩
  · rintro place tree ⟨scope, log, state⟩ ⟨hreached, rfl, hlog⟩
    have hnoted := hlog.snoc hreached .enter
    rw [Scope.along_append] at hnoted ⊢
    obtain ⟨reply, next, hvisit, hreply⟩ :=
      (hplain ((start.along reader step place.nodes).enter reader (step tree))).noting
        .enter tree place log state
    by_cases hsilent : reply = .silent
    · subst hsilent
      rw [Visitor.scoped_enter_silent hvisit]
      exact ⟨hreached, rfl, hnoted⟩
    · rw [Visitor.scoped_enter_reply hundo hvisit hsilent]
      rcases reply with _ | ⟨_ | _⟩ | ⟨_ | _⟩ | _
      · exact (hsilent rfl).elim
      · exact hnoted
      · exact ⟨hreached, rfl, hnoted⟩
      · exact ⟨hreached, rfl, hnoted⟩
      · exact hnoted
      · exact (hreply rfl).elim
  · rintro place tree ⟨scope, log, state⟩ ⟨hreached, rfl, hlog⟩
    have hnoted := hlog.snoc hreached .leave
    rw [Scope.along_append] at hnoted ⊢
    obtain ⟨reply, next, hvisit, -⟩ :=
      (hplain ((start.along reader step place.nodes).enter reader (step tree))).noting
        .leave tree place log state
    rw [Visitor.scoped_leave hundo hvisit]
    dsimp only [Reply.Leads]
    rcases reply.action? with _ | _ | _
    · exact ⟨hreached, rfl, hnoted⟩
    · exact hnoted
    · exact ⟨hreached, rfl, hnoted⟩
  · rintro place tree ⟨scope, log, state⟩ node next ⟨hreached, rfl, hlog⟩ hbelow
    rw [hbelow.nodes_eq]
    exact ⟨⟨.step hreached hbelow, rfl, hlog⟩, fun later hlater => ⟨hreached, hlater.2⟩⟩

end Along

namespace Schema

theorem step_undone (schema : Schema) (lookup : FieldLookup) :
    ScopeStep.Undone schema.reader (schema.step lookup) := by
  have hown (type : Option TypeRef) (scope : TypeScope) :
      (scope.enter schema.reader (.own type)).popType = (.ok (), scope) := rfl
  have hinherit (scope : TypeScope) :
      (scope.enter schema.reader .inherit).popType = (.ok (), scope) := rfl
  intro tree scope
  unfold Schema.step
  cases tree.kind with
  | operationDefinition =>
    cases tree.data.content <;> exact hown _ scope
  | fragmentDefinition =>
    cases tree.conditionName? with
    | none => exact hinherit scope
    | some name => exact hown _ scope
  | inlineFragment =>
    cases tree.conditionName? with
    | none => exact hinherit scope
    | some name => exact hown _ scope
  | _ => rfl

/-- What can be read off the scope at a node, told from the type that the walk starts with and the
nodes on the way. -/
def viewAlong (schema : Schema) (lookup : FieldLookup) (initial : Option TypeRef)
    (way : List Tree) : ScopeView TypeRef FieldDef :=
  ScopeView.along schema.reader (schema.step lookup)
    ⟨initial.filter schema.reader.isOutput, initial.filter schema.reader.isComposite, none⟩ way

/-- At every call of a visitor that replies plainly, on entering as on leaving, the type, the parent
type and the field are a function of the initial type and of the nodes from the root to the node
of the call. What was visited, skipped or replied before has no part in it. The scope is never left
more often than it was entered, so the walk does not fail. -/
theorem view_eq_viewAlong_way {ε σ : Type} (schema : Schema) (lookup : FieldLookup)
    (initial : Option TypeRef) (root : Tree) (inner : TypeScope → Visitor ε σ)
    (hplain : ∀ scope, (inner scope).RepliesPlainly) (state : σ) :
    let ended := root.visit (schema.visitor lookup (Visitor.noting inner))
      (Scope.initial schema.reader initial, [], state)
    ended.1 = .ok () ∧ ∀ call view, (call, view) ∈ ended.2.2.1 →
      root.IsWay call.tree call.way ∧ view = schema.viewAlong lookup initial call.way := by
  let start := Scope.initial schema.reader initial
  have hwalk := (scoped_invariant start root (schema.step_undone lookup) hplain).walk root .root
    (start, [], state) ⟨.start, rfl, fun entry member => by simp at member⟩
  have hway : ∀ log, NotedAlong schema.reader (schema.step lookup) start root log →
      ∀ call view, (call, view) ∈ log →
        root.IsWay call.tree call.way ∧ view = schema.viewAlong lookup initial call.way := by
    intro log hlog call view member
    obtain ⟨hreached, hview⟩ := hlog (call, view) member
    rw [Scope.view_initial] at hview
    exact ⟨hreached.isWay, hview⟩
  simp only [Tree.visit_eq, Schema.visitor]
  generalize root.walk (.scoped schema.reader (schema.step lookup) (.noting inner)) .root
    (start, [], state) = ended at hwalk ⊢
  rcases ended with ⟨_ | _ | _, scope, log, last⟩
  · exact ⟨rfl, hway log hwalk.2.2⟩
  · exact ⟨rfl, hway log hwalk⟩
  · exact hwalk.elim

/-- A walk below a selection set in the query type whose visitor passes over the first of two
fields: the second field and its name are found in the types that they would be in without it. -/
theorem view_eq_viewAlong_way_behind_skipped :
    let query : TypeId := Standard.types.length
    let schema : Schema :=
      { table := Standard.types ++ [⟨"Query", none, none, false,
          .object [] [("a", Standard.plain (.named query))]⟩],
        types := [query], query := some query, mutation := none, subscription := none }
    let field : Tree := .node ⟨.field, .none, none⟩
      [.single "name" (.node ⟨.name, .name "a", none⟩ [])]
    let root : Tree := .node ⟨.selectionSet, .none, none⟩ [.sequence "selections" [field, field]]
    let inner (_ : TypeScope) : Visitor Empty Nat :=
      ⟨fun _ _ _ calls => (.ok (if calls = 1 then .action .skip else .silent), calls + 1)⟩
    let ended := root.visit (schema.visitor schema.lookup (Visitor.noting inner))
      (Scope.initial schema.reader (some (.named query)), [], 0)
    (∀ scope, (inner scope).RepliesPlainly) ∧ ended.2.2.1.length = 7 ∧ ended.1 = .ok () ∧
      ∀ call view, (call, view) ∈ ended.2.2.1 → root.IsWay call.tree call.way ∧
        view = schema.viewAlong schema.lookup (some (.named query)) call.way := by
  intro query schema field root inner ended
  have hplain : ∀ scope, (inner scope).RepliesPlainly := by
    intro scope phase tree place calls
    refine ⟨_, _, rfl, ?_⟩
    split <;> simp
  exact ⟨hplain, rfl, schema.view_eq_viewAlong_way schema.lookup _ root inner hplain 0⟩

end Schema

end QueryLint
