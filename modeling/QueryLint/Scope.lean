import QueryLint.Document.Walk

/-!
Where a walk through a document is in terms of types. Three stacks hold the types expected around
the current node, the composite types that selections are made on, and the definitions of the
fields on the way; each entry is unknown where the document does not fit the types. The scope is
entered and left with each node, and is left at once where a visitor replies anything at all on
entering.
-/

namespace QueryLint

/-- How to read types in `τ` and field definitions in `φ`. -/
structure TypeReader (τ φ : Type) where
  /-- The type below all modifiers. -/
  base : τ → τ
  isComposite : τ → Bool
  isOutput : τ → Bool
  fieldType : φ → τ

structure Scope (τ φ : Type) where
  types : List (Option τ)
  parents : List (Option τ)
  fields : List (Option φ)
  deriving DecidableEq

/-- What entering a node does to the scope. -/
inductive ScopeStep (τ φ : Type) where
  /-- The selections below are about the type. -/
  | own (type : Option τ)
  /-- The selections below are about the same type as those around. -/
  | inherit
  | selections
  /-- A field is selected, to be looked up on the type it is selected on. -/
  | field (lookup : τ → Option φ)
  | pass

/-- A scope was left more often than it was entered. -/
structure ScopeUnderflow where
  deriving DecidableEq

def ScopeUnderflow.message : String := "pop from empty list"

namespace Scope

variable {τ φ : Type}

def empty : Scope τ φ := ⟨[], [], []⟩

/-- The scope in which a walk starts below a node of the given type. -/
def initial (reader : TypeReader τ φ) (type : Option τ) : Scope τ φ where
  types := ((type.filter reader.isOutput).map some).toList
  parents := ((type.filter reader.isComposite).map some).toList
  fields := []

def type? (scope : Scope τ φ) : Option τ := scope.types.head?.join

def parent? (scope : Scope τ φ) : Option τ := scope.parents.head?.join

def field? (scope : Scope τ φ) : Option φ := scope.fields.head?.join

def pushType (reader : TypeReader τ φ) (type : Option τ) (scope : Scope τ φ) : Scope τ φ :=
  { scope with types := type.filter reader.isOutput :: scope.types }

def enter (reader : TypeReader τ φ) (step : ScopeStep τ φ) (scope : Scope τ φ) : Scope τ φ :=
  match step with
  | .own type => scope.pushType reader type
  | .inherit => scope.pushType reader (scope.type?.map reader.base)
  | .selections =>
    { scope with
      parents := (scope.type?.map reader.base).filter reader.isComposite :: scope.parents }
  | .field lookup =>
    let field := scope.parent?.bind lookup
    { scope with fields := field :: scope.fields }.pushType reader (field.map reader.fieldType)
  | .pass => scope

def popType (scope : Scope τ φ) : Except ScopeUnderflow Unit × Scope τ φ :=
  match scope.types with
  | [] => (.error {}, scope)
  | _ :: types => (.ok (), { scope with types })

/-- Undoes what entering a node of the kind did. -/
def leave (kind : NodeKind) (scope : Scope τ φ) : Except ScopeUnderflow Unit × Scope τ φ :=
  match kind with
  | .operationDefinition | .fragmentDefinition | .inlineFragment => scope.popType
  | .selectionSet =>
    match scope.parents with
    | [] => (.error {}, scope)
    | _ :: parents => (.ok (), { scope with parents })
  | .field =>
    match scope.fields with
    | [] => (.error {}, scope)
    | _ :: fields => { scope with fields }.popType
  | _ => (.ok (), scope)

end Scope

/-- What can end a walk that keeps track of types. -/
inductive ScopedError (ε : Type) where
  | underflow
  | visitor (error : ε)
  deriving DecidableEq

variable {ε σ τ φ : Type}

/-- Keeps the scope up to date while passing each node on to a visitor that may read it. -/
def Visitor.scoped (reader : TypeReader τ φ) (step : Tree → ScopeStep τ φ)
    (inner : Scope τ φ → Visitor ε σ) : Visitor (ScopedError ε) (Scope τ φ × σ) where
  visit
    | .enter, tree, place, (scope, state) =>
      let entered := scope.enter reader (step tree)
      match (inner entered).visit .enter tree place state with
      | (.error error, state) => (.error (.visitor error), entered, state)
      | (.ok .silent, state) => (.ok .silent, entered, state)
      | (.ok reply, state) =>
        let (result, left) := entered.leave tree.kind
        ((result.mapError fun _ => .underflow).map fun _ => reply, left, state)
    | .leave, tree, place, (scope, state) =>
      match (inner scope).visit .leave tree place state with
      | (.error error, state) => (.error (.visitor error), scope, state)
      | (.ok reply, state) =>
        let (result, left) := scope.leave tree.kind
        ((result.mapError fun _ => .underflow).map fun _ => reply, left, state)

end QueryLint
