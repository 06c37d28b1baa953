import QueryLint.Workbench.Schemas

/-!
Scopes as values: they are entered and left node by node, and tell at any time which types and which
field they are at.
-/

namespace QueryLint.Workbench

/-- The field of an object or interface under a name. -/
def fieldNamed? (type name : Datum) : Session (Option Datum) := do
  let bench ← get
  if bench.test .object type || bench.test .interface type then
    match ← typedAttr type "fields" with
    | .map _ fields => return Entry.find? fields name
    | _ => return none
  else return none

/-- The definition of the field that a node selects on a type, or null. -/
def fieldOf (schema parent node : Datum) : Session Datum := do
  let bench ← get
  let name ← nameOf node
  let isNamed (other : String) : Bool := name.equal (.ofString other)
  let metaField (name : String) : Datum := (bench.metaFields.find? name).getD .null
  if isNamed "__typename" then
    return if bench.test .composite parent then metaField "__typename" else .null
  let isQuery := parent.same ((← schemaRecord schema).root .query)
  match if isQuery then ["__schema", "__type"].find? isNamed else none with
  | some name => return metaField name
  | none => return (← fieldNamed? parent name).getD .null

def makeScope (schema finder initial : Datum) : Session Datum := do
  let bench ← get
  let record : ScopeRecord := ⟨schema, finder, .initial bench.reader (some initial)⟩
  set { bench with scopes := bench.scopes ++ [record] }
  return .scope bench.scopes.length

def scopeRecord (scope : Datum) : Session ScopeRecord := do
  match scope with
  | .scope id =>
    match (← get).scopes[id]? with
    | some record => return record
    | none => meaningless
  | _ => meaningless

def setScope (scope : Datum) (record : ScopeRecord) : Session Unit := do
  match scope with
  | .scope id => modify fun bench => { bench with scopes := bench.scopes.set id record }
  | _ => meaningless

/-- The value unless it is null. -/
def Datum.nonNull? (value : Datum) : Option Datum := if value.isNull then none else some value

/-- The definition of the field that a node selects on a type in a scope, or null. -/
def fieldInScope (record : ScopeRecord) (parent node : Datum) : Session Datum :=
  match record.finder with
  | .delayed .. => call record.finder
  | finder => if finder.isSome then meaningless else fieldOf record.schema parent node

/-- The definition of the field that a node selects where a scope is, or null. -/
def selectedField (record : ScopeRecord) (node : Datum) : Session Datum :=
  match record.scope.parent? with
  | some parent => fieldInScope record parent node
  | none => return .null

/-- What entering a fragment does to a scope, which depends on the type that it asks for if any. -/
def fragmentStep (schema condition : Datum) : Session (ScopeStep Datum Datum) := do
  if condition.isSome then return .own (← typeOfNode schema condition).nonNull?
  else return .inherit

/-- What entering a node does to a scope if the node is of the kind. -/
def scopeStep (record : ScopeRecord) (kind : NodeKind) (node : Datum) :
    Session (ScopeStep Datum Datum) := do
  match kind with
  | .operationDefinition =>
    return .own (← rootType record.schema (← attr node "operation")).nonNull?
  | .fragmentDefinition | .inlineFragment =>
    fragmentStep record.schema (← attr node "type_condition")
  | .selectionSet => return .selections
  | .field =>
    let field ← selectedField record node
    return .field fun _ => field.nonNull?
  | _ => return .pass

def enterScopeAs (kind : NodeKind) (scope node : Datum) : Session Unit := do
  let record ← scopeRecord scope
  let step ← scopeStep record kind node
  setScope scope { record with scope := record.scope.enter (← get).reader step }

def leaveScopeAs (kind : NodeKind) (scope : Datum) : Session Unit := do
  let record ← scopeRecord scope
  let (result, left) := record.scope.leave kind
  setScope scope { record with scope := left }
  match result with
  | .ok () => return ()
  | .error _ => throw (.fault .underflow ScopeUnderflow.message)

/-- Enters a node; nodes of no particular kind change nothing. -/
def enterScope (scope node : Datum) : Session Unit :=
  match node with
  | .node _ (.exact kind) _ => enterScopeAs kind scope node
  | _ => return ()

def leaveScope (scope node : Datum) : Session Unit :=
  match node with
  | .node _ (.exact kind) _ => leaveScopeAs kind scope
  | _ => return ()

end QueryLint.Workbench
