import QueryLint.Schema.Basic
import QueryLint.Scope
import QueryLint.Workbench.Equality

/-!
The state of a session on the workbench: the values stored under names, and the types, schemas and
scopes made so far. The parts of a type may be given by a delayed expression or by a definition;
they are worked out when they are first asked for, and kept from then on.
-/

namespace QueryLint.Workbench

/-- A part of a type: not yet worked out, or known. -/
inductive Member where
  | absent
  | pending (given : Datum)
  /-- To be read off the definition of the type, with the types that names in it stand for. -/
  | defined (names : OrderedMap TypeId)
  | known (value : Datum)

structure TypeRecord where
  family : TypeFamily
  introspective : Bool := false
  name : String := ""
  description : Datum := .null
  definition : Datum := .null
  /-- The values of an enum. -/
  values : Datum := .null
  member : Part → Member := fun _ => .absent

instance : Inhabited TypeRecord := ⟨{ family := .nameless }⟩

/-- A schema with its root types and further attributes as they were given. -/
structure SchemaRecord where
  schema : Schema
  root : OperationType → Datum
  description : Datum
  definition : Datum
  typeMap : Datum
  /-- The implementations of interfaces by name. -/
  implementations : OrderedMap Datum

/-- A scope with the schema whose types it holds. -/
structure ScopeRecord where
  schema : Datum
  /-- What tells the definitions of fields in place of the schema, unless it counts as nothing. -/
  finder : Datum
  scope : Scope Datum Datum

structure Bench where
  names : OrderedMap Datum := []
  types : List TypeRecord := []
  metaFields : OrderedMap Datum := []
  schemas : List SchemaRecord := []
  scopes : List ScopeRecord := []
  /-- The least identity that is not in use. -/
  next : Nat := FixedId.count
  /-- How the rule on undefined fields is shown. -/
  ruleDisplay : String

inductive Failure where
  | fault (kind : FaultKind) (message : Text)
  /-- An error about a document. -/
  | error (error : Datum)

/-- A step of a session. What it did to the bench before it fails is kept. -/
abbrev Step := ExceptT Failure (StateM Bench)

/-- A step that may evaluate delayed expressions. -/
abbrev Session := ReaderT (Expr → Step Datum) Step

variable {α : Type}

def misuse (message : Text) : Session α := throw (.fault .misuse message)

def meaningless : Session α := throw (.fault .meaningless [])

/-- The first of so many new identities. -/
def freshBlock (count : Nat) : Session Nat := do
  let bench ← get
  set { bench with next := bench.next + count }
  return bench.next

def fresh : Session Nat := freshBlock 1

def makeList (items : List Datum) : Session Datum := return .list (← fresh) items

def makeTuple (items : List Datum) : Session Datum := return .tupleOf (← fresh) items

def makeMap (entries : List Entry) : Session Datum := return .map (← fresh) entries

/-- An attribute that a value has to have. -/
def attr (value : Datum) (name : String) : Session Datum :=
  match value.attr? name with
  | some value => return value
  | none => meaningless

/-- What a value is made of one by one; it has to be made of something. -/
def members (value : Datum) : Session (List Datum) :=
  match value.members? with
  | some items => return items
  | none => meaningless

/-- What a value is made of, and nothing at all if it counts as nothing. -/
def optionalMembers (value : Datum) : Session (List Datum) :=
  if value.isSome then members value else return []

/-- Evaluates a delayed value; any other value is itself. -/
def call : Datum → Session Datum
  | .delayed _ body => do (← read) body
  | value => return value

namespace Bench

def type (bench : Bench) (id : TypeId) : TypeRecord := bench.types[id]?.getD default

/-- Replaces the record of a type. -/
def setType (bench : Bench) (id : TypeId) (record : TypeRecord) : Bench :=
  { bench with types := bench.types.set id record }

end Bench

def addType (record : TypeRecord) : Session TypeId := do
  let bench ← get
  set { bench with types := bench.types ++ [record] }
  return bench.types.length

namespace Datum

/-- The named type that a type is made of. -/
def base : Datum → Datum
  | .modified _ _ item => item.base
  | value => value

/-- The reference that a type stands for; a plain wrapper counts like a list. -/
def typeRef : Datum → TypeRef
  | .modified _ .nonNull item => .nonNull item.typeRef
  | .modified _ _ item => .list item.typeRef
  | .type id => .named id
  | _ => .named 0

def argumentDef? : Entry → Option (String × ArgumentDef)
  | .mk key (.argument _ accepted _ _) =>
    key.string?.map fun name => (name, { type := accepted.typeRef })
  | _ => none

def fieldDef? : Entry → Option (String × FieldDef)
  | .mk key (.field _ result (.map _ arguments) _ _ _) =>
    key.string?.map fun name =>
      (name, { type := result.typeRef, arguments := arguments.filterMap argumentDef? })
  | _ => none

def fieldDefs : Datum → OrderedMap FieldDef
  | .map _ entries => entries.filterMap fieldDef?
  | _ => []

def typeIds (value : Datum) : List TypeId :=
  (value.sequence?.getD []).filterMap fun
    | .type id => some id
    | _ => none

end Datum

namespace TypeRecord

def known (record : TypeRecord) (part : Part) : Datum :=
  match record.member part with
  | .known value => value
  | _ => .null

def shape (record : TypeRecord) : TypeShape :=
  match record.family with
  | .nameless | .named => .bare
  | .scalar => .scalar
  | .enum => .enum ((record.values.sequence?.getD []).filterMap Datum.string?)
  | .object => .object (record.known .interfaces).typeIds (record.known .fields).fieldDefs
  | .interface => .interface (record.known .fields).fieldDefs
  | .union => .union (record.known .types).typeIds

/-- The type that a record describes as far as it is known. -/
def namedType (record : TypeRecord) : NamedType where
  name := record.name
  introspective := record.introspective
  shape := record.shape

end TypeRecord

namespace Bench

def table (bench : Bench) : TypeTable := bench.types.map TypeRecord.namedType

/-- The types on the bench. Where a part is not worked out yet the graph says which. -/
def graph (bench : Bench) : TypeGraph (TypeId × Part) :=
  bench.types.mapIdx fun id record =>
    { type := record.namedType
      fault := fun part =>
        match record.member part with
        | .pending _ | .defined _ => some (id, part)
        | _ => none }

def family? (bench : Bench) : Datum → Option TypeFamily
  | .type id => some (bench.type id).family
  | _ => none

/-- Whether a value is a type that passes a test. -/
def test (bench : Bench) (test : TypeTest) (value : Datum) : Bool :=
  match value with
  | .type id =>
    let record := bench.type id
    test.holdsOf record.namedType && (test != .named || record.family != .nameless)
  | .modified _ modifier item =>
    match test with
    | .type | .wrapping => true
    | .list => modifier = .list
    | .nonNull => modifier = .nonNull
    | .output =>
      match item.base with
      | .type id => (bench.type id).namedType.isOutput
      | _ => false
    | _ => false
  | _ => false

/-- How scopes read the types on the bench. -/
def reader (bench : Bench) : TypeReader Datum Datum where
  base := Datum.base
  isComposite := bench.test .composite
  isOutput := bench.test .output
  fieldType field := (field.attr? "type").getD .null

end Bench

end QueryLint.Workbench
