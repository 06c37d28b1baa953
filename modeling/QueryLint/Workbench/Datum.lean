import QueryLint.Document.Walk
import QueryLint.Workbench.Expr

/-!
Values of the workbench. A composite value has an identity, so that the same value can be told from
an equal one. Types, schemas and scopes are known to each other or change, so they stand in the
state of a session and are referred to by their places there.
-/

namespace QueryLint.Workbench

mutual

inductive Datum where
  | null
  | bool (value : Bool)
  | int (value : Int)
  | text (value : Text)
  | list (id : Nat) (items : List Datum)
  | tuple (id : Nat) (items : List Datum)
  | map (id : Nat) (entries : List Entry)
  | delayed (id : Nat) (body : Expr)
  | operation (type : OperationType)
  | action (chosen : Action)
  | rule
  | visitor (id : Nat)
  | scope (id : Nat)
  | schema (id : Nat)
  | type (id : TypeId)
  | modified (id : Nat) (modifier : Modifier) (item : Datum)
  | argument (id : Nat) (type description definition : Datum)
  | field (id : Nat) (type arguments description deprecation definition : Datum)
  /-- A node with its attributes in the order of the keys of its class. -/
  | node (id : Nat) (cls : NodeClass) (attributes : List Datum)
  | source (id : Nat) (source : Source)
  | location (id : Nat) (start stop source : Datum)
  | place (id : Nat) (line column : Datum)
  | release (id : Nat) (major minor micro level serial : Datum)
  | implementations (id : Nat) (objects : Datum)
  /-- An error about a document, with what it holds in the order of `errorKeys`. Errors of the
  grammar also have a description. The identity after its own is that of its arguments. -/
  | error (id : Nat) (syntactic : Bool) (slots : List Datum) (description : Datum)

inductive Entry where
  | mk (key value : Datum)

end

instance : Inhabited Datum := ⟨.null⟩

/-- The name of an operation type as a constant. -/
def operationName : OperationType → String
  | .query => "QUERY"
  | .mutation => "MUTATION"
  | .subscription => "SUBSCRIPTION"

/-- The name of an action as a constant. -/
def actionName : Action → String
  | .stop => "BREAK"
  | .skip => "SKIP"

/-- The flag by which a visitor may say the action as well. -/
def actionFlag : Action → Bool
  | .stop => true
  | .skip => false

def errorKeys : List String :=
  ["message", "nodes", "source", "positions", "locations", "extensions"]

/-! Some values exist once and for all. Classes of nodes that add no keys share those of the class
above, and classes with the same children share them. -/

namespace FixedId

def emptyTuple : Nat := 0

def rules : Nat := 1

def release : Nat := 2

def keys (cls : NodeClass) : Nat := 3 + NodeClass.all.idxOf cls.keysOwner

def children (cls : NodeClass) : Nat :=
  3 + NodeClass.all.length + NodeClass.all.findIdx (·.children == cls.children)

/-- The least identity that no such value has. -/
def count : Nat := 3 + 2 * NodeClass.all.length

end FixedId

namespace Entry

def key : Entry → Datum
  | .mk key _ => key

def value : Entry → Datum
  | .mk _ value => value

/-- An entry under a name. -/
def named (name : String) (value : Datum) : Entry := .mk (.text name) value

def hasName (entry : Entry) (name : String) : Bool :=
  match entry.key with
  | .text key => key == Text.ofString name
  | _ => false

end Entry

/-- What tells a value from all others. -/
inductive Identity where
  | null
  | bool (value : Bool)
  | int (value : Int)
  | text (value : Text)
  | operation (type : OperationType)
  | action (chosen : Action)
  | rule
  | type (id : TypeId)
  | schema (id : Nat)
  | scope (id : Nat)
  | object (id : Nat)
  deriving DecidableEq

namespace Datum

def ofString (string : String) : Datum := .text string

def ofText? : Option Text → Datum
  | some value => .text value
  | none => .null

/-- A tuple with the identity; there is only one empty tuple. -/
def tupleOf (id : Nat) : List Datum → Datum
  | [] => .tuple FixedId.emptyTuple []
  | items => .tuple id items

def text? : Datum → Option Text
  | .text value => some value
  | _ => none

/-- The text as a string, if it is one and holds no surrogate. -/
def string? (value : Datum) : Option String := value.text?.bind Text.toString?

/-- The number that a value stands for; true is one and false is zero. -/
def int? : Datum → Option Int
  | .int value => some value
  | .bool value => some (if value then 1 else 0)
  | _ => none

def isNull : Datum → Bool
  | .null => true
  | _ => false

/-- Whether a value counts as something rather than nothing. -/
def isSome : Datum → Bool
  | .null => false
  | .bool value => value
  | .int value => value != 0
  | .text value => !value.isEmpty
  | .list _ items | .tuple _ items => !items.isEmpty
  | .map _ entries => !entries.isEmpty
  | _ => true

/-- The parts of a value that is a tuple, perhaps with names for its parts. -/
def parts? : Datum → Option (List Datum)
  | .tuple _ items => some items
  | .place _ line column => some [line, column]
  | .release _ major minor micro level serial => some [major, minor, micro, level, serial]
  | .implementations _ objects => some [objects]
  | _ => none

/-- What stands in a list or tuple. -/
def sequence? : Datum → Option (List Datum)
  | .list _ items => some items
  | value => value.parts?

/-- What a value is made of one by one: items, the keys of a map, or the characters of a text. -/
def members? : Datum → Option (List Datum)
  | .map _ entries => some (entries.map Entry.key)
  | .text value => some (value.map fun point => .text [point])
  | value => value.sequence?

def identity : Datum → Identity
  | .null => .null
  | .bool value => .bool value
  | .int value => .int value
  | .text value => .text value
  | .operation chosen => .operation chosen
  | .action chosen => .action chosen
  | .rule => .rule
  | .type id => .type id
  | .schema id => .schema id
  | .scope id => .scope id
  | .list id _ | .tuple id _ | .map id _ | .delayed id _ | .visitor id | .modified id _ _
  | .argument id .. | .field id .. | .node id .. | .source id _ | .location id .. | .place id ..
  | .release id .. | .implementations id _ | .error id .. => .object id

/-- Whether two values are one and the same. -/
def same (value other : Datum) : Bool := value.identity = other.identity

def valueNamed? (entries : List Entry) (name : String) : Option Datum :=
  (entries.find? (·.hasName name)).map Entry.value

/-- The attributes of a value that can be read off it alone. -/
def attributes : Datum → List (String × Datum)
  | .operation chosen =>
    [("value", ofString chosen.text), ("name", ofString (operationName chosen))]
  | .action chosen =>
    [("value", .bool (actionFlag chosen)), ("name", ofString (actionName chosen))]
  | .visitor _ | .rule => [("BREAK", .action .stop), ("SKIP", .action .skip), ("IDLE", .null)]
  | .modified _ _ item => [("of_type", item)]
  | .argument _ accepted description definition =>
    [("type", accepted), ("description", description), ("ast_node", definition)]
  | .field _ result arguments description deprecation definition =>
    [("type", result), ("args", arguments), ("description", description),
      ("deprecation_reason", deprecation), ("is_deprecated", .bool !deprecation.isNull),
      ("ast_node", definition)]
  | .node _ cls attributes =>
    cls.keys.zip attributes ++ [("kind", ofString cls.text),
      ("keys", tupleOf (FixedId.keys cls) (cls.keys.map ofString)),
      ("children", tupleOf (FixedId.children cls) (cls.children.map ofString))]
  | .source _ origin => [("body", .text origin.body), ("name", .text origin.name)]
  | .location _ start stop origin => [("start", start), ("end", stop), ("source", origin)]
  | .place _ line column => [("line", line), ("column", column)]
  | .release _ major minor micro level serial =>
    [("major", major), ("minor", minor), ("micro", micro), ("releaselevel", level),
      ("serial", serial)]
  | .implementations _ objects => [("objects", objects)]
  | .error id syntactic slots description =>
    errorKeys.zip slots ++ [("args", .tuple (id + 1) (slots.take 1))] ++
      if syntactic then [("description", description)] else []
  | _ => []

def attr? (value : Datum) (name : String) : Option Datum := value.attributes.lookup name

end Datum

end QueryLint.Workbench
