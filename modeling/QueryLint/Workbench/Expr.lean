import QueryLint.Document.Tree
import QueryLint.Schema.Type
import QueryLint.Workbench.NodeClass

/-!
Expressions of the workbench: a small language that makes types, documents, schemas and errors by
hand, passes them to the functions of the library, and looks at what comes out.
-/

namespace QueryLint.Workbench

/-- What kinds of named types can be made. A nameless type is nothing but a type. -/
inductive TypeFamily where
  | nameless | named | scalar | enum | object | interface | union
  deriving DecidableEq

/-- What can be made of another type. A plain wrapper has no notation of its own. -/
inductive Modifier where
  | wrapper | list | nonNull
  deriving DecidableEq

inductive Constant where
  | type (id : TypeId)
  | metaField (name : String)
  | operation (type : OperationType)
  | rule
  | rules
  | release
  deriving DecidableEq

/-- What expressions can make. -/
inductive Maker where
  | node (cls : NodeClass)
  | type (family : TypeFamily)
  | modified (modifier : Modifier)
  | argument | field | schema | source | place | location | error | syntaxError | scope | release
  | visitor
  deriving DecidableEq

/-- Types that can be insisted on. -/
inductive Expected where
  | object | interface | union | abstract
  deriving DecidableEq

inductive Primitive where
  | equal | unequal | same | sameHash | print | display
  | parse | schemaOfSource | schemaOfDocument | typeOf | fieldOf | check | visit
  | orList | quotedOrList | suggestions | editDistance
  | formatError | printError | locate
  | undefinedFieldMessage | suggestedTypes | suggestedFields
  | checkName | expect (type : Expected) | nullableType | baseType | resolve
  | isSchema | expectSchema | isBuiltInScalar | isIntrospective | isMetaField
  | test (test : TypeTest)
  | readRelease
  deriving DecidableEq

inductive Method where
  | getType | rootType | implementations | possibleTypes | isPossibleType
  | locate | visitFunction | enter | leave | parentType | fieldDef | readRelease
  /-- Enters a node as if it were of the kind. -/
  | enterAs (kind : NodeKind)
  /-- Leaves a node of the kind. -/
  | leaveAs (kind : NodeKind)
  deriving DecidableEq

/-- Why a step of a session fails, errors about documents apart. -/
inductive FaultKind where
  /-- Something was given what it does not take. -/
  | misuse
  | badValue
  | broken
  | lookup
  /-- A scope was left more often than it was entered. -/
  | underflow
  /-- The step means nothing on this workbench. -/
  | meaningless
  deriving DecidableEq

mutual

inductive Expr where
  | null
  | bool (value : Bool)
  | int (value : Int)
  | text (value : Text)
  | ref (name : String)
  | constant (constant : Constant)
  | list (items : List Expr)
  | tuple (items : List Expr)
  | map (entries : List ExprEntry)
  /-- Is evaluated anew whenever its value is asked for. -/
  | delay (body : Expr)
  | fault (kind : FaultKind) (message : Text)
  /-- Fails with an error that has just a message. -/
  | error (message : Text)
  | throw (error : Expr)
  | make (maker : Maker) (arguments : List NamedArgument)
  | apply (primitive : Primitive) (arguments : List Expr)
  | call (receiver : Expr) (method : Method) (arguments : List Expr)
  | get (object : Expr) (path : List Key)

inductive ExprEntry where
  | mk (key value : Expr)

/-- An argument given by its name. -/
inductive NamedArgument where
  | mk (name : String) (value : Expr)

end

instance : Inhabited Expr := ⟨.null⟩

end QueryLint.Workbench
