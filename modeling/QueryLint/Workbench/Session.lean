import QueryLint.Release
import QueryLint.Workbench.Checks

/-!
Evaluating expressions, and sessions that evaluate one after the other. The parts of an expression
are evaluated from left to right.
-/

namespace QueryLint.Workbench

/-! Attributes and items -/

def schemaAttribute (schema : Datum) (name : String) : Session Datum := do
  let record ← schemaRecord schema
  match name with
  | "query_type" => return record.root .query
  | "mutation_type" => return record.root .mutation
  | "subscription_type" => return record.root .subscription
  | "type_map" => return record.typeMap
  | "description" => return record.description
  | "ast_node" => return record.definition
  | _ => meaningless

def attributeOf (value : Datum) (name : String) : Session Datum := do
  match value, name with
  | .schema _, _ => schemaAttribute value name
  | .scope _, "schema" => return (← scopeRecord value).schema
  | .place .., "formatted" => return value.placeMap (← fresh)
  | .error _ _ slots _, "formatted" => formatSlots slots
  | _, _ => typedAttr value name

/-- Follows a key into a value. -/
def follow (value : Datum) (key : Key) : Session Datum := do
  let found ← match value, key with
    | .map _ entries, .name name => pure (Entry.find? entries (.ofString name))
    | .map _ entries, .index position => pure (Entry.find? entries (.int position))
    | _, .name name => some <$> attributeOf value name
    | _, .index position => pure (itemAt? (← members value) position)
  match found with
  | some value => return value
  | none => meaningless

/-! Making values -/

def makeSourceOf (body : Datum) (name : Option Datum) : Session Datum := do
  match body, name with
  | .text _, none => return (← makeSource body).1
  | .text _, some (.text name) =>
    let (_, source) ← makeSource body
    return .source (← fresh) { source with name }
  | .text _, some _ => misuse "name must be a string."
  | _, _ => misuse "body must be a string."

def makeNamedType (family : TypeFamily) (given : String → Datum) : Session Datum := do
  if family = .nameless then return .type (← addType { family := family })
  else
    let record ← makeTypeRecord family (given "name") (given "description") (given "ast_node")
    let record ← match family with
      | .enum => do
        pure { record with values := ← makeEnumValues record.name (given "values") }
      | .object | .interface | .union =>
        pure { record with member := fun part => .pending (given part.text) }
      | _ => pure record
    return .type (← addType record)

def make (maker : Maker) (arguments : OrderedMap Datum) : Session Datum := do
  let given (name : String) : Datum := (arguments.lookup name).getD .null
  match maker with
  | .node cls => makeNode cls arguments
  | .type family => makeNamedType family given
  | .modified modifier => makeModified modifier (given "type")
  | .argument => makeArgument (given "type") (given "description") (given "ast_node")
  | .field =>
    makeField (given "type") (given "args") (given "description") (given "deprecation_reason")
      (given "ast_node")
  | .schema =>
    makeSchema (fun operation => given operation.text) (given "types") (given "description")
      (given "ast_node")
  | .source => makeSourceOf (given "body") (arguments.lookup "name")
  | .place => return .place (← fresh) (given "line") (given "column")
  | .location => return .location (← fresh) (given "start") (given "end") (given "source")
  | .error =>
    makeError {
      message := given "message"
      nodes := given "nodes"
      source := given "source"
      positions := given "positions"
      extensions := given "extensions" }
  | .syntaxError => makeSyntaxError (given "source") (given "position") (given "description")
  | .scope => makeScope (given "schema") (given "get_field_def_fn") (given "initial_type")
  | .release =>
    return .release (← fresh) (given "major") (given "minor") (given "micro")
      (given "releaselevel") (given "serial")
  | .visitor => return .visitor (← fresh)

def releaseDatum (id : Nat) (release : Release) : Datum :=
  .release id (.int release.major) (.int release.minor) (.int release.micro)
    (.ofString release.level.text) (.int release.serial)

def constantDatum : Constant → Session Datum
  | .type id => return .type id
  | .metaField name => return ((← get).metaFields.find? name).getD .null
  | .operation type => return .operation type
  | .rule => return .rule
  | .rules => return .tuple FixedId.rules [.rule]
  | .release => return releaseDatum FixedId.release Release.current

/-! Functions and methods -/

def Expected.test : Expected → TypeTest
  | .object => .object
  | .interface => .interface
  | .union => .union
  | .abstract => .abstract

def Expected.text : Expected → String
  | .object => "Object"
  | .interface => "Interface"
  | .union => "Union"
  | .abstract => "abstract"

def expectType (expected : Expected) (value : Datum) : Session Datum := do
  if (← get).test expected.test value then return value
  else
    misuse ("Expected " ++ (← print value) ++ " to be a GraphQL " ++ expected.text ++ " type.")

def expectSchema (value : Datum) : Session Datum := do
  match value with
  | .schema _ => return value
  | _ => misuse ("Expected " ++ (← display value) ++ " to be a GraphQL schema.")

def readRelease (value : Datum) : Session Datum := do
  match value with
  | .text text =>
    match Release.ofText? text with
    | some release => return releaseDatum (← fresh) release
    | none => throw (.fault .badValue (Release.refusal text))
  | _ => meaningless

def printErrorOf : Datum → Session Datum
  | .error _ _ slots _ => return .text (Datum.printedError slots)
  | _ => meaningless

/-- Whether something has a name of the introspection system. -/
def isIntrospective (value : Datum) : Session Datum := do
  let name ← typedAttr value "name"
  return .bool (name.string?.bind Standard.introspection?).isSome

def apply (primitive : Primitive) (arguments : List Datum) : Session Datum := do
  let first := arguments.getD 0 .null
  let second := arguments.getD 1 .null
  let third := arguments.getD 2 .null
  let fourth := arguments.getD 3 .null
  match primitive with
  | .equal => return .bool (first.equal second)
  | .unequal => return .bool !first.equal second
  | .same => return .bool (first.same second)
  | .sameHash => return .bool (first.sameHash second)
  | .print => return .text (← print first)
  | .display => return .text (← display first)
  | .parse => parseDocument first !second.isSome
  | .schemaOfSource => do schemaOfDocument (← parseDocument first !second.isSome)
  | .schemaOfDocument => schemaOfDocument first
  | .typeOf => typeOfNode first second
  | .fieldOf => fieldOf first second third
  | .check => check first second third fourth
  | .visit => do
    visitNode first second
    return .null
  | .orList => orListOf first
  | .quotedOrList => quotedOrListOf first
  | .suggestions => do makeList (← suggestionsOf first (← members second))
  | .editDistance => editDistanceOf first second
  | .formatError => formatError first
  | .printError => printErrorOf first
  | .locate => locateIn first second
  | .undefinedFieldMessage => undefinedFieldMessageOf first second third fourth
  | .suggestedTypes => do makeTexts (← suggestedTypesOf first second third)
  | .suggestedFields => do makeList (← suggestedFieldsOf second third)
  | .checkName => do
    discard (checkNameOf first second.isSome)
    return first
  | .expect expected => expectType expected first
  | .nullableType =>
    match first with
    | .modified _ .nonNull item => return item
    | other => return other
  | .baseType => return first.base
  | .resolve => call first
  | .isSchema => return .bool (first matches .schema _)
  | .expectSchema => expectSchema first
  | .isBuiltInScalar => return .bool (Standard.scalars.any fun id => first.same (.type id))
  | .isIntrospective => isIntrospective first
  | .isMetaField =>
    return .bool (Standard.metaFields.names.any fun name => first.equal (.ofString name))
  | .test test => return .bool ((← get).test test first)
  | .readRelease => readRelease first

def callMethod (receiver : Datum) (method : Method) (arguments : List Datum) : Session Datum := do
  let first := arguments.getD 0 .null
  let second := arguments.getD 1 .null
  match receiver, method with
  | .schema _, .getType => findType receiver first
  | .schema _, .rootType => rootType receiver first
  | .schema _, .implementations => implementationsOf receiver first
  | .schema _, .possibleTypes => do makeList ((← possibleTypesOf receiver first).map .type)
  | .schema _, .isPossibleType =>
    return .bool ((← possibleTypesOf receiver first).any fun id => second.same (.type id))
  | .source .., .locate => locateIn receiver first
  | .visitor _, .visitFunction => return .null
  | .release .., .readRelease => readRelease first
  | .scope _, .enter => do
    enterScope receiver first
    return .null
  | .scope _, .leave => do
    leaveScope receiver first
    return .null
  | .scope _, .enterAs kind => do
    enterScopeAs kind receiver first
    return .null
  | .scope _, .leaveAs kind => do
    leaveScopeAs kind receiver
    return .null
  | .scope _, .getType => return (← scopeRecord receiver).scope.type?.getD .null
  | .scope _, .parentType => return (← scopeRecord receiver).scope.parent?.getD .null
  | .scope _, .fieldDef => return (← scopeRecord receiver).scope.field?.getD .null
  | _, _ => meaningless

/-! Evaluation -/

def lookup (name : String) : Session Datum := do
  match (← get).names.find? name with
  | some value => return value
  | none => throw (.fault .lookup ("Unknown reference: " ++ name))

mutual

def eval : Expr → Session Datum
  | .null => return .null
  | .bool value => return .bool value
  | .int value => return .int value
  | .text value => return .text value
  | .ref name => lookup name
  | .constant constant => constantDatum constant
  | .list items => do makeList (← evalAll items)
  | .tuple items => do makeTuple (← evalAll items)
  | .map entries => do
    makeMap ((← evalEntries entries).foldl (fun map entry => entry.insert map) [])
  | .delay body => return .delayed (← fresh) body
  | .fault kind message => throw (.fault kind message)
  | .error message => fail message
  | .throw error => do
    match ← eval error with
    | .error id syntactic slots description =>
      throw (.error (.error id syntactic slots description))
    | _ => meaningless
  | .make maker arguments => do
    make maker (.ofList (← evalArguments arguments))
  | .apply primitive arguments => do apply primitive (← evalAll arguments)
  | .call receiver method arguments => do
    let receiver ← eval receiver
    callMethod receiver method (← evalAll arguments)
  | .get object path => do path.foldlM follow (← eval object)

def evalAll : List Expr → Session (List Datum)
  | [] => return []
  | expr :: exprs => do
    let value ← eval expr
    return value :: (← evalAll exprs)

def evalEntries : List ExprEntry → Session (List Entry)
  | [] => return []
  | .mk key value :: entries => do
    let key ← eval key
    let value ← eval value
    return .mk key value :: (← evalEntries entries)

def evalArguments : List NamedArgument → Session (List (String × Datum))
  | [] => return []
  | .mk name value :: arguments => do
    let value ← eval value
    return (name, value) :: (← evalArguments arguments)

end

/-- Evaluates an expression; delayed expressions may ask for each other so many times in a row. -/
def run : Nat → Expr → Step Datum
  | 0, _ => throw (.fault .meaningless [])
  | depth + 1, expr => (eval expr).run (run depth)

def callDepth : Nat := 1000

/-- One step of a session: evaluates an expression and stores its value under a name, if it has
one. -/
def Bench.step (bench : Bench) (expr : Expr) (name : Option String) :
    Except Failure Datum × Bench :=
  match (run callDepth expr).run.run bench, name with
  | (.ok value, bench), some name =>
    (.ok value, { bench with names := bench.names.insert name value })
  | (result, bench), _ => (result, bench)

end QueryLint.Workbench
