import QueryLint.Check.UndefinedField
import QueryLint.Workbench.Scopes

/-!
Suggestions, phrases and checks on the workbench.
-/

namespace QueryLint.Workbench

def noItems {α : Type} : Session α := throw (.fault .badValue noItemsMessage)

/-- The first few items as an "or" phrase; a single item stays what it is. -/
def orListOf (value : Datum) : Session Datum := do
  if !value.isSome then noItems
  else if value matches .map .. then meaningless
  else
    match ← members value with
    | [item] => return item
    | items =>
      match orList? (← items.mapM print) with
      | some phrase => return .text phrase
      | none => noItems

def quotedOrListOf (value : Datum) : Session Datum := do
  match quotedOrList? (← (← members value).mapM print) with
  | some phrase => return .text phrase
  | none => noItems

def makeTexts (names : List Text) : Session Datum := makeList (names.map .text)

def undefinedFieldMessageOf (field type types fields : Datum) : Session Datum := do
  let types ← (← optionalMembers types).mapM print
  let fields ← if types.isEmpty then (← optionalMembers fields).mapM print else pure []
  return .text (undefinedFieldMessage (← print field) (← print type) types fields)

/-- How far two values are apart, which must be texts unless they are equal. -/
def editDistanceOf (first second : Datum) : Session Datum :=
  match first, second with
  | .text first, .text second => return .int (editDistance first second)
  | _, _ => if first.equal second then return .int 0 else meaningless

/-- The options near an input. Among anything but texts, only what equals the input is near. -/
def suggestionsOf (input : Datum) (options : List Datum) : Session (List Datum) :=
  match input.text?, options.mapM Datum.text? with
  | some input, some options => return (suggestions input options).map .text
  | _, _ =>
    if input.members?.isSome && options.all fun option =>
        option.members?.isSome && input.equal option
    then return options.take 1 else meaningless

/-- Works out what is looked at where types below an abstract type are suggested for a field: the
fields of each object, and those of its interfaces if it has the field. -/
def resolveBelow (schema : Datum) (id : TypeId) (field : Option String) : Session Unit := do
  (← possibleTypesOf schema (.type id)).forM fun object => do
    discard (resolve object .fields)
    if field.any ((← currentSchema schema).definesField · object) then
      discard (resolve object .interfaces)
      ((← get).type object).namedType.interfaces.forM fun interface =>
        discard (resolve interface .fields)

/-- The types below a type that define a field. Only a string can be the name of one. -/
def suggestedTypesOf (schema type field : Datum) : Session (List Text) := do
  match type with
  | .type id =>
    if (← get).test .abstract type then
      resolveBelow schema id field.string?
      let names := field.string?.map ((← currentSchema schema).suggestedTypes id)
      return (names.getD []).map Text.ofString
    else return []
  | _ => return []

/-- The fields of a type with similar names. -/
def suggestedFieldsOf (type field : Datum) : Session (List Datum) := do
  let bench ← get
  match type, bench.test .object type || bench.test .interface type with
  | .type id, true =>
    let fields ← resolve id .fields
    match field with
    | .text field => return (((← get).type id).namedType.similarFields field).map .text
    | _ => suggestionsOf field (← members fields)
  | _, _ => return []

/-- The error about a field that is not defined on its parent type. -/
def undefinedFieldError (schema parent node : Datum) : Session Datum := do
  let field ← nameOf node
  let types ← suggestedTypesOf schema parent field
  let fields ← if types.isEmpty then suggestedFieldsOf parent field else pure []
  let message := undefinedFieldMessage (← print field) (← print parent) types
    (← fields.mapM print)
  makeError { message := .text message, nodes := node }

/-- Checks a node by so many instances of the rule on undefined fields, and adds what they find. -/
def checkField (schema scope node : Datum) (rules : Nat) : StateT (List Datum) Session Unit := do
  let current := (← scopeRecord scope).scope
  match node, current.parent?, current.field?.any Datum.isSome with
  | .node _ (.exact .field) _, some parent, false =>
    (List.range rules).forM fun _ => do
      let error ← undefinedFieldError schema parent node
      modify (· ++ [error])
  | _, _, _ => return ()

/-- Visits a node of a document during a check. It is checked in the scope below it. -/
def checkVisit (schema scope : Datum) (rules : Nat) :
    Phase → Datum → StateT (List Datum) Session Unit
  | .enter, node => do
    enterScope scope node
    checkField schema scope node rules
  | .leave, node => leaveScope scope node

/-- Checks a document by so many instances of the rule on undefined fields, in a given scope. -/
def checkDocument (schema document scope : Datum) (rules : Nat) : Session Datum := do
  let visit := checkVisit schema scope rules
  let (_, errors) ← (walkNode visit (fun value => refuseNode value) document).run []
  makeList errors

/-- How many rules are given; without any there is one. -/
def ruleCount : Datum → Session Nat
  | .null => return 1
  | rules =>
    match rules.sequence? with
    | some rules => return rules.length
    | none => misuse "Rules must be passed as a list/tuple."

/-- The scope that is given, or a new one. -/
def scopeFor (schema : Datum) : Datum → Session Datum
  | .null => makeScope schema .null .null
  | .scope id => return .scope id
  | other => do misuse ("Not a TypeInfo object: " ++ (← display other) ++ ".")

/-- Checks a document against a schema, by the given rules and in the given scope if there are
any. -/
def check (schema document rules scope : Datum) : Session Datum := do
  unless document.isDocument do misuse "You must provide a document node."
  unless schema matches .schema _ do
    misuse ("Expected " ++ (← display schema) ++ " to be a GraphQL schema.")
  let count ← ruleCount rules
  let scope ← scopeFor schema scope
  checkDocument schema document scope count

end QueryLint.Workbench
