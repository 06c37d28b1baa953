import QueryLint.Document.Reader

/-!
The grammar of documents. Each production stands on its first token and ends on the first token
behind it. Selection sets, list types and list values nest; their readers take the depth they may
still reach, and `budget` is always enough since every level consumes a token.
-/

namespace QueryLint

open Reading

namespace Grammar

variable {m : Type → Type} [Monad m] [Reading m]

def name : m Name := do
  let token ← current
  match token.lexeme with
  | .name text =>
    advance
    return ⟨text, ← spanFrom token⟩
  | found => refuse token (.expectedToken .name found)

def typeName : m TypeName := do
  let start ← current
  let name ← name
  return ⟨name, ← spanFrom start⟩

/-! Values, directives and type references -/

/-- Passes over a value other than what its caller has read. Variables are refused where `const`
asks for a constant. -/
def skipValue (const : Bool) : Nat → m Unit
  | 0 => exhausted
  | depth + 1 => enclosing fun inside => do
    let token ← current
    match token.lexeme with
    | .int _ | .float _ | .string _ | .name _ => advance
    | .punctuator .bracketL =>
      advance
      let _ ← itemsUntil (.punctuator .bracketR) (inside (skipValue const depth)) (← budget)
    | .punctuator .braceL =>
      advance
      let entry : m Unit := do
        let _ ← expect .name
        let _ ← expect (.punctuator .colon)
        inside (skipValue const depth)
      let _ ← itemsUntil (.punctuator .braceR) entry (← budget)
    | .punctuator .dollar =>
      if const then unexpected token
      else
        advance
        let _ ← expect .name
    | _ => unexpected token

/-- The decoded string under the cursor. -/
def stringValue (token : Token) (value : Text) : m StringValue := do
  advance
  return ⟨← slice token.start token.stop, value, ← spanFrom token⟩

/-- A value other than a string, which starts with the token under the cursor. -/
def plainValue (const : Bool) (start : Token) : m Value := do
  skipValue const (← budget)
  return .plain (← slice start.start (← lastEnd)) (← spanFrom start)

def value (const : Bool) : m Value := do
  let start ← current
  match start.lexeme with
  | .string decoded => return .string (← stringValue start decoded)
  | _ => plainValue const start

def argument (const : Bool) : m Argument := do
  let start ← current
  let name ← name
  let _ ← expect (.punctuator .colon)
  let value ← value const
  return ⟨name, value, ← spanFrom start⟩

def arguments (const : Bool) : m (List Argument) :=
  optionalMany (.punctuator .parenL) (argument const) (.punctuator .parenR)

def directive (const : Bool) : m Directive := do
  let start ← expect (.punctuator .at)
  let name ← name
  let arguments ← arguments const
  return ⟨name, arguments, ← spanFrom start⟩

def directivesWithin (const : Bool) : Nat → m (List Directive)
  | 0 => exhausted
  | rounds + 1 => do
    if ← peek (.punctuator .at) then
      let first ← round (directive const)
      return first :: (← directivesWithin const rounds)
    else return []

def directives (const : Bool) : m (List Directive) := do
  directivesWithin const (← budget)

/-- A list of the item type, or a type name. -/
def nullableType (item : m TypeExpr) : m TypeExpr := do
  let start ← current
  if ← skip (.punctuator .bracketL) then
    let item ← item
    let _ ← expect (.punctuator .bracketR)
    return .list item (← spanFrom start)
  else return .named (← typeName)

def typeExprWithin : Nat → m TypeExpr
  | 0 => exhausted
  | depth + 1 => enclosing fun inside => do
    let start ← current
    let type ← nullableType (inside (typeExprWithin depth))
    if ← skip (.punctuator .bang) then return .nonNull type (← spanFrom start)
    else return type

def typeExpr : m TypeExpr := do
  typeExprWithin (← budget)

def defaultValue : m (Option Value) := do
  if ← skip (.punctuator .equals) then return some (← value true)
  else return none

/-! Selections -/

/-- The name of a field, with the alias in front of it. -/
def fieldName : m (Option Name × Name) := do
  let first ← name
  if ← skip (.punctuator .colon) then return (some first, ← name)
  else return (none, first)

def field (selectionSet : m SelectionSet) : m Selection := do
  let start ← current
  let (aliasName, name) ← fieldName
  let arguments ← arguments false
  let directives ← directives false
  let selectionSet ← optionalItem (.punctuator .braceL) selectionSet
  return .field aliasName name arguments directives selectionSet (← spanFrom start)

/-- A fragment's name is any name but `on`. -/
def fragmentName : m Name := do
  let token ← current
  if token.lexeme.value? == some (Text.ofString "on") then unexpected token
  else name

/-- The type behind the keyword of a condition that has been read, if there is one. -/
def typeCondition (conditioned : Bool) : m (Option TypeName) := do
  if conditioned then return some (← typeName)
  else return none

def fragment (selectionSet : m SelectionSet) : m Selection := do
  let start ← expect (.punctuator .spread)
  let conditioned ← skipKeyword "on"
  if !conditioned && (← peek .name) then
    let name ← fragmentName
    let directives ← directives false
    return .spread name directives (← spanFrom start)
  else
    let condition ← typeCondition conditioned
    let directives ← directives false
    let selectionSet ← selectionSet
    return .inline condition directives selectionSet (← spanFrom start)

def selection (selectionSet : m SelectionSet) : m Selection := do
  if ← peek (.punctuator .spread) then fragment selectionSet
  else field selectionSet

def selectionSetWithin : Nat → m SelectionSet
  | 0 => exhausted
  | depth + 1 => enclosing fun inside => do
    let start ← current
    let selections ← many (.punctuator .braceL)
      (selection (inside (selectionSetWithin depth))) (.punctuator .braceR)
    return .mk selections (← spanFrom start)

def selectionSet : m SelectionSet := do
  selectionSetWithin (← budget)

/-! Operations and fragments -/

/-- The token is consumed before it is looked at, so a fault in the text behind it comes first. -/
def operationType : m OperationType := do
  let token ← expect .name
  match token.lexeme with
  | .name text =>
    match OperationType.ofText? text with
    | some operation => return operation
    | none => unexpected token
  | _ => unexpected token

def variableDefinition : m VariableDefinition := do
  let start ← expect (.punctuator .dollar)
  let name ← name
  let _ ← expect (.punctuator .colon)
  let type ← typeExpr
  let defaultValue ← defaultValue
  let directives ← directives true
  return ⟨name, type, defaultValue, directives, ← spanFrom start⟩

/-- An operation that consists of nothing but its selections. -/
def shorthand : m OperationDefinition := do
  let start ← current
  let selectionSet ← selectionSet
  return ⟨.query, none, [], [], selectionSet, ← spanFrom start⟩

def operationDefinition : m OperationDefinition := do
  let start ← current
  let operation ← operationType
  let name ← optionalItem .name name
  let variableDefinitions ←
    optionalMany (.punctuator .parenL) variableDefinition (.punctuator .parenR)
  let directives ← directives false
  let selectionSet ← selectionSet
  return ⟨operation, name, variableDefinitions, directives, selectionSet, ← spanFrom start⟩

def fragmentDefinition : m FragmentDefinition := do
  let start ← current
  expectKeyword "fragment"
  let name ← fragmentName
  expectKeyword "on"
  let condition ← typeName
  let directives ← directives false
  let selectionSet ← selectionSet
  return ⟨name, condition, directives, selectionSet, ← spanFrom start⟩

/-! Type system definitions -/

def description : m (Option StringValue) := do
  let token ← current
  match token.lexeme with
  | .string decoded => return some (← stringValue token decoded)
  | _ => return none

def operationTypeDefinition : m OperationTypeDefinition := do
  let start ← current
  let operation ← operationType
  let _ ← expect (.punctuator .colon)
  let type ← typeName
  return ⟨operation, type, ← spanFrom start⟩

/-- A description in front of a schema definition is read and dropped. -/
def schemaDefinition : m SchemaDefinition := do
  let start ← current
  let _ ← description
  expectKeyword "schema"
  let directives ← directives true
  let operationTypes ←
    many (.punctuator .braceL) operationTypeDefinition (.punctuator .braceR)
  return ⟨directives, operationTypes, ← spanFrom start⟩

def inputValueDefinition : m InputValueDefinition := do
  let start ← current
  let description ← description
  let name ← name
  let _ ← expect (.punctuator .colon)
  let type ← typeExpr
  let defaultValue ← defaultValue
  let directives ← directives true
  return ⟨description, name, type, defaultValue, directives, ← spanFrom start⟩

def fieldDefinition : m FieldDefinition := do
  let start ← current
  let description ← description
  let name ← name
  let arguments ←
    optionalMany (.punctuator .parenL) inputValueDefinition (.punctuator .parenR)
  let _ ← expect (.punctuator .colon)
  let type ← typeExpr
  let directives ← directives true
  return ⟨description, name, arguments, type, directives, ← spanFrom start⟩

def fieldsDefinition : m (List FieldDefinition) :=
  optionalMany (.punctuator .braceL) fieldDefinition (.punctuator .braceR)

def enumValueDefinition : m EnumValueDefinition := do
  let start ← current
  let description ← description
  let name ← name
  let directives ← directives true
  return ⟨description, name, directives, ← spanFrom start⟩

def scalarTypeDefinition : m TypeDefinition := do
  let start ← current
  let description ← description
  expectKeyword "scalar"
  let name ← name
  let directives ← directives true
  return ⟨description, name, directives, .scalar, ← spanFrom start⟩

def implementedInterfaces : m (List TypeName) := do
  if ← skipKeyword "implements" then delimited (.punctuator .amp) typeName
  else return []

def objectTypeDefinition : m TypeDefinition := do
  let start ← current
  let description ← description
  expectKeyword "type"
  let name ← name
  let interfaces ← implementedInterfaces
  let directives ← directives true
  let fields ← fieldsDefinition
  return ⟨description, name, directives, .object interfaces fields, ← spanFrom start⟩

def interfaceTypeDefinition : m TypeDefinition := do
  let start ← current
  let description ← description
  expectKeyword "interface"
  let name ← name
  let directives ← directives true
  let fields ← fieldsDefinition
  return ⟨description, name, directives, .interface fields, ← spanFrom start⟩

def unionMembers : m (List TypeName) := do
  if ← skip (.punctuator .equals) then delimited (.punctuator .pipe) typeName
  else return []

def unionTypeDefinition : m TypeDefinition := do
  let start ← current
  let description ← description
  expectKeyword "union"
  let name ← name
  let directives ← directives true
  let members ← unionMembers
  return ⟨description, name, directives, .union members, ← spanFrom start⟩

def enumTypeDefinition : m TypeDefinition := do
  let start ← current
  let description ← description
  expectKeyword "enum"
  let name ← name
  let directives ← directives true
  let values ←
    optionalMany (.punctuator .braceL) enumValueDefinition (.punctuator .braceR)
  return ⟨description, name, directives, .enum values, ← spanFrom start⟩

/-! Documents -/

/-- The definition of the type system that a keyword starts. -/
def described? : String → Option (m Definition)
  | "schema" => some (.schema <$> schemaDefinition)
  | "scalar" => some (.type <$> scalarTypeDefinition)
  | "type" => some (.type <$> objectTypeDefinition)
  | "interface" => some (.type <$> interfaceTypeDefinition)
  | "union" => some (.type <$> unionTypeDefinition)
  | "enum" => some (.type <$> enumTypeDefinition)
  | _ => none

/-- The executable definition that a keyword starts. -/
def executable? : String → Option (m Definition)
  | "query" | "mutation" | "subscription" => some (.operation <$> operationDefinition)
  | "fragment" => some (.fragment <$> fragmentDefinition)
  | _ => none

/-- A definition is told by its keyword, which only in the type system may have a description in
front of it. -/
def definition : m Definition := do
  let token ← current
  match token.lexeme with
  | .punctuator .braceL => .operation <$> shorthand
  | .string _ =>
    let keyword ← lookahead
    match keyword.lexeme with
    | .name text => (described? text).getD (unexpected keyword)
    | _ => unexpected keyword
  | .name text => (executable? text <|> described? text).getD (unexpected token)
  | _ => unexpected token

def document : m Document := do
  let start ← current
  let definitions ← many .sof definition .eof
  return ⟨definitions, ← spanFrom start⟩

/-- A type reference and nothing else. -/
def loneTypeExpr : m TypeExpr := do
  let _ ← expect .sof
  let type ← typeExpr
  let _ ← expect .eof
  return type

end Grammar

namespace Source

/-- Reads the whole source with a production that starts before its first token. -/
def readWith (source : Source) (located : Bool) (production : Reader α) :
    Except SyntaxError α := do
  let lexed := source.lex
  let (result, _) ← production ⟨source, located, lexed.ending⟩ ⟨.sof, 0, lexed.tokens⟩
  return result

def parse (source : Source) (located : Bool := true) : Except SyntaxError Document :=
  source.readWith located Grammar.document

def parseTypeExpr (source : Source) : Except SyntaxError TypeExpr :=
  source.readWith true Grammar.loneTypeExpr

end Source

end QueryLint
