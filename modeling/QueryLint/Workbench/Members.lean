import QueryLint.Workbench.Definitions

/-!
Parts of types: fields, interfaces, members of a union. They are worked out when they are first
asked for, checked, and kept from then on.
-/

namespace QueryLint.Workbench

/-- What is said when a part of a type cannot be worked out. -/
def partComplaint (owner : String) (part : Part) (cause : Text) : Text :=
  owner ++ " " ++ part.text ++ " cannot be resolved. " ++ cause

/-- Works out a part of a type. A failure is told as one of that part, and stays an error about a
document if it is one. -/
def tellingPart (owner : String) (part : Part) (step : Session Datum) : Session Datum :=
  tryCatch step fun
    | .error error => do fail (partComplaint owner part (← print error))
    | .fault _ message => misuse (partComplaint owner part message)

/-- Checks what a part of a type was given as. -/
def checkPart (owner : String) (part : Part) (value : Datum) : Session Datum :=
  match part with
  | .fields => makeFieldMap owner value
  | .interfaces => makeTypeTuple .interface (owner ++ " interfaces must be Interface types.") value
  | .types => makeTypeTuple .object (owner ++ " types must be Object types.") value

/-- Works out a part of a type by a step, and checks it. -/
def workOut (owner : String) (part : Part) (step : Session Datum) : Session Datum := do
  checkPart owner part (← tellingPart owner part step)

/-- Keeps a part of a type as it was worked out. -/
def Bench.keep (bench : Bench) (id : TypeId) (part : Part) (value : Datum) : Bench :=
  let record := bench.type id
  bench.setType id { record with
    member := fun other => if other = part then .known value else record.member other }

/-- Works out a part of a type by a step, and keeps it. -/
def settle (id : TypeId) (part : Part) (step : Session Datum) : Session Datum := do
  let owner := ((← get).type id).name
  let value ← workOut owner part step
  modify fun bench => bench.keep id part value
  return value

/-- A part of a type. It is worked out when it is first asked for. -/
def resolve (id : TypeId) (part : Part) : Session Datum := do
  let record := (← get).type id
  match record.member part with
  | .known value => return value
  | .absent => meaningless
  | .pending given => settle id part (call given)
  | .defined names => settle id part (partDefined names record.definition part)

/-- An attribute that a value has to have, also if it is one of a type. -/
def typedAttr (value : Datum) (name : String) : Session Datum := do
  match value with
  | .type id =>
    let record := (← get).type id
    match name with
    | "name" => return .ofString record.name
    | "description" => return record.description
    | "ast_node" => return record.definition
    | "reserved_name" => return .bool record.introspective
    | "values" => return record.values
    | "fields" => resolve id .fields
    | "interfaces" => resolve id .interfaces
    | "types" => resolve id .types
    | _ => meaningless
  | _ => attr value name

end QueryLint.Workbench
