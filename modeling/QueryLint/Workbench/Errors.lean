import QueryLint.Workbench.Rendering

/-!
Errors about documents as values. Nodes, or else a source with positions, give the lines and columns
of an error.
-/

namespace QueryLint.Workbench

/-- The line and column of a position in a source, of its end if the position is null. -/
def locateIn (source position : Datum) : Session Datum := do
  match source with
  | .source _ source =>
    let offset ← match position, position.int? with
      | .null, _ => pure source.body.length
      | _, some position => pure (source.offsetOf position)
      | _, none => meaningless
    let place := source.lineColumn offset
    return .place (← fresh) (.int place.line) (.int place.column)
  | _ => meaningless

/-- A list of the items, or nothing if there are none. -/
def makeNonEmptyList : List Datum → Session Datum
  | [] => return .null
  | items => makeList items

/-- What an error is made from. -/
structure ErrorParts where
  message : Datum
  nodes : Datum := .null
  source : Datum := .null
  positions : Datum := .null
  extensions : Datum := .null

/-- The entry that a pair stands for. -/
def entryOf (pair : Datum) : Session Entry := do
  match ← members pair with
  | [key, value] => return .mk key value
  | _ => meaningless

/-- The entries of a map, or those that a sequence of pairs stands for. -/
def entriesOf : Datum → Session (List Entry)
  | .map _ entries => return entries
  | value => do
    let entries ← (← optionalMembers value).mapM entryOf
    return entries.foldl (fun map entry => entry.insert map) []

/-- The source of an error: unless given, that of the first location. -/
def errorSource (given : Datum) (spans : List Datum) : Session Datum :=
  match given, spans with
  | .null, span :: _ => attr span "source"
  | source, _ => return source

/-- The positions of an error: unless given, the starts of the locations. -/
def errorPositions (given : Datum) (spans : List Datum) : Session (List Datum) :=
  if given.isSome then members given else spans.mapM (attr · "start")

/-- The lines and columns of an error, if it has a source. -/
def errorPlaces (source : Datum) (positions : List Datum) : Session (List Datum) :=
  if source.isSome then positions.mapM (locateIn source) else return []

/-- An error. Unless given, its source is that of the first node with a location, and its positions
are the starts of all such nodes. -/
def makeError (parts : ErrorParts) (description : Option Datum := none) : Session Datum := do
  let nodes := if parts.nodes.isNull then [] else parts.nodes.sequence?.getD [parts.nodes]
  let spans := (← nodes.mapM (attr · "loc")).filter (·.isSome)
  let source ← errorSource parts.source spans
  let positions ← errorPositions parts.positions spans
  let places ← errorPlaces source positions
  let slots := [parts.message, ← makeNonEmptyList nodes, source, ← makeNonEmptyList positions,
    ← makeNonEmptyList places, ← makeMap (← entriesOf parts.extensions)]
  return .error (← freshBlock 2) description.isSome slots (description.getD .null)

/-- An error of the grammar at a position in a source. -/
def makeSyntaxError (source position description : Datum) : Session Datum := do
  let message := Text.ofString "Syntax Error: " ++ (← print description)
  let positions ← makeList [position]
  makeError { message := .text message, source, positions } (some description)

/-- Fails with an error that has just a message. -/
def fail {α : Type} (message : Text) : Session α := do
  throw (.error (← makeError { message := .text message }))

/-- A line and a column as a map with the identity. -/
def Datum.placeMap (id : Nat) : Datum → Datum
  | .place _ line column => .map id [.named "line" line, .named "column" column]
  | other => other

/-- An error as a map that can be written down. The map, the list of its locations and each of them
get an identity of their own, from the given one on. -/
def Datum.formatted (id : Nat) : List Datum → Datum
  | [message, _, _, _, locations, extensions] =>
    let placeMaps : Datum := match locations with
      | .list _ places =>
        .list (id + 1) (places.mapIdx fun index place => place.placeMap (id + 2 + index))
      | _ => .null
    .map id ([.named "message" (if message.isSome then message else .text Report.unknownMessage),
        .named "locations" placeMaps] ++
      if extensions.isSome then [.named "extensions" extensions] else [])
  | _ => .null

/-- Formats an error that holds this. -/
def formatSlots (slots : List Datum) : Session Datum := do
  let places := ((slots.getD 4 .null).sequence?.getD []).length
  return .formatted (← freshBlock (places + 2)) slots

def formatError : Datum → Session Datum
  | .error _ _ slots _ => formatSlots slots
  | _ => misuse "Expected a GraphQLError."

end QueryLint.Workbench
