import QueryLint.Workbench.Datum

/-!
When values are equal, and which of them a map takes for the same key: values that are equal and
have the same hash.
-/

namespace QueryLint.Workbench

/-- What the hash of a value is made from. -/
inductive HashAtom where
  | single (identity : Identity)
  /-- So many parts follow. -/
  | tuple (length : Nat)
  deriving DecidableEq

namespace Datum

mutual

/-- What the hash of a value is made from, part by part: a node hashes like the tuple of its kind
and attributes, locations hash like pairs, and an operation or action hashes like its name. An error
hashes as itself, so that errors may be equal without having the same hash. -/
def hashForm : Datum → List HashAtom
  | .bool value => [.single (.int (if value then 1 else 0))]
  | .operation chosen => [.single (.text (operationName chosen))]
  | .action chosen => [.single (.text (actionName chosen))]
  | .tuple _ items => .tuple items.length :: hashForms items
  | .location _ start stop _ => .tuple 2 :: (start.hashForm ++ stop.hashForm)
  | .place _ line column => .tuple 2 :: (line.hashForm ++ column.hashForm)
  | .release _ major minor micro level serial =>
    .tuple 5 :: (major.hashForm ++ minor.hashForm ++ micro.hashForm ++ level.hashForm ++
      serial.hashForm)
  | .node _ cls attributes =>
    .tuple (attributes.length + 1) :: .single (.text cls.text) :: hashForms attributes
  | value => [.single value.identity]

def hashForms : List Datum → List HashAtom
  | [] => []
  | item :: items => item.hashForm ++ hashForms items

end

def sameHash (value other : Datum) : Bool := value.hashForm = other.hashForm

/-- What a tuple or location is compared by; a location is like a pair of offsets. -/
def comparedParts? : Datum → Option (List Datum)
  | .location _ start stop _ => some [start, stop]
  | value => value.parts?

mutual

/-- Whether two values are equal. A source equals its text; a location equals a pair of offsets, and
a line with a column equals such a pair and the map of both; an error equals a map with its message
and anything else it holds. Types, schemas and the like only equal themselves. -/
def equal : Datum → Datum → Bool
  | .bool value, other => other.int? == some (if value then 1 else 0)
  | .int value, other => other.int? == some value
  | .text value, other =>
    match other with
    | .text second => value == second
    | .source _ origin => value == origin.body
    | _ => false
  | .source _ origin, other =>
    match other with
    | .text value => origin.body == value
    | .source _ second => origin.body == second.body
    | _ => false
  | .list _ items, other =>
    match other with
    | .list _ others => equalAll items others
    | .location _ start stop _ => equalAll items [start, stop]
    | _ => false
  | .tuple _ items, other => other.comparedParts?.any (equalAll items)
  | .location _ start stop _, other =>
    match other with
    | .list _ [first, second] => start.equal first && stop.equal second
    | other =>
      match other.comparedParts? with
      | some [first, second] => start.equal first && stop.equal second
      | _ => false
  | .place _ line column, other =>
    match other with
    | .map _ entries =>
      entries.length == 2 && (valueNamed? entries "line").any line.equal &&
        (valueNamed? entries "column").any column.equal
    | other =>
      match other.comparedParts? with
      | some [first, second] => line.equal first && column.equal second
      | _ => false
  | .release _ major minor micro level serial, other =>
    match other.comparedParts? with
    | some [first, second, third, fourth, fifth] =>
      major.equal first && minor.equal second && micro.equal third && level.equal fourth &&
        serial.equal fifth
    | _ => false
  | .implementations _ objects, other =>
    match other.comparedParts? with
    | some [others] => objects.equal others
    | _ => false
  | .map _ entries, other =>
    match other with
    | .map _ others => entries.length == others.length && equalEntries entries others
    | .place _ line column =>
      entries.length == 2 &&
        equalEntries entries [.named "line" line, .named "column" column]
    | .error _ _ slots _ =>
      entries.any (·.hasName "message") &&
        equalEntries entries (List.zipWith Entry.named errorKeys slots)
    | _ => false
  | .error _ syntactic slots _, other =>
    match other with
    | .error _ second others _ => syntactic == second && equalAll slots others
    | .map _ entries =>
      entries.any (·.hasName "message") &&
        entries.all (fun entry => errorKeys.any entry.hasName) &&
        equalSlots errorKeys slots entries
    | _ => false
  | .argument id valueType description _, other =>
    match other with
    | .argument second otherType otherDescription _ =>
      id == second || valueType.equal otherType && description.equal otherDescription
    | _ => false
  | .field id valueType arguments description deprecation _, other =>
    match other with
    | .field second otherType otherArguments otherDescription otherDeprecation _ =>
      id == second || valueType.equal otherType && arguments.equal otherArguments &&
        description.equal otherDescription && deprecation.equal otherDeprecation
    | _ => false
  | .node _ cls attributes, other =>
    match other with
    | .node _ second others => cls == second && equalAll attributes others
    | _ => false
  | value, other => value.same other

def equalAll : List Datum → List Datum → Bool
  | [], [] => true
  | first :: items, second :: others => first.equal second && equalAll items others
  | _, _ => false

/-- Whether each entry has its equal among others, under what counts as the same key. -/
def equalEntries : List Entry → List Entry → Bool
  | [], _ => true
  | .mk key value :: entries, others =>
    (others.any fun other => key.sameHash other.key && key.equal other.key &&
      value.equal other.value) && equalEntries entries others

/-- Whether the entries of a map agree with what stands under these names. -/
def equalSlots : List String → List Datum → List Entry → Bool
  | name :: names, slot :: slots, entries =>
    (valueNamed? entries name).all slot.equal && equalSlots names slots entries
  | _, _, _ => true

end

/-- Whether a map takes two values for the same key. -/
def sameKey (value other : Datum) : Bool := value.sameHash other && value.equal other

end Datum

namespace Entry

/-- The value under a key. -/
def find? (entries : List Entry) (key : Datum) : Option Datum :=
  (entries.find? (·.key.sameKey key)).map value

/-- Adds an entry to a map, in the place of one with the same key. -/
def insert (entry : Entry) : List Entry → List Entry
  | [] => [entry]
  | old :: entries =>
    if old.key.sameKey entry.key then .mk old.key entry.value :: entries
    else old :: insert entry entries

end Entry

end QueryLint.Workbench
