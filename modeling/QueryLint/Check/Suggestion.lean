import QueryLint.Check.EditDistance

/-!
Suggestions for a name that may be misspelt, and phrases that list them. An option is suggested if
its distance is at most half the length of the longer of both texts, or one; near options come
first, and equally near ones in the order of their code points.
-/

namespace QueryLint

/-- The order of options with their distances. -/
def scoredBefore (first second : Nat × Text) : Bool :=
  first.1 < second.1 || (first.1 == second.1 && first.2 < second.2)

/-- Puts a scored option in its place unless it is there already. -/
def insertScored (entry : Nat × Text) : List (Nat × Text) → List (Nat × Text)
  | [] => [entry]
  | head :: tail =>
    if scoredBefore entry head then entry :: head :: tail
    else if entry = head then head :: tail
    else head :: insertScored entry tail

def isNear (input option : Text) : Bool :=
  editDistance input option ≤ max (max (input.length / 2) (option.length / 2)) 1

def suggestions (input : Text) (options : List Text) : List Text :=
  let scored := (options.filter (isNear input)).map fun option =>
    (editDistance input option, option)
  (scored.foldr insertScored []).map (·.2)

/-- At most this many items are listed. -/
def listLimit : Nat := 5

/-- The items in a row, with an "or" before the last one: `A`, `A or B`, `A, B, or C`. -/
def orPhrase : List Text → Text
  | [] => []
  | [item] => item
  | [first, second] => first ++ " or " ++ second
  | items => List.intercalate (", " : String) items.dropLast ++ ", or " ++ items.getLastD []

/-- The first few items as an "or" phrase, if there are any. -/
def orList? (items : List Text) : Option Text :=
  if items.isEmpty then none else some (orPhrase (items.take listLimit))

def inDoubleQuotes (item : Text) : Text := "\"" ++ item ++ "\""

def quotedOrList? (items : List Text) : Option Text := orList? (items.map inDoubleQuotes)

def noItemsMessage : String := "Missing list items to be formatted."

end QueryLint
