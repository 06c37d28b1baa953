import QueryLint.Text.LowerCase

/-!
How far two texts are apart: the number of insertions, deletions, replacements and swaps of
neighbours that lead from one to the other. A difference in case alone counts as one edit.
-/

namespace QueryLint

namespace EditDistance

variable {α : Type} [DecidableEq α]

/-- The cells of the next row of the distance matrix from some column on. `previous` is the row
above from the column before on, `left` the cell before, and `back` the row above that from two
columns before on. The last items of both sequences tell whether a swap is possible. -/
def cells (item : α) (lastItem : Option α) :
    Option α → List Nat → List Nat → Nat → List α → List Nat
  | lastOther, back, diagonal :: above :: previous, left, other :: others =>
    let cost := min (diagonal + if item = other then 0 else 1) (min (above + 1) (left + 1))
    let cost :=
      match lastItem, lastOther, back with
      | some before, some otherBefore, swapped :: _ =>
        if item = otherBefore ∧ before = other then min cost (swapped + 1) else cost
      | _, _, _ => cost
    cost :: cells item lastItem (some other) (if lastOther.isSome then back.tail else back)
      (above :: previous) cost others
  | _, _, _, _, _ => []

/-- Goes through the rows of the distance matrix, from the one numbered `row` on. -/
def rows (others : List α) : Option α → List Nat → List Nat → Nat → List α → List Nat
  | _, _, previous, _, [] => previous
  | lastItem, back, previous, row, item :: items =>
    let current := row :: cells item lastItem none back previous row others
    rows others (some item) previous current (row + 1) items

/-- The number of edits between two sequences. -/
def between (items others : List α) : Nat :=
  (rows others none [] (List.range (others.length + 1)) 1 items).getLastD 0

end EditDistance

def editDistance (text other : Text) : Nat :=
  if text = other then 0
  else if text.lowerCase = other.lowerCase then 1
  else EditDistance.between text.lowerCase other.lowerCase

end QueryLint
