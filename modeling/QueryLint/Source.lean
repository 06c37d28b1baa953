import QueryLint.Text.Basic

/-!
Source texts and places in them. An offset counts code points; a line ends at a line feed, a
carriage return, or a carriage return followed by a line feed.
-/

namespace QueryLint

structure Source where
  body : Text
  name : Text := Text.ofString "GraphQL request"
  deriving DecidableEq

/-- The span of source text that a node was read from, the end excluded. -/
structure Location where
  start : Nat
  stop : Nat
  source : Source
  deriving DecidableEq

/-- A line and a column, both counted from one. -/
structure LineColumn where
  line : Nat
  column : Nat
  deriving DecidableEq

namespace LineColumn

def start : LineColumn := ⟨1, 1⟩

def nextLine (place : LineColumn) : LineColumn := ⟨place.line + 1, 1⟩

def nextColumn (place : LineColumn) : LineColumn := ⟨place.line, place.column + 1⟩

/-- Where reading the text leads to. -/
def advance (place : LineColumn) : Text → LineColumn
  | [] => place
  | .scalar '\r' :: .scalar '\n' :: rest => place.nextLine.advance rest
  | point :: rest =>
    if point = '\n' ∨ point = '\r' then place.nextLine.advance rest
    else place.nextColumn.advance rest

end LineColumn

namespace Source

/-- The line and column of an offset; an offset behind the end counts as the end. -/
def lineColumn (source : Source) (offset : Nat) : LineColumn :=
  LineColumn.start.advance (source.body.take offset)

/-- The offset meant by a position: a negative one counts back from the end, down to the start. -/
def offsetOf (source : Source) (position : Int) : Nat :=
  if position < 0 then (source.body.length + position).toNat else position.toNat

def locate (source : Source) (position : Int) : LineColumn :=
  source.lineColumn (source.offsetOf position)

/-- The text between two offsets. -/
def slice (source : Source) (start stop : Nat) : Text :=
  (source.body.drop start).take (stop - start)

end Source

end QueryLint
