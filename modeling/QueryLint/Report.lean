import QueryLint.Source
import QueryLint.Text.Quoted

/-!
Reports of problems in a document. A report names the offsets it is about, and with a source each
of them has a line and a column, which are printed below the message.
-/

namespace QueryLint

structure Report where
  message : Text
  source : Option Source := none
  positions : List Int := []
  deriving DecidableEq

namespace Report

/-- The lines and columns of the positions, if there is a source and any position. -/
def locations (report : Report) : Option (List LineColumn) :=
  match report.source, report.positions with
  | some source, position :: positions => some ((position :: positions).map source.locate)
  | _, _ => none

/-- A place as printed below a message. -/
def printPlace (source : Source) (place : LineColumn) : Text :=
  source.name ++ Text.ofString (":" ++ toString place.line ++ ":" ++ toString place.column)

/-- The message, followed by one paragraph per location. -/
def print (report : Report) : Text :=
  match report.source, report.locations with
  | some source, some places =>
    report.message ++
      places.flatMap fun place => Text.ofString "\n\n" ++ printPlace source place
  | _, _ => report.message

/-- A report on nodes with the given spans: unless given, the source is that of the first span and
the positions are the starts of all of them. -/
def about (message : Text) (spans : List Location) (source : Option Source)
    (positions : List Int) : Report where
  message
  source := source <|> spans.head?.map (·.source)
  positions := if positions.isEmpty then spans.map fun span => (span.start : Int) else positions

def displayPlace (place : LineColumn) : String :=
  "SourceLocation(line=" ++ toString place.line ++ ", column=" ++ toString place.column ++ ")"

/-- The report as a call that makes it, under the name of its kind and with further entries. -/
def display (report : Report) (kind : String) (entries : List String) : String :=
  let places := match report.locations with
    | some places => ["locations=[" ++ String.intercalate ", " (places.map displayPlace) ++ "]"]
    | none => []
  kind ++ "(" ++
    String.intercalate ", " ([report.message.quoted] ++ places ++ entries) ++ ")"

/-- What a report without a message is formatted with. -/
def unknownMessage : Text := "An unknown error occurred."

/-- The message that a report is formatted with. -/
def formattedMessage (report : Report) : Text :=
  if report.message.isEmpty then unknownMessage else report.message

end Report

end QueryLint
