import QueryLint.Report
import QueryLint.Workbench.Bench

/-!
Values as text. A value is displayed as what it is, with texts in quotes, or printed for reading:
a text as itself, a type as it is written in documents, an error with its places.
-/

namespace QueryLint.Workbench

inductive Style where
  | display | print
  deriving DecidableEq

/-- Texts with a separator between them. -/
def separated (separator : String) (texts : List Text) : Text :=
  List.intercalate (Text.ofString separator) texts

/-- The places of an error as they are printed below its message. -/
def Datum.printedPlaces (origin locations : Datum) : List Text :=
  match origin, locations with
  | .source _ written, .list _ places =>
    places.filterMap fun
      | .place _ (.int line) (.int column) =>
        some (written.name ++ Text.ofString (":" ++ toString line ++ ":" ++ toString column))
      | _ => none
  | _, _ => []

/-- The message of an error with its places in paragraphs below. -/
def Datum.printedError : List Datum → Text
  | .text message :: _ :: origin :: _ :: locations :: _ =>
    separated "\n\n" (message :: origin.printedPlaces locations)
  | _ => []

def Modifier.display : Modifier → String
  | .wrapper => "GraphQLWrappingType"
  | .list => "GraphQLList"
  | .nonNull => "GraphQLNonNull"

def Datum.errorKind (syntactic : Bool) : String :=
  if syntactic then "GraphQLSyntaxError" else "GraphQLError"

namespace Bench

def typeDisplay (record : TypeRecord) : String :=
  match record.family with
  | .nameless => "<GraphQLType>"
  | _ => record.namedType.display

mutual

def render (bench : Bench) (style : Style) : Datum → Text
  | .null => "None"
  | .bool true => "True"
  | .bool false => "False"
  | .int value => toString value
  | .text value =>
    match style with
    | .display => value.quoted
    | .print => value
  | .list _ items => "[" ++ separated ", " (bench.displayAll items) ++ "]"
  | .tuple _ [item] => "(" ++ bench.render .display item ++ ",)"
  | .tuple _ items => "(" ++ separated ", " (bench.displayAll items) ++ ")"
  | .map _ entries => "\x7b" ++ separated ", " (bench.displayEntries entries) ++ "\x7d"
  | .delayed _ _ => "<function>"
  | .operation type =>
    match style with
    | .display =>
      "<OperationType." ++ operationName type ++ ": " ++ quoted type.text ++ ">"
    | .print => "OperationType." ++ operationName type
  | .action chosen =>
    match style with
    | .display =>
      "<VisitorActionEnum." ++ actionName chosen ++ ": " ++
        (if actionFlag chosen then "True" else "False") ++ ">"
    | .print => "VisitorActionEnum." ++ actionName chosen
  | .rule => bench.ruleDisplay
  | .visitor _ => "<Visitor>"
  | .scope _ => "<TypeInfo>"
  | .schema id => ((bench.schemas[id]?.map (·.schema.display)).getD "" : String)
  | .type id =>
    match style with
    | .display => typeDisplay (bench.type id)
    | .print => (bench.type id).name
  | .modified _ modifier item =>
    match style, modifier with
    | .print, .list => "[" ++ bench.render .print item ++ "]"
    | .print, .nonNull => bench.render .print item ++ "!"
    | _, _ => "<" ++ modifier.display ++ " " ++ bench.render .display item ++ ">"
  | .argument .. => "<GraphQLArgument>"
  | .field _ type _ _ _ _ =>
    match style with
    | .display => "<GraphQLField " ++ bench.render .display type ++ ">"
    | .print => "Field: " ++ bench.render .print type
  | .node _ cls (.location _ start stop _ :: _) =>
    "<" ++ cls.display ++ " " ++ bench.render .print start ++ ":" ++ bench.render .print stop ++ ">"
  | .node _ cls _ => "<" ++ cls.display ++ ">"
  | .source _ source => "<Source name=" ++ source.name.quoted ++ ">"
  | .location _ start stop _ =>
    "<Location " ++ bench.render .print start ++ ":" ++ bench.render .print stop ++ ">"
  | .place _ line column =>
    "SourceLocation(line=" ++ bench.render .display line ++ ", column=" ++
      bench.render .display column ++ ")"
  | .release _ major minor micro level serial =>
    match style with
    | .display =>
      "VersionInfo(major=" ++ bench.render .display major ++ ", minor=" ++
        bench.render .display minor ++ ", micro=" ++ bench.render .display micro ++
        ", releaselevel=" ++ bench.render .display level ++ ", serial=" ++
        bench.render .display serial ++ ")"
    | .print =>
      let base := bench.render .print major ++ "." ++ bench.render .print minor ++ "." ++
        bench.render .print micro
      if level.equal (.text (Text.ofString "final")) then base
      else base ++ bench.printStart level ++ bench.render .print serial
  | .implementations _ objects =>
    "InterfaceImplementations(objects=" ++ bench.render .display objects ++ ")"
  | .error _ syntactic slots _ =>
    match style with
    | .print => Datum.printedError slots
    | .display =>
      Datum.errorKind syntactic ++ "(" ++ separated ", " (bench.errorArguments slots) ++ ")"

/-- The first letter of a text, or a sequence cut behind its first item. -/
def printStart (bench : Bench) : Datum → Text
  | .text value => value.take 1
  | .list _ (item :: _) => "[" ++ bench.render .display item ++ "]"
  | .list _ [] => "[]"
  | .tuple _ (item :: _) | .place _ item _ | .release _ item _ _ _ _ | .implementations _ item =>
    "(" ++ bench.render .display item ++ ",)"
  | .tuple _ [] => "()"
  | _ => []

def displayAll (bench : Bench) : List Datum → List Text
  | [] => []
  | item :: items => bench.render .display item :: bench.displayAll items

def displayEntries (bench : Bench) : List Entry → List Text
  | [] => []
  | .mk key value :: entries =>
    (bench.render .display key ++ ": " ++ bench.render .display value) ::
      bench.displayEntries entries

/-- What an error is made with, as far as it is shown. -/
def errorArguments (bench : Bench) : List Datum → List Text
  | [message, _, _, _, locations, extensions] =>
    let locationArgument := "locations=" ++ bench.render .display locations
    let extensionArgument := "extensions=" ++ bench.render .display extensions
    [bench.render .display message] ++
      (if locations.isSome then [locationArgument] else []) ++
      (if extensions.isSome then [extensionArgument] else [])
  | _ => []

end

def display (bench : Bench) (value : Datum) : Text := bench.render .display value

def print (bench : Bench) (value : Datum) : Text := bench.render .print value

end Bench

def display (value : Datum) : Session Text := return (← get).display value

def print (value : Datum) : Session Text := return (← get).print value

end QueryLint.Workbench
