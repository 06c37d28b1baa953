import QueryLint.Document.Parser
import QueryLint.Document.Walk
import QueryLint.Workbench.Errors

/-!
Documents as values: nodes made by hand, nodes read from a source, and walks through nodes. A node
made by hand may hold anything; a walk complains where it finds something else than nodes.
-/

namespace QueryLint.Workbench

/-- A node with the given attributes. Lists become tuples, and attributes not given are null. -/
def makeNode (cls : NodeClass) (given : List (String × Datum)) : Session Datum := do
  let attributes ← cls.keys.mapM fun key =>
    match given.lookup key with
    | some (.list _ items) => makeTuple items
    | some value => pure value
    | none => pure .null
  let unknown := (given.map (·.1)).filter fun name => !cls.keys.contains name
  unless unknown.isEmpty do
    misuse (cls.display ++ " has no attributes " ++ String.intercalate ", " unknown ++ ".")
  return .node (← fresh) cls attributes

/-- What a node that was read holds besides its location and branches. -/
def contentAttributes : Content → List (String × Datum)
  | .none => []
  | .name value => [("value", .text value)]
  | .value text => [("text", .text text)]
  | .string text value => [("text", .text text), ("value", .text value)]
  | .operation type => [("operation", .operation type)]

def makeLocation (source : Datum) : Option Location → Session Datum
  | none => return .null
  | some span => return .location (← fresh) (.int span.start) (.int span.stop) source

mutual

/-- The node of a tree that was read from a source. -/
def makeTree (source : Datum) : Tree → Session Datum
  | .node data branches => do
    let loc ← makeLocation source data.loc
    let branches ← makeBranches source branches
    makeNode (.exact data.kind) (("loc", loc) :: contentAttributes data.content ++ branches)

def makeBranches (source : Datum) : List Branch → Session (List (String × Datum))
  | [] => return []
  | .absent _ :: branches => makeBranches source branches
  | .single name tree :: branches => do
    let child ← makeTree source tree
    return (name, child) :: (← makeBranches source branches)
  | .sequence name trees :: branches => do
    let children ← makeTuple (← makeTrees source trees)
    return (name, children) :: (← makeBranches source branches)

def makeTrees (source : Datum) : List Tree → Session (List Datum)
  | [] => return []
  | tree :: trees => do
    let first ← makeTree source tree
    return first :: (← makeTrees source trees)

end

/-- The source that a value is or makes. -/
def makeSource (value : Datum) : Session (Datum × Source) := do
  match value with
  | .source _ source => return (value, source)
  | .text body =>
    let source : Source := { body := body }
    return (.source (← fresh) source, source)
  | _ => misuse ("Must provide Source. Received: " ++ (← display value))

/-- Reads a document, with or without the locations of its nodes. -/
def parseDocument (value : Datum) (located : Bool) : Session Datum := do
  let (origin, source) ← makeSource value
  match source.parse located with
  | .ok document => makeTree origin document.tree
  | .error error =>
    throw (.error (← makeSyntaxError origin (.int error.position) (.text error.description)))

section Walk

variable {m : Type → Type} [Monad m]

mutual

/-- Walks a node and what is below it, with a visitor that lets every walk go on. What is no node
is refused. -/
def walkNode (visit : Phase → Datum → m Unit) (refuse : Datum → m Unit) : Datum → m Unit
  | .node id cls attributes => do
    let walks := cls.keys.zip (walksOf visit refuse attributes)
    visit .enter (.node id cls attributes)
    cls.children.forM fun child => (walks.lookup child).getD (pure ())
    visit .leave (.node id cls attributes)
  | other => refuse other

/-- The walk of what an attribute holds: the items of a tuple, which may have names, or a node. -/
def walkHeld (visit : Phase → Datum → m Unit) (refuse : Datum → m Unit) : Datum → m Unit
  | .null => pure ()
  | .tuple _ items => walkItems visit refuse items
  | .place _ line column => do
    walkNode visit refuse line
    walkNode visit refuse column
  | .release _ major minor micro level serial => do
    walkNode visit refuse major
    walkNode visit refuse minor
    walkNode visit refuse micro
    walkNode visit refuse level
    walkNode visit refuse serial
  | .implementations _ objects => walkNode visit refuse objects
  | .node id cls attributes => walkNode visit refuse (.node id cls attributes)
  | other => refuse other

/-- For each attribute the walk of what it holds. -/
def walksOf (visit : Phase → Datum → m Unit) (refuse : Datum → m Unit) : List Datum → List (m Unit)
  | [] => []
  | value :: values => walkHeld visit refuse value :: walksOf visit refuse values

def walkItems (visit : Phase → Datum → m Unit) (refuse : Datum → m Unit) : List Datum → m Unit
  | [] => pure ()
  | item :: items => do
    walkNode visit refuse item
    walkItems visit refuse items

end

end Walk

def refuseNode (value : Datum) : Session Unit := do
  misuse ("Invalid AST Node: " ++ (← display value) ++ ".")

/-- Walks a node for a visitor that has nothing to say. -/
def visitNode (root visitor : Datum) : Session Unit := do
  unless root matches .node .. do misuse ("Not an AST Node: " ++ (← display root) ++ ".")
  unless visitor matches .visitor _ do
    misuse ("Not an AST Visitor: " ++ (← display visitor) ++ ".")
  walkNode (fun _ _ => pure ()) refuseNode root

end QueryLint.Workbench
