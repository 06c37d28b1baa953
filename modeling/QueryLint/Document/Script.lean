import QueryLint.Document.Walk

/-!
Visitors given by a table. A script lists the methods of a visitor, such as `enter_field` for one
kind of nodes and `leave` for all others, and what they reply to nodes with a certain label. Its
visitor writes down every call.
-/

namespace QueryLint

inductive Response where
  | reply (value : Reply)
  | fail (message : Text)
  deriving DecidableEq

def Response.result : Response → Except Text Reply
  | .reply value => .ok value
  | .fail message => .error message

/-- What a method does at nodes with the label, or at all nodes if no label is given. -/
structure Reaction where
  method : String
  label : Option (Option Text)
  response : Response
  deriving DecidableEq

structure Script where
  methods : List String
  reactions : List Reaction
  deriving DecidableEq

def Phase.text : Phase → String
  | .enter => "enter"
  | .leave => "leave"

namespace Script

/-- The kind that a method name asks for, if it names a phase and a kind. -/
def kindOf? (method : String) : Option String :=
  let phase := method.toList.takeWhile (· != '_')
  let kind := String.ofList (method.toList.drop (phase.length + 1))
  if (phase = "enter".toList ∨ phase = "leave".toList) ∧ kind ≠ "" then some kind else none

/-- The first kind asked for that no node has. -/
def unknownKind? (script : Script) : Option String :=
  script.methods.findSome? fun method =>
    (kindOf? method).filter fun kind => (NodeKind.ofText? kind).isNone

/-- The complaint about a kind that no node has. -/
def refusal (kind : String) : String := "Invalid AST node kind: " ++ kind ++ "."

/-- The method for nodes of a kind: its own, or else the one for all nodes. -/
def method? (script : Script) (phase : Phase) (kind : NodeKind) : Option String :=
  [phase.text ++ "_" ++ kind.text, phase.text].find? script.methods.contains

/-- The first reaction that fits decides, and a method without one is silent. -/
def respond (script : Script) (method : String) (label : Option Text) : Response :=
  match script.reactions.find? fun reaction =>
      reaction.method == method && (reaction.label.all (· == label)) with
  | some reaction => reaction.response
  | none => .reply .silent

/-- A visitor that follows the script and notes each call by `note`. -/
def visitor {σ : Type} (script : Script) (note : String → Tree → Place → σ → σ) :
    Visitor Text σ where
  visit phase tree place state :=
    match script.method? phase tree.kind with
    | none => (.ok .silent, state)
    | some method =>
      ((script.respond method tree.label?).result, note method tree place state)

end Script

/-- A call of a visitor: which visitor, by which method, and where. -/
structure CallRecord where
  visitor : Nat
  method : String
  tree : Tree
  place : Place

/-- The visitor of a script that logs its calls under a number. -/
def Script.recorder (script : Script) (number : Nat) : Visitor Text (List CallRecord) :=
  script.visitor fun method tree place log => log ++ [⟨number, method, tree, place⟩]

end QueryLint
