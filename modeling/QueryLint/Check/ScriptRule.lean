import QueryLint.Check.Rule
import QueryLint.Document.Script

/-!
Rules given by a table: the methods and replies of a script, with the types at each call noted, and
a report at each call if asked for.
-/

namespace QueryLint

/-- The types at a place of a walk, as they are written. -/
structure ScopeText where
  type : Option String
  parent : Option String
  field : Option String
  deriving DecidableEq

def Schema.scopeText (schema : Schema) (scope : TypeScope) : ScopeText where
  type := scope.type?.map schema.table.print
  parent := scope.parent?.map schema.table.print
  field := scope.field?.map schema.table.printField

/-- A call of a method with the types at its node. -/
structure ScopedCall where
  method : String
  tree : Tree
  scope : ScopeText

/-- The visitor of a script that logs its calls with the types of a schema. -/
def Script.scopedRecorder (script : Script) (schema : Schema) (scope : TypeScope) :
    Visitor Text (List ScopedCall) :=
  script.visitor fun method tree _ log => log ++ [⟨method, tree, schema.scopeText scope⟩]

structure RuleScript where
  script : Script
  report : Bool

/-- The message that a scripted rule reports. -/
def RuleScript.message (method : String) (tree : Tree) : Text :=
  Text.ofString (method ++ ": ") ++ tree.label?.getD (Text.ofString "None")

def RuleScript.rule (rule : RuleScript) (schema : Schema) : Rule Text (List ScopedCall) where
  visit scope phase tree place log :=
    let (reply, log) := (rule.script.scopedRecorder schema scope).visit phase tree place log
    let problems :=
      match rule.script.method? phase tree.kind with
      | some method => if rule.report then [⟨RuleScript.message method tree, tree⟩] else []
      | none => []
    (reply, problems, log)

end QueryLint
