import QueryLint.Document.Parallel
import QueryLint.Document.Traversal
import QueryLint.Report
import QueryLint.Schema.Scope

/-!
Checking a document by rules. All rules look at the document in one walk that keeps track of types;
each rule may read the types at the current node and report problems, and where one rule skips or
stops the others go on.
-/

namespace QueryLint

/-- A problem with a node of a document. -/
structure Problem where
  message : Text
  node : Tree

def Problem.report (problem : Problem) : Report :=
  .about problem.message problem.node.loc.toList none []

/-- A rule with states in `σ` that may fail with an error in `ε`. -/
structure Rule (ε σ : Type) where
  visit : TypeScope → Phase → Tree → Place → σ → Except ε Reply × List Problem × σ

variable {ε σ : Type}

/-- The rule as a visitor in a given scope that adds its problems to those reported before. -/
def Rule.visitor (rule : Rule ε σ) (scope : TypeScope) : Visitor ε (List Problem × σ) where
  visit phase tree place state :=
    let (reply, problems, own) := rule.visit scope phase tree place state.2
    (reply, state.1 ++ problems, own)

/-- What a check leaves behind: how it ended, the scope, the problems and the state of the rules. -/
structure Verdict (ε σ : Type) where
  result : Except (ScopedError ε) Unit
  scope : TypeScope
  problems : List Problem
  state : σ

/-- What is noted about a check by so many rules. -/
def Verdict.summary (verdict : Verdict ε σ) (rules : Nat) : String :=
  "Validated document with " ++ toString rules ++ " rules, found " ++
    toString verdict.problems.length ++ " errors."

/-- Runs the rules side by side over a tree. -/
def Schema.check (schema : Schema) (lookup : FieldLookup) (rules : List (Rule ε σ)) (tree : Tree)
    (scope : TypeScope) (state : σ) : Verdict ε σ :=
  let visitor := schema.visitor lookup fun scope => .parallel (rules.map (·.visitor scope))
  let (result, scope, _, problems, state) :=
    tree.visit visitor (scope, Standing.fresh rules.length, [], state)
  ⟨result, scope, problems, state⟩

end QueryLint
