import QueryLint.Document.Walk

/-!
Several visitors in one walk. Each node is passed to all visitors in turn. A visitor that skips
what is below a node gets no calls until that node is left, and one that stops gets no more calls at
all, while the others go on.
-/

namespace QueryLint

/-- Whether a visitor takes part in a common walk: not while below the node at a path that it
skipped, and never again once it has broken off. -/
inductive Standing where
  | active
  | skipping (path : List PathKey)
  | broken
  deriving DecidableEq

namespace Standing

def afterEnter (path : List PathKey) (reply : Reply) : Standing :=
  match reply.action? with
  | some .skip => .skipping path
  | some .stop => .broken
  | none => .active

def afterLeave (reply : Reply) : Standing :=
  if reply.action? = some .stop then .broken else .active

end Standing

variable {ε σ : Type}

namespace Visitor

def enterEach (tree : Tree) (place : Place) :
    List (Visitor ε σ) → List Standing → σ → Except ε Unit × List Standing × σ
  | visitor :: visitors, .active :: standings, state =>
    match visitor.visit .enter tree place state with
    | (.error error, state) => (.error error, .active :: standings, state)
    | (.ok reply, state) =>
      let (result, standings, state) := enterEach tree place visitors standings state
      (result, .afterEnter place.path reply :: standings, state)
  | _ :: visitors, standing :: standings, state =>
    let (result, standings, state) := enterEach tree place visitors standings state
    (result, standing :: standings, state)
  | _, standings, state => (.ok (), standings, state)

def leaveEach (tree : Tree) (place : Place) :
    List (Visitor ε σ) → List Standing → σ → Except ε Unit × List Standing × σ
  | visitor :: visitors, .active :: standings, state =>
    match visitor.visit .leave tree place state with
    | (.error error, state) => (.error error, .active :: standings, state)
    | (.ok reply, state) =>
      let (result, standings, state) := leaveEach tree place visitors standings state
      (result, .afterLeave reply :: standings, state)
  | _ :: visitors, .skipping path :: standings, state =>
    let (result, standings, state) := leaveEach tree place visitors standings state
    (result, (if path = place.path then .active else .skipping path) :: standings, state)
  | _ :: visitors, .broken :: standings, state =>
    let (result, standings, state) := leaveEach tree place visitors standings state
    (result, .broken :: standings, state)
  | _, standings, state => (.ok (), standings, state)

/-- Runs the visitors side by side on a common state, with the standing of each. -/
def parallel (visitors : List (Visitor ε σ)) : Visitor ε (List Standing × σ) where
  visit phase tree place state :=
    let (result, state) := match phase with
      | .enter => enterEach tree place visitors state.1 state.2
      | .leave => leaveEach tree place visitors state.1 state.2
    (result.map fun _ => .silent, state)

end Visitor

/-- The standings of so many visitors before a walk. -/
def Standing.fresh (count : Nat) : List Standing := List.replicate count .active

end QueryLint
