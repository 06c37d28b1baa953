import QueryLint.Document.Tree

/-!
Walking a tree. A visitor is called when a node is entered and again when it is left, behind all
nodes below it; its replies can leave out what is below a node or end the walk. A visitor may also
fail, which ends the walk at once.
-/

namespace QueryLint

inductive Action where
  | stop | skip
  deriving DecidableEq

/-- What a visitor replies. `stop` and `skip` may also be said by the flags true and false, and any
other value lets the walk go on. -/
inductive Reply where
  | silent
  | action (chosen : Action)
  | flag (value : Bool)
  | other
  deriving DecidableEq

def Reply.action? : Reply → Option Action
  | .silent | .other => none
  | .action chosen => some chosen
  | .flag true => some .stop
  | .flag false => some .skip

/-- What holds a node: the node above it, or the sequence in which it stands. -/
inductive Container where
  | node (tree : Tree)
  | sequence (trees : List Tree)

/-- Where a node stands in a walk. `ancestors` holds what lies above the parent, the root first. -/
structure Place where
  key : Option PathKey
  parent : Option Container
  path : List PathKey
  ancestors : List Container

namespace Place

def root : Place := ⟨none, none, [], []⟩

/-- What lies above the branches of the node at a place. -/
def above (place : Place) : List Container := place.ancestors ++ place.parent.toList

def child (place : Place) (tree : Tree) (name : String) : Place where
  key := some (.attribute name)
  parent := some (.node tree)
  path := place.path ++ [.attribute name]
  ancestors := place.above

def item (place : Place) (tree : Tree) (name : String) (trees : List Tree) (position : Nat) :
    Place where
  key := some (.index position)
  parent := some (.sequence trees)
  path := place.path ++ [.attribute name, .index position]
  ancestors := place.above ++ [.node tree]

end Place

inductive Phase where
  | enter | leave
  deriving DecidableEq

/-- A visitor with states in `σ` that may fail with an error in `ε`. A visitor that has nothing to
say about a node is silent and keeps its state. -/
structure Visitor (ε σ : Type) where
  visit : Phase → Tree → Place → σ → Except ε Reply × σ

/-- How a walk, or a part of it, ends. -/
inductive Flow (ε : Type) where
  | onward
  | stopped
  | failed (error : ε)

variable {ε σ : Type}

mutual

def Tree.walk (visitor : Visitor ε σ) (place : Place) : Tree → σ → Flow ε × σ
  | .node data branches, state =>
    match visitor.visit .enter (.node data branches) place state with
    | (.error error, state) => (.failed error, state)
    | (.ok reply, state) =>
      match reply.action? with
      | some .stop => (.stopped, state)
      | some .skip => (.onward, state)
      | none =>
        match Branch.walkAll visitor (.node data branches) place branches state with
        | (.onward, state) =>
          match visitor.visit .leave (.node data branches) place state with
          | (.error error, state) => (.failed error, state)
          | (.ok reply, state) =>
            (if reply.action? = some .stop then .stopped else .onward, state)
        | ended => ended

def Branch.walkAll (visitor : Visitor ε σ) (tree : Tree) (place : Place) :
    List Branch → σ → Flow ε × σ
  | [], state => (.onward, state)
  | .absent _ :: branches, state => Branch.walkAll visitor tree place branches state
  | .single name child :: branches, state =>
    match child.walk visitor (place.child tree name) state with
    | (.onward, state) => Branch.walkAll visitor tree place branches state
    | ended => ended
  | .sequence name trees :: branches, state =>
    match Tree.walkAll visitor (place.item tree name trees) 0 trees state with
    | (.onward, state) => Branch.walkAll visitor tree place branches state
    | ended => ended

/-- Walks trees that stand in a sequence, the first of them at the given position. -/
def Tree.walkAll (visitor : Visitor ε σ) (place : Nat → Place) (position : Nat) :
    List Tree → σ → Flow ε × σ
  | [], state => (.onward, state)
  | tree :: trees, state =>
    match tree.walk visitor (place position) state with
    | (.onward, state) => Tree.walkAll visitor place (position + 1) trees state
    | ended => ended

end

namespace Flow

/-- Goes on with the rest of a walk unless its first part has ended it. -/
def andThen (first : Flow ε × σ) (rest : σ → Flow ε × σ) : Flow ε × σ :=
  match first with
  | (.onward, state) => rest state
  | ended => ended

/-- What the end of a walk means for the one who asked for it. -/
def result : Flow ε → Except ε Unit
  | .failed error => .error error
  | _ => .ok ()

end Flow

/-! The equations of a walk, with its parts put together by `Flow.andThen`. -/

/-- The last step of the walk of a node: leaving it. -/
def Visitor.leaving (visitor : Visitor ε σ) (tree : Tree) (place : Place) (state : σ) :
    Flow ε × σ :=
  match visitor.visit .leave tree place state with
  | (.error error, state) => (.failed error, state)
  | (.ok reply, state) => (if reply.action? = some .stop then .stopped else .onward, state)

theorem Tree.walk_of_error {visitor : Visitor ε σ} {tree : Tree} {place : Place}
    {state entered : σ} {error : ε}
    (hvisit : visitor.visit .enter tree place state = (.error error, entered)) :
    tree.walk visitor place state = (.failed error, entered) := by
  obtain ⟨data, branches⟩ := tree
  rw [Tree.walk, hvisit]

theorem Tree.walk_of_stop {visitor : Visitor ε σ} {tree : Tree} {place : Place}
    {state entered : σ} {reply : Reply}
    (hvisit : visitor.visit .enter tree place state = (.ok reply, entered))
    (hreply : reply.action? = some .stop) :
    tree.walk visitor place state = (.stopped, entered) := by
  obtain ⟨data, branches⟩ := tree
  rw [Tree.walk, hvisit]
  simp only [hreply]

theorem Tree.walk_of_skip {visitor : Visitor ε σ} {tree : Tree} {place : Place}
    {state entered : σ} {reply : Reply}
    (hvisit : visitor.visit .enter tree place state = (.ok reply, entered))
    (hreply : reply.action? = some .skip) :
    tree.walk visitor place state = (.onward, entered) := by
  obtain ⟨data, branches⟩ := tree
  rw [Tree.walk, hvisit]
  simp only [hreply]

theorem Tree.walk_of_none {visitor : Visitor ε σ} {tree : Tree} {place : Place}
    {state entered : σ} {reply : Reply}
    (hvisit : visitor.visit .enter tree place state = (.ok reply, entered))
    (hreply : reply.action? = none) :
    tree.walk visitor place state =
      Flow.andThen (Branch.walkAll visitor tree place tree.branches entered)
        (visitor.leaving tree place) := by
  obtain ⟨data, branches⟩ := tree
  rw [Tree.walk, hvisit]
  simp only [hreply]
  rfl

theorem Branch.walkAll_single (visitor : Visitor ε σ) (tree : Tree) (place : Place) (name : String)
    (node : Tree) (branches : List Branch) (state : σ) :
    Branch.walkAll visitor tree place (.single name node :: branches) state =
      Flow.andThen (node.walk visitor (place.child tree name) state)
        (Branch.walkAll visitor tree place branches) := by
  rw [Branch.walkAll]
  rfl

theorem Branch.walkAll_sequence (visitor : Visitor ε σ) (tree : Tree) (place : Place)
    (name : String) (nodes : List Tree) (branches : List Branch) (state : σ) :
    Branch.walkAll visitor tree place (.sequence name nodes :: branches) state =
      Flow.andThen (Tree.walkAll visitor (place.item tree name nodes) 0 nodes state)
        (Branch.walkAll visitor tree place branches) := by
  rw [Branch.walkAll]
  rfl

theorem Branch.andThen_walkAll_nil (visitor : Visitor ε σ) (tree : Tree) (place : Place)
    (first : Flow ε × σ) : Flow.andThen first (Branch.walkAll visitor tree place []) = first := by
  obtain ⟨_ | _ | _, state⟩ := first
  · exact Branch.walkAll.eq_1 visitor tree place state
  · rfl
  · rfl

theorem Branch.walkAll_cons (visitor : Visitor ε σ) (tree : Tree) (place : Place) (branch : Branch)
    (branches : List Branch) (state : σ) :
    Branch.walkAll visitor tree place (branch :: branches) state =
      Flow.andThen (Branch.walkAll visitor tree place [branch] state)
        (Branch.walkAll visitor tree place branches) := by
  cases branch with
  | absent name =>
    rw [Branch.walkAll, Branch.walkAll, Branch.walkAll]
    rfl
  | single name node =>
    rw [Branch.walkAll_single, Branch.walkAll_single, Branch.andThen_walkAll_nil]
  | sequence name nodes =>
    rw [Branch.walkAll_sequence, Branch.walkAll_sequence, Branch.andThen_walkAll_nil]

theorem Tree.walkAll_cons (visitor : Visitor ε σ) (place : Nat → Place) (position : Nat)
    (node : Tree) (nodes : List Tree) (state : σ) :
    Tree.walkAll visitor place position (node :: nodes) state =
      Flow.andThen (node.walk visitor (place position) state)
        (Tree.walkAll visitor place (position + 1) nodes) := by
  rw [Tree.walkAll]
  rfl

end QueryLint
