import QueryLint.Document.Walk

/-!
The traversal that walks through a tree. It keeps two lists, the keys that lead to where it stands
and what lies above, and hands them to the visitor with each call. What is put on a list on the way
down is taken off on the way up, also where the walk is stopped in between; an empty list has
nothing to take off. So each part of a traversal leaves the lists as it found them, and the calls
come with the places that `Tree.walk` gives them.
-/

namespace QueryLint

/-- The two lists of a traversal. -/
structure Trail where
  path : List PathKey
  ancestors : List Container

namespace Trail

def start : Trail := ⟨[], []⟩

/-- One key further. -/
def under (trail : Trail) (key : PathKey) : Trail := { trail with path := trail.path ++ [key] }

/-- One step further down. -/
def below (trail : Trail) (container : Container) : Trail :=
  { trail with ancestors := trail.ancestors ++ [container] }

end Trail

variable {ε σ : Type}

/-- Goes on with the lists and the state of a visitor. The visitor may fail; nothing at all comes of
taking something off an empty list. -/
abbrev Traversal (ε σ : Type) := ExceptT ε (StateT (Trail × σ) Option)

namespace Traversal

/-- What the visitor says of a node, which stands where the lists lead to. -/
def call (visitor : Visitor ε σ) (phase : Phase) (tree : Tree) (key : Option PathKey)
    (parent : Option Container) : Traversal ε σ (Option Action) := fun (trail, state) =>
  let (reply, state) := visitor.visit phase tree ⟨key, parent, trail.path, trail.ancestors⟩ state
  some (reply.map Reply.action?, trail, state)

def pushKey (key : PathKey) : Traversal ε σ Unit := fun (trail, state) =>
  some (.ok (), trail.under key, state)

def popKey : Traversal ε σ Unit := fun (trail, state) =>
  if trail.path.isEmpty then none
  else some (.ok (), { trail with path := trail.path.dropLast }, state)

def pushAncestor (container : Container) : Traversal ε σ Unit := fun (trail, state) =>
  some (.ok (), trail.below container, state)

def popAncestor : Traversal ε σ Unit := fun (trail, state) =>
  if trail.ancestors.isEmpty then none
  else some (.ok (), { trail with ancestors := trail.ancestors.dropLast }, state)

end Traversal

open Traversal

mutual

/-- Walks through a tree and says whether the walk goes on behind it. -/
def Tree.traverse (visitor : Visitor ε σ) (key : Option PathKey) (parent : Option Container) :
    Tree → Traversal ε σ Bool
  | .node data branches => do
    match ← call visitor .enter (.node data branches) key parent with
    | some .stop => return false
    | some .skip => return true
    | none =>
      parent.forM pushAncestor
      let onward ← Branch.traverseAll visitor (.node data branches) branches
      parent.forM fun _ => popAncestor
      if onward then
        return (← call visitor .leave (.node data branches) key parent) ≠ some .stop
      else return false

def Branch.traverseAll (visitor : Visitor ε σ) (tree : Tree) : List Branch → Traversal ε σ Bool
  | [] => return true
  | branch :: branches => do
    if ← branch.traverse visitor tree then Branch.traverseAll visitor tree branches
    else return false

def Branch.traverse (visitor : Visitor ε σ) (tree : Tree) : Branch → Traversal ε σ Bool
  | .absent _ => return true
  | .single name child => do
    pushKey (.attribute name)
    let onward ← child.traverse visitor (some (.attribute name)) (some (.node tree))
    popKey
    return onward
  | .sequence name trees => do
    pushKey (.attribute name)
    pushAncestor (.node tree)
    let onward ← Tree.traverseAll visitor (.sequence trees) 0 trees
    popAncestor
    popKey
    return onward

/-- Walks through trees that stand in a sequence, the first of them at the given position. -/
def Tree.traverseAll (visitor : Visitor ε σ) (parent : Container) (position : Nat) :
    List Tree → Traversal ε σ Bool
  | [] => return true
  | tree :: trees => do
    pushKey (.index position)
    let onward ← tree.traverse visitor (some (.index position)) (some parent)
    popKey
    if onward then Tree.traverseAll visitor parent (position + 1) trees
    else return false

end

/-! What is left behind -/

namespace Traversal

variable {α β : Type}

theorem run_bind {traversal : Traversal ε σ α} {k : α → Traversal ε σ β} {start next : Trail × σ}
    {a : α} (h : traversal start = some (.ok a, next)) :
    (traversal >>= k) start = k a next := by
  change (traversal start >>= fun result => ExceptT.bindCont k result.1 result.2) = _
  rw [h]
  rfl

theorem run_bind_error {traversal : Traversal ε σ α} {k : α → Traversal ε σ β}
    {start next : Trail × σ} {error : ε} (h : traversal start = some (.error error, next)) :
    (traversal >>= k) start = some (.error error, next) := by
  change (traversal start >>= fun result => ExceptT.bindCont k result.1 result.2) = _
  rw [h]
  rfl

/-- A traversal ends as the walk does. Unless the visitor fails, it leaves the lists as they
were. -/
inductive Ends (trail : Trail) : Flow ε × σ → Option (Except ε Bool × Trail × σ) → Prop where
  | onward {state : σ} : Ends trail (.onward, state) (some (.ok true, trail, state))
  | stopped {state : σ} : Ends trail (.stopped, state) (some (.ok false, trail, state))
  | failed {error : ε} {left : Trail} {state : σ} :
      Ends trail (.failed error, state) (some (.error error, left, state))

section

variable {trail inner : Trail} {state : σ} {walk : Flow ε × σ} {traversal next : Traversal ε σ Bool}

theorem Ends.isSome {run : Option (Except ε Bool × Trail × σ)} (h : Ends trail walk run) :
    run.isSome := by
  cases h <;> rfl

theorem Ends.andThen {rest : σ → Flow ε × σ} (h : Ends trail walk (traversal (trail, state)))
    (hrest : ∀ state, Ends trail (rest state) (next (trail, state))) :
    Ends trail (Flow.andThen walk rest)
      ((do if ← traversal then next else return false) (trail, state)) := by
  generalize hrun : traversal (trail, state) = run at h
  cases h with
  | onward =>
    rw [run_bind hrun]
    exact hrest _
  | stopped =>
    rw [run_bind hrun]
    exact .stopped
  | failed =>
    rw [run_bind_error hrun]
    exact .failed

/-- What is put on the lists in front of a part is taken off behind it. -/
theorem Ends.within {push pop : Traversal ε σ Unit}
    (hpush : push (trail, state) = some (.ok (), inner, state))
    (hpop : ∀ state, pop (inner, state) = some (.ok (), trail, state))
    (h : Ends inner walk (traversal (inner, state))) :
    Ends trail walk
      ((do push; let onward ← traversal; pop; return onward) (trail, state)) := by
  generalize hrun : traversal (inner, state) = run at h
  rw [run_bind hpush]
  cases h with
  | onward =>
    rw [run_bind hrun, run_bind (hpop _)]
    exact .onward
  | stopped =>
    rw [run_bind hrun, run_bind (hpop _)]
    exact .stopped
  | failed =>
    rw [run_bind_error hrun]
    exact .failed

theorem Ends.withinThen {push pop : Traversal ε σ Unit} {rest : σ → Flow ε × σ}
    (hpush : push (trail, state) = some (.ok (), inner, state))
    (hpop : ∀ state, pop (inner, state) = some (.ok (), trail, state))
    (h : Ends inner walk (traversal (inner, state)))
    (hrest : ∀ state, Ends trail (rest state) (next (trail, state))) :
    Ends trail (Flow.andThen walk rest)
      ((do push; let onward ← traversal; pop; if onward then next else return false)
        (trail, state)) := by
  have hends := (Ends.within hpush hpop h).andThen hrest
  simp only [bind_assoc, pure_bind] at hends
  exact hends

theorem popKey_eq (trail : Trail) (key : PathKey) (state : σ) :
    (popKey : Traversal ε σ Unit) (trail.under key, state) = some (.ok (), trail, state) := by
  simp [popKey, Trail.under]

theorem popAncestor_eq (trail : Trail) (container : Container) (state : σ) :
    (popAncestor : Traversal ε σ Unit) (trail.below container, state) =
      some (.ok (), trail, state) := by
  simp [popAncestor, Trail.below]

theorem Ends.withinKey {key : PathKey}
    (h : Ends (trail.under key) walk (traversal (trail.under key, state))) :
    Ends trail walk
      ((do pushKey key; let onward ← traversal; popKey; return onward) (trail, state)) :=
  h.within rfl (popKey_eq trail key)

theorem Ends.withinAncestor {container : Container}
    (h : Ends (trail.below container) walk (traversal (trail.below container, state))) :
    Ends trail walk
      ((do pushAncestor container; let onward ← traversal; popAncestor; return onward)
        (trail, state)) :=
  h.within rfl (popAncestor_eq trail container)

theorem forM_pushAncestor (parent : Option Container) (trail : Trail) (state : σ) :
    (parent.forM pushAncestor : Traversal ε σ Unit) (trail, state) =
      some (.ok (), { trail with ancestors := trail.ancestors ++ parent.toList }, state) := by
  cases parent with
  | none =>
    rw [Option.toList_none, List.append_nil]
    rfl
  | some container => rfl

theorem forM_popAncestor (parent : Option Container) (trail : Trail) (state : σ) :
    (parent.forM fun _ => popAncestor : Traversal ε σ Unit)
        ({ trail with ancestors := trail.ancestors ++ parent.toList }, state) =
      some (.ok (), trail, state) := by
  cases parent with
  | none =>
    rw [Option.toList_none, List.append_nil]
    rfl
  | some container => exact popAncestor_eq trail container state

end

/-- Leaving a node. -/
theorem leaving_ends (visitor : Visitor ε σ) (tree : Tree) (key : Option PathKey)
    (parent : Option Container) (trail : Trail) (state : σ) :
    Ends trail (visitor.leaving tree ⟨key, parent, trail.path, trail.ancestors⟩ state)
      ((do return (← call visitor .leave tree key parent) ≠ some .stop : Traversal ε σ Bool)
        (trail, state)) := by
  rcases hvisit : visitor.visit .leave tree ⟨key, parent, trail.path, trail.ancestors⟩ state with
    ⟨error | reply, left⟩
  · have hcall : call visitor .leave tree key parent (trail, state) =
        some (.error error, trail, left) := by rw [call, hvisit]; rfl
    rw [run_bind_error hcall, Visitor.leaving, hvisit]
    exact .failed
  · have hcall : call visitor .leave tree key parent (trail, state) =
        some (.ok reply.action?, trail, left) := by rw [call, hvisit]; rfl
    rw [run_bind hcall, Visitor.leaving, hvisit]
    by_cases hstop : reply.action? = some .stop
    · simp only [hstop]
      exact .stopped
    · have hgoes : decide (reply.action? ≠ some .stop) = true := decide_eq_true hstop
      simp only [hgoes, if_neg hstop]
      exact .onward

end Traversal

open Traversal

mutual

/-- The traversal of a tree ends as its walk from the place to which the lists lead. -/
theorem Tree.traverse_ends (visitor : Visitor ε σ) (key : Option PathKey)
    (parent : Option Container) (trail : Trail) : (tree : Tree) → (state : σ) →
      Ends trail (tree.walk visitor ⟨key, parent, trail.path, trail.ancestors⟩ state)
        (tree.traverse visitor key parent (trail, state))
  | .node data branches, state => by
    rw [Tree.traverse]
    let place : Place := ⟨key, parent, trail.path, trail.ancestors⟩
    rcases hvisit : visitor.visit .enter (.node data branches) place state with
      ⟨error | reply, entered⟩
    · have hcall : call visitor .enter (.node data branches) key parent (trail, state) =
          some (.error error, trail, entered) := by rw [call, hvisit]; rfl
      rw [run_bind_error hcall, Tree.walk_of_error hvisit]
      exact .failed
    · have hcall : call visitor .enter (.node data branches) key parent (trail, state) =
          some (.ok reply.action?, trail, entered) := by rw [call, hvisit]; rfl
      rw [run_bind hcall]
      rcases haction : reply.action? with _ | _ | _
      · rw [Tree.walk_of_none hvisit haction]
        refine Ends.withinThen ?_ ?_
          (Branch.traverseAll_ends visitor _ place ⟨trail.path, place.above⟩ rfl rfl branches
            entered)
          (leaving_ends visitor _ key parent trail)
        · exact forM_pushAncestor parent trail entered
        · exact forM_popAncestor parent trail
      · rw [Tree.walk_of_stop hvisit haction]
        exact .stopped
      · rw [Tree.walk_of_skip hvisit haction]
        exact .onward

theorem Branch.traverseAll_ends (visitor : Visitor ε σ) (tree : Tree) (place : Place)
    (trail : Trail) (hpath : trail.path = place.path) (habove : trail.ancestors = place.above) :
    (branches : List Branch) → (state : σ) →
      Ends trail (Branch.walkAll visitor tree place branches state)
        (Branch.traverseAll visitor tree branches (trail, state))
  | [], state => by
    rw [Branch.traverseAll, Branch.walkAll]
    exact .onward
  | branch :: branches, state => by
    rw [Branch.traverseAll, Branch.walkAll_cons]
    exact (branch.traverse_ends visitor tree place trail hpath habove state).andThen
      (Branch.traverseAll_ends visitor tree place trail hpath habove branches)

theorem Branch.traverse_ends (visitor : Visitor ε σ) (tree : Tree) (place : Place)
    (trail : Trail) (hpath : trail.path = place.path) (habove : trail.ancestors = place.above) :
    (branch : Branch) → (state : σ) →
      Ends trail (Branch.walkAll visitor tree place [branch] state)
        (branch.traverse visitor tree (trail, state))
  | .absent name, state => by
    rw [Branch.traverse, Branch.walkAll, Branch.walkAll]
    exact .onward
  | .single name child, state => by
    have hends := Ends.withinKey
      (child.traverse_ends visitor (some (.attribute name)) (some (.node tree))
        (trail.under (.attribute name)) state)
    rw [Branch.traverse, Branch.walkAll_single, Branch.andThen_walkAll_nil, Place.child, ← hpath,
      ← habove]
    exact hends
  | .sequence name trees, state => by
    have hitems (position : Nat) : place.item tree name trees position =
        ⟨some (.index position), some (.sequence trees),
          (trail.path ++ [.attribute name]) ++ [.index position],
          trail.ancestors ++ [.node tree]⟩ := by
      rw [hpath, habove, List.append_assoc]
      rfl
    have hends := Ends.withinKey (Ends.withinAncestor
      (Tree.traverseAll_ends visitor _ (.sequence trees)
        ((trail.under (.attribute name)).below (.node tree)) hitems 0 trees state))
    simp only [bind_assoc, pure_bind] at hends
    rw [Branch.traverse, Branch.walkAll_sequence, Branch.andThen_walkAll_nil]
    exact hends

theorem Tree.traverseAll_ends (visitor : Visitor ε σ) (place : Nat → Place) (parent : Container)
    (trail : Trail) (hplace : ∀ position, place position =
      ⟨some (.index position), some parent, trail.path ++ [.index position], trail.ancestors⟩)
    (position : Nat) : (trees : List Tree) → (state : σ) →
      Ends trail (Tree.walkAll visitor place position trees state)
        (Tree.traverseAll visitor parent position trees (trail, state))
  | [], state => by
    rw [Tree.traverseAll, Tree.walkAll]
    exact .onward
  | tree :: trees, state => by
    rw [Tree.traverseAll, Tree.walkAll_cons, hplace]
    exact Ends.withinThen rfl (popKey_eq trail (.index position))
      (tree.traverse_ends visitor _ _ _ state)
      (Tree.traverseAll_ends visitor place parent trail hplace (position + 1) trees)

end

/-- Nothing is ever taken off an empty list. -/
theorem Tree.traverse_isSome (visitor : Visitor ε σ) (key : Option PathKey)
    (parent : Option Container) (tree : Tree) (trail : Trail) (state : σ) :
    (tree.traverse visitor key parent (trail, state)).isSome :=
  (tree.traverse_ends visitor key parent trail state).isSome

/-- Walks through a tree from its root. The result says what error ended the walk, if any. -/
def Tree.visit (visitor : Visitor ε σ) (tree : Tree) (state : σ) : Except ε Unit × σ :=
  let run := (tree.traverse visitor none none (.start, state)).get (tree.traverse_isSome ..)
  (run.1.map fun _ => (), run.2.2)

theorem Tree.visit_eq (visitor : Visitor ε σ) (tree : Tree) (state : σ) :
    tree.visit visitor state =
      ((tree.walk visitor .root state).1.result, (tree.walk visitor .root state).2) := by
  have hends : Ends .start (tree.walk visitor .root state) _ :=
    tree.traverse_ends visitor none none .start state
  have hrun := Option.some_get (tree.traverse_isSome visitor none none .start state)
  rw [← hrun] at hends
  rw [Tree.visit]
  generalize (tree.traverse visitor none none (.start, state)).get _ = run at hends ⊢
  generalize tree.walk visitor .root state = walk at hends ⊢
  cases hends <;> rfl

end QueryLint
