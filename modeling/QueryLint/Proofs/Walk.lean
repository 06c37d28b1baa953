import QueryLint.Document.Walk

/-!
Two rules for reasoning about walks. `WalkInvariant` follows one visitor: what holds around a node
and what holds between entering and leaving it. `Visitor.Simulates` follows two visitors whose
replies lead the same way. Both are proved by induction over the nodes below a tree, with one
lemma each for walking all branches of a node.
-/

namespace QueryLint

variable {ε σ σ₁ σ₂ : Type}

namespace Flow

/-- What holds of the state in which a walk ends, for each way of ending. -/
def Ends (onward stopped : σ → Prop) (failed : ε → σ → Prop) : Flow ε × σ → Prop
  | (.onward, state) => onward state
  | (.stopped, state) => stopped state
  | (.failed error, state) => failed error state

theorem Ends.andThen {between onward stopped : σ → Prop} {failed : ε → σ → Prop}
    {first : Flow ε × σ} {rest : σ → Flow ε × σ} (hfirst : Ends between stopped failed first)
    (hrest : ∀ state, between state → Ends onward stopped failed (rest state)) :
    Ends onward stopped failed (Flow.andThen first rest) := by
  obtain ⟨_ | _ | _, state⟩ := first
  · exact hrest state hfirst
  · exact hfirst
  · exact hfirst

theorem Ends.mono {onward weaker stopped : σ → Prop} {failed : ε → σ → Prop}
    {walk : Flow ε × σ} (hwalk : Ends onward stopped failed walk)
    (hweaker : ∀ state, onward state → weaker state) : Ends weaker stopped failed walk := by
  obtain ⟨_ | _ | _, state⟩ := walk
  · exact hweaker state hwalk
  · exact hwalk
  · exact hwalk

theorem Ends.eq_onward {state : σ} {walk : Flow ε × σ}
    (hwalk : Ends (· = state) (fun _ => False) (fun _ _ => False) walk) :
    walk = (.onward, state) := by
  obtain ⟨_ | _ | _, last⟩ := walk
  · exact congrArg _ hwalk
  · exact hwalk.elim
  · exact hwalk.elim

/-- Two walks, or parts of them, end the same way and in related states. -/
def Alike (related : σ₁ → σ₂ → Prop) (first : Flow ε × σ₁) (second : Flow ε × σ₂) : Prop :=
  first.1 = second.1 ∧ related first.2 second.2

theorem Alike.andThen {related : σ₁ → σ₂ → Prop} {first : Flow ε × σ₁} {second : Flow ε × σ₂}
    {rest₁ : σ₁ → Flow ε × σ₁} {rest₂ : σ₂ → Flow ε × σ₂} (hfirst : Alike related first second)
    (hrest : ∀ state₁ state₂, related state₁ state₂ →
      Alike related (rest₁ state₁) (rest₂ state₂)) :
    Alike related (Flow.andThen first rest₁) (Flow.andThen second rest₂) := by
  obtain ⟨flow₁, state₁⟩ := first
  obtain ⟨flow₂, state₂⟩ := second
  obtain ⟨hflow, hstate⟩ := hfirst
  change flow₁ = flow₂ at hflow
  subst hflow
  cases flow₁ with
  | onward => exact hrest state₁ state₂ hstate
  | stopped => exact ⟨rfl, hstate⟩
  | failed error => exact ⟨rfl, hstate⟩

end Flow

@[simp] theorem Reply.action?_silent : Reply.silent.action? = none := rfl

/-! The nodes below a tree -/

def Branch.nodes : Branch → List Tree
  | .absent _ => []
  | .single _ node => [node]
  | .sequence _ nodes => nodes

/-- The nodes directly below a tree, in the order of a walk. -/
def Tree.children (tree : Tree) : List Tree := tree.branches.flatMap Branch.nodes

theorem Tree.sizeOf_lt_of_mem_children {tree node : Tree} (hmember : node ∈ tree.children) :
    sizeOf node < sizeOf tree := by
  obtain ⟨data, branches⟩ := tree
  obtain ⟨branch, hbranch, hnode⟩ := List.mem_flatMap.mp hmember
  have hsmaller : sizeOf branch < sizeOf branches := List.sizeOf_lt_of_mem hbranch
  have hnodes : sizeOf node < sizeOf branch := by
    cases branch with
    | absent name => simp [Branch.nodes] at hnode
    | single name child =>
      have hsame : node = child := by simpa [Branch.nodes] using hnode
      simp only [hsame, Branch.single.sizeOf_spec]
      omega
    | sequence name nodes =>
      have hsize : sizeOf node < sizeOf nodes := List.sizeOf_lt_of_mem hnode
      simp only [Branch.sequence.sizeOf_spec]
      omega
  simp only [Tree.node.sizeOf_spec]
  omega

/-- What passes from the nodes directly below each tree to the tree holds of every tree. -/
theorem Tree.induction_below {motive : Tree → Prop}
    (hstep : ∀ tree : Tree, (∀ node ∈ tree.children, motive node) → motive tree) (tree : Tree) :
    motive tree :=
  hstep tree fun node _ => Tree.induction_below hstep node
  termination_by sizeOf tree
  decreasing_by exact Tree.sizeOf_lt_of_mem_children ‹_›

/-- A node directly below a tree that stands at a place, with the place at which a walk visits
it. -/
inductive Tree.Below (tree : Tree) (place : Place) : Tree → Place → Prop where
  | child {name : String} {node : Tree} (member : .single name node ∈ tree.branches) :
      Tree.Below tree place node (place.child tree name)
  | item {name : String} {nodes : List Tree} {position : Nat} {node : Tree}
      (member : .sequence name nodes ∈ tree.branches) (here : nodes[position]? = some node) :
      Tree.Below tree place node (place.item tree name nodes position)

theorem Tree.Below.mem_children {tree node : Tree} {place next : Place}
    (h : tree.Below place node next) : node ∈ tree.children := by
  cases h with
  | child member => exact List.mem_flatMap.mpr ⟨_, member, by simp [Branch.nodes]⟩
  | item member here => exact List.mem_flatMap.mpr ⟨_, member, List.mem_of_getElem? here⟩

/-- The nodes that a walk from the root can come to, with their places. -/
inductive Tree.Reaches (root : Tree) : Tree → Place → Prop where
  | start : Tree.Reaches root root .root
  | step {tree node : Tree} {place next : Place} (reached : Tree.Reaches root tree place)
      (below : tree.Below place node next) : Tree.Reaches root node next

/-- A call of a visitor: when, for which node, and where that stands. -/
structure Call where
  phase : Phase
  tree : Tree
  place : Place

/-! One visitor -/

section Ends

variable {visitor : Visitor ε σ} {tree : Tree} {place : Place} {inside stopped : σ → Prop}
  {failed : ε → σ → Prop}

/-- The trees that are still to be walked are those of the sequence from the position on. -/
theorem Tree.walkAll_ends {name : String} {nodes : List Tree}
    (hnodes : ∀ (position : Nat) (node : Tree) (state : σ), nodes[position]? = some node →
      inside state → Flow.Ends inside stopped failed
        (node.walk visitor (place.item tree name nodes position) state))
    (trees : List Tree) (position : Nat) (htrees : nodes.drop position = trees) (state : σ)
    (hstart : inside state) :
    Flow.Ends inside stopped failed
      (Tree.walkAll visitor (place.item tree name nodes) position trees state) := by
  induction trees generalizing position state with
  | nil => exact hstart
  | cons node rest ih =>
    have hhere : nodes[position]? = some node := by
      rw [← List.head?_drop, htrees, List.head?_cons]
    have hrest : nodes.drop (position + 1) = rest := by
      rw [← List.tail_drop, htrees, List.tail_cons]
    rw [Tree.walkAll_cons]
    exact (hnodes position node state hhere hstart).andThen (ih (position + 1) hrest)

/-- What each walk of a node directly below keeps, the walk of all branches keeps. -/
theorem Branch.walkAll_ends
    (hbelow : ∀ (node : Tree) (next : Place) (state : σ), tree.Below place node next →
      inside state → Flow.Ends inside stopped failed (node.walk visitor next state))
    (branches : List Branch) (hbranches : ∀ branch ∈ branches, branch ∈ tree.branches)
    (state : σ) (hstart : inside state) :
    Flow.Ends inside stopped failed (Branch.walkAll visitor tree place branches state) := by
  induction branches generalizing state with
  | nil => exact hstart
  | cons branch rest ih =>
    have hmember := hbranches branch (List.mem_cons_self ..)
    have hrest := ih fun branch member => hbranches branch (List.mem_cons_of_mem _ member)
    cases branch with
    | absent name => exact hrest state hstart
    | single name node =>
      rw [Branch.walkAll_single]
      exact (hbelow node _ state (.child hmember) hstart).andThen hrest
    | sequence name nodes =>
      rw [Branch.walkAll_sequence]
      refine (Tree.walkAll_ends ?_ nodes 0 rfl state hstart).andThen hrest
      intro position node state hhere hinside
      exact hbelow node _ state (.item hmember hhere) hinside

end Ends

/-- What holds of the state behind a call, by the reply: the walk stops, leaves out what is below
the node, or goes on. -/
def Reply.Leads (stopped skipped onward : σ → Prop) (failed : ε → σ → Prop) :
    Except ε Reply × σ → Prop
  | (.error error, state) => failed error state
  | (.ok reply, state) =>
    match reply.action? with
    | some .stop => stopped state
    | some .skip => skipped state
    | none => onward state

/-- `outside` holds before and behind each node, `inside` between entering and leaving it. The
last condition hands the invariant down to the nodes below and takes it back from them. -/
structure WalkInvariant (visitor : Visitor ε σ) (outside inside : Place → Tree → σ → Prop)
    (stopped : σ → Prop) (failed : ε → σ → Prop) : Prop where
  enter : ∀ {place tree state}, outside place tree state →
    Reply.Leads stopped (outside place tree) (inside place tree) failed
      (visitor.visit .enter tree place state)
  leave : ∀ {place tree state}, inside place tree state →
    Reply.Leads stopped (outside place tree) (outside place tree) failed
      (visitor.visit .leave tree place state)
  below : ∀ {place tree state node next}, inside place tree state → tree.Below place node next →
    outside next node state ∧ ∀ later, outside next node later → inside place tree later

namespace WalkInvariant

variable {visitor : Visitor ε σ} {outside inside : Place → Tree → σ → Prop}
  {stopped : σ → Prop} {failed : ε → σ → Prop}

theorem leaving (h : WalkInvariant visitor outside inside stopped failed) (tree : Tree)
    (place : Place) (state : σ) (hstart : inside place tree state) :
    Flow.Ends (outside place tree) stopped failed (visitor.leaving tree place state) := by
  have hleave := h.leave hstart
  unfold Visitor.leaving
  generalize visitor.visit .leave tree place state = call at hleave ⊢
  rcases call with ⟨error | reply, left⟩
  · exact hleave
  · simp only [Reply.Leads] at hleave
    rcases haction : reply.action? with _ | _ | _ <;> simpa [haction, Flow.Ends] using hleave

theorem walk (h : WalkInvariant visitor outside inside stopped failed) (tree : Tree)
    (place : Place) (state : σ) (hstart : outside place tree state) :
    Flow.Ends (outside place tree) stopped failed (tree.walk visitor place state) := by
  induction tree using Tree.induction_below generalizing place state with
  | hstep tree ih =>
    have henter := h.enter hstart
    rcases hvisit : visitor.visit .enter tree place state with ⟨error | reply, entered⟩
    · rw [Tree.walk_of_error hvisit]
      simpa [hvisit, Reply.Leads, Flow.Ends] using henter
    · simp only [hvisit, Reply.Leads] at henter
      rcases haction : reply.action? with _ | _ | _ <;> simp only [haction] at henter
      · rw [Tree.walk_of_none hvisit haction]
        refine (Branch.walkAll_ends ?_ tree.branches (fun _ member => member) entered
          henter).andThen (h.leaving tree place)
        intro node next state hbelow hinside
        obtain ⟨hdown, hback⟩ := h.below hinside hbelow
        exact (ih node hbelow.mem_children next state hdown).mono hback
      · rw [Tree.walk_of_stop hvisit haction]
        exact henter
      · rw [Tree.walk_of_skip hvisit haction]
        exact henter

end WalkInvariant

/-! Two visitors -/

section Alike

variable {related : σ₁ → σ₂ → Prop} {first : Visitor ε σ₁} {second : Visitor ε σ₂}

theorem Tree.walkAll_alike (place : Nat → Place) (trees : List Tree)
    (hnodes : ∀ node ∈ trees, ∀ (next : Place) (state₁ : σ₁) (state₂ : σ₂),
      related state₁ state₂ →
        Flow.Alike related (node.walk first next state₁) (node.walk second next state₂))
    (position : Nat) (state₁ : σ₁) (state₂ : σ₂) (hstart : related state₁ state₂) :
    Flow.Alike related (Tree.walkAll first place position trees state₁)
      (Tree.walkAll second place position trees state₂) := by
  induction trees generalizing position state₁ state₂ with
  | nil => exact ⟨rfl, hstart⟩
  | cons node rest ih =>
    rw [Tree.walkAll_cons, Tree.walkAll_cons]
    have hnode := hnodes node (List.mem_cons_self ..) (place position) state₁ state₂ hstart
    exact hnode.andThen
      (ih (fun node member => hnodes node (List.mem_cons_of_mem _ member)) (position + 1))

theorem Branch.walkAll_alike (tree : Tree) (place : Place) (branches : List Branch)
    (hbelow : ∀ node ∈ branches.flatMap Branch.nodes, ∀ (next : Place) (state₁ : σ₁)
      (state₂ : σ₂), related state₁ state₂ →
        Flow.Alike related (node.walk first next state₁) (node.walk second next state₂))
    (state₁ : σ₁) (state₂ : σ₂) (hstart : related state₁ state₂) :
    Flow.Alike related (Branch.walkAll first tree place branches state₁)
      (Branch.walkAll second tree place branches state₂) := by
  induction branches generalizing state₁ state₂ with
  | nil => exact ⟨rfl, hstart⟩
  | cons branch rest ih =>
    have hnodes := fun node member => hbelow node (List.mem_append_left _ member)
    have hrest := ih fun node member => hbelow node (List.mem_append_right _ member)
    cases branch with
    | absent name => exact hrest state₁ state₂ hstart
    | single name node =>
      rw [Branch.walkAll_single, Branch.walkAll_single]
      exact (hnodes node (List.mem_singleton_self _) _ state₁ state₂ hstart).andThen hrest
    | sequence name nodes =>
      rw [Branch.walkAll_sequence, Branch.walkAll_sequence]
      exact (Tree.walkAll_alike _ nodes hnodes 0 state₁ state₂ hstart).andThen hrest

end Alike

/-- In related states both visitors fail alike or reply to the same effect, and come to related
states. -/
def Visitor.Simulates (related : σ₁ → σ₂ → Prop) (first : Visitor ε σ₁)
    (second : Visitor ε σ₂) : Prop :=
  ∀ phase tree place state₁ state₂, related state₁ state₂ →
    (first.visit phase tree place state₁).1.map Reply.action? =
        (second.visit phase tree place state₂).1.map Reply.action? ∧
      related (first.visit phase tree place state₁).2 (second.visit phase tree place state₂).2

namespace Visitor.Simulates

variable {related : σ₁ → σ₂ → Prop} {first : Visitor ε σ₁} {second : Visitor ε σ₂}

/-- The two ways in which the calls of related visitors can come out. -/
theorem visit_cases (h : Simulates related first second) (phase : Phase) (tree : Tree)
    (place : Place) {state₁ : σ₁} {state₂ : σ₂} (hrelated : related state₁ state₂) :
    (∃ error next₁ next₂, first.visit phase tree place state₁ = (.error error, next₁) ∧
        second.visit phase tree place state₂ = (.error error, next₂) ∧ related next₁ next₂) ∨
      ∃ reply₁ reply₂ next₁ next₂, first.visit phase tree place state₁ = (.ok reply₁, next₁) ∧
        second.visit phase tree place state₂ = (.ok reply₂, next₂) ∧
        reply₁.action? = reply₂.action? ∧ related next₁ next₂ := by
  obtain ⟨hreply, hnext⟩ := h phase tree place state₁ state₂ hrelated
  generalize first.visit phase tree place state₁ = call₁ at hreply hnext ⊢
  generalize second.visit phase tree place state₂ = call₂ at hreply hnext ⊢
  rcases call₁ with ⟨error₁ | reply₁, next₁⟩ <;> rcases call₂ with ⟨error₂ | reply₂, next₂⟩
  · left
    have herror : error₁ = error₂ := by simpa [Except.map] using hreply
    exact ⟨error₁, next₁, next₂, rfl, by rw [herror], hnext⟩
  · simp [Except.map] at hreply
  · simp [Except.map] at hreply
  · right
    exact ⟨reply₁, reply₂, next₁, next₂, rfl, rfl, by simpa [Except.map] using hreply, hnext⟩

theorem leaving (h : Simulates related first second) (tree : Tree) (place : Place) (state₁ : σ₁)
    (state₂ : σ₂) (hstart : related state₁ state₂) :
    Flow.Alike related (first.leaving tree place state₁) (second.leaving tree place state₂) := by
  unfold Visitor.leaving
  rcases h.visit_cases .leave tree place hstart with
    ⟨error, left₁, left₂, hfirst, hsecond, hleft⟩ |
    ⟨reply₁, reply₂, left₁, left₂, hfirst, hsecond, hreply, hleft⟩
  · rw [hfirst, hsecond]
    exact ⟨rfl, hleft⟩
  · rw [hfirst, hsecond]
    exact ⟨by simp only [hreply], hleft⟩

theorem walk (h : Simulates related first second) (tree : Tree) (place : Place) (state₁ : σ₁)
    (state₂ : σ₂) (hstart : related state₁ state₂) :
    Flow.Alike related (tree.walk first place state₁) (tree.walk second place state₂) := by
  induction tree using Tree.induction_below generalizing place state₁ state₂ with
  | hstep tree ih =>
    rcases h.visit_cases .enter tree place hstart with
      ⟨error, next₁, next₂, hfirst, hsecond, hnext⟩ |
      ⟨reply₁, reply₂, next₁, next₂, hfirst, hsecond, hreply, hnext⟩
    · rw [Tree.walk_of_error hfirst, Tree.walk_of_error hsecond]
      exact ⟨rfl, hnext⟩
    · rcases haction : reply₂.action? with _ | _ | _ <;> rw [haction] at hreply
      · rw [Tree.walk_of_none hfirst hreply, Tree.walk_of_none hsecond haction]
        exact (Branch.walkAll_alike tree place tree.branches ih next₁ next₂ hnext).andThen
          (h.leaving tree place)
      · rw [Tree.walk_of_stop hfirst hreply, Tree.walk_of_stop hsecond haction]
        exact ⟨rfl, hnext⟩
      · rw [Tree.walk_of_skip hfirst hreply, Tree.walk_of_skip hsecond haction]
        exact ⟨rfl, hnext⟩

end Visitor.Simulates

end QueryLint
