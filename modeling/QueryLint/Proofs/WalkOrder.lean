import QueryLint.Proofs.ParallelWalk

/-!
The order in which a walk enters nodes. A tree lists all its nodes, each in front of those below it,
and whatever a visitor replies, its walk enters some of them in that order and none twice.
-/

namespace QueryLint

variable {ε σ : Type}

/-- A tree and all nodes below it, each in front of those below it. -/
def Tree.preorder (tree : Tree) : List Tree :=
  tree :: tree.children.attach.flatMap fun node => node.val.preorder
  termination_by sizeOf tree
  decreasing_by exact Tree.sizeOf_lt_of_mem_children node.property

theorem Tree.preorder_eq (tree : Tree) :
    tree.preorder = tree :: tree.children.flatMap Tree.preorder := by
  rw [Tree.preorder]
  simp

/-- The node of a call that enters it. -/
def Call.entered? : Call → Option Tree
  | ⟨.enter, tree, _⟩ => some tree
  | ⟨.leave, _, _⟩ => none

/-- The nodes that are entered among the calls, in their order. -/
def enteredNodes (calls : List Call) : List Tree := calls.filterMap Call.entered?

namespace Flow

/-- What a walk adds to the log enters nodes in the order in which they are listed. -/
def Enters (log : List Call) (nodes : List Tree) (walk : Flow ε × List Call × σ) : Prop :=
  ∃ calls, walk.2.1 = log ++ calls ∧ (enteredNodes calls).Sublist nodes

variable {log : List Call} {nodes others : List Tree} {walk : Flow ε × List Call × σ}

theorem Enters.none {flow : Flow ε} {state : σ} : Enters log nodes (flow, log, state) :=
  ⟨[], (List.append_nil log).symm, List.nil_sublist nodes⟩

theorem Enters.mono (h : Enters log nodes walk) (hsub : nodes.Sublist others) :
    Enters log others walk := by
  obtain ⟨calls, hlog, hentered⟩ := h
  exact ⟨calls, hlog, hentered.trans hsub⟩

/-- Behind the call that enters a node, the walk goes on with those below it. -/
theorem Enters.enter {tree : Tree} {place : Place}
    (h : Enters (log ++ [⟨.enter, tree, place⟩]) nodes walk) : Enters log (tree :: nodes) walk := by
  obtain ⟨calls, hlog, hentered⟩ := h
  exact ⟨⟨.enter, tree, place⟩ :: calls, by rw [hlog]; simp, hentered.cons_cons tree⟩

theorem Enters.andThen {rest : List Call × σ → Flow ε × List Call × σ}
    (hfirst : Enters log nodes walk) (hrest : ∀ log state, Enters log others (rest (log, state))) :
    Enters log (nodes ++ others) (Flow.andThen walk rest) := by
  obtain ⟨calls, hlog, hentered⟩ := hfirst
  obtain ⟨flow, between, state⟩ := walk
  cases flow with
  | onward =>
    obtain ⟨later, hlater, hothers⟩ := hrest between state
    refine ⟨calls ++ later, ?_, ?_⟩
    · rw [← List.append_assoc, ← hlog]
      exact hlater
    · rw [enteredNodes, List.filterMap_append]
      exact hentered.append hothers
  | stopped => exact ⟨calls, hlog, hentered.trans (List.sublist_append_left nodes others)⟩
  | failed error => exact ⟨calls, hlog, hentered.trans (List.sublist_append_left nodes others)⟩

end Flow

variable (visitor : Visitor ε σ)

theorem Visitor.recording_visit (phase : Phase) (tree : Tree) (place : Place) (log : List Call)
    (state : σ) :
    visitor.recording.visit phase tree place (log, state) =
      ((visitor.visit phase tree place state).1, log ++ [⟨phase, tree, place⟩],
        (visitor.visit phase tree place state).2) := rfl

theorem Tree.walkAll_enters {nodes : List Tree}
    (hnodes : ∀ node ∈ nodes, ∀ place log state,
      Flow.Enters log node.preorder (node.walk visitor.recording place (log, state)))
    (place : Nat → Place) (position : Nat) (log : List Call) (state : σ) :
    Flow.Enters log (nodes.flatMap Tree.preorder)
      (Tree.walkAll visitor.recording place position nodes (log, state)) := by
  induction nodes generalizing position log state with
  | nil => exact .none
  | cons node nodes ih =>
    rw [Tree.walkAll_cons, List.flatMap_cons]
    refine (hnodes node List.mem_cons_self _ log state).andThen fun log state => ?_
    exact ih (fun node hnode => hnodes node (List.mem_cons_of_mem _ hnode)) (position + 1) log state

theorem Branch.walkAll_enters (tree : Tree) (place : Place) {branches : List Branch}
    (hnodes : ∀ node ∈ branches.flatMap Branch.nodes, ∀ place log state,
      Flow.Enters log node.preorder (node.walk visitor.recording place (log, state)))
    (log : List Call) (state : σ) :
    Flow.Enters log ((branches.flatMap Branch.nodes).flatMap Tree.preorder)
      (Branch.walkAll visitor.recording tree place branches (log, state)) := by
  induction branches generalizing log state with
  | nil => exact .none
  | cons branch branches ih =>
    rw [List.flatMap_cons, List.forall_mem_append] at hnodes
    rw [List.flatMap_cons, List.flatMap_append]
    cases branch with
    | absent name => exact ih hnodes.2 log state
    | single name node =>
      rw [Branch.walkAll_single]
      have hnode := hnodes.1 node (List.mem_singleton.mpr rfl) (place.child tree name) log state
      refine Flow.Enters.andThen (hnode.mono ?_) (ih hnodes.2)
      simp [Branch.nodes]
    | sequence name nodes =>
      rw [Branch.walkAll_sequence]
      exact (Tree.walkAll_enters visitor hnodes.1 _ 0 log state).andThen (ih hnodes.2)

theorem Visitor.leaving_enters (tree : Tree) (place : Place) (log : List Call) (state : σ) :
    Flow.Enters log [] (visitor.recording.leaving tree place (log, state)) := by
  refine ⟨[⟨.leave, tree, place⟩], ?_, List.nil_sublist _⟩
  rw [Visitor.leaving, visitor.recording_visit]
  cases (visitor.visit .leave tree place state).1 <;> rfl

theorem Tree.walk_enters (tree : Tree) (place : Place) (log : List Call) (state : σ) :
    Flow.Enters log tree.preorder (tree.walk visitor.recording place (log, state)) := by
  induction tree using Tree.induction_below generalizing place log state with
  | hstep tree ih =>
    rw [Tree.preorder_eq]
    apply Flow.Enters.enter
    have hcall := visitor.recording_visit .enter tree place log state
    cases hresult : (visitor.visit .enter tree place state).1 with
    | error error =>
      rw [hresult] at hcall
      rw [Tree.walk_of_error hcall]
      exact .none
    | ok reply =>
      rw [hresult] at hcall
      cases haction : reply.action? with
      | none =>
        rw [Tree.walk_of_none hcall haction]
        rw [Tree.children, ← List.append_nil (List.flatMap _ _)]
        exact (Branch.walkAll_enters visitor tree place ih _ _).andThen
          (visitor.leaving_enters tree place)
      | some action =>
        cases action with
        | stop =>
          rw [Tree.walk_of_stop hcall haction]
          exact .none
        | skip =>
          rw [Tree.walk_of_skip hcall haction]
          exact .none

/-- A walk enters nodes of its tree in the order of the tree. -/
theorem Tree.visit_enters (tree : Tree) (state : σ) :
    (enteredNodes (tree.visit visitor.recording ([], state)).2.1).Sublist tree.preorder := by
  obtain ⟨calls, hlog, hentered⟩ := tree.walk_enters visitor .root [] state
  rw [Tree.visit_eq, hlog]
  exact hentered

end QueryLint
