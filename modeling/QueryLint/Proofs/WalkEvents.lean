import Mathlib.Data.List.Nodup
import QueryLint.Proofs.DocumentTrees
import QueryLint.Proofs.ScopeChain

/-!
The calls of a walk through a whole tree: each node is entered and left, and all nodes below it in
between. In a tree of the shape of a document no two of them have the same phase and path. A visitor
that is silent at every call gets all of them, each in the scope that the way to its node leads to,
and the scope comes out of the walk as it was.
-/

namespace QueryLint

variable {ε σ τ φ : Type}

mutual

/-- The calls for a node at a place and for all nodes below it. -/
def Tree.events (place : Place) : Tree → List Call
  | .node data branches =>
    ⟨.enter, .node data branches, place⟩ ::
      (Branch.events (.node data branches) place branches ++
        [⟨.leave, .node data branches, place⟩])

def Branch.events (tree : Tree) (place : Place) : List Branch → List Call
  | [] => []
  | .absent _ :: branches => Branch.events tree place branches
  | .single name node :: branches =>
    node.events (place.child tree name) ++ Branch.events tree place branches
  | .sequence name nodes :: branches =>
    Tree.eventsAll (place.item tree name nodes) 0 nodes ++ Branch.events tree place branches

/-- The calls for nodes that stand in a sequence, the first of them at the given position. -/
def Tree.eventsAll (place : Nat → Place) (position : Nat) : List Tree → List Call
  | [] => []
  | node :: nodes => node.events (place position) ++ Tree.eventsAll place (position + 1) nodes

end

theorem Tree.events_eq (tree : Tree) (place : Place) :
    tree.events place = ⟨.enter, tree, place⟩ ::
      (Branch.events tree place tree.branches ++ [⟨.leave, tree, place⟩]) := by
  obtain ⟨data, branches⟩ := tree
  rw [Tree.events]
  rfl

/-! Telling the calls apart -/

/-- What tells a call of a walk from the others. -/
def Call.key (call : Call) : Phase × List PathKey := (call.phase, call.place.path)

theorem eq_of_prefix {path whole : List PathKey} {key other : PathKey}
    (h : path ++ [key] <+: whole) (h' : path ++ [other] <+: whole) : key = other := by
  have hsame : path ++ [key] = path ++ [other] :=
    (List.prefix_of_prefix_length_le h h' (by simp)).eq_of_length (by simp)
  simpa using hsame

section Paths

variable {place : Place} {tree : Tree}

/-- Below a node the paths go on behind its own. -/
theorem Tree.path_of_mem_eventsAll {name : String} {nodes trees : List Tree} {position : Nat}
    {call : Call}
    (hnodes : ∀ node ∈ trees, ∀ place, ∀ call ∈ node.events place,
      place.path <+: call.place.path)
    (h : call ∈ Tree.eventsAll (place.item tree name nodes) position trees) :
    ∃ index, position ≤ index ∧
      place.path ++ [.attribute name] ++ [.index index] <+: call.place.path := by
  induction trees generalizing position with
  | nil => simp [Tree.eventsAll] at h
  | cons node trees ih =>
    rw [Tree.eventsAll, List.mem_append] at h
    rcases h with hhere | hlater
    · have hpath := hnodes node List.mem_cons_self _ call hhere
      refine ⟨position, Nat.le_refl _, ?_⟩
      rwa [List.append_assoc]
    · obtain ⟨index, hindex, hpath⟩ :=
        ih (fun node hnode => hnodes node (List.mem_cons_of_mem _ hnode)) hlater
      exact ⟨index, by omega, hpath⟩

theorem Branch.path_of_mem_events {branches : List Branch} {call : Call}
    (hnodes : ∀ node ∈ branches.flatMap Branch.nodes, ∀ place, ∀ call ∈ node.events place,
      place.path <+: call.place.path)
    (h : call ∈ Branch.events tree place branches) :
    ∃ name ∈ branches.map Branch.name, place.path ++ [.attribute name] <+: call.place.path := by
  induction branches with
  | nil => simp [Branch.events] at h
  | cons branch branches ih =>
    rw [List.flatMap_cons, List.forall_mem_append] at hnodes
    have hlater (h : call ∈ Branch.events tree place branches) :
        ∃ name ∈ (branch :: branches).map Branch.name,
          place.path ++ [.attribute name] <+: call.place.path := by
      obtain ⟨name, hname, hpath⟩ := ih hnodes.2 h
      exact ⟨name, List.mem_cons_of_mem _ hname, hpath⟩
    cases branch with
    | absent name => exact hlater h
    | single name node =>
      rw [Branch.events, List.mem_append] at h
      rcases h with hhere | h
      · exact ⟨name, List.mem_cons_self,
          hnodes.1 node (List.mem_singleton.mpr rfl) (place.child tree name) call hhere⟩
      · exact hlater h
    | sequence name nodes =>
      rw [Branch.events, List.mem_append] at h
      rcases h with hhere | h
      · obtain ⟨index, -, hpath⟩ := Tree.path_of_mem_eventsAll hnodes.1 hhere
        exact ⟨name, List.mem_cons_self, (List.prefix_append _ _).trans hpath⟩
      · exact hlater h

theorem Tree.path_of_mem_events (tree : Tree) (place : Place) :
    ∀ call ∈ tree.events place, place.path <+: call.place.path := by
  induction tree using Tree.induction_below generalizing place with
  | hstep tree ih =>
    intro call hcall
    rw [Tree.events_eq, List.mem_cons, List.mem_append, List.mem_singleton] at hcall
    rcases hcall with rfl | hbelow | rfl
    · exact List.prefix_rfl
    · obtain ⟨name, -, hpath⟩ := Branch.path_of_mem_events ih hbelow
      exact (List.prefix_append _ _).trans hpath
    · exact List.prefix_rfl

theorem nodup_keys_append {first second : List Call} (hfirst : (first.map Call.key).Nodup)
    (hsecond : (second.map Call.key).Nodup)
    (hapart : ∀ call ∈ first, ∀ other ∈ second, call.place.path ≠ other.place.path) :
    ((first ++ second).map Call.key).Nodup := by
  rw [List.map_append, List.nodup_append]
  refine ⟨hfirst, hsecond, ?_⟩
  simp only [List.forall_mem_map]
  intro call hcall other hother hkey
  exact hapart call hcall other hother (congrArg Prod.snd hkey)

theorem Tree.nodup_keys_eventsAll {name : String} {nodes trees : List Tree} {position : Nat}
    (hnodes : ∀ node ∈ trees, ∀ place, ((node.events place).map Call.key).Nodup) :
    ((Tree.eventsAll (place.item tree name nodes) position trees).map Call.key).Nodup := by
  induction trees generalizing position with
  | nil => simp [Tree.eventsAll]
  | cons node trees ih =>
    rw [List.forall_mem_cons] at hnodes
    rw [Tree.eventsAll]
    refine nodup_keys_append (hnodes.1 _) (ih hnodes.2) fun call hcall other hother hsame => ?_
    have hpath : place.path ++ [.attribute name] ++ [.index position] <+: call.place.path := by
      rw [List.append_assoc]
      exact node.path_of_mem_events _ call hcall
    obtain ⟨index, hindex, hother⟩ :=
      Tree.path_of_mem_eventsAll (fun node _ => node.path_of_mem_events) hother
    have hkey : PathKey.index position = .index index := eq_of_prefix hpath (hsame ▸ hother)
    cases hkey
    omega

theorem Branch.nodup_keys_events {branches : List Branch}
    (hnames : (branches.map Branch.name).Nodup)
    (hnodes : ∀ node ∈ branches.flatMap Branch.nodes, ∀ place,
      ((node.events place).map Call.key).Nodup) :
    ((Branch.events tree place branches).map Call.key).Nodup := by
  induction branches with
  | nil => simp [Branch.events]
  | cons branch branches ih =>
    rw [List.map_cons, List.nodup_cons] at hnames
    rw [List.flatMap_cons, List.forall_mem_append] at hnodes
    have hlater := ih hnames.2 hnodes.2
    -- a path that goes through this branch goes through none of the others
    have hapart {calls : List Call} (hcalls : ∀ call ∈ calls,
        place.path ++ [.attribute branch.name] <+: call.place.path) :
        ∀ call ∈ calls, ∀ other ∈ Branch.events tree place branches,
          call.place.path ≠ other.place.path := by
      intro call hcall other hother hsame
      obtain ⟨name, hname, hpath⟩ :=
        Branch.path_of_mem_events (fun node _ => node.path_of_mem_events) hother
      have hkey : PathKey.attribute branch.name = .attribute name :=
        eq_of_prefix (hcalls call hcall) (hsame ▸ hpath)
      cases hkey
      exact hnames.1 hname
    cases branch with
    | absent name => exact hlater
    | single name node =>
      rw [Branch.events]
      exact nodup_keys_append (hnodes.1 node (List.mem_singleton.mpr rfl) _) hlater
        (hapart (node.path_of_mem_events (place.child tree name)))
    | sequence name nodes =>
      rw [Branch.events]
      refine nodup_keys_append (Tree.nodup_keys_eventsAll hnodes.1) hlater (hapart ?_)
      intro call hcall
      obtain ⟨index, -, hpath⟩ :=
        Tree.path_of_mem_eventsAll (fun node _ => node.path_of_mem_events) hcall
      exact (List.prefix_append _ _).trans hpath

/-- In a tree of the shape of a document no two calls have the same phase and path. -/
theorem Tree.Shaped.nodup_keys_events {tree : Tree} (h : tree.Shaped) (place : Place) :
    ((tree.events place).map Call.key).Nodup := by
  induction tree using Tree.induction_below generalizing place with
  | hstep tree ih =>
    have hbelow : ((Branch.events tree place tree.branches).map Call.key).Nodup :=
      Branch.nodup_keys_events h.nodup_names fun node hnode =>
        ih node hnode (h.of_mem_children hnode)
    have hlonger : ∀ call ∈ Branch.events tree place tree.branches,
        call.place.path ≠ place.path := by
      intro call hcall hsame
      obtain ⟨name, -, hpath⟩ :=
        Branch.path_of_mem_events (fun node _ => node.path_of_mem_events) hcall
      have hlength := hpath.length_le
      rw [hsame, List.length_append, List.length_singleton] at hlength
      omega
    rw [Tree.events_eq, List.map_cons, List.nodup_cons]
    refine ⟨fun hagain => ?_, nodup_keys_append hbelow (by simp) fun call hcall other hother => ?_⟩
    · obtain ⟨other, hother, hkey⟩ := List.mem_map.mp hagain
      rcases List.mem_append.mp hother with hother | hother
      · exact hlonger other hother (congrArg Prod.snd hkey)
      · obtain rfl := List.mem_singleton.mp hother
        cases hkey
    · obtain rfl := List.mem_singleton.mp hother
      exact hlonger call hcall

end Paths

/-! Silent visitors -/

def Visitor.IsSilent (visitor : Visitor ε σ) : Prop :=
  ∀ phase tree place state, (visitor.visit phase tree place state).1 = .ok .silent

section Silent

variable (reader : TypeReader τ φ) (step : Tree → ScopeStep τ φ) (start : Scope τ φ)
  (inner : Scope τ φ → Visitor ε σ)

/-- What calls lead a visitor to, each made in the scope of the way to its node. -/
def Scope.follow (state : σ) (calls : List Call) : σ :=
  calls.foldl
    (fun state call =>
      ((inner (start.along reader step call.way)).visit call.phase call.tree call.place state).2)
    state

/-- A walk from these nodes gets all their calls and brings the scope back. -/
def Scope.Follows (way : List Tree) (calls : List Call)
    (walk : Scope τ φ × σ → Flow (ScopedError ε) × Scope τ φ × σ) : Prop :=
  ∀ state, walk (start.along reader step way, state) =
    (.onward, start.along reader step way, start.follow reader step inner state calls)

variable {reader step start inner}

theorem Scope.follow_append (state : σ) (calls later : List Call) :
    start.follow reader step inner state (calls ++ later) =
      start.follow reader step inner (start.follow reader step inner state calls) later :=
  List.foldl_append

theorem Scope.Follows.andThen {way : List Tree} {calls later : List Call}
    {walk rest : Scope τ φ × σ → Flow (ScopedError ε) × Scope τ φ × σ}
    (h : start.Follows reader step inner way calls walk)
    (hrest : start.Follows reader step inner way later rest) :
    start.Follows reader step inner way (calls ++ later)
      fun state => Flow.andThen (walk state) rest := by
  intro state
  dsimp only
  rw [h state]
  refine (hrest _).trans ?_
  rw [Scope.follow_append]

theorem Tree.walkAll_follows {way : List Tree} {place : Nat → Place} {trees : List Tree}
    (hplace : ∀ position, (place position).nodes = way)
    (hnodes : ∀ node ∈ trees, ∀ place : Place, start.Follows reader step inner place.nodes
      (node.events place) (node.walk (.scoped reader step inner) place)) (position : Nat) :
    start.Follows reader step inner way (Tree.eventsAll place position trees)
      (Tree.walkAll (.scoped reader step inner) place position trees) := by
  induction trees generalizing position with
  | nil => exact fun state => rfl
  | cons node trees ih =>
    rw [List.forall_mem_cons] at hnodes
    have hnode := hnodes.1 (place position)
    rw [hplace] at hnode
    have hrest := hnode.andThen (ih hnodes.2 (position + 1))
    intro state
    rw [Tree.walkAll_cons]
    exact hrest state

theorem Branch.walkAll_follows {tree : Tree} {place : Place} {branches : List Branch}
    (hnodes : ∀ node ∈ branches.flatMap Branch.nodes, ∀ place : Place,
      start.Follows reader step inner place.nodes (node.events place)
        (node.walk (.scoped reader step inner) place)) :
    start.Follows reader step inner (place.nodes ++ [tree]) (Branch.events tree place branches)
      (Branch.walkAll (.scoped reader step inner) tree place branches) := by
  induction branches with
  | nil => exact fun state => rfl
  | cons branch branches ih =>
    rw [List.flatMap_cons, List.forall_mem_append] at hnodes
    have hlater := ih hnodes.2
    intro state
    cases branch with
    | absent name => exact hlater state
    | single name node =>
      have hnode := hnodes.1 node (List.mem_singleton.mpr rfl) (place.child tree name)
      rw [Place.nodes_child] at hnode
      rw [Branch.walkAll_single]
      exact hnode.andThen hlater state
    | sequence name nodes =>
      have hitems := Tree.walkAll_follows (place.nodes_item tree name nodes) hnodes.1 0
      rw [Branch.walkAll_sequence]
      exact hitems.andThen hlater state

/-- In a scope, a visitor that is always silent gets all calls of the tree. -/
theorem Tree.walk_follows (hundo : ScopeStep.Undone reader step)
    (hsilent : ∀ scope, (inner scope).IsSilent) (tree : Tree) (place : Place) :
    start.Follows reader step inner place.nodes (tree.events place)
      (tree.walk (.scoped reader step inner) place) := by
  induction tree using Tree.induction_below generalizing place with
  | hstep tree ih =>
    have hvisit (phase : Phase) (state : σ) :
        (inner ((start.along reader step place.nodes).enter reader (step tree))).visit phase tree
            place state =
          (.ok .silent, start.follow reader step inner state [⟨phase, tree, place⟩]) := by
      refine Prod.ext (hsilent _ phase tree place state) ?_
      rw [← Scope.along_append]
      rfl
    have hleaving (state : σ) : (Visitor.scoped reader step inner).leaving tree place
        (start.along reader step (place.nodes ++ [tree]), state) =
          (.onward, start.along reader step place.nodes,
            start.follow reader step inner state [⟨.leave, tree, place⟩]) := by
      rw [Visitor.leaving, Scope.along_append, Visitor.scoped_leave hundo (hvisit .leave state)]
      rfl
    intro state
    rw [Tree.walk_of_none (Visitor.scoped_enter_silent (hvisit .enter state)) rfl,
      ← Scope.along_append, Branch.walkAll_follows ih, Tree.events_eq]
    refine (hleaving _).trans ?_
    rw [← Scope.follow_append]
    rfl

end Silent

end QueryLint
