import QueryLint.Proofs.ReplyMeaning
import QueryLint.Proofs.WalkEvents

/-!
What a visitor is told, and when. The lists of the traversal are as they were behind each part of
it, so the place that comes with a call is where its node stands: the path leads there from the
root, through the ancestors and the parent. The calls are those of a walk through the whole tree, in
their order. A node that is skipped on entering takes away the calls for the nodes below it and the
call that leaves it, and no others; a reply that stops the walk makes its call the last one.
-/

namespace QueryLint

variable {ε σ : Type}

/-! Nodes with their places -/

/-- The nodes in a branch, each with its place. -/
def Branch.seats (tree : Tree) (place : Place) : Branch → List (Tree × Place)
  | .absent _ => []
  | .single name node => [(node, place.child tree name)]
  | .sequence name nodes => nodes.zipIdx.map fun (node, position) =>
      (node, place.item tree name nodes position)

/-- The nodes directly below a tree, each with its place, in the order of a walk. -/
def Tree.seats (tree : Tree) (place : Place) : List (Tree × Place) :=
  tree.branches.flatMap (Branch.seats tree place)

def eventsOfSeats (seats : List (Tree × Place)) : List Call :=
  seats.flatMap fun (node, next) => node.events next

def walkSeats (visitor : Visitor ε σ) : List (Tree × Place) → σ → Flow ε × σ
  | [], state => (.onward, state)
  | (node, next) :: seats, state =>
    Flow.andThen (node.walk visitor next state) (walkSeats visitor seats)

theorem Flow.andThen_assoc (first : Flow ε × σ) (second third : σ → Flow ε × σ) :
    Flow.andThen (Flow.andThen first second) third =
      Flow.andThen first fun state => Flow.andThen (second state) third := by
  obtain ⟨_ | _ | _, state⟩ := first <;> rfl

theorem walkSeats_append (visitor : Visitor ε σ) (seats others : List (Tree × Place)) (state : σ) :
    walkSeats visitor (seats ++ others) state =
      Flow.andThen (walkSeats visitor seats state) (walkSeats visitor others) := by
  induction seats generalizing state with
  | nil => rfl
  | cons seat seats ih =>
    rw [List.cons_append, walkSeats, walkSeats, Flow.andThen_assoc]
    congr
    funext state
    exact ih state

section Seats

variable {tree node : Tree} {place next : Place}

theorem Tree.mem_seats_iff : (node, next) ∈ tree.seats place ↔ tree.Below place node next := by
  rw [Tree.seats, List.mem_flatMap]
  constructor
  · rintro ⟨branch, hbranch, hseat⟩
    cases branch with
    | absent name => cases hseat
    | single name child =>
      obtain ⟨rfl, rfl⟩ := Prod.mk.inj (List.mem_singleton.mp hseat)
      exact .child hbranch
    | sequence name nodes =>
      obtain ⟨⟨item, position⟩, hitem, hsame⟩ := List.mem_map.mp hseat
      obtain ⟨rfl, rfl⟩ := Prod.mk.inj hsame
      exact .item hbranch (List.mem_zipIdx_iff_getElem?.mp hitem)
  · intro h
    cases h with
    | child member => exact ⟨_, member, List.mem_singleton.mpr rfl⟩
    | item member here =>
      exact ⟨_, member, List.mem_map.mpr ⟨(_, _), List.mem_zipIdx_iff_getElem?.mpr here, rfl⟩⟩

theorem Tree.eventsAll_eq (seat : Nat → Place) (position : Nat) (nodes : List Tree) :
    Tree.eventsAll seat position nodes =
      eventsOfSeats ((nodes.zipIdx position).map fun (node, index) => (node, seat index)) := by
  induction nodes generalizing position with
  | nil => rfl
  | cons node nodes ih =>
    rw [Tree.eventsAll, ih]
    rfl

theorem Branch.events_eq (tree : Tree) (place : Place) (branches : List Branch) :
    Branch.events tree place branches =
      eventsOfSeats (branches.flatMap (Branch.seats tree place)) := by
  induction branches with
  | nil => rfl
  | cons branch branches ih =>
    rw [List.flatMap_cons, eventsOfSeats, List.flatMap_append, ← eventsOfSeats, ← eventsOfSeats,
      ← ih]
    cases branch with
    | absent name => rfl
    | single name node =>
      rw [Branch.events]
      simp [eventsOfSeats, Branch.seats]
    | sequence name nodes => rw [Branch.events, Tree.eventsAll_eq, Branch.seats]

theorem Tree.events_eq_seats (tree : Tree) (place : Place) :
    tree.events place = ⟨.enter, tree, place⟩ ::
      (eventsOfSeats (tree.seats place) ++ [⟨.leave, tree, place⟩]) := by
  rw [Tree.events_eq, Branch.events_eq, Tree.seats]

theorem Tree.walkAll_eq (visitor : Visitor ε σ) (seat : Nat → Place) (position : Nat)
    (nodes : List Tree) (state : σ) :
    Tree.walkAll visitor seat position nodes state =
      walkSeats visitor
        ((nodes.zipIdx position).map fun (node, index) => (node, seat index)) state := by
  induction nodes generalizing position state with
  | nil => rfl
  | cons node nodes ih =>
    rw [Tree.walkAll_cons, List.zipIdx_cons, List.map_cons, walkSeats]
    congr
    funext state
    exact ih (position + 1) state

theorem Branch.walkAll_eq (visitor : Visitor ε σ) (tree : Tree) (place : Place)
    (branches : List Branch) (state : σ) :
    Branch.walkAll visitor tree place branches state =
      walkSeats visitor (branches.flatMap (Branch.seats tree place)) state := by
  induction branches generalizing state with
  | nil => rfl
  | cons branch branches ih =>
    rw [List.flatMap_cons, walkSeats_append, ← funext ih]
    cases branch with
    | absent name => rfl
    | single name node =>
      rw [Branch.walkAll_single, Branch.seats, walkSeats, Flow.andThen_assoc]
      rfl
    | sequence name nodes => rw [Branch.walkAll_sequence, Tree.walkAll_eq, Branch.seats]

end Seats

/-- Neither place lies below the other. -/
def Place.Apart (place other : Place) : Prop :=
  ¬place.path <+: other.path ∧ ¬other.path <+: place.path

theorem Place.Apart.of_keys {place other : Place} {path : List PathKey} {key key' : PathKey}
    (h : path ++ [key] <+: place.path) (h' : path ++ [key'] <+: other.path) (hne : key ≠ key') :
    place.Apart other := by
  constructor
  · intro hbelow
    exact hne <| eq_of_prefix (h.trans hbelow) h'
  · intro hbelow
    exact hne <| eq_of_prefix h (h'.trans hbelow)

theorem Branch.path_of_mem_seats {tree : Tree} {place : Place} {branch : Branch}
    {seat : Tree × Place} (h : seat ∈ branch.seats tree place) :
    place.path ++ [.attribute branch.name] <+: seat.2.path := by
  cases branch with
  | absent name => cases h
  | single name node =>
    obtain rfl := List.mem_singleton.mp h
    exact List.prefix_rfl
  | sequence name nodes =>
    obtain ⟨⟨node, position⟩, -, rfl⟩ := List.mem_map.mp h
    exact ⟨[.index position], List.append_assoc ..⟩

theorem Place.path_item (place : Place) (tree : Tree) (name : String) (nodes : List Tree)
    (position : Nat) : (place.item tree name nodes position).path =
      place.path ++ [.attribute name] ++ [.index position] := by
  rw [List.append_assoc]
  rfl

/-- Nodes that are directly below one node stand apart. -/
theorem Tree.Shaped.seats_apart {tree : Tree} (h : tree.Shaped) (place : Place) :
    (tree.seats place).Pairwise fun seat other => seat.2.Apart other.2 := by
  rw [Tree.seats, List.pairwise_flatMap]
  constructor
  · intro branch _
    cases branch with
    | absent name => exact .nil
    | single name node => exact List.pairwise_singleton ..
    | sequence name nodes =>
      have hpositions : nodes.zipIdx.Pairwise fun item other => item.2 ≠ other.2 := by
        rw [← List.pairwise_map, List.zipIdx_map_snd]
        exact List.nodup_range'
      have hpath (position : Nat) : place.path ++ [.attribute name] ++ [.index position] <+:
          (place.item tree name nodes position).path :=
        ⟨[], by rw [Place.path_item, List.append_nil]⟩
      rw [Branch.seats, List.pairwise_map]
      refine hpositions.imp fun {item other} hne => ?_
      have hkeys : PathKey.index item.2 ≠ .index other.2 := by simpa using hne
      exact .of_keys (hpath item.2) (hpath other.2) hkeys
  · have hnames := List.pairwise_map.mp h.nodup_names
    refine hnames.imp fun {branch other} hne seat hseat seat' hseat' => ?_
    have hkeys : PathKey.attribute branch.name ≠ .attribute other.name := by simpa using hne
    exact .of_keys (Branch.path_of_mem_seats hseat) (Branch.path_of_mem_seats hseat') hkeys

/-! Positions -/

/-- What an attribute holds. -/
def Branch.content? : Branch → Option Container
  | .absent _ => none
  | .single _ node => some (.node node)
  | .sequence _ nodes => some (.sequence nodes)

namespace Container

/-- What stands under a key: an attribute of a node, or an item of a sequence. -/
def get? : Container → PathKey → Option Container
  | .node tree, .attribute name =>
    (tree.branches.find? fun branch => branch.name = name).bind Branch.content?
  | .sequence nodes, .index position => nodes[position]?.map .node
  | _, _ => none

/-- All that is passed on the way along a path, from the start to the end of it. -/
def passed (container : Container) : List PathKey → Option (List Container)
  | [] => some [container]
  | key :: path => do
    let next ← container.get? key
    return container :: (← next.passed path)

theorem passed_cons_eq_some_iff {container : Container} {key : PathKey} {path : List PathKey}
    {way : List Container} :
    container.passed (key :: path) = some way ↔ ∃ next rest, container.get? key = some next ∧
      next.passed path = some rest ∧ container :: rest = way := by
  simp [passed, Option.bind_eq_some_iff]

theorem passed_ne_nil {container : Container} {path : List PathKey} {way : List Container}
    (h : container.passed path = some way) : way ≠ [] := by
  rintro rfl
  cases path with
  | nil => cases h
  | cons key path =>
    obtain ⟨_, _, -, -, hway⟩ := passed_cons_eq_some_iff.mp h
    cases hway

/-- One more key leads one step further. -/
theorem passed_append {container last next : Container} {path : List PathKey} {key : PathKey}
    {way : List Container} (h : container.passed path = some way) (hlast : way.getLast? = some last)
    (hnext : last.get? key = some next) :
    container.passed (path ++ [key]) = some (way ++ [next]) := by
  induction path generalizing container way with
  | nil =>
    cases h
    cases hlast
    exact passed_cons_eq_some_iff.mpr ⟨next, [next], hnext, rfl, rfl⟩
  | cons first path ih =>
    obtain ⟨second, rest, hsecond, hrest, rfl⟩ := passed_cons_eq_some_iff.mp h
    have hsame : rest.getLast? = some last := by
      rw [← hlast, List.getLast?_cons_of_ne_nil (passed_ne_nil hrest)]
    exact passed_cons_eq_some_iff.mpr ⟨second, _, hsecond, ih hrest hsame, rfl⟩

end Container

/-- In a node that has the branches of its kind, an attribute name leads to its branch. -/
theorem Tree.Shaped.get?_attribute {tree : Tree} (h : tree.Shaped) {branch : Branch}
    (hbranch : branch ∈ tree.branches) :
    (Container.node tree).get? (.attribute branch.name) = branch.content? := by
  have hfind : (tree.branches.find? fun other => other.name = branch.name) = some branch := by
    obtain ⟨found, hfound⟩ : ∃ found,
        (tree.branches.find? fun other => other.name = branch.name) = some found := by
      rw [← Option.isSome_iff_exists, List.find?_isSome]
      exact ⟨branch, hbranch, by simp⟩
    have hname : found.name = branch.name := by simpa using List.find?_some hfound
    rw [hfound, List.inj_on_of_nodup_map h.nodup_names (List.mem_of_find?_eq_some hfound) hbranch
      hname]
  rw [Container.get?, hfind, Option.bind_some]

/-- The place of a call is where its node stands below the root. -/
structure Call.WellPlaced (root : Tree) (call : Call) : Prop where
  /-- The path leads from the root through the ancestors and the parent to the node. -/
  passed : (Container.node root).passed call.place.path =
    some (call.place.ancestors ++ call.place.parent.toList ++ [.node call.tree])
  key : call.place.key = call.place.path.getLast?
  /-- The parent has the node under the key, and only the root has neither. -/
  parent : (call.tree = root ∧ call.place.path = [] ∧ call.place.parent = none ∧
      call.place.key = none) ∨
    ∃ parent key, call.place.parent = some parent ∧ call.place.key = some key ∧
      parent.get? key = some (.node call.tree)

theorem Tree.Shaped.wellPlaced_below {root tree node : Tree} {place next : Place} {phase : Phase}
    (h : tree.Shaped) (hplaced : Call.WellPlaced root ⟨phase, tree, place⟩)
    (hbelow : tree.Below place node next) : Call.WellPlaced root ⟨phase, node, next⟩ := by
  have hpassed := hplaced.passed
  cases hbelow with
  | @child name _ member =>
    have hnode : (Container.node tree).get? (.attribute name) = some (.node node) :=
      h.get?_attribute member
    constructor
    · exact Container.passed_append hpassed (List.getLast?_concat ..) hnode
    · exact (List.getLast?_concat ..).symm
    · exact .inr ⟨_, _, rfl, rfl, hnode⟩
  | @item name nodes position _ member here =>
    have hnodes : (Container.node tree).get? (.attribute name) = some (.sequence nodes) :=
      h.get?_attribute member
    have hnode : (Container.sequence nodes).get? (.index position) = some (.node node) := by
      rw [Container.get?, here, Option.map_some]
    constructor
    · have hway := Container.passed_append hpassed (List.getLast?_concat ..) hnodes
      rw [Place.path_item]
      exact Container.passed_append hway (List.getLast?_concat ..) hnode
    · rw [Place.path_item]
      exact (List.getLast?_concat ..).symm
    · exact .inr ⟨_, _, rfl, rfl, hnode⟩

theorem Tree.Reaches.wellPlaced {root tree : Tree} {place : Place} (h : root.Reaches tree place)
    (hshaped : root.Shaped) (phase : Phase) :
    tree.Shaped ∧ Call.WellPlaced root ⟨phase, tree, place⟩ := by
  induction h with
  | start => exact ⟨hshaped, rfl, rfl, .inl ⟨rfl, rfl, rfl, rfl⟩⟩
  | step _ hbelow ih =>
    obtain ⟨htree, hplaced⟩ := ih
    exact ⟨htree.of_mem_children hbelow.mem_children, htree.wellPlaced_below hplaced hbelow⟩

/-! The calls of a walk through the whole tree -/

theorem mem_eventsOfSeats {seats : List (Tree × Place)} {call : Call} :
    call ∈ eventsOfSeats seats ↔ ∃ node next, (node, next) ∈ seats ∧ call ∈ node.events next := by
  simp [eventsOfSeats]

/-- Each node that can be reached is entered and left, and no others are. -/
theorem Tree.mem_events_iff {root tree : Tree} {place : Place} (phase : Phase) :
    ⟨phase, tree, place⟩ ∈ root.events .root ↔ root.Reaches tree place := by
  constructor
  · have hdown (top : Tree) (seat : Place) (htop : root.Reaches top seat) :
        ∀ call ∈ top.events seat, root.Reaches call.tree call.place := by
      induction top using Tree.induction_below generalizing seat with
      | hstep top ih =>
        intro call hcall
        rw [Tree.events_eq_seats, List.mem_cons, List.mem_append, List.mem_singleton] at hcall
        rcases hcall with rfl | hbelow | rfl
        · exact htop
        · obtain ⟨node, next, hseat, hcall⟩ := mem_eventsOfSeats.mp hbelow
          have hbelow := Tree.mem_seats_iff.mp hseat
          exact ih node hbelow.mem_children next (.step htop hbelow) call hcall
        · exact htop
    exact hdown root .root .start _
  · intro h
    have hup : ∀ call ∈ tree.events place, call ∈ root.events .root := by
      induction h with
      | start => exact fun call hcall => hcall
      | step _ hbelow ih =>
        intro call hcall
        apply ih
        rw [Tree.events_eq_seats]
        apply List.mem_cons_of_mem
        apply List.mem_append_left
        exact mem_eventsOfSeats.mpr ⟨_, _, Tree.mem_seats_iff.mpr hbelow, hcall⟩
    apply hup
    rw [Tree.events_eq_seats]
    cases phase with
    | enter => exact List.mem_cons_self
    | leave => exact List.mem_cons_of_mem _ (List.mem_append_right _ List.mem_cons_self)

/-- Each node that is entered is left again, behind those that are entered in between. -/
inductive Nested : List Call → Prop where
  | nil : Nested []
  | node {inner later : List Call} {tree : Tree} {place : Place} (hinner : Nested inner)
      (hlater : Nested later) :
      Nested (⟨.enter, tree, place⟩ :: inner ++ ⟨.leave, tree, place⟩ :: later)

theorem Nested.append {first second : List Call} (hfirst : Nested first) (hsecond : Nested second) :
    Nested (first ++ second) := by
  induction hfirst with
  | nil => exact hsecond
  | node hinner _ _ ihlater =>
    rw [List.append_assoc, List.cons_append]
    exact .node hinner ihlater

theorem Tree.nested_events (tree : Tree) (place : Place) : Nested (tree.events place) := by
  induction tree using Tree.induction_below generalizing place with
  | hstep tree ih =>
    have hseats : ∀ seats : List (Tree × Place), (∀ seat ∈ seats, seat.1 ∈ tree.children) →
        Nested (eventsOfSeats seats) := by
      intro seats hchildren
      induction seats with
      | nil => exact .nil
      | cons seat seats ihseats =>
        rw [List.forall_mem_cons] at hchildren
        exact (ih seat.1 hchildren.1 seat.2).append (ihseats hchildren.2)
    rw [Tree.events_eq_seats]
    exact .node (hseats _ fun seat hseat => (Tree.mem_seats_iff.mp hseat).mem_children) .nil

/-! Calls with replies -/

/-- A call with the reply of the visitor. -/
structure Answer where
  call : Call
  reply : Reply

namespace Answer

def Stops (answer : Answer) : Prop := answer.reply.action? = some .stop

/-- A node that is skipped on entering takes away the calls for the nodes below it and the call that
leaves it. -/
def TakesAway (answer : Answer) (call : Call) : Prop :=
  answer.call.phase = .enter ∧ answer.reply.action? = some .skip ∧
    answer.call.place.path <+: call.place.path ∧ call.key ≠ answer.call.key

instance (answer : Answer) (call : Call) : Decidable (answer.TakesAway call) :=
  inferInstanceAs (Decidable (_ ∧ _ ∧ _ ∧ _))

end Answer

/-- The visitor, writing down all its calls with its replies. -/
def Visitor.transcribing (visitor : Visitor ε σ) : Visitor ε (List Answer × σ) where
  visit phase tree place state :=
    match visitor.visit phase tree place state.2 with
    | (.error error, own) => (.error error, state.1, own)
    | (.ok reply, own) => (.ok reply, state.1 ++ [⟨⟨phase, tree, place⟩, reply⟩], own)

theorem Visitor.NeverFails.transcribing {visitor : Visitor ε σ} (h : visitor.NeverFails)
    (phase : Phase) (tree : Tree) (place : Place) (log : List Answer) (state : σ) :
    ∃ reply next, visitor.transcribing.visit phase tree place (log, state) =
      (.ok reply, log ++ [⟨⟨phase, tree, place⟩, reply⟩], next) := by
  obtain ⟨reply, next, hvisit⟩ := h phase tree place state
  exact ⟨reply, next, by simp only [Visitor.transcribing, hvisit]⟩

/-- The calls that no reply takes away. -/
def remaining (log : List Answer) (calls : List Call) : List Call :=
  calls.filter fun call => ∀ answer ∈ log, ¬answer.TakesAway call

/-- No reply takes away any of the calls. -/
def TakesNone (log : List Answer) (calls : List Call) : Prop :=
  ∀ answer ∈ log, ∀ call ∈ calls, ¬answer.TakesAway call

/-- No call enters a node that one of the others is below. -/
def Clear (calls others : List Call) : Prop :=
  ∀ call ∈ calls, ∀ other ∈ others, call.phase = .enter → ¬call.place.path <+: other.place.path

section Remaining

variable {log later : List Answer} {calls others : List Call}

theorem Clear.takesNone (h : Clear calls others) (hlog : log.map Answer.call ⊆ calls) :
    TakesNone log others := by
  rintro answer hanswer other hother ⟨hphase, -, hbelow, -⟩
  exact h _ (hlog (List.mem_map_of_mem hanswer)) other hother hphase hbelow

theorem remaining_of_takesNone (h : TakesNone log calls) : remaining log calls = calls := by
  rw [remaining, List.filter_eq_self]
  intro call hcall
  simpa using fun answer hanswer => h answer hanswer call hcall

/-- Two parts of a walk do not meddle with each other. -/
theorem remaining_append (hlater : TakesNone log others) (hback : TakesNone later calls) :
    remaining (log ++ later) (calls ++ others) = remaining log calls ++ remaining later others := by
  rw [remaining, List.filter_append]
  congr 1
  · apply List.filter_congr
    intro call hcall
    rw [decide_eq_decide, List.forall_mem_append]
    exact and_iff_left fun answer hanswer => hback answer hanswer call hcall
  · apply List.filter_congr
    intro call hcall
    rw [decide_eq_decide, List.forall_mem_append]
    exact and_iff_right fun answer hanswer => hlater answer hanswer call hcall

theorem remaining_prefix_append (log : List Answer) (calls others : List Call) :
    remaining log calls <+: remaining log (calls ++ others) := by
  rw [remaining, remaining, List.filter_append]
  exact List.prefix_append ..

theorem remaining_subset (log : List Answer) (calls : List Call) : remaining log calls ⊆ calls :=
  fun _ hcall => List.mem_of_mem_filter hcall

end Remaining

/-- All calls were made that no reply has taken away. -/
structure PlayedOut (events : List Call) (log : List Answer) : Prop where
  calls : log.map Answer.call = remaining log events
  onward : ∀ answer ∈ log, ¬answer.Stops

/-- Calls were made until a reply stopped the walk. -/
structure BrokenOff (events : List Call) (log : List Answer) : Prop where
  calls : log.map Answer.call <+: remaining log events
  stopped : ∃ before last, log = before ++ [last] ∧ last.Stops ∧ ∀ answer ∈ before, ¬answer.Stops

section Parts

variable {events events' : List Call} {log log' : List Answer}

theorem PlayedOut.append (h : PlayedOut events log) (h' : PlayedOut events' log')
    (hlater : TakesNone log events') (hback : Clear events' events) :
    PlayedOut (events ++ events') (log ++ log') := by
  have hnone : TakesNone log' events := hback.takesNone (h'.calls ▸ remaining_subset ..)
  constructor
  · rw [remaining_append hlater hnone, List.map_append, h.calls, h'.calls]
  · exact List.forall_mem_append.mpr ⟨h.onward, h'.onward⟩

theorem PlayedOut.append_brokenOff (h : PlayedOut events log) (h' : BrokenOff events' log')
    (hlater : TakesNone log events') (hback : Clear events' events) :
    BrokenOff (events ++ events') (log ++ log') := by
  have hnone : TakesNone log' events :=
    hback.takesNone (List.Subset.trans h'.calls.subset (remaining_subset ..))
  constructor
  · rw [remaining_append hlater hnone, List.map_append, h.calls]
    exact (List.prefix_append_right_inj _).mpr h'.calls
  · obtain ⟨before, last, rfl, hlast, hbefore⟩ := h'.stopped
    exact ⟨log ++ before, last, (List.append_assoc ..).symm, hlast,
      List.forall_mem_append.mpr ⟨h.onward, hbefore⟩⟩

theorem BrokenOff.extend (h : BrokenOff events log) (events' : List Call) :
    BrokenOff (events ++ events') log :=
  ⟨h.calls.trans (remaining_prefix_append ..), h.stopped⟩

end Parts

namespace Flow

/-- What a walk, or a part of it, adds to the log. -/
def Plays (log : List Answer) (events : List Call) : Flow ε × List Answer × σ → Prop
  | (.onward, ended, _) => ∃ added, ended = log ++ added ∧ PlayedOut events added
  | (.stopped, ended, _) => ∃ added, ended = log ++ added ∧ BrokenOff events added
  | (.failed _, _) => False

variable {log added : List Answer} {events events' : List Call} {walk : Flow ε × List Answer × σ}

theorem Plays.behind (h : Plays (log ++ added) events' walk) (hfirst : PlayedOut events added)
    (hlater : TakesNone added events') (hback : Clear events' events) :
    Plays log (events ++ events') walk := by
  obtain ⟨_ | _ | _, ended, state⟩ := walk
  · obtain ⟨rest, hended, hrest⟩ := h
    exact ⟨added ++ rest, by rw [hended, List.append_assoc], hfirst.append hrest hlater hback⟩
  · obtain ⟨rest, hended, hrest⟩ := h
    exact ⟨added ++ rest, by rw [hended, List.append_assoc],
      hfirst.append_brokenOff hrest hlater hback⟩
  · exact h

theorem Plays.andThen {rest : List Answer × σ → Flow ε × List Answer × σ}
    (h : Plays log events walk) (hrest : ∀ log state, Plays log events' (rest (log, state)))
    (hlater : Clear events events') (hback : Clear events' events) :
    Plays log (events ++ events') (Flow.andThen walk rest) := by
  obtain ⟨_ | _ | _, ended, state⟩ := walk
  · obtain ⟨added, rfl, hadded⟩ := h
    have hnone : TakesNone added events' := hlater.takesNone (hadded.calls ▸ remaining_subset ..)
    exact (hrest _ state).behind hadded hnone hback
  · obtain ⟨added, hended, hadded⟩ := h
    exact ⟨added, hended, hadded.extend events'⟩
  · exact h

/-- A walk that starts with an empty log makes the calls that its replies do not take away, up to
the first reply that stops it. -/
theorem Plays.sequence (h : Plays [] events walk) :
    walk.2.1.map Answer.call <+: remaining walk.2.1 events ∧
      (walk.2.1.map Answer.call = remaining walk.2.1 events ∨
        ∃ last ∈ walk.2.1.getLast?, last.Stops) ∧
      ∀ answer ∈ walk.2.1.dropLast, ¬answer.Stops := by
  obtain ⟨_ | _ | _, ended, state⟩ := walk
  · obtain ⟨added, rfl, hout⟩ := h
    refine ⟨?_, .inl hout.calls, fun answer hanswer => ?_⟩
    · exact ⟨[], by rw [List.append_nil]; exact hout.calls⟩
    · exact hout.onward answer ((List.dropLast_sublist _).subset hanswer)
  · obtain ⟨added, rfl, hbroken⟩ := h
    obtain ⟨before, last, rfl, hlast, hbefore⟩ := hbroken.stopped
    refine ⟨hbroken.calls, .inr ⟨last, List.getLast?_concat .., hlast⟩, ?_⟩
    rwa [List.dropLast_concat]
  · exact h.elim

end Flow

/-! The walk -/

section Walks

variable {visitor : Visitor ε σ} {tree : Tree} {place : Place}

/-- Calls for nodes below a place have longer paths, which go on behind its own. -/
theorem path_of_mem_eventsOfSeats {call : Call}
    (h : call ∈ eventsOfSeats (tree.seats place)) :
    place.path <+: call.place.path ∧ place.path.length < call.place.path.length := by
  obtain ⟨node, next, hseat, hcall⟩ := mem_eventsOfSeats.mp h
  obtain ⟨branch, -, hseat⟩ := List.mem_flatMap.mp hseat
  have hpath := (Branch.path_of_mem_seats hseat).trans (node.path_of_mem_events next call hcall)
  refine ⟨(List.prefix_append ..).trans hpath, ?_⟩
  have hlength := hpath.length_le
  rw [List.length_append, List.length_singleton] at hlength
  exact hlength

theorem Place.Apart.clear {node other : Tree} {place next : Place} (h : place.Apart next) :
    Clear (node.events place) (other.events next) := by
  intro call hcall call' hcall' _ hbelow
  have hfirst := (node.path_of_mem_events place call hcall).trans hbelow
  have hsecond := other.path_of_mem_events next call' hcall'
  exact (List.prefix_or_prefix_of_prefix hfirst hsecond).elim h.1 h.2

theorem walkSeats_plays {seats : List (Tree × Place)}
    (hapart : seats.Pairwise fun seat other => seat.2.Apart other.2)
    (hnodes : ∀ node next, (node, next) ∈ seats → ∀ log state,
      Flow.Plays log (node.events next) (node.walk visitor.transcribing next (log, state)))
    (log : List Answer) (state : σ) :
    Flow.Plays log (eventsOfSeats seats) (walkSeats visitor.transcribing seats (log, state)) := by
  induction seats generalizing log state with
  | nil => exact ⟨[], (List.append_nil log).symm, rfl, by simp⟩
  | cons seat seats ih =>
    obtain ⟨node, next⟩ := seat
    obtain ⟨hfirst, hothers⟩ := List.pairwise_cons.mp hapart
    refine (hnodes node next List.mem_cons_self log state).andThen
      (ih hothers fun node next hseat => hnodes node next (List.mem_cons_of_mem _ hseat)) ?_ ?_
    · intro call hcall call' hcall'
      obtain ⟨other, place, hseat, hcall'⟩ := mem_eventsOfSeats.mp hcall'
      exact (hfirst _ hseat).clear call hcall call' hcall'
    · intro call hcall call' hcall'
      obtain ⟨other, place, hseat, hcall⟩ := mem_eventsOfSeats.mp hcall
      exact Place.Apart.clear (And.symm (hfirst _ hseat)) call hcall call' hcall'

theorem Visitor.NeverFails.leaving_plays (hcalm : visitor.NeverFails) (log : List Answer)
    (state : σ) :
    Flow.Plays log [⟨.leave, tree, place⟩]
      (visitor.transcribing.leaving tree place (log, state)) := by
  obtain ⟨reply, next, hvisit⟩ := hcalm.transcribing .leave tree place log state
  have hnone : TakesNone [⟨⟨.leave, tree, place⟩, reply⟩] [⟨.leave, tree, place⟩] := by
    simp [TakesNone, Answer.TakesAway]
  rw [Visitor.leaving, hvisit]
  dsimp only
  by_cases hstop : reply.action? = some .stop
  · rw [if_pos hstop]
    refine ⟨_, rfl, ?_, [], _, rfl, hstop, by simp⟩
    rw [remaining_of_takesNone hnone]
    exact List.prefix_rfl
  · rw [if_neg hstop]
    exact ⟨_, rfl, (remaining_of_takesNone hnone).symm, by simpa [Answer.Stops] using hstop⟩

/-- Of the calls for a node that is skipped on entering only that one remains. -/
theorem remaining_of_skip {reply : Reply} (h : reply.action? = some .skip) :
    remaining [⟨⟨.enter, tree, place⟩, reply⟩] (tree.events place) =
      [⟨.enter, tree, place⟩] := by
  rw [Tree.events_eq_seats, remaining, List.filter_cons_of_pos (by simp [Answer.TakesAway])]
  congr 1
  rw [List.filter_eq_nil_iff]
  intro call hcall
  simp only [List.mem_singleton, forall_eq, decide_eq_true_eq, not_not]
  refine ⟨rfl, h, ?_⟩
  rcases List.mem_append.mp hcall with hbelow | hleave
  · obtain ⟨hpath, hlonger⟩ := path_of_mem_eventsOfSeats hbelow
    refine ⟨hpath, fun hkey => ?_⟩
    rw [show call.place.path = place.path from congrArg Prod.snd hkey] at hlonger
    exact Nat.lt_irrefl _ hlonger
  · obtain rfl := List.mem_singleton.mp hleave
    exact ⟨List.prefix_rfl, fun hkey => by cases congrArg Prod.fst hkey⟩

/-- A node that is not skipped is entered, then the nodes below it are walked, then it is left. -/
theorem Tree.walk_plays (hcalm : visitor.NeverFails) (hshaped : tree.Shaped) (place : Place)
    (log : List Answer) (state : σ) :
    Flow.Plays log (tree.events place) (tree.walk visitor.transcribing place (log, state)) := by
  induction tree using Tree.induction_below generalizing place log state with
  | hstep tree ih =>
    obtain ⟨reply, next, hvisit⟩ := hcalm.transcribing .enter tree place log state
    have hnone (events : List Call) (hreply : reply.action? ≠ some .skip) :
        TakesNone [⟨⟨.enter, tree, place⟩, reply⟩] events := by
      simp [TakesNone, Answer.TakesAway, hreply]
    rcases haction : reply.action? with _ | _ | _
    · have hreply : reply.action? ≠ some .skip := by simp [haction]
      have hseats := walkSeats_plays (hshaped.seats_apart place) fun node next hseat =>
        have hnode := (Tree.mem_seats_iff.mp hseat).mem_children
        ih node hnode (hshaped.of_mem_children hnode) next
      have hdeeper : ∀ call ∈ eventsOfSeats (tree.seats place),
          ¬call.place.path <+: place.path := fun call hcall hpath =>
        Nat.not_lt.mpr hpath.length_le (path_of_mem_eventsOfSeats hcall).2
      have hbelow : Flow.Plays (log ++ [⟨⟨.enter, tree, place⟩, reply⟩])
          (eventsOfSeats (tree.seats place) ++ [⟨.leave, tree, place⟩])
          (tree.walk visitor.transcribing place (log, state)) := by
        rw [Tree.walk_of_none hvisit haction, Branch.walkAll_eq]
        apply (hseats _ next).andThen fun log state => hcalm.leaving_plays log state
        · simpa [Clear] using fun call hcall _ => hdeeper call hcall
        · simp [Clear]
      rw [Tree.events_eq_seats]
      refine hbelow.behind ⟨(remaining_of_takesNone (hnone _ hreply)).symm, ?_⟩
        (hnone _ hreply) ?_
      · simp [Answer.Stops, haction]
      · intro call hcall other hother hphase
        obtain rfl := List.mem_singleton.mp hother
        rcases List.mem_append.mp hcall with hcall | hleave
        · exact hdeeper call hcall
        · obtain rfl := List.mem_singleton.mp hleave
          cases hphase
    · rw [Tree.walk_of_stop hvisit haction]
      refine ⟨_, rfl, ?_, [], _, rfl, haction, by simp⟩
      rw [remaining_of_takesNone (hnone _ (by simp [haction])), Tree.events_eq_seats]
      exact ⟨_, rfl⟩
    · rw [Tree.walk_of_skip hvisit haction]
      exact ⟨_, rfl, (remaining_of_skip haction).symm, by simp [Answer.Stops, haction]⟩

end Walks

/-! The lists of a traversal -/

namespace Traversal

/-- Whatever stands on the lists, nothing is taken off an empty one, and the same stands on them in
the end, unless the visitor fails. -/
def Restores (traversal : Traversal ε σ Bool) : Prop :=
  ∀ trail state, ∃ result left next, traversal (trail, state) = some (result, left, next) ∧
    ∀ onward, result = .ok onward → left = trail

theorem Restores.of_ends {traversal : Traversal ε σ Bool}
    (h : ∀ trail state, ∃ walk, Ends trail walk (traversal (trail, state))) :
    traversal.Restores := by
  intro trail state
  obtain ⟨walk, hends⟩ := h trail state
  generalize traversal (trail, state) = run at hends ⊢
  cases hends with
  | onward => exact ⟨_, _, _, rfl, fun _ _ => rfl⟩
  | stopped => exact ⟨_, _, _, rfl, fun _ _ => rfl⟩
  | failed =>
    refine ⟨_, _, _, rfl, fun onward honward => ?_⟩
    cases honward

end Traversal

theorem Tree.traverse_restores (visitor : Visitor ε σ) (key : Option PathKey)
    (parent : Option Container) (tree : Tree) : (tree.traverse visitor key parent).Restores :=
  .of_ends fun trail state => ⟨_, tree.traverse_ends visitor key parent trail state⟩

theorem Branch.traverse_restores (visitor : Visitor ε σ) (tree : Tree) (branch : Branch) :
    (branch.traverse visitor tree).Restores := by
  refine .of_ends fun trail state => ⟨_, branch.traverse_ends visitor tree
    ⟨none, none, trail.path, trail.ancestors⟩ trail rfl ?_ state⟩
  rw [Place.above, Option.toList_none, List.append_nil]

theorem Tree.traverseAll_restores (visitor : Visitor ε σ) (parent : Container) (position : Nat)
    (trees : List Tree) : (Tree.traverseAll visitor parent position trees).Restores :=
  .of_ends fun trail state =>
    ⟨_, Tree.traverseAll_ends visitor _ parent trail (fun _ => rfl) position trees state⟩

/-- What a visitor that never fails is told. The traversal of a node, of a branch and of the items
of a sequence each leaves the lists as it found them, however it ends. So every call comes with the
place of its node below the root. The calls for the whole tree are nested and differ in phase or
path, and for each node that can be reached there is one that enters it and one that leaves it, with
the same place. The visitor gets those that its replies do not take away, in their order, all of
them unless the last reply stops the walk; no earlier reply does. If no reply stops the walk or
skips a node on entering, the visitor gets the calls for the whole tree. -/
theorem walk_calls_in_place {visitor : Visitor ε σ} (hcalm : visitor.NeverFails) {root : Tree}
    (hshaped : root.Shaped) (state : σ) :
    let log := (root.visit visitor.transcribing ([], state)).2.1
    let calls := log.map Answer.call
    let whole := root.events .root
    ((∀ (tree : Tree) key parent, (tree.traverse visitor key parent).Restores) ∧
        (∀ (branch : Branch) tree, (branch.traverse visitor tree).Restores) ∧
        ∀ parent position trees, (Tree.traverseAll visitor parent position trees).Restores) ∧
      (∀ call ∈ calls, call.WellPlaced root) ∧
      (Nested whole ∧ (whole.map Call.key).Nodup ∧
        ∀ phase tree place, ⟨phase, tree, place⟩ ∈ whole ↔ root.Reaches tree place) ∧
      calls <+: remaining log whole ∧
      (calls = remaining log whole ∨ ∃ last ∈ log.getLast?, last.Stops) ∧
      (∀ answer ∈ log.dropLast, ¬answer.Stops) ∧
      ((∀ answer ∈ log, ¬answer.Stops ∧
          (answer.call.phase = .enter → answer.reply.action? ≠ some .skip)) →
        calls = whole) := by
  intro log calls whole
  have hlog : log = (root.walk visitor.transcribing .root ([], state)).2.1 := by
    simp only [log, Tree.visit_eq]
  have hsequence := (Tree.walk_plays hcalm hshaped .root [] state).sequence
  rw [← hlog] at hsequence
  refine ⟨⟨fun tree key parent => tree.traverse_restores visitor key parent,
    fun branch tree => branch.traverse_restores visitor tree,
    fun parent position trees => Tree.traverseAll_restores visitor parent position trees⟩, ?_,
    ⟨root.nested_events .root, hshaped.nodup_keys_events .root, fun phase _ _ =>
      Tree.mem_events_iff phase⟩, hsequence.1, hsequence.2.1, hsequence.2.2, ?_⟩
  · intro call hcall
    have hwhole : call ∈ whole := remaining_subset _ _ (hsequence.1.subset hcall)
    exact ((Tree.mem_events_iff call.phase).mp hwhole).wellPlaced hshaped call.phase |>.2
  · intro honward
    have hnone : TakesNone log whole := by
      rintro answer hanswer call - ⟨hphase, hskip, -⟩
      exact (honward answer hanswer).2 hphase hskip
    rw [← remaining_of_takesNone hnone]
    refine hsequence.2.1.resolve_right ?_
    rintro ⟨last, hlast, hstops⟩
    exact (honward last (List.mem_of_getLast? hlast)).1 hstops

/-- The first argument of a directive is skipped, and the walk ends on leaving the name of the
second one. -/
theorem walk_calls_in_place_skip_and_stop :
    let directive : Directive := ⟨⟨"d", none⟩, [⟨⟨"a", none⟩, .plain "1" none, none⟩,
      ⟨⟨"b", none⟩, .plain "2" none, none⟩], none⟩
    let second : List PathKey := [.attribute "arguments", .index 1]
    let visitor : Visitor Empty Nat := ⟨fun phase _ place calls =>
      (.ok (if phase = .enter ∧ place.key = some (.index 0) then .flag false
        else if phase = .leave ∧ place.path = second ++ [.attribute "name"] then .action .stop
        else .other), calls + 1)⟩
    let log := (directive.tree.visit visitor.transcribing ([], 0)).2.1
    visitor.NeverFails ∧ directive.tree.Shaped ∧
      log.map (·.call.key) = [(.enter, []), (.enter, [.attribute "name"]),
        (.leave, [.attribute "name"]), (.enter, [.attribute "arguments", .index 0]),
        (.enter, second), (.enter, second ++ [.attribute "name"]),
        (.leave, second ++ [.attribute "name"])] ∧
      log.map Answer.call <+: remaining log (directive.tree.events .root) ∧
      ∃ last ∈ log.getLast?, last.Stops := by
  intro directive second visitor log
  have hcalm : visitor.NeverFails := fun phase tree place calls => ⟨_, calls + 1, rfl⟩
  obtain ⟨-, -, -, hcalls, -, -, -⟩ := walk_calls_in_place hcalm directive.shaped 0
  exact ⟨hcalm, directive.shaped, by decide, hcalls, _, rfl, rfl⟩

end QueryLint
