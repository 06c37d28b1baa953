import QueryLint.Proofs.BenchReports
import QueryLint.Proofs.BenchScopes
import QueryLint.Proofs.RuleIndependence
import QueryLint.Proofs.WalkCalls

/-!
Checks on a settled bench. A document that was read is checked there with the same result as by the
rules of the schema: there is an error for each problem, in the same order, with the same message
and about the same node.
-/

namespace QueryLint.Workbench

/-! Scopes on the bench -/

/-- The bench with another scope in a place. -/
def Bench.withScope (bench : Bench) (id : Nat) (record : ScopeRecord) : Bench :=
  { bench with scopes := bench.scopes.set id record }

section Scopes

variable {bench : Bench} {schema node origin : Datum} {record : SchemaRecord} {id : Nat}
  {scope : Scope Datum Datum} {other : TypeScope} {tree : Tree}

theorem Settled.withScope (h : Settled bench schema record) (id : Nat) (held : ScopeRecord) :
    Settled (bench.withScope id held) schema record :=
  ⟨h.settled, h.stored, h.rooted⟩

theorem scopeRecord_makes (hid : id < bench.scopes.length) (held : ScopeRecord) :
    Makes (bench.withScope id held) (scopeRecord (.scope id)) (· = held) := by
  refine Makes.get_bind fun age => ?_
  have hstored : ((bench.withScope id held).aged age).scopes[id]? = some held :=
    List.getElem?_set_self hid
  simp only [hstored]
  exact Makes.pure rfl

theorem setScope_gives (held next : ScopeRecord) :
    Gives (bench.withScope id held) (setScope (.scope id) next)
      fun _ later => later = bench.withScope id next := by
  intro evaluate age
  refine ⟨(), bench.withScope id next, age, ?_, rfl⟩
  have hset : (bench.scopes.set id held).set id next = bench.scopes.set id next := List.set_set ..
  change (Except.ok (), { (bench.withScope id held).aged age with
    scopes := (bench.scopes.set id held).set id next }) = _
  rw [hset]
  rfl

variable (hid : id < bench.scopes.length)

include hid

/-- Entering a node keeps the scope on the bench the same as the scope of the schema. -/
theorem Settled.enterScope_gives (h : Settled bench schema record) (hsame : SameScope scope other)
    (hpart : tree.IsPart) (hnode : Depicts origin tree node) :
    Gives (bench.withScope id ⟨schema, .null, scope⟩) (enterScope (.scope id) node)
      fun _ later => ∃ entered, later = bench.withScope id ⟨schema, .null, entered⟩ ∧
        SameScope entered ((bench.schemaOf record).entered tree other) ∧
        entered.leave tree.kind = (.ok (), scope) := by
  obtain ⟨nodeId, attributes, hshape, -⟩ := hnode.shape
  have henter : enterScope (.scope id) node = enterScopeAs tree.kind (.scope id) node := by
    rw [hshape]
    rfl
  rw [henter, enterScopeAs]
  refine (scopeRecord_makes hid _).bindGives fun held hheld => ?_
  subst hheld
  refine ((h.withScope id _).scopeStep_makes hsame hpart hnode).bindGives fun step hstep => ?_
  refine Gives.get_bind fun age => ?_
  refine (setScope_gives _ _).mono fun _ later hlater => ?_
  exact ⟨_, hlater, hstep.same, hstep.undone scope⟩

/-- Leaving a node brings the scope on the bench back. -/
theorem leaveScope_gives {entered : Scope Datum Datum} (hnode : Depicts origin tree node)
    (hleave : entered.leave tree.kind = (.ok (), scope)) :
    Gives (bench.withScope id ⟨schema, .null, entered⟩) (leaveScope (.scope id) node)
      fun _ later => later = bench.withScope id ⟨schema, .null, scope⟩ := by
  obtain ⟨nodeId, attributes, hshape, -⟩ := hnode.shape
  have henter : leaveScope (.scope id) node = leaveScopeAs tree.kind (.scope id) := by
    rw [hshape]
    rfl
  rw [henter, leaveScopeAs]
  refine (scopeRecord_makes hid _).bindGives fun held hheld => ?_
  subst hheld
  simp only [hleave]
  refine (setScope_gives _ _).bind fun _ later hlater => ?_
  exact Gives.pure hlater

end Scopes

/-! Errors in a row -/

section Errors

variable {α : Type} {bench : Bench} {origin : Datum} {source : Source}

/-- The walk adds errors about the problems to those found before, and the bench only gets older. -/
def Finds (bench : Bench) (origin : Datum) (source : Source)
    (walk : StateT (List Datum) Session Unit) (problems : List Problem) : Prop :=
  ∀ errors, Makes bench (walk errors) fun result =>
    ∃ found, result.2 = errors ++ found ∧ List.Forall₂ (Reports origin source) found problems

theorem Finds.pure : Finds bench origin source (pure ()) [] :=
  fun errors => Makes.pure ⟨[], (List.append_nil errors).symm, .nil⟩

theorem Finds.bind {walk rest : StateT (List Datum) Session Unit} {problems later : List Problem}
    (h : Finds bench origin source walk problems) (hrest : Finds bench origin source rest later) :
    Finds bench origin source (walk >>= fun _ => rest) (problems ++ later) := by
  intro errors
  refine (h errors).bind fun result ⟨found, hfound, hreports⟩ => ?_
  refine (hrest result.2).mono fun result' ⟨found', hfound', hreports'⟩ => ?_
  exact ⟨found ++ found', by rw [hfound', hfound, List.append_assoc],
    List.rel_append hreports hreports'⟩

theorem Finds.forM {walk : α → StateT (List Datum) Session Unit} {items : List α}
    {problems : α → List Problem}
    (h : ∀ item ∈ items, Finds bench origin source (walk item) (problems item)) :
    Finds bench origin source (items.forM walk) (items.flatMap problems) := by
  rw [List.forM_eq_forM]
  induction items with
  | nil => exact Finds.pure
  | cons item items ih =>
    rw [List.forall_mem_cons] at h
    rw [List.forM_cons, List.flatMap_cons]
    exact h.1.bind (ih h.2)

theorem lift_bind {β : Type} (make : Session α) (next : α → StateT (List Datum) Session β)
    (errors : List Datum) :
    ((liftM make : StateT (List Datum) Session α) >>= next) errors =
      make >>= fun value => next value errors := by
  change ((make >>= fun value => Pure.pure (value, errors)) >>= fun result =>
    next result.1 result.2) = _
  rw [bind_assoc]
  simp only [pure_bind]

theorem Finds.ofMakes {make : Session α} {holds : α → Prop}
    {next : α → StateT (List Datum) Session Unit} {problems : List Problem}
    (h : Makes bench make holds)
    (hnext : ∀ value, holds value → Finds bench origin source (next value) problems) :
    Finds bench origin source ((liftM make : StateT (List Datum) Session α) >>= next)
      problems := by
  intro errors
  rw [lift_bind]
  exact h.bind fun value hvalue => hnext value hvalue errors

/-- What is found between two steps that lead to another bench and back. -/
theorem Finds.within {enter leave : Session Unit} {walk : StateT (List Datum) Session Unit}
    {problems : List Problem} (h : Gives bench enter fun _ later =>
      Finds later origin source walk problems ∧ Gives later leave fun _ last => last = bench) :
    Finds bench origin source (do enter; walk; leave) problems := by
  intro errors
  rw [lift_bind]
  refine h.bind fun _ later ⟨hfinds, hleave⟩ => ?_
  refine (hfinds errors).bindGives fun result hfound => ?_
  refine hleave.bind fun _ last hlast => ?_
  exact Gives.pure ⟨hlast, hfound⟩

/-- A single error. -/
theorem Finds.single {make : Session Datum} {problem : Problem}
    (h : Makes bench make (Reports origin source · problem)) :
    Finds bench origin source
      (do let error ← make; modify (· ++ [error])) [problem] :=
  Finds.ofMakes h fun error herror _ => Makes.pure ⟨[error], rfl, .cons herror .nil⟩

end Errors

section Checking

variable {bench : Bench} {schema node : Datum} {record : SchemaRecord} {id sourceId : Nat}
  {source : Source} {scope : Scope Datum Datum} {other : TypeScope} {tree : Tree}

/-- The problems that so many instances of the rule have with a node. -/
def problemsAt (schema : Schema) (rules : Nat) (scope : TypeScope) (tree : Tree) : List Problem :=
  (List.range rules).flatMap fun _ => schema.reported scope tree

theorem problemsAt_nil {schema : Schema} {rules : Nat} {scope : TypeScope} {tree : Tree}
    (h : schema.reported scope tree = []) : problemsAt schema rules scope tree = [] := by
  simp [problemsAt, h]

/-- A node is checked in the scope on the bench like the part of the document in the scope of the
schema. -/
theorem Settled.checkField_finds (h : Settled bench schema record)
    (hid : id < bench.scopes.length) (hsame : SameScope scope other) (hpart : tree.IsPart)
    (hnode : Depicts (.source sourceId source) tree node) (rules : Nat) :
    Finds (bench.withScope id ⟨schema, .null, scope⟩) (.source sourceId source) source
      (checkField schema (.scope id) node rules)
      (problemsAt (bench.schemaOf record) rules other tree) := by
  have hparents : Option.Rel IsType scope.parent? other.parent? := rel_head? hsame.parents
  have hfields : Option.Rel IsField scope.field? other.field? := rel_head? hsame.fields
  obtain ⟨nodeId, attributes, hshape, -⟩ := hnode.shape
  refine Finds.ofMakes (scopeRecord_makes hid _) fun held hheld => ?_
  subst hheld hshape
  dsimp only
  by_cases hkind : tree.kind = .field
  · obtain ⟨name, hbranch, hname⟩ := hpart.inScope.named hkind
    rw [problemsAt, Schema.reported, hkind, hname]
    rw [hkind] at hnode
    generalize scope.parent? = parent at hparents
    generalize other.parent? = ref at hparents
    generalize scope.field? = field at hfields
    generalize other.field? = definition at hfields
    cases hparents with
    | none =>
      rw [List.flatMap_eq_nil_iff.mpr fun _ _ => rfl]
      exact Finds.pure
    | some htype =>
      obtain ⟨parentId, rfl, rfl⟩ := htype
      cases hfields with
      | none =>
        refine Finds.forM fun _ _ => Finds.single ?_
        exact (h.withScope id _).undefinedFieldError_makes hnode (nameOf_eq hnode hbranch) parentId
      | some hfield =>
        obtain ⟨_, _, _, _, _, _, rfl, -⟩ := hfield
        rw [List.flatMap_eq_nil_iff.mpr fun _ _ => rfl]
        exact Finds.pure
  · have hreported : (bench.schemaOf record).reported other tree = [] := by
      rw [Schema.reported]
      split
      · contradiction
      · rfl
    rw [problemsAt_nil hreported]
    split
    case h_1 hfield _ _ =>
      rw [Datum.node.injEq, NodeClass.exact.injEq] at hfield
      exact absurd hfield.2.1 hkind
    case h_2 => exact Finds.pure

/-- The scope in which the way from the start ends. -/
def scopeOn (schema : Schema) (start : TypeScope) (way : List Tree) : TypeScope :=
  start.along schema.reader (schema.step schema.lookup) way

theorem scopeOn_append (schema : Schema) (start : TypeScope) (way : List Tree) (tree : Tree) :
    scopeOn schema start (way ++ [tree]) = schema.entered tree (scopeOn schema start way) :=
  Scope.along_append ..

/-- The problems at the calls of a walk that starts in the scope. -/
def problemsOf (schema : Schema) (rules : Nat) (start : TypeScope) (calls : List Call) :
    List Problem :=
  calls.flatMap fun call =>
    if call.phase = .enter then problemsAt schema rules (scopeOn schema start call.way) call.tree
    else []

theorem problemsOf_append (schema : Schema) (rules : Nat) (start : TypeScope)
    (calls later : List Call) :
    problemsOf schema rules start (calls ++ later) =
      problemsOf schema rules start calls ++ problemsOf schema rules start later :=
  List.flatMap_append

/-- What is found in the nodes of trees, one after the other. -/
theorem walkSeats_finds {origin : Datum} {walk : Datum → StateT (List Datum) Session Unit}
    {target : Schema} {rules : Nat} {start : TypeScope} {seats : List (Tree × Place)}
    {items : List Datum} (hitems : List.Forall₂ (Depicts origin) (seats.map Prod.fst) items)
    (h : ∀ seat ∈ seats, ∀ item, Depicts origin seat.1 item →
      Finds bench origin source (walk item)
        (problemsOf target rules start (seat.1.events seat.2))) :
    Finds bench origin source (forM items walk)
      (problemsOf target rules start (eventsOfSeats seats)) := by
  induction seats generalizing items with
  | nil =>
    cases hitems
    exact Finds.pure
  | cons seat seats ih =>
    rw [List.map_cons, List.forall₂_cons_left_iff] at hitems
    obtain ⟨item, rest, hitem, hrest, rfl⟩ := hitems
    rw [List.forall_mem_cons] at h
    rw [List.forM_cons, eventsOfSeats, List.flatMap_cons, problemsOf_append]
    exact (h.1 item hitem).bind (ih hrest h.2)

theorem problemsOf_events (schema : Schema) (rules : Nat) (start : TypeScope) (tree : Tree)
    (place : Place) :
    problemsOf schema rules start (tree.events place) =
      problemsAt schema rules (scopeOn schema start (place.nodes ++ [tree])) tree ++
        problemsOf schema rules start (eventsOfSeats (tree.seats place)) := by
  rw [Tree.events_eq_seats, problemsOf, List.flatMap_cons, List.flatMap_append,
    List.flatMap_singleton]
  exact congrArg _ (List.append_nil _)

theorem map_fst_seats (tree : Tree) (place : Place) :
    (tree.seats place).map Prod.fst = tree.children := by
  rw [Tree.seats, List.map_flatMap, Tree.children]
  refine List.flatMap_congr fun branch _ => ?_
  cases branch with
  | absent name => rfl
  | single name node => rfl
  | sequence name nodes =>
    rw [Branch.seats, List.map_map]
    exact List.zipIdx_map_fst ..

/-- A walk through a node finds what the rules report along the walk through the tree. -/
theorem Settled.walk_finds (h : Settled bench schema record) (hid : id < bench.scopes.length)
    (rules : Nat) (start : TypeScope) (refuse : Datum → StateT (List Datum) Session Unit)
    (hpart : tree.IsPart) (place : Place)
    (hnode : Depicts (.source sourceId source) tree node)
    (hsame : SameScope scope (scopeOn (bench.schemaOf record) start place.nodes)) :
    Finds (bench.withScope id ⟨schema, .null, scope⟩) (.source sourceId source) source
      (walkNode (checkVisit schema (.scope id) rules) refuse node)
      (problemsOf (bench.schemaOf record) rules start (tree.events place)) := by
  induction tree using Tree.induction_below generalizing place node scope with
  | hstep tree ih =>
    obtain ⟨items, hitems, hwalk⟩ := hnode.walkNode_eq (checkVisit schema (.scope id) rules) refuse
      hpart.shaped
    rw [← map_fst_seats tree place] at hitems
    have hvisits : (do
        checkVisit schema (.scope id) rules .enter node
        forM items (walkNode (checkVisit schema (.scope id) rules) refuse)
        checkVisit schema (.scope id) rules .leave node) = (do
          enterScope (.scope id) node
          (do
            checkField schema (.scope id) node rules
            forM items (walkNode (checkVisit schema (.scope id) rules) refuse))
          leaveScope (.scope id) node) := by
      simp only [checkVisit, bind_assoc]
    rw [hwalk, hvisits, problemsOf_events]
    refine Finds.within ((h.enterScope_gives hid hsame hpart hnode).mono ?_)
    rintro _ later ⟨entered, rfl, hentered, hleave⟩
    rw [← scopeOn_append] at hentered
    refine ⟨(h.checkField_finds hid hentered hpart hnode rules).bind
      (walkSeats_finds hitems fun seat hseat item hitem => ?_), leaveScope_gives hid hnode hleave⟩
    have hbelow := Tree.mem_seats_iff.mp hseat
    refine ih seat.1 hbelow.mem_children (hpart.of_mem_children hbelow.mem_children) seat.2 hitem ?_
    rwa [hbelow.nodes_eq]

end Checking

/-! The rules of the schema -/

section Rules

variable {ε σ : Type} (schema : Schema) (scope : TypeScope) (tree : Tree) (place : Place)

theorem problemsAt_succ (rules : Nat) :
    problemsAt schema (rules + 1) scope tree =
      schema.reported scope tree ++ problemsAt schema rules scope tree := by
  rw [problemsAt, List.range_succ_eq_map, List.flatMap_cons, List.flatMap_map]
  rfl

theorem slot_undefinedFields (phase : Phase) (problems : List Problem) (state : σ) :
    ((schema.undefinedFields (ε := ε)).visitor scope).slot.visit phase tree place
        (.active, problems, state) =
      (.ok .silent, .active,
        problems ++ if phase = .enter then schema.reported scope tree else [], state) := by
  cases phase with
  | enter =>
    simp only [Visitor.slot, Rule.visitor, Schema.undefinedFields_enter]
    rfl
  | leave =>
    simp only [Visitor.slot, Rule.visitor, Schema.undefinedFields]
    rfl

/-- In each round the instances of the rule report their problems one after the other. -/
theorem callEach_replicate (rules : Nat) (phase : Phase) (problems : List Problem) (state : σ) :
    Visitor.callEach phase tree place
        ((List.replicate rules (schema.undefinedFields (ε := ε))).map (·.visitor scope))
        (Standing.fresh rules) (problems, state) =
      (.ok (), Standing.fresh rules,
        problems ++ if phase = .enter then problemsAt schema rules scope tree else [], state) := by
  induction rules generalizing problems with
  | zero =>
    rw [List.replicate_zero, List.map_nil, Visitor.callEach_nil]
    simp [problemsAt]
  | succ rules ih =>
    have hfresh : Standing.fresh (rules + 1) = .active :: Standing.fresh rules := rfl
    rw [List.replicate_succ, List.map_cons, hfresh, Visitor.callEach_cons, slot_undefinedFields]
    simp only [ih, problemsAt_succ]
    cases phase <;> simp

variable {schema tree}

theorem follow_replicate (rules : Nat) (start : TypeScope) (calls : List Call)
    (problems : List Problem) (state : σ) :
    schema.follow schema.lookup start
        (List.replicate rules (schema.undefinedFields (ε := ε)))
        (Standing.fresh rules, problems, state) calls =
      (Standing.fresh rules, problems ++ problemsOf schema rules start calls, state) := by
  induction calls generalizing problems with
  | nil => rw [problemsOf, List.flatMap_nil, List.append_nil]; rfl
  | cons call calls ih =>
    rw [Schema.follow_cons, Visitor.parallel_visit, callEach_replicate]
    simp only [ih, List.append_assoc]
    rfl

/-- What so many instances of the rule report about a tree. -/
theorem check_replicate (rules : Nat) (start : TypeScope) (tree : Tree) (state : σ) :
    schema.check schema.lookup (List.replicate rules (schema.undefinedFields (ε := ε))) tree start
        state =
      ⟨.ok (), start, problemsOf schema rules start (tree.events .root), state⟩ := by
  have hcalm : ∀ rule ∈ List.replicate rules (schema.undefinedFields (ε := ε) (σ := σ)),
      rule.NeverFails := by
    intro rule hrule scope phase tree place state
    rw [List.eq_of_mem_replicate hrule]
    exact ⟨_, _, _, rfl⟩
  rw [Schema.check_eq_follow hcalm, List.length_replicate, follow_replicate, List.nil_append]

end Rules

/-! Checks of documents -/

section Documents

variable {bench : Bench} {schema node : Datum} {record : SchemaRecord} {sourceId : Nat}
  {source : Source} {document : Document}

/-- A document that was read is checked in a scope on the bench as the schema checks it in the same
scope. -/
theorem Settled.checkDocument_makes {ε σ : Type} (h : Settled bench schema record) {id : Nat}
    (hid : id < bench.scopes.length) {scope : Scope Datum Datum} {start : TypeScope}
    (hsame : SameScope scope start)
    (hnode : Depicts (.source sourceId source) document.tree node) (rules : Nat) (state : σ) :
    Makes (bench.withScope id ⟨schema, .null, scope⟩) (checkDocument schema node (.scope id) rules)
      fun result => ∃ list errors, result = .list list errors ∧
        List.Forall₂ (Reports (.source sourceId source) source) errors
          ((bench.schemaOf record).check (ε := ε) (bench.schemaOf record).lookup
            (List.replicate rules (bench.schemaOf record).undefinedFields) document.tree start
            state).problems := by
  rw [check_replicate]
  have hwalk := h.walk_finds hid rules start (fun value => refuseNode value) (.document document)
    .root hnode hsame []
  refine hwalk.bind fun result ⟨errors, hresult, hreports⟩ => ?_
  refine (makeList_makes result.2).mono fun made ⟨list, hmade⟩ => ?_
  exact ⟨list, errors, by rw [hmade, hresult, List.nil_append], hreports⟩

/-- The bench with one scope more. -/
def Bench.addScope (bench : Bench) (record : ScopeRecord) : Bench :=
  { bench with scopes := bench.scopes ++ [record] }

theorem makeScope_gives (schema : Datum) :
    Gives bench (makeScope schema .null .null) fun made later =>
      made = .scope bench.scopes.length ∧ later = bench.addScope ⟨schema, .null, .empty⟩ :=
  fun _ age => ⟨_, bench.addScope ⟨schema, .null, .empty⟩, age, rfl, rfl, rfl⟩

/-- A document that was read is checked on the bench as the schema checks it. Nothing else is left
behind than the scope of the check. -/
theorem Settled.check_gives {ε σ : Type} (h : Settled bench schema record)
    (hnode : Depicts (.source sourceId source) document.tree node) {rules : Datum} {count : Nat}
    (hrules : ruleCount rules = pure count) (state : σ) :
    Gives bench (check schema node rules .null) fun result later =>
      later = bench.addScope ⟨schema, .null, .empty⟩ ∧
      ∃ list errors, result = .list list errors ∧
        List.Forall₂ (Reports (.source sourceId source) source) errors
          ((bench.schemaOf record).check (ε := ε) (bench.schemaOf record).lookup
            (List.replicate count (bench.schemaOf record).undefinedFields) document.tree .empty
            state).problems := by
  obtain ⟨schemaId, hschema, hstored⟩ := h.stored
  obtain ⟨nodeId, attributes, hshape, -⟩ := hnode.shape
  have hcheck : check schema node rules .null = (do
      let scope ← makeScope schema .null .null
      checkDocument schema node scope count) := by
    rw [hschema, check, hrules, hshape]
    rfl
  rw [hcheck]
  refine (makeScope_gives schema).bind fun made later hlater => ?_
  obtain ⟨rfl, rfl⟩ := hlater
  have hadded : bench.addScope ⟨schema, .null, .empty⟩ =
      (bench.addScope ⟨schema, .null, .empty⟩).withScope bench.scopes.length
        ⟨schema, .null, .empty⟩ := by
    rw [Bench.withScope, Bench.addScope]
    simp
  have hsettled : Settled (bench.addScope ⟨schema, .null, .empty⟩) schema record :=
    ⟨h.settled, h.stored, h.rooted⟩
  rw [hadded]
  exact hsettled.checkDocument_makes (by simp [Bench.addScope]) ⟨.nil, .nil, .nil⟩ hnode count state

end Documents

end QueryLint.Workbench
