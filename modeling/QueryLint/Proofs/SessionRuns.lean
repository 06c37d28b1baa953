import Mathlib.Data.List.Forall2
import QueryLint.Workbench.Bench

/-!
Runs of sessions. Most steps of a session do nothing to the bench but use up identities, so a run is
described from a bench of any age: which value it gives, and which bench it leaves apart from its
age. Such descriptions are put together like the steps themselves.
-/

namespace QueryLint.Workbench

variable {α β γ : Type}

/-- The bench with another least identity that is not in use. -/
def Bench.aged (bench : Bench) (age : Nat) : Bench := { bench with next := age }

/-- From the bench at any age the session gives a value and leaves a bench of which the condition
holds. -/
def Gives (bench : Bench) (session : Session α) (after : α → Bench → Prop) : Prop :=
  ∀ evaluate age, ∃ value next later,
    session evaluate (bench.aged age) = (.ok value, next.aged later) ∧ after value next

/-- From the bench at any age the session gives a value of which the condition holds, and the bench
only gets older. -/
def Makes (bench : Bench) (session : Session α) (holds : α → Prop) : Prop :=
  Gives bench session fun value next => next = bench ∧ holds value

/-- From the bench at any age the session fails in a way of which the condition holds, and the bench
only gets older. -/
def Fails (bench : Bench) (session : Session α) (holds : Failure → Prop) : Prop :=
  ∀ evaluate age, ∃ failure later,
    session evaluate (bench.aged age) = (.error failure, bench.aged later) ∧ holds failure

/-- From the bench at any age the session fails in a way of which the condition holds, whatever it
leaves on the bench. -/
def Breaks (bench : Bench) (session : Session α) (holds : Failure → Prop) : Prop :=
  ∀ evaluate age, ∃ failure later,
    session evaluate (bench.aged age) = (.error failure, later) ∧ holds failure

variable {bench : Bench} {session : Session α} {next : α → Session β}

theorem run_bind {evaluate : Expr → Step Datum} {before later : Bench} {value : α}
    (h : session evaluate before = (.ok value, later)) :
    (session >>= next) evaluate before = next value evaluate later := by
  change (match session evaluate before with
    | (result, later) => ExceptT.bindCont (fun value => next value evaluate) result later) = _
  rw [h]
  rfl

theorem run_bind_error {evaluate : Expr → Step Datum} {before later : Bench} {failure : Failure}
    (h : session evaluate before = (.error failure, later)) :
    (session >>= next) evaluate before = (.error failure, later) := by
  change (match session evaluate before with
    | (result, later) => ExceptT.bindCont (fun value => next value evaluate) result later) = _
  rw [h]
  rfl

theorem Gives.mono {after after' : α → Bench → Prop} (h : Gives bench session after)
    (himp : ∀ value next, after value next → after' value next) : Gives bench session after' := by
  intro evaluate age
  obtain ⟨value, next, later, hrun, hafter⟩ := h evaluate age
  exact ⟨value, next, later, hrun, himp value next hafter⟩

theorem Gives.pure {value : α} {after : α → Bench → Prop} (h : after value bench) :
    Gives bench (pure value) after :=
  fun _ age => ⟨value, bench, age, rfl, h⟩

theorem Gives.bind {after : α → Bench → Prop} {after' : β → Bench → Prop}
    (h : Gives bench session after)
    (hnext : ∀ value later, after value later → Gives later (next value) after') :
    Gives bench (session >>= next) after' := by
  intro evaluate age
  obtain ⟨value, left, later, hrun, hafter⟩ := h evaluate age
  rw [run_bind hrun]
  exact hnext value left hafter evaluate later

/-- What is read off the bench has its age. -/
theorem Gives.get_bind {k : Bench → Session α} {after : α → Bench → Prop}
    (h : ∀ age, Gives bench (k (bench.aged age)) after) : Gives bench (get >>= k) after :=
  fun evaluate age => h age evaluate age

theorem Makes.mono {holds holds' : α → Prop} (h : Makes bench session holds)
    (himp : ∀ value, holds value → holds' value) : Makes bench session holds' :=
  Gives.mono h fun value _ hafter => ⟨hafter.1, himp value hafter.2⟩

theorem Makes.pure {value : α} {holds : α → Prop} (h : holds value) :
    Makes bench (pure value) holds :=
  Gives.pure ⟨rfl, h⟩

theorem Makes.bindGives {holds : α → Prop} {after : β → Bench → Prop}
    (h : Makes bench session holds)
    (hnext : ∀ value, holds value → Gives bench (next value) after) :
    Gives bench (session >>= next) after := by
  refine Gives.bind h ?_
  rintro value later ⟨rfl, hvalue⟩
  exact hnext value hvalue

theorem Makes.bind {holds : α → Prop} {holds' : β → Prop} (h : Makes bench session holds)
    (hnext : ∀ value, holds value → Makes bench (next value) holds') :
    Makes bench (session >>= next) holds' :=
  h.bindGives hnext

theorem Makes.get_bind {k : Bench → Session α} {holds : α → Prop}
    (h : ∀ age, Makes bench (k (bench.aged age)) holds) : Makes bench (get >>= k) holds :=
  Gives.get_bind h

theorem Makes.map {f : α → β} {holds : β → Prop}
    (h : Makes bench session fun value => holds (f value)) : Makes bench (f <$> session) holds := by
  rw [← bind_pure_comp]
  exact h.bind fun value hvalue => Makes.pure hvalue

/-- What is made of each item in turn. -/
theorem Makes.mapM {make : α → Session β} {related : α → β → Prop} {items : List α}
    (h : ∀ item ∈ items, Makes bench (make item) (related item)) :
    Makes bench (items.mapM make) (List.Forall₂ related items) := by
  induction items with
  | nil => exact Makes.pure .nil
  | cons item items ih =>
    rw [List.forall_mem_cons] at h
    rw [List.mapM_cons]
    exact h.1.bind fun value hvalue => (ih h.2).bind fun values hvalues =>
      Makes.pure (.cons hvalue hvalues)

theorem Fails.mono {holds holds' : Failure → Prop} (h : Fails bench session holds)
    (himp : ∀ failure, holds failure → holds' failure) : Fails bench session holds' := by
  intro evaluate age
  obtain ⟨failure, later, hrun, hholds⟩ := h evaluate age
  exact ⟨failure, later, hrun, himp failure hholds⟩

theorem Fails.bind {holds : Failure → Prop} (h : Fails bench session holds) :
    Fails bench (session >>= next) holds := by
  intro evaluate age
  obtain ⟨failure, later, hrun, hholds⟩ := h evaluate age
  exact ⟨failure, later, run_bind_error hrun, hholds⟩

theorem Fails.breaks {holds : Failure → Prop} (h : Fails bench session holds) :
    Breaks bench session holds := by
  intro evaluate age
  obtain ⟨failure, later, hrun, hholds⟩ := h evaluate age
  exact ⟨failure, _, hrun, hholds⟩

theorem Breaks.bind {holds : Failure → Prop} (h : Breaks bench session holds) :
    Breaks bench (session >>= next) holds := by
  intro evaluate age
  obtain ⟨failure, later, hrun, hholds⟩ := h evaluate age
  exact ⟨failure, later, run_bind_error hrun, hholds⟩

theorem Gives.bindBreaks {after : α → Bench → Prop} {holds : Failure → Prop}
    (h : Gives bench session after)
    (hnext : ∀ value later, after value later → Breaks later (next value) holds) :
    Breaks bench (session >>= next) holds := by
  intro evaluate age
  obtain ⟨value, left, later, hrun, hvalue⟩ := h evaluate age
  rw [run_bind hrun]
  exact hnext value left hvalue evaluate later

theorem Breaks.get_bind {k : Bench → Session α} {holds : Failure → Prop}
    (h : ∀ age, Breaks bench (k (bench.aged age)) holds) : Breaks bench (get >>= k) holds :=
  fun evaluate age => h age evaluate age

theorem Fails.get_bind {k : Bench → Session α} {holds : Failure → Prop}
    (h : ∀ age, Fails bench (k (bench.aged age)) holds) : Fails bench (get >>= k) holds :=
  fun evaluate age => h age evaluate age

theorem Makes.bindFails {holds : α → Prop} {fails : Failure → Prop}
    (h : Makes bench session holds)
    (hnext : ∀ value, holds value → Fails bench (next value) fails) :
    Fails bench (session >>= next) fails := by
  intro evaluate age
  obtain ⟨value, left, later, hrun, rfl, hvalue⟩ := h evaluate age
  rw [run_bind hrun]
  exact hnext value hvalue evaluate later

/-! New values -/

theorem freshBlock_makes (count : Nat) : Makes bench (freshBlock count) fun _ => True :=
  fun _ age => ⟨age, bench, age + count, rfl, rfl, trivial⟩

theorem fresh_makes : Makes bench fresh fun _ => True := freshBlock_makes 1

theorem makeList_makes (items : List Datum) :
    Makes bench (makeList items) fun made => ∃ id, made = .list id items :=
  fresh_makes.bind fun id _ => Makes.pure ⟨id, rfl⟩

theorem makeTuple_makes (items : List Datum) :
    Makes bench (makeTuple items) fun made => ∃ id, made = .tupleOf id items :=
  fresh_makes.bind fun id _ => Makes.pure ⟨id, rfl⟩

theorem makeMap_makes (entries : List Entry) :
    Makes bench (makeMap entries) fun made => ∃ id, made = .map id entries :=
  fresh_makes.bind fun id _ => Makes.pure ⟨id, rfl⟩

theorem attr_eq {value held : Datum} {name : String} (h : value.attr? name = some held) :
    attr value name = pure held := by
  rw [attr, h]

end QueryLint.Workbench
