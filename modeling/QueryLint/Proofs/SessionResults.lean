import QueryLint.Proofs.SessionRuns
import QueryLint.Workbench.Members

/-!
Sessions with results. Where something is worked out both by a session and by a function that may
report an error, the two agree if they give related values, or if the session fails and tells of the
error. Agreement is put together like the steps of both.
-/

namespace QueryLint.Workbench

variable {α β γ δ : Type}

/-! Sessions and results -/

/-- The failure is how a session tells of the error. -/
inductive Tells (error : SchemaError) : Failure → Prop where
  | fault (h : error.isReport = false) : Tells error (.fault .misuse error.message)
  | report (h : error.isReport = true) (id map : Nat) :
      Tells error (.error (.error id false
        [.text error.message, .null, .null, .null, .null, .map map []] .null))

/-- The session has the result: it gives a value related to that of the result, or fails and tells
of the error of the result. -/
structure Agrees (bench : Bench) (session : Session α) (result : Except SchemaError β)
    (related : α → β → Prop) : Prop where
  makes : ∀ {value}, result = .ok value → Makes bench session (related · value)
  fails : ∀ {error}, result = .error error → Fails bench session (Tells error)

section Rules

variable {bench : Bench} {session : Session α} {result : Except SchemaError β}
  {related : α → β → Prop} {next : α → Session γ} {further : β → Except SchemaError δ}
  {later : γ → δ → Prop}

theorem Agrees.ok {value : β} (h : Makes bench session (related · value)) :
    Agrees bench session (.ok value) related where
  makes heq := by
    cases heq
    exact h
  fails heq := by cases heq

theorem Agrees.error {error : SchemaError} (h : Fails bench session (Tells error)) :
    Agrees bench session (.error error) related where
  makes heq := by cases heq
  fails heq := by
    cases heq
    exact h

theorem Agrees.pure {value : α} {other : β} (h : related value other) :
    Agrees bench (pure value) (pure other) related :=
  .ok (Makes.pure h)

theorem Agrees.bind (h : Agrees bench session result related)
    (hnext : ∀ value other, result = .ok other → related value other →
      Agrees bench (next value) (further other) later) :
    Agrees bench (session >>= next) (result >>= further) later := by
  cases result with
  | error error => exact .error (h.fails rfl).bind
  | ok other =>
    constructor
    · intro final hfinal
      exact (h.makes rfl).bind fun value hvalue => (hnext value other rfl hvalue).makes hfinal
    · intro error herror
      exact (h.makes rfl).bindFails fun value hvalue =>
        (hnext value other rfl hvalue).fails herror

/-- A step that cannot fail comes first. -/
theorem Makes.agrees {holds : α → Prop} {result : Except SchemaError δ}
    (h : Makes bench session holds)
    (hnext : ∀ value, holds value → Agrees bench (next value) result later) :
    Agrees bench (session >>= next) result later where
  makes heq := h.bind fun value hvalue => (hnext value hvalue).makes heq
  fails heq := h.bindFails fun value hvalue => (hnext value hvalue).fails heq

/-- A step that cannot fail comes last. -/
theorem Agrees.bindMakes {later : γ → β → Prop} (h : Agrees bench session result related)
    (hnext : ∀ value other, result = .ok other → related value other →
      Makes bench (next value) (later · other)) :
    Agrees bench (session >>= next) result later where
  makes heq := (h.makes heq).bind fun value hvalue => hnext value _ heq hvalue
  fails heq := (h.fails heq).bind

theorem Agrees.discard (h : Agrees bench session result related) :
    Agrees bench (discard session) result fun _ _ => True := by
  have hdiscard : Functor.discard session = session >>= fun _ => Pure.pure () :=
    map_eq_pure_bind (fun _ => ()) session
  rw [hdiscard]
  exact h.bindMakes fun _ _ _ _ => Makes.pure trivial

theorem Agrees.get_bind {k : Bench → Session α}
    (h : ∀ age, Agrees bench (k (bench.aged age)) result related) :
    Agrees bench (get >>= k) result related where
  makes heq := Makes.get_bind fun age => (h age).makes heq
  fails heq := Fails.get_bind fun age => (h age).fails heq

theorem Agrees.mono {related' : α → β → Prop} (h : Agrees bench session result related)
    (himp : ∀ value other, result = .ok other → related value other → related' value other) :
    Agrees bench session result related' where
  makes heq := (h.makes heq).mono fun value hvalue => himp value _ heq hvalue
  fails heq := h.fails heq

theorem Agrees.map {f : β → δ} {other : α → δ → Prop} (h : Agrees bench session result related)
    (himp : ∀ value found, result = .ok found → related value found → other value (f found)) :
    Agrees bench session (f <$> result) other := by
  cases result with
  | error error => exact .error (h.fails rfl)
  | ok found => exact .ok ((h.makes rfl).mono fun value hvalue => himp value found rfl hvalue)

end Rules

/-- The session has the result, and may leave something on the bench. -/
structure Follows (bench : Bench) (session : Session α) (result : Except SchemaError β)
    (related : α → Bench → β → Prop) : Prop where
  gives : ∀ {found}, result = .ok found →
    Gives bench session fun value later => related value later found
  breaks : ∀ {error}, result = .error error → Breaks bench session (Tells error)

section Following

variable {bench : Bench} {session : Session α} {result : Except SchemaError β}
  {related : α → Bench → β → Prop} {next : α → Session γ} {further : β → Except SchemaError δ}
  {last : γ → Bench → δ → Prop}

theorem Follows.ok {found : β}
    (h : Gives bench session fun value later => related value later found) :
    Follows bench session (.ok found) related where
  gives heq := by
    cases heq
    exact h
  breaks heq := by cases heq

theorem Follows.error {error : SchemaError} (h : Breaks bench session (Tells error)) :
    Follows bench session (.error error) related where
  gives heq := by cases heq
  breaks heq := by
    cases heq
    exact h

theorem Agrees.follows {related : α → β → Prop} (h : Agrees bench session result related) :
    Follows bench session result fun value later found => later = bench ∧ related value found where
  gives heq := h.makes heq
  breaks heq := (h.fails heq).breaks

theorem Follows.bind (h : Follows bench session result related)
    (hnext : ∀ value later found, result = .ok found → related value later found →
      Follows later (next value) (further found) last) :
    Follows bench (session >>= next) (result >>= further) last := by
  cases result with
  | error error => exact .error (h.breaks rfl).bind
  | ok found =>
    constructor
    · intro final hfinal
      exact (h.gives rfl).bind fun value later hvalue =>
        (hnext value later found rfl hvalue).gives hfinal
    · intro error herror
      exact (h.gives rfl).bindBreaks fun value later hvalue =>
        (hnext value later found rfl hvalue).breaks herror

/-- A session that leaves nothing comes first. -/
theorem Agrees.bindFollows {given : α → β → Prop} (h : Agrees bench session result given)
    (hnext : ∀ value found, result = .ok found → given value found →
      Follows bench (next value) (further found) last) :
    Follows bench (session >>= next) (result >>= further) last := by
  refine h.follows.bind ?_
  rintro value later found hfound ⟨rfl, hvalue⟩
  exact hnext value found hfound hvalue

/-- A step that cannot fail comes last. -/
theorem Agrees.bindGives {given : α → β → Prop} {last : γ → Bench → β → Prop}
    (h : Agrees bench session result given)
    (hnext : ∀ value found, result = .ok found → given value found →
      Gives bench (next value) fun value later => last value later found) :
    Follows bench (session >>= next) result last where
  gives heq := (h.makes heq).bindGives fun value hvalue => hnext value _ heq hvalue
  breaks heq := (h.fails heq).breaks.bind

theorem Makes.bindFollows {holds : α → Prop} {result : Except SchemaError δ}
    (h : Makes bench session holds)
    (hnext : ∀ value, holds value → Follows bench (next value) result last) :
    Follows bench (session >>= next) result last where
  gives heq := h.bindGives fun value hvalue => (hnext value hvalue).gives heq
  breaks heq := Gives.bindBreaks h fun value later hvalue => by
    obtain ⟨rfl, hvalue⟩ := hvalue
    exact (hnext value hvalue).breaks heq

theorem Follows.get_bind {k : Bench → Session α}
    (h : ∀ age, Follows bench (k (bench.aged age)) result related) :
    Follows bench (get >>= k) result related where
  gives heq := Gives.get_bind fun age => (h age).gives heq
  breaks heq := Breaks.get_bind fun age => (h age).breaks heq

end Following

section Lists

variable {bench : Bench} {given : α → β → Prop} {items : List α} {others : List β}

theorem Agrees.mapM {make : α → Session γ} {read : β → Except SchemaError δ}
    {related : γ → δ → Prop} (hitems : List.Forall₂ given items others)
    (h : ∀ item other, given item other → Agrees bench (make item) (read other) related) :
    Agrees bench (items.mapM make) (others.mapM read) (List.Forall₂ related) := by
  induction hitems with
  | nil => exact .pure .nil
  | cons hitem hitems ih =>
    rw [List.mapM_cons, List.mapM_cons]
    refine (h _ _ hitem).bind fun value found _ hvalue => ?_
    exact ih.bind fun values founds _ hvalues => .pure (.cons hvalue hvalues)

/-- What is made of each item goes with a check of the other. -/
theorem Agrees.mapM_forM {make : α → Session γ} {check : β → Except SchemaError Unit}
    {related : γ → β → Prop} (hitems : List.Forall₂ given items others)
    (h : ∀ item other, given item other →
      Agrees bench (make item) (check other) fun value _ => related value other) :
    Agrees bench (items.mapM make) (others.forM check)
      fun values _ => List.Forall₂ related values others := by
  rw [List.forM_eq_forM]
  induction hitems with
  | nil => exact .pure .nil
  | cons hitem hitems ih =>
    rw [List.mapM_cons, List.forM_cons]
    refine (h _ _ hitem).bind fun value _ _ hvalue => ?_
    exact ih.bindMakes fun values _ _ hvalues => Makes.pure (.cons hvalue hvalues)

theorem Agrees.forM {act : α → Session Unit} {check : β → Except SchemaError Unit}
    (hitems : List.Forall₂ given items others)
    (h : ∀ item other, given item other → Agrees bench (act item) (check other) fun _ _ => True) :
    Agrees bench (items.forM act) (others.forM check) fun _ _ => True := by
  rw [List.forM_eq_forM, List.forM_eq_forM]
  induction hitems with
  | nil => exact .pure trivial
  | cons hitem hitems ih =>
    rw [List.forM_cons, List.forM_cons]
    exact (h _ _ hitem).bind fun _ _ _ _ => ih

theorem Agrees.foldlM {σ τ : Type} {step : σ → α → Session σ}
    {stride : τ → β → Except SchemaError τ} {related : σ → τ → Prop}
    (hitems : List.Forall₂ given items others)
    (h : ∀ state other item found, given item found → related state other →
      Agrees bench (step state item) (stride other found) related)
    {state : σ} {other : τ} (hstate : related state other) :
    Agrees bench (items.foldlM step state) (others.foldlM stride other) related := by
  induction hitems generalizing state other with
  | nil => exact .pure hstate
  | cons hitem hitems ih =>
    rw [List.foldlM_cons, List.foldlM_cons]
    exact (h _ _ _ _ hitem hstate).bind fun state other _ hstate => ih hstate

end Lists

/-! Failures -/

section Failures

variable {bench : Bench}

theorem misuse_fails (message : Text) :
    Fails bench (misuse message : Session α) (· = .fault .misuse message) :=
  fun _ age => ⟨_, age, rfl, rfl⟩

theorem fail_fails (message : Text) :
    Fails bench (fail message : Session α) fun failure => ∃ id map, failure =
      .error (.error id false [.text message, .null, .null, .null, .null, .map map []] .null) :=
  fun _ _ => ⟨_, _, rfl, _, _, rfl⟩

theorem failSchema_fails (error : SchemaError) :
    Fails bench (failSchema error : Session α) (Tells error) := by
  rw [failSchema]
  by_cases hreport : error.isReport = true
  · rw [if_pos hreport]
    refine (fail_fails _).mono ?_
    rintro _ ⟨id, map, rfl⟩
    exact .report hreport id map
  · rw [if_neg hreport]
    refine (misuse_fails _).mono ?_
    rintro _ rfl
    exact .fault (Bool.eq_false_iff.mpr hreport)

theorem run_tryCatch {session : Session α} {handle : Failure → Session α}
    {evaluate : Expr → Step Datum} {before later : Bench} {value : α}
    (h : session evaluate before = (.ok value, later)) :
    tryCatch session handle evaluate before = (.ok value, later) := by
  simp only [tryCatch, tryCatchThe, MonadExceptOf.tryCatch, ExceptT.tryCatch, ExceptT.mk, bind,
    StateT.bind, h]
  rfl

theorem run_tryCatch_error {session : Session α} {handle : Failure → Session α}
    {evaluate : Expr → Step Datum} {before later : Bench} {failure : Failure}
    (h : session evaluate before = (.error failure, later)) :
    tryCatch session handle evaluate before = handle failure evaluate later := by
  simp only [tryCatch, tryCatchThe, MonadExceptOf.tryCatch, ExceptT.tryCatch, ExceptT.mk, bind,
    StateT.bind, h]

theorem Makes.tryCatch {session : Session α} {handle : Failure → Session α} {holds : α → Prop}
    (h : Makes bench session holds) : Makes bench (tryCatch session handle) holds := by
  intro evaluate age
  obtain ⟨value, left, later, hrun, hholds⟩ := h evaluate age
  exact ⟨value, left, later, run_tryCatch hrun, hholds⟩

theorem Fails.tryCatch {session : Session α} {handle : Failure → Session α}
    {holds holds' : Failure → Prop} (h : Fails bench session holds)
    (hhandle : ∀ failure, holds failure → Fails bench (handle failure) holds') :
    Fails bench (tryCatch session handle) holds' := by
  intro evaluate age
  obtain ⟨failure, later, hrun, hholds⟩ := h evaluate age
  obtain ⟨told, last, hhandled, htold⟩ := hhandle failure hholds evaluate later
  exact ⟨told, last, (run_tryCatch_error hrun).trans hhandled, htold⟩

theorem partComplaint_message (owner : String) (part : Part) (error : SchemaError) :
    partComplaint owner part error.message =
      Text.ofString (SchemaError.unresolved owner part error).message := by
  have hmessage : (SchemaError.unresolved owner part error).message =
      owner ++ " " ++ part.text ++ " cannot be resolved. " ++ error.message := rfl
  rw [hmessage, Text.ofString_append, Text.ofString_append, Text.ofString_append,
    Text.ofString_append, partComplaint]

theorem print_error (message : Text) (id map : Nat) :
    Makes bench (print (.error id false
      [.text message, .null, .null, .null, .null, .map map []] .null)) (· = message) :=
  Makes.get_bind fun _ => Makes.pure (by
    simp [Bench.print, Bench.render, Datum.printedError, Datum.printedPlaces, separated])

/-- What goes wrong with a part of a type is told as the definitions tell it. -/
theorem tellingPart_agrees {step : Session Datum} {result : Except SchemaError β}
    {related : Datum → β → Prop} (h : Agrees bench step result related) (owner : String)
    (part : Part) :
    Agrees bench (tellingPart owner part step) (result.mapError (.unresolved owner part))
      related := by
  rw [tellingPart]
  cases result with
  | ok value => exact .ok (h.makes rfl).tryCatch
  | error error =>
    have hsame : (SchemaError.unresolved owner part error).isReport = error.isReport := rfl
    refine .error ((h.fails rfl).tryCatch fun failure hfailure => ?_)
    cases hfailure with
    | fault hreport =>
      refine (misuse_fails _).mono ?_
      rintro _ rfl
      rw [partComplaint_message]
      exact .fault (hsame.trans hreport)
    | report hreport id map =>
      refine (print_error _ id map).bindFails fun text htext => (fail_fails _).mono ?_
      rintro _ ⟨id, map, rfl⟩
      rw [htext, partComplaint_message]
      exact .report (hsame.trans hreport) id map

theorem checkNameOf_agrees (name : Text) :
    Agrees bench (checkNameOf (.text name)) ((checkName name).mapError .badName)
      fun value _ => value = name.toString?.getD "" := by
  rw [checkNameOf]
  cases checkName name with
  | ok value => exact .pure rfl
  | error fault =>
    refine .error ((fail_fails _).mono ?_)
    rintro _ ⟨id, map, rfl⟩
    exact .report rfl id map

theorem discard_bind (session : Session α) (next : Unit → Session β) :
    (discard session >>= next) = session >>= fun _ => next () := by
  have hmap : discard session = (fun _ => ()) <$> session := rfl
  rw [hmap, bind_map_left]

end Failures

end QueryLint.Workbench
