import DocQuery.Proofs.Fallible
import DocQuery.Proofs.Session
import DocQuery.Query.Step

/-!
# What reads and writes keep

Invariants of the query and of the calls of a session under the actions that reads and writes are
made of. Reading rows (`keeps_rows`) and updating (`keeps_perform`) leave the query as it is, and
send calls that are made of its plan and of its filter. A plan is sent as its calls in turn
(`execute_eq`), and what comes of that is in `run_rows`.
-/

namespace DocQuery

/-- The call that sends a plan. -/
def Plan.call : Plan → Call
  | .find filter options => { name := "find", arguments := [filter], options }
  | .distinct key filter =>
    { name := "distinct", arguments := if filter.truthy then [key, filter] else [key] }
  | .aggregate stages options =>
    { name := "aggregate", arguments := [.list (stages.map Stage.toValue)], options }

/-- The call that fetches the rows. -/
def fetchCall : Call :=
  { name := "to_list", options := Entries.single "length" .null }

/-- The calls of a plan: distinct values come with the first, other rows are fetched by a second. -/
def Plan.calls (p : Plan) : List Call :=
  match p with
  | .distinct .. => [p.call]
  | .find .. | .aggregate .. => [p.call, fetchCall]

/-- The options that a plan is sent with. -/
def Plan.options : Plan → Entries
  | .find _ options | .aggregate _ options => options
  | .distinct .. => []

/-- The call that sends an update. -/
def updateCall (multiple : Bool) (filter update options : Entries) : Call :=
  { name := if multiple then "update_many" else "update_one"
    arguments := [.map filter, .map update], options }

/-- The call that sends a delete. -/
def deleteCall (filter : Entries) : Call :=
  { name := "delete_many", arguments := [.map filter] }

open Run

variable {I : Query → Prop} {C : Call → Prop} {r : Replies}

/-- What an action leaves behind, whether or not it fails, is there after its step. -/
theorem Step.session_of_triple {step : Step} {q : Query} {P R : Session Query → Prop}
    (h : Triple P (step.action r) (fun _ => R) R) (hq : P { subject := q }) :
    R (step.run r q).session :=
  h.afterwards hq

theorem Step.run_of_action {step : Step} {a : Run Query Value}
    (ha : step.action r = do return .value (← a)) (q : Query) :
    step.run r q = { answer := (a.run { subject := q }).1.map .value
                     session := (a.run { subject := q }).2 } := by
  unfold Step.run
  rw [ha, run_bind_pure]

theorem Step.run_read (what : Read) (r : Replies) (q : Query) :
    (Step.read what).run r q =
      { answer := ((what.run r).run { subject := q }).1.map .value
        session := ((what.run r).run { subject := q }).2 } :=
  Step.run_of_action rfl q

theorem Step.run_write (what : Write) (r : Replies) (q : Query) :
    (Step.write what).run r q =
      { answer := ((what.run r).run { subject := q }).1.map .value
        session := ((what.run r).run { subject := q }).2 } :=
  Step.run_of_action rfl q

theorem Step.run_refine (change : Refinement) (r : Replies) (q : Query) :
    (Step.refine change).run r q =
      { answer := match (change.apply q).fault with
          | some fault => .error fault
          | none => .ok .itself
        session := { subject := (change.apply q).query } } := by
  have hrun : ((Step.refine change).action r).run { subject := q } =
      (match (change.apply q).fault with
        | some fault => throw fault
        | none => pure .itself : Run Query Answer).run { subject := (change.apply q).query } := rfl
  unfold Step.run
  rw [hrun]
  cases (change.apply q).fault <;> rfl

namespace Read

/-- The kinds of plans differ in their calls only. -/
theorem execute_eq (r : Replies) (p : Plan) :
    execute r p = (do
      logPlan p
      checkOptionNames p.options
      p.calls.forM (call r.failure)
      orFail r.rows.items) := by
  have htwo : ∀ c d : Call, [c, d].forM (call r.failure) =
      (call r.failure c >>= fun _ => call r.failure d : Run Query Unit) := fun c d => by
    show (call r.failure c >>= fun _ => call r.failure d >>= fun _ => pure ()) = _
    simp only [bind_pure_unit]
  cases p with
  | find filter options =>
    simp only [Plan.calls, htwo, bind_assoc]
    rfl
  | distinct key filter =>
    have hone : ∀ c : Call, [c].forM (call r.failure) = (call r.failure c : Run Query Unit) :=
      fun c => bind_pure_unit
    simp only [Plan.calls, hone]
    rfl
  | aggregate stages options =>
    simp only [Plan.calls, htwo, bind_assoc]
    rfl

theorem keeps_execute {p : Plan} (hfetch : C fetchCall) (hp : C p.call) :
    Keeps (Upholds I C) (execute r p) := by
  have hcalls : ∀ c ∈ p.calls, C c := by
    cases p <;> simp [Plan.calls, hfetch, hp]
  rw [execute_eq]
  refine keeps_bind (keeps_subject_bind fun _ _ => keeps_logNamed _ _ _) fun _ => ?_
  refine keeps_bind (keeps_checkOptionNames _) fun _ => ?_
  exact keeps_bind (keeps_calls hcalls) fun _ => keeps_orFail _

theorem keeps_rows {columns : Value} (hfetch : C fetchCall)
    (hplan : ∀ q p, I q → q.plan columns = .ok p → C p.call) :
    Keeps (Upholds I C) (rows r columns) :=
  keeps_subject_bind fun q hq => keeps_orFail_bind fun p hp =>
    keeps_execute hfetch (hplan q p hq hp)

theorem keeps_firstRow {columns : Value} (hfetch : C fetchCall)
    (hplan : ∀ q p, I q → q.plan columns = .ok p → C p.call)
    (htake : ∀ q q', I q → q.take (.int 1) = .ok q' → I q') :
    Keeps (Upholds I C) (firstRow r columns) :=
  keeps_subject_bind fun q hq => keeps_orFail_bind fun q' hq' =>
    .bind (upholds_setSubject (htake q q' hq hq')) fun _ =>
      keeps_bind (keeps_rows hfetch hplan) fun _ => keeps_pure _

variable {columns : Value} {p : Plan}

theorem run_logPlan (p : Plan) (s : Session Query) :
    ∃ logs, (logPlan p).run s = (.ok (), { s with logs }) := by
  rw [logPlan, run_bind, run_subject]
  exact run_logNamed _ _ _ s

/-- The calls of the plan go out in turn, and the answer is what the store has. -/
theorem run_execute (ho : ∀ e ∈ p.options, e.1.isText = true) (s : Session Query) :
    ∃ logs, (execute r p).run s =
      (unlessRefused (delivered r.failure s.calls.isEmpty p.calls).2 r.rows.items, { s with
        calls := s.calls ++ (delivered r.failure s.calls.isEmpty p.calls).1
        logs }) := by
  obtain ⟨logs, hlog⟩ := run_logPlan p s
  refine ⟨logs, ?_⟩
  rw [execute_eq, run_bind, hlog]
  show (checkOptionNames p.options >>= fun _ => _).run { s with logs } = _
  rw [run_bind, run_checkOptionNames ho]
  show (p.calls.forM (call r.failure) >>= fun _ => _).run _ = _
  rw [run_bind, run_calls]
  cases (delivered r.failure s.calls.isEmpty p.calls).2 with
  | some e => rfl
  | none => exact run_orFail _ _

theorem run_rows {s : Session Query} (hp : s.subject.plan columns = .ok p)
    (ho : ∀ e ∈ p.options, e.1.isText = true) :
    ∃ logs, (rows r columns).run s =
      (unlessRefused (delivered r.failure s.calls.isEmpty p.calls).2 r.rows.items, { s with
        calls := s.calls ++ (delivered r.failure s.calls.isEmpty p.calls).1
        logs }) := by
  rw [rows, run_bind, run_subject]
  show ∃ logs, (orFail (s.subject.plan columns) >>= execute r).run s = _
  rw [run_bind, run_orFail, hp]
  exact run_execute ho s

/-- What is sent is the plan of the query with the aggregate. The session ends with the query as it
was, but for the aggregate. -/
theorem run_accumulate {q : Query} {function : Value} {vs : List Value}
    (hp : Query.plan { q with aggregate := some { function, columns := vs } } (.list vs) = .ok p)
    (ho : ∀ e ∈ p.options, e.1.isText = true) :
    ∃ logs, (accumulate r function (.list vs)).run { subject := q } =
      (unlessRefused (delivered r.failure true p.calls).2 r.rows.items >>= accumulated,
        { subject := { q with aggregate := none }
          calls := (delivered r.failure true p.calls).1
          logs }) := by
  let asked : Query := { q with aggregate := some { function, columns := vs } }
  obtain ⟨logs, hrows⟩ : ∃ logs, (rows r (.list vs)).run { subject := asked } =
      (unlessRefused (delivered r.failure true p.calls).2 r.rows.items,
        { subject := asked
          calls := (delivered r.failure true p.calls).1
          logs }) := run_rows hp ho
  have hthen := run_andThen (rows r (.list vs))
    (fun s : Query => { s with aggregate := none, columns := q.columns }) { subject := asked }
  rw [hrows] at hthen
  refine ⟨logs, ?_⟩
  rw [accumulate, run_bind]
  show (andThen (rows r (.list vs))
      (fun s : Query => { s with aggregate := none, columns := q.columns }) >>=
    fun found => orFail (accumulated found)).run { subject := asked } = _
  rw [run_bind, hthen]
  cases unlessRefused (delivered r.failure true p.calls).2 r.rows.items with
  | error fault => rfl
  | ok found => exact run_orFail _ _

end Read

namespace Write

theorem keeps_logUnacknowledged (write : Text) :
    Keeps (Upholds I C) (logUnacknowledged write) :=
  keeps_subject_bind fun _ _ => keeps_bind (keeps_orFail _) fun _ => keeps_logNamed _ _ _

theorem keeps_perform {update : Entries} {options : Value}
    (hupdate : ∀ q f, I q → q.filter = .ok f → ∀ multiple options,
      C (updateCall multiple f update options)) :
    Keeps (Upholds I C) (perform r update options) := by
  refine keeps_bind (keeps_orFail _) fun split => keeps_subject_bind fun q hq => ?_
  refine keeps_orFail_bind fun f hf => keeps_bind (keeps_checkOptionNames _) fun _ => ?_
  refine keeps_bind (keeps_call (hupdate q f hq hf split.1 split.2)) fun _ => ?_
  split
  · exact keeps_orFail _
  · exact keeps_bind (keeps_logUnacknowledged _) fun _ => keeps_pure _

/-- A delete from a query that has the predicate of the identifier. -/
theorem upholds_deleteAll {J : Query → Prop} {id : Value}
    (hid : ∀ q, I q → J (if id.isNull then q else q.addPredicate
      (Query.testPredicate (.text "_id") (.text "=") id Predicate.byAnd)))
    (hdelete : ∀ q f, J q → q.filter = .ok f → C (deleteCall f)) :
    Triple (Upholds I C) (deleteAll r id) (fun _ => Upholds J C) (Upholds J C) := by
  refine upholds_change hid fun _ _ => ?_
  refine keeps_subject_bind fun q hq => keeps_orFail_bind fun f hf => ?_
  refine keeps_bind (keeps_call (hdelete q f hq hf)) fun _ => ?_
  split
  · exact keeps_bind (keeps_orFail _) fun _ => keeps_pure _
  · exact keeps_bind (keeps_logUnacknowledged _) fun _ => keeps_pure _

/-! ### The query after a write -/

/-- The guard of an increment, if it can be built. -/
def guard? (x : Except Fault Increment) : Option Predicate :=
  x.toOption.map (·.guard)

theorem exists_of_guard {x : Except Fault Increment} {p : Predicate}
    (h : guard? x = some p) : ∃ i, x = .ok i ∧ i.guard = p := by
  cases x with
  | error => exact nomatch h
  | ok i => exact ⟨i, rfl, Option.some.inj h⟩

/-- The predicate that a write adds to the query: the guard of an increment, or the predicate of a
given identifier. -/
def added? : Write → Option Predicate
  | increment column amount extra _ => guard? (Increment.add column amount extra)
  | decrement column amount extra _ => guard? (Increment.subtract column amount extra)
  | delete id => if id.isNull then none else
    some (Query.testPredicate (.text "_id") (.text "=") id Predicate.byAnd)
  | _ => none

/-- The query after a write. -/
def after (w : Write) (q : Query) : Query :=
  w.added?.elim q q.addPredicate

theorem after_of_none {w : Write} {q : Query} (h : w.added? = none) : w.after q = q := by
  rw [after, h]
  rfl

theorem after_of_some {w : Write} {q : Query} {p : Predicate} (h : w.added? = some p) :
    w.after q = q.addPredicate p := by
  rw [after, h]
  rfl

/-- A write changes the predicates only. -/
theorem exists_after_eq (w : Write) (q : Query) :
    ∃ ps, w.after q = { q with predicates := ps } := by
  cases h : w.added? with
  | none => exact ⟨q.predicates, after_of_none h⟩
  | some p => exact ⟨_, after_of_some h⟩

theorem has_guarded {q : Query} (x : Except Fault Increment) (options : Value) :
    Triple (Has q) (do performGuarded r (← orFail x) options)
      (fun _ => Has ((guard? x).elim q q.addPredicate))
      (Has ((guard? x).elim q q.addPredicate)) := by
  cases x with
  | error fault => exact keeps_throw fault
  | ok i =>
    rw [orFail, pure_bind]
    refine upholds_change (J := (· = q.addPredicate i.guard)) ?_ fun _ _ =>
      keeps_perform fun _ _ _ _ _ _ => trivial
    rintro q rfl
    rfl

/-- The predicate that a write adds stays, whether or not the write succeeds. -/
theorem has_run {q : Query} (w : Write) :
    Triple (Has q) (w.run r) (fun _ => Has (w.after q)) (Has (w.after q)) := by
  have hperform : ∀ update options, Keeps (Has q) (perform r update options) :=
    fun _ _ => keeps_perform fun _ _ _ _ _ _ => trivial
  cases w with
  | insert values =>
    exact keeps_bind (keeps_orFail _) fun _ => keeps_bind (keeps_call trivial) fun _ => keeps_pure _
  | insertGetId values sequence =>
    refine keeps_bind (keeps_orFail _) fun document => keeps_bind (keeps_call trivial) fun _ => ?_
    split
    · split
      · exact keeps_pure _
      · exact keeps_orFail _
    · exact keeps_bind (keeps_logUnacknowledged _) fun _ => keeps_pure _
  | update | push | pull | unset => exact keeps_bind (keeps_orFail _) fun _ => hperform _ _
  | increment | decrement => exact has_guarded _ _
  | delete id =>
    refine upholds_deleteAll (fun q' hq' => ?_) fun _ _ _ _ => trivial
    rw [hq', after, added?]
    cases id.isNull <;> rfl
  | truncate => exact keeps_bind (keeps_call trivial) fun _ => keeps_pure _

end Write

theorem Step.subject_write (w : Write) (r : Replies) (q : Query) :
    ((Step.write w).run r q).session.subject = w.after q := by
  rw [Step.run_write]
  exact ((Write.has_run w).afterwards (upholds_start rfl)).1

end DocQuery
