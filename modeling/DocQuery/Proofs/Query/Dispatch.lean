import DocQuery.Proofs.Query.Narrowing

/-!
# What is sent, and when

A step computes its calls before it sends the first one. Where that fails, nothing is sent; else the
calls go out in turn up to one that the store refuses: `Run.Dispatches`. That holds of reading all
rows, of every write that updates and of deleting: `dispatches_compiled`.
-/

namespace DocQuery

namespace Run
variable {σ α β : Type} {a : σ} {failure : Option Failure}

/-- What comes of an action from what comes of computing its calls: the fault, with nothing sent, or
the calls that are delivered, with the error of the one that is refused. -/
def Dispatches (failure : Option Failure) (sent : Except Fault (List Call))
    (outcome : Except Fault α × Session σ) : Prop :=
  match sent with
  | .error fault => outcome.2.calls = [] ∧ outcome.1 = .error fault
  | .ok cs => outcome.2.calls = (delivered failure true cs).1 ∧
      ∀ e, (delivered failure true cs).2 = some e → outcome.1 = .error (.raised e)

theorem Dispatches.map {sent : Except Fault (List Call)} {x : Except Fault α} {s : Session σ}
    (h : Dispatches failure sent (x, s)) (f : α → β) : Dispatches failure sent (x.map f, s) := by
  cases sent with
  | error fault =>
    obtain ⟨hcalls, hx⟩ := h
    obtain rfl : x = .error fault := hx
    exact ⟨hcalls, rfl⟩
  | ok cs =>
    refine ⟨h.1, fun e he => ?_⟩
    obtain rfl : x = .error (.raised e) := h.2 e he
    rfl

/-- A computation of the action is one of its calls, as long as nothing has been sent. -/
theorem dispatches_orFail {x : Except Fault β} {f : β → Run σ α}
    {g : β → Except Fault (List Call)}
    (h : ∀ b, x = .ok b → Dispatches failure (g b) ((f b).run { subject := a })) :
    Dispatches failure (x >>= g) ((orFail x >>= f).run { subject := a }) := by
  rw [run_bind, run_orFail]
  cases x with
  | error fault => exact ⟨rfl, rfl⟩
  | ok b => exact h b rfl

/-- One call, after which nothing more is sent. -/
theorem dispatches_call {c : Call} {rest : Run σ α}
    (h : ∀ cs, Keeps (fun s => s.calls = cs) rest) :
    Dispatches failure (.ok [c]) ((call failure c >>= fun _ => rest).run { subject := a }) := by
  show _ = (delivered failure true [c]).1 ∧ ∀ e, (delivered failure true [c]).2 = some e → _
  have hstart : ({ subject := a } : Session σ).calls.isEmpty = true := rfl
  rw [delivered_single, run_bind, run_call, hstart]
  cases hrefused : refusal? failure c true with
  | some e =>
    refine ⟨rfl, fun e' he => ?_⟩
    obtain rfl : e = e' := Option.some.inj he
    rfl
  | none => exact ⟨(h [c]).afterwards rfl, nofun⟩

end Run

open Run

variable {q : Query} {r : Replies} {columns id : Value} {w : Write}
  {document : Except Fault Entries}
  {given update rest : Entries} {multiple : Bool}

theorem names_of_optionWhenSet (name : Text) (v : Value) :
    ∀ e ∈ optionWhenSet name v, e.1.isText = true := by
  intro e he
  unfold optionWhenSet at he
  split at he
  · rw [List.mem_singleton.mp he]
    rfl
  · exact absurd he List.not_mem_nil

theorem names_of_findOptions {s : Shape} {options : Entries}
    (hs : ∀ given, s.options.toEntries = .ok given → ∀ e ∈ given, e.1.isText = true)
    (h : findOptions s = .ok options) : ∀ e ∈ options, e.1.isText = true := by
  obtain ⟨_, pairs, own, -, -, hown, rfl⟩ := exists_parts_of_findOptions h
  refine Entries.forall_key_update (P := fun v => v.isText = true) ?_ (hs own hown)
  simp only [plannedOptions, List.mem_append]
  rintro e ((((he | he) | he) | he) | he) <;> exact names_of_optionWhenSet _ _ e he

theorem Query.options_of_shape {s : Shape} (h : q.shape columns = .ok s) :
    s.options = .map q.options := by
  unfold shape at h
  split at h <;> obtain ⟨selected, -, h⟩ := bind_eq_ok_iff.mp h <;> cases h <;> rfl

/-- A plan is sent with the caller's options and with named ones. -/
theorem names_of_plan {p : Plan} (ho : ∀ e ∈ q.options, e.1.isText = true)
    (hp : q.plan columns = .ok p) : ∀ e ∈ p.options, e.1.isText = true := by
  obtain ⟨s, hs, hp⟩ := bind_eq_ok_iff.mp hp
  obtain ⟨f, -, hp⟩ := bind_eq_ok_iff.mp hp
  have hgiven : ∀ given, s.options.toEntries = .ok given → ∀ e ∈ given, e.1.isText = true := by
    rw [Query.options_of_shape hs]
    rintro given ⟨⟩
    exact Entries.forall_key_update (P := fun v => v.isText = true) (by simp) ho
  rcases plan_cases hp with ⟨stages, options, -, -, hoptions, rfl⟩ | ⟨-, -, rfl⟩ |
    ⟨options, -, -, hoptions, rfl⟩
  · exact hgiven options hoptions
  · simp [Plan.options]
  · exact names_of_findOptions hgiven hoptions

/-- Reading all rows runs the plan, and nothing where there is none. -/
theorem dispatches_rows (ho : ∀ e ∈ q.options, e.1.isText = true) (columns : Value) :
    Dispatches r.failure (do return (← q.plan columns).calls)
      ((Read.rows r columns).run { subject := q }) := by
  refine dispatches_orFail (f := Read.execute r) fun p hp => ?_
  obtain ⟨logs, hrun⟩ := Read.run_execute (r := r) (names_of_plan ho hp) { subject := q }
  rw [hrun]
  refine ⟨rfl, fun e he => ?_⟩
  show unlessRefused (delivered r.failure true p.calls).2 _ = _
  rw [he]
  rfl

theorem rows_of_get {p : Plan} {rows : List Value} (ho : ∀ e ∈ q.options, e.1.isText = true)
    (hp : q.plan columns = .ok p) (hr : (delivered r.failure true p.calls).2 = none)
    (hrows : r.rows = .list rows) :
    ((Step.read (.get columns)).run r q).answer = .ok (.value (.list rows)) := by
  have hget : ((Read.get columns).run r).run { subject := q } = _ :=
    run_bind_pure (Read.rows r columns) Value.list { subject := q }
  obtain ⟨logs, hread⟩ := @Read.run_rows r columns p { subject := q } hp (names_of_plan ho hp)
  rw [Step.run_read, hget, hread, hrows]
  show ((unlessRefused (delivered r.failure true p.calls).2 _).map _).map _ = _
  rw [hr]
  rfl

/-! ### Writes -/

/-- A write that updates, with the update document that it makes and the options that it is given,
each name once. -/
inductive Write.Updates : Write → Except Fault Entries → Entries → Prop
  | update (values : Value) (es : Entries) :
      Updates (.update values (.map es)) (setUpdate values) (.ofList es)
  | increment (column amount extra : Value) (es : Entries) :
      Updates (.increment column amount extra (.map es))
        ((Increment.add column amount extra).map (·.update)) (.ofList es)
  | decrement (column amount extra : Value) (es : Entries) :
      Updates (.decrement column amount extra (.map es))
        ((Increment.subtract column amount extra).map (·.update)) (.ofList es)
  | push (column value unique : Value) :
      Updates (.push column value unique) (arrayInsert column value unique.truthy) []
  | pull (column value : Value) : Updates (.pull column value) (arrayRemove column value) []
  | unset (columns : Value) : Updates (.unset columns) (unsetUpdate columns) []

/-- The query that a write sends from, and leaves behind. -/
def Write.leaves (q : Query) : Write → Query
  | increment column .. | decrement column .. => q.addPredicate (Increment.guardOf column)
  | delete id => if id.isNull then q else q.addPredicate (idPredicate id)
  | _ => q

theorem hasKey_erase (es : Entries) (k : Value) :
    Entries.hasKey (Entries.erase es k) k = false := by
  refine Entries.hasKey_eq_false_iff.mpr fun e he => ?_
  simpa using (List.mem_filter.mp he).2

theorem names_of_erase {k : Value} (h : ∀ e ∈ given, e.1.isText = true) :
    ∀ e ∈ Entries.erase given k, e.1.isText = true :=
  fun e he => h e (List.mem_filter.mp he).1

/-- Whether a write changes every document: unless it is told otherwise. -/
def changesAll (given : Entries) : Bool :=
  ((Entries.get? given multipleKey).getD (.bool true)).truthy

theorem changesAll_eq_false_iff :
    changesAll given = false ↔ ∃ v, Entries.get? given multipleKey = some v ∧ v.truthy = false := by
  unfold changesAll
  cases Entries.get? given multipleKey with
  | none => simp [Value.truthy]
  | some v => simp

theorem splitMultiple_map (es : Entries) : splitMultiple (.map es) =
    .ok (changesAll (.ofList es), Entries.erase (.ofList es) multipleKey) := by
  cases es <;> rfl

theorem keeps_calls_logUnacknowledged (cs : List Call) (write : Text) :
    Keeps (fun s => s.calls = cs) (logUnacknowledged write) :=
  .bind (Triple.subject.weaken (fun _ hs => hs) (fun _ _ hs => hs.1) fun _ hs => hs) fun _ =>
    keeps_bind (keeps_orFail _) fun _ => .logNamed fun _ _ hs => hs

theorem dispatches_perform {options : Value} (hsplit : splitMultiple options = .ok (multiple, rest))
    (hrest : ∀ e ∈ rest, e.1.isText = true) :
    Dispatches r.failure (do return [updateCall multiple (← q.filter) update rest])
      ((Write.perform r update options).run { subject := q }) := by
  have hrun : (Write.perform r update options).run { subject := q } =
      (do
        let f ← orFail q.filter
        checkOptionNames rest
        call r.failure (updateCall multiple f update rest)
        if r.result.acknowledged.truthy then orFail (Write.changed r.result)
        else
          logUnacknowledged "update"
          pure (.int 0) : Run Query Value).run { subject := q } := by
    rw [Write.perform, run_bind, run_orFail, hsplit]
    rfl
  rw [hrun]
  refine dispatches_orFail fun f _ => ?_
  rw [run_bind, run_checkOptionNames hrest]
  refine dispatches_call fun cs => ?_
  split
  · exact keeps_orFail _
  · exact keeps_bind (keeps_calls_logUnacknowledged cs _) fun _ => keeps_pure _

/-- An increment goes from the query with its guard. -/
theorem dispatches_guarded {x : Except Fault Increment} {column options : Value}
    (hx : ∀ i, x = .ok i → i.guard = Increment.guardOf column)
    (hsplit : splitMultiple options = .ok (multiple, rest))
    (hrest : ∀ e ∈ rest, e.1.isText = true) :
    Dispatches r.failure (do
        let u ← x.map (·.update)
        let f ← (q.addPredicate (Increment.guardOf column)).filter
        return [updateCall multiple f u rest])
      ((do Write.performGuarded r (← orFail x) options).run { subject := q }) := by
  have hmap : ∀ g : Entries → Except Fault (List Call),
      (x.map (·.update) >>= g) = x >>= fun i => g i.update := fun g => by cases x <;> rfl
  rw [hmap]
  refine dispatches_orFail fun i hi => ?_
  rw [← hx i hi]
  exact dispatches_perform hsplit hrest

theorem dispatches_update (hw : w.Updates document given)
    (hnames : ∀ e ∈ given, e.1.isText = true) :
    Dispatches r.failure (do
        let u ← document
        let f ← (w.leaves q).filter
        return [updateCall (changesAll given) f u (Entries.erase given multipleKey)])
      ((w.run r).run { subject := q }) := by
  have hrest := names_of_erase (k := multipleKey) hnames
  cases hw with
  | update values es =>
    exact dispatches_orFail fun u _ => dispatches_perform (splitMultiple_map es) hrest
  | increment column amount extra es =>
    exact dispatches_guarded (fun _ => guard_of_add) (splitMultiple_map es) hrest
  | decrement column amount extra es =>
    exact dispatches_guarded (fun _ => guard_of_subtract) (splitMultiple_map es) hrest
  | push column value unique =>
    exact dispatches_orFail fun u _ => dispatches_perform rfl hrest
  | pull column value =>
    exact dispatches_orFail fun u _ => dispatches_perform rfl hrest
  | unset columns =>
    exact dispatches_orFail fun u _ => dispatches_perform rfl hrest

theorem dispatches_delete (id : Value) :
    Dispatches r.failure (do return [deleteCall (← ((Write.delete id).leaves q).filter)])
      (((Write.delete id).run r).run { subject := q }) := by
  have hrun : ((Write.delete id).run r).run { subject := q } =
      (do
        let f ← orFail ((Write.delete id).leaves q).filter
        call r.failure (deleteCall f)
        if r.result.acknowledged.truthy then return .int (← orFail r.result.deleted.toInteger)
        else
          logUnacknowledged "delete"
          pure (.int 0) : Run Query Value).run { subject := (Write.delete id).leaves q } := rfl
  rw [hrun]
  refine dispatches_orFail fun f _ => dispatches_call fun cs => ?_
  split
  · exact keeps_bind (keeps_orFail _) fun _ => keeps_pure _
  · exact keeps_bind (keeps_calls_logUnacknowledged cs _) fun _ => keeps_pure _

theorem subject_of_update {u : Entries} (hw : w.Updates document given) (hu : document = .ok u) :
    ((Step.write w).run r q).session.subject = w.leaves q := by
  rw [Step.subject_write]
  cases hw with
  | increment column amount extra es =>
    obtain ⟨i, hi, -⟩ := map_eq_ok_iff.mp hu
    rw [Write.after, Write.added?, hi, Write.leaves, ← guard_of_add hi]
    rfl
  | decrement column amount extra es =>
    obtain ⟨i, hi, -⟩ := map_eq_ok_iff.mp hu
    rw [Write.after, Write.added?, hi, Write.leaves, ← guard_of_subtract hi]
    rfl
  | update | push | pull | unset => rfl

theorem subject_of_delete (id : Value) :
    ((Step.write (.delete id)).run r q).session.subject = (Write.delete id).leaves q := by
  rw [Step.subject_write, Write.after, Write.added?, Write.leaves]
  cases id.isNull <;> rfl

/-! ### Nothing is sent before everything is compiled -/

/-- Nothing reaches the store where the plan, the update document or the filter cannot be had, and
one operation does where they can. -/
theorem dispatches_compiled (ho : ∀ e ∈ q.options, e.1.isText = true) :
    (∀ columns : Value,
      let outcome := (Step.read (.get columns)).run r q
      Dispatches r.failure (do return (← q.plan columns).calls) (outcome.answer, outcome.session) ∧
        ∀ p rows, q.plan columns = .ok p → (delivered r.failure true p.calls).2 = none →
          r.rows = .list rows → outcome.answer = .ok (.value (.list rows))) ∧
    (∀ w document given, w.Updates document given → (∀ e ∈ given, e.1.isText = true) →
      let outcome := (Step.write w).run r q
      (∀ u, document = .ok u → outcome.session.subject = w.leaves q) ∧
        ∃ multiple rest,
          (multiple = false ↔
            ∃ v, Entries.get? given multipleKey = some v ∧ v.truthy = false) ∧
          rest = Entries.erase given multipleKey ∧ Entries.hasKey rest multipleKey = false ∧
          Dispatches r.failure (do
            let u ← document
            let f ← (w.leaves q).filter
            return [updateCall multiple f u rest]) (outcome.answer, outcome.session)) ∧
    ∀ id : Value,
      let outcome := (Step.write (.delete id)).run r q
      outcome.session.subject = (Write.delete id).leaves q ∧
        Dispatches r.failure (do return [deleteCall (← ((Write.delete id).leaves q).filter)])
          (outcome.answer, outcome.session) := by
  refine ⟨fun columns => ⟨?_, fun p rows hp hr hrows => rows_of_get ho hp hr hrows⟩,
    fun w document given hw hnames => ⟨fun u hu => subject_of_update hw hu, ?_⟩,
    fun id => ⟨subject_of_delete id, ?_⟩⟩
  · have hget : ((Read.get columns).run r).run { subject := q } = _ :=
      run_bind_pure (Read.rows r columns) Value.list { subject := q }
    rw [Step.run_read, hget]
    exact ((dispatches_rows ho columns).map _).map _
  · refine ⟨changesAll given, _, changesAll_eq_false_iff, rfl, hasKey_erase _ _, ?_⟩
    rw [Step.run_write]
    exact (dispatches_update hw hnames).map _
  · rw [Step.run_write]
    exact (dispatches_delete id).map _

/-- Rows that are read, an increment of one document that the store refuses, and a fetch that it
refuses where the rows would be fetched. -/
theorem dispatches_compiled_refused :
    let e : StoreError := default
    let q : Query :=
      { collection := {}
        predicates := [.basic (.text "a") (.text "=") (.int 1)]
        options := [(.text "hint", .int 1)] }
    let p : Plan := .find (.map [(.text "a", .int 1)]) q.options
    let row : Value := .map [(.text "n", .int 1)]
    let get : Step := .read (.get .null)
    let add : Step :=
      .write (.increment (.text "n") (.int 1) .null (.map [(multipleKey, .bool false)]))
    let read := get.run { rows := .list [row] } q
    let fetched := get.run { failure := some { error := e, call := some "to_list" } } q
    let added := add.run { failure := some { error := e } } q
    (read.session.calls = [p.call, fetchCall] ∧ read.answer = .ok (.value (.list [row]))) ∧
      (fetched.session.calls = [p.call, fetchCall] ∧ fetched.answer = .error (.raised e)) ∧
      ∃ f u, added.session.subject.filter = .ok f ∧
        added.session.calls = [updateCall false f u []] ∧ added.answer = .error (.raised e) := by
  intro e q p row get add read fetched added
  have hname : ∀ (name : Text) (v : Value), ∀ entry ∈ [(Value.text name, v)],
      entry.1.isText = true := by
    intro name v entry h
    rw [List.mem_singleton.mp h]
    rfl
  have ho : ∀ entry ∈ q.options, entry.1.isText = true := hname "hint" _
  obtain ⟨hget, -, -⟩ := @dispatches_compiled q { rows := .list [row] } ho
  obtain ⟨hget', -, -⟩ :=
    @dispatches_compiled q { failure := some { error := e, call := some "to_list" } } ho
  obtain ⟨-, hupdate, -⟩ := @dispatches_compiled q { failure := some { error := e } } ho
  refine ⟨⟨(hget .null).1.1, (hget .null).2 p [row] rfl rfl rfl⟩,
    ⟨(hget' .null).1.1, (hget' .null).1.2 e rfl⟩, ?_⟩
  obtain ⟨hsubject, multiple, rest, hmultiple, rfl, -, hsent⟩ := hupdate _ _ _
    (.increment (.text "n") (.int 1) .null [(multipleKey, .bool false)]) (hname "multiple" _)
  obtain rfl : multiple = false := hmultiple.mpr ⟨.bool false, rfl, rfl⟩
  refine ⟨_, _, ?_, hsent.1, hsent.2 e rfl⟩
  rw [hsubject _ rfl]
  rfl

end DocQuery
