import DocQuery.Proofs.Query.Frame

/-!
# Whether there are any rows

To ask a query whether it has any rows is to get the rows of the query with a limit of one and to
look at the first of them (`Read.run_any`). What is found is taken for nothing where it begins with
null, as the distinct values of a field may: `any_agrees_iff`.
-/

namespace DocQuery

open Run

variable {q : Query} {r : Replies} {found : List Value} {x : Except Fault (List Value)}

namespace Read

theorem run_firstRow (r : Replies) (columns : Value) (q : Query) :
    let fetched := (rows r columns).run { subject := { q with limit := .int 1 } }
    (firstRow r columns).run { subject := q } = (fetched.1.map (·.headD .null), fetched.2) := by
  intro fetched
  rw [firstRow, run_bind, run_subject]
  show (orFail (q.take (.int 1)) >>= fun limited => _).run { subject := q } = _
  rw [run_bind, run_orFail, Query.take_one]
  exact run_bind_pure (rows r columns) (·.headD .null) _

/-- What is answered by the first of the rows. -/
def isAny (found : List Value) : Bool :=
  !(found.headD .null).isNull

theorem isAny_iff : isAny found = true ↔ found ≠ [] ∧ found.head? ≠ some .null := by
  cases found with
  | nil => simp [isAny, Value.isNull]
  | cons v found => cases v <;> simp [isAny, Value.isNull]

/-- Only a null at the head is taken for nothing. -/
theorem isAny_iff_ne_nil : (isAny found = true ↔ found ≠ []) ↔ found.head? ≠ some .null := by
  rw [isAny_iff]
  refine ⟨fun hiff hnull => ?_, fun hnull => ⟨fun h => h.1, fun h => ⟨h, hnull⟩⟩⟩
  have hne : found ≠ [] := by
    rintro rfl
    exact nomatch hnull
  exact (hiff.mpr hne).2 hnull

theorem run_any (r : Replies) (q : Query) :
    let fetched := (rows r .null).run { subject := { q with limit := .int 1 } }
    (Read.any.run r).run { subject := q } =
      (fetched.1.map fun found => .bool (isAny found), fetched.2) := by
  intro fetched
  have hany : (Read.any.run r).run { subject := q } = _ :=
    run_bind_pure (firstRow r .null) (fun row => Value.bool !row.isNull) { subject := q }
  rw [hany, run_firstRow]
  refine Prod.ext ?_ rfl
  show (fetched.1.map (·.headD .null)).map (fun row => Value.bool !row.isNull) = _
  cases fetched.1 <;> rfl

/-- Rows that were fetched are those that the store has. -/
theorem items_of_rows {columns : Value} {s : Session Query}
    (h : ((rows r columns).run s).1 = .ok found) : r.rows.items = .ok found := by
  have hrows : Triple (fun _ => True) (rows r columns) (fun found _ => r.rows.items = .ok found)
      fun _ => True := by
    refine .last fun q => .last fun p => ?_
    rw [execute_eq]
    refine .last fun _ => .last fun _ => .last fun _ => ?_
    exact (Triple.orFail fun _ _ => trivial).weaken (fun _ h => h) (fun _ _ h => h.2) fun _ h => h
  exact hrows.of_ok trivial h

end Read

/-- To ask is to get the rows of the query with a limit of one: what is sent is the same, and it
fails in the same way. The answer is whether there are any, except where the first one is null. -/
theorem any_agrees_iff (q : Query) (r : Replies) :
    let got := (Step.read (.get .null)).run r { q with limit := .int 1 }
    let asked := (Step.read .any).run r q
    asked.session = got.session ∧
      (∀ fault, asked.answer = .error fault ↔ got.answer = .error fault) ∧
      ∀ v, asked.answer = .ok v → ∃ found b, r.rows.items = .ok found ∧
        got.answer = .ok (.value (.list found)) ∧ v = .value (.bool b) ∧
        (b = true ↔ found ≠ [] ∧ found.head? ≠ some .null) ∧
        ((b = true ↔ found ≠ []) ↔ found.head? ≠ some .null) := by
  intro got asked
  let fetched := (Read.rows r .null).run { subject := { q with limit := .int 1 } }
  have hgot : got = { answer := (fetched.1.map .list).map .value, session := fetched.2 } := by
    have hrun : ((Read.get .null).run r).run { subject := { q with limit := .int 1 } } = _ :=
      run_bind_pure (Read.rows r .null) Value.list _
    show (Step.read (.get .null)).run r _ = _
    rw [Step.run_read, hrun]
  have hasked : asked = { answer := (fetched.1.map fun found => .bool (Read.isAny found)).map .value
                          session := fetched.2 } := by
    show (Step.read .any).run r q = _
    rw [Step.run_read, Read.run_any]
  rw [hgot, hasked]
  refine ⟨rfl, fun fault => ?_, fun v hv => ?_⟩
  · simp only [map_eq_error_iff]
  · obtain ⟨b, hb, rfl⟩ := map_eq_ok_iff.mp hv
    obtain ⟨found, hfound, rfl⟩ := map_eq_ok_iff.mp hb
    refine ⟨found, Read.isAny found, Read.items_of_rows hfound, ?_, rfl, Read.isAny_iff,
      Read.isAny_iff_ne_nil⟩
    show (fetched.1.map Value.list).map Answer.value = _
    rw [hfound]
    rfl

/-- Distinct values of which the second is null. -/
theorem any_agrees_iff_distinct :
    let start : Query := { collection := {} }
    let q := ((Refinement.distinct (.text "city")).apply start).query
    let found := [Value.text "Oslo", .null]
    let got := (Step.read (.get .null)).run { rows := .list found } { q with limit := .int 1 }
    let asked := (Step.read .any).run { rows := .list found } q
    asked.session = got.session ∧ got.answer = .ok (.value (.list found)) ∧
      asked.answer = .ok (.value (.bool true)) ∧ found ≠ [] ∧ found.head? ≠ some .null := by
  intro start q found got asked
  have hv : asked.answer = .ok (.value (.bool true)) := rfl
  obtain ⟨hsession, -, hread⟩ := any_agrees_iff q { rows := .list found }
  obtain ⟨_, b, ⟨⟩, hgot, hb, hany, -⟩ := hread _ hv
  obtain rfl : true = b := Value.bool.inj (Answer.value.inj hb)
  exact ⟨hsession, hgot, hv, hany.mp rfl⟩

/-- Distinct values of which the only one is null: there is one, and none is said to be there. -/
theorem exists_unseen_null :
    ∃ (q : Query) (r : Replies), q.Reachable ∧ q.plan = .ok (.distinct (.text "city") .null) ∧
      ((Step.read (.get .null)).run r q).answer = .ok (.value (.list [.null])) ∧
      ((Step.read .any).run r q).answer = .ok (.value (.bool false)) := by
  have hstart : Query.Reachable { collection := {} } := .start _ _
  exact ⟨_, { rows := .list [.null] }, hstart.apply (.distinct (.text "city")), rfl, rfl, rfl⟩

end DocQuery
