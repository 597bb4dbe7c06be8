import DocQuery.Proofs.Query.Frame
import DocQuery.Proofs.Query.Totals

/-!
# Totals give the query back

A total sends the plan of the query with an aggregate and takes the aggregate back, whatever comes
of it. Hence a query that can be reached is the same before and after (`total_restores`), and the
other steps of a session come out as if no total had been asked for (`runAll_without_totals`).
-/

namespace DocQuery

open Run

/-- The read accumulates: an aggregate of any function, such as a sum of one column (`Read.total`),
or a count. -/
def Read.isTotal : Read → Bool
  | aggregate _ _ | count _ => true
  | _ => false

def Step.isTotal : Step → Bool
  | read what => what.isTotal
  | _ => false

variable {q : Query} {what : Read} {step : Step} {a : Aggregate} {p : Plan}

theorem Read.leaves_of_isTotal (h : what.isTotal = true) (q : Query) : what.leaves q = q := by
  cases what with
  | aggregate | count => rfl
  | _ => exact nomatch h

theorem Step.subject_of_isTotal (hq : q.Reachable) (h : step.isTotal = true) (r : Replies) :
    (step.run r q).session.subject = q := by
  cases step with
  | read what => rw [Read.subject_run hq.settled.aggregate_eq, Read.leaves_of_isTotal h]
  | _ => exact nomatch h

/-- The calls of a total are those of the query with the aggregate. -/
theorem calls_of_request (hwhat : what.request? = some a)
    (hp : (q.accumulating a).plan (.list a.columns) = .ok p)
    (ho : ∀ e ∈ p.options, e.1.isText = true) (r : Replies) :
    ((Step.read what).run r q).session.calls = (delivered r.failure true p.calls).1 := by
  obtain ⟨logs, hacc⟩ := @Read.run_accumulate r p q a.function a.columns hp ho
  rcases request?_eq_some_iff.mp hwhat with ⟨columns, rfl, hcolumns⟩ | ⟨column, rfl, rfl⟩
  · rw [← accumulate_of_items hcolumns] at hacc
    have hrun : ((Read.aggregate a.function columns).run r).run { subject := q } = _ := hacc
    rw [Step.run_read, hrun]
  · rw [Step.run_read, run_count hacc]

/-- After a total the filter and the shape are as they were, whether it was answered or failed. What
it has sent is the plan of the query with the aggregate. -/
theorem total_restores (hq : q.Reachable) (h : what.isTotal = true) (r : Replies) :
    let outcome := (Step.read what).run r q
    let after := outcome.session.subject
    (after.filter = q.filter ∧ (∀ columns, after.shape columns = q.shape columns) ∧ after = q) ∧
      ∀ a p, what.request? = some a → (q.accumulating a).plan (.list a.columns) = .ok p →
        (∀ e ∈ p.options, e.1.isText = true) →
        outcome.session.calls = (delivered r.failure true p.calls).1 := by
  intro outcome after
  have hafter : after = q := @Step.subject_of_isTotal q (.read what) hq h r
  constructor
  · rw [hafter]
    exact ⟨rfl, fun _ => rfl, rfl⟩
  · intro a p hwhat hp ho
    exact calls_of_request hwhat hp ho r

/-- Each way in which a total may end, for a query that has selected a column and is grouped. The
call that the store refuses is that of the plan with the aggregate. -/
theorem total_restores_outcomes :
    let start : Query := { collection := {} }
    let grouped : Query := { start with columns := some [.text "name"], groups := [.text "city"] }
    let range : Refinement :=
      .between (.text "age") (.list [.int 1]) Predicate.byAnd (.bool false)
    let refused : Query := (range.apply grouped).query
    let sum : Read := .total "sum" (.text "price")
    let down : StoreError := { origin := .driver, name := "PyMongoError", message := "down" }
    let downAt (name : String) : Replies := { failure := some { error := down, call := some name } }
    let price : Aggregate := { function := .text "sum", columns := [.text "price"] }
    (∃ p, (grouped.accumulating price).plan (.list price.columns) = .ok p ∧
      ((Step.read sum).run (downAt "aggregate") grouped).session.calls = [p.call]) ∧
    ∀ t ∈ ([
        (grouped, .aggregate (.text "sum") (.int 3), {}, .error .wrongType),
        (refused, sum, {}, .error (.malformed (.badBounds false (.list [.int 1])))),
        (grouped, .aggregate (.text "sum") (.list []), {}, .error (.columnRequired "sum")),
        (grouped, sum, downAt "aggregate", .error (.raised down)),
        (grouped, sum, downAt "to_list", .error (.raised down)),
        (grouped, sum, { rows := .list [.int 1] }, .error .noSuchMember),
        (grouped, sum, {}, .ok (.value .null)),
        (grouped, .aggregate (.text "sum") (.tuple [.text "price"]), {}, .ok (.value .null)),
        (grouped, .count (.text "*"), { rows := .list [.map [(.text "aggregate", .int 2)]] },
          .ok (.value (.int 2)))] : List (Query × Read × Replies × Except Fault Answer)),
      t.1.Reachable ∧ t.2.1.isTotal = true ∧
        let outcome := (Step.read t.2.1).run t.2.2.1 t.1
        outcome.answer = t.2.2.2 ∧ outcome.session.subject = t.1 := by
  intro start grouped range refused sum down downAt price
  have hstart : start.Reachable := .start _ _
  have hgrouped : grouped.Reachable :=
    (hstart.apply (.select [.text "name"])).apply (.groupBy [.text "city"])
  have hrefused : refused.Reachable := hgrouped.apply range
  have hends : ∀ {q : Query} {what : Read} {r : Replies} {answer : Except Fault Answer},
      q.Reachable → what.isTotal = true → ((Step.read what).run r q).answer = answer →
      q.Reachable ∧ what.isTotal = true ∧
        let outcome := (Step.read what).run r q
        outcome.answer = answer ∧ outcome.session.subject = q := fun hq hwhat hanswer =>
    ⟨hq, hwhat, hanswer, (total_restores hq hwhat _).1.2.2⟩
  have hplan : (grouped.accumulating price).plan (.list price.columns) = .ok _ := rfl
  have hsent := (@total_restores grouped sum hgrouped rfl (downAt "aggregate")).2 price _ rfl hplan
    (by rintro e ⟨⟩)
  refine ⟨⟨_, hplan, hsent⟩, ?_⟩
  simp only [List.forall_mem_cons]
  exact ⟨hends hgrouped rfl rfl, hends hrefused rfl rfl, hends hgrouped rfl rfl,
    hends hgrouped rfl rfl, hends hgrouped rfl rfl, hends hgrouped rfl rfl,
    hends hgrouped rfl rfl, hends hgrouped rfl rfl, hends hgrouped rfl rfl, by simp⟩

/-- The steps of a session that are not totals have the outcomes that they have without the
totals. -/
theorem runAll_without_totals (hq : q.Reachable) (steps : List (Step × Replies)) :
    let others := steps.filter fun s => !s.1.isTotal
    (steps.zip (Step.runAll steps q)).filter (fun s => !s.1.1.isTotal) =
      others.zip (Step.runAll others q) := by
  intro others
  induction steps generalizing q with
  | nil => rfl
  | cons s steps ih =>
    rw [Step.runAll, List.zip_cons_cons]
    by_cases htotal : s.1.isTotal = true
    · have hsame : (s.1.run s.2 q).session.subject = q := Step.subject_of_isTotal hq htotal s.2
      have hothers : others = steps.filter fun s => !s.1.isTotal :=
        List.filter_cons_of_neg (by simp [htotal])
      rw [List.filter_cons_of_neg (by simp [htotal]), hsame, hothers]
      exact ih hq
    · have hothers : others = s :: steps.filter fun s => !s.1.isTotal :=
        List.filter_cons_of_pos (by simp [htotal])
      rw [List.filter_cons_of_pos (by simp [htotal]), hothers, Step.runAll, List.zip_cons_cons]
      exact congrArg (_ :: ·) (ih (hq.step s.1 s.2))

end DocQuery
