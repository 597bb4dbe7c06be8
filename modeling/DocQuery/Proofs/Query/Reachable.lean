import DocQuery.Proofs.Query.Changes
import DocQuery.Proofs.Value.DistinctKeys

/-!
# Queries that can be reached

`Query.Reachable q`: a session that began with a fresh query comes to `q` by some steps, whatever
the store replies and whichever of the steps fail. What holds of a fresh query and is kept by every
change holds of such a query (`Reachable.of_change`): it is `Query.Settled`, accumulating leaving no
aggregate behind and no column being ordered by twice, and `Query.Bounded`, with an offset and a
limit that are not below zero.
-/

namespace DocQuery

namespace Query

/-- The queries that steps lead to from a fresh one. -/
inductive Reachable : Query → Prop
  | start (collection : Collection) (database : Value) : Reachable { collection, database }
  | step {q : Query} (h : q.Reachable) (step : Step) (r : Replies) :
      Reachable (step.run r q).session.subject

theorem Reachable.apply {q : Query} (h : q.Reachable) (r : Refinement) :
    (r.apply q).query.Reachable := by
  have hstep := h.step (.refine r) {}
  rw [Step.run_refine] at hstep
  exact hstep

theorem Reachable.of_change {I : Query → Prop} {q : Query} (h : q.Reachable)
    (hstart : ∀ collection database, I { collection, database })
    (hchange : ∀ q q', Change q q' → I q → I q') : I q := by
  induction h with
  | start collection database => exact hstart collection database
  | @step q _ step r ih =>
    have hchanges := changes_run step r q
    generalize (step.run r q).session.subject = q' at hchanges
    induction hchanges with
    | refl => exact ih
    | tail _ hc ih => exact hchange _ _ hc ih

/-- What holds of a query between two steps. -/
structure Settled (q : Query) : Prop where
  aggregate_eq : q.aggregate = none
  distinct_orders : Entries.Distinct q.orders

theorem Settled.change {q q' : Query} (h : q.Settled) (hc : Change q q') : q'.Settled := by
  obtain ⟨ha, ho⟩ := h
  cases hc with
  | fresh => exact ⟨rfl, Entries.distinct_nil⟩
  | aggregate => exact ⟨rfl, ho⟩
  | orders column direction => exact ⟨ha, Entries.distinct_insert ho _ _⟩
  | _ => exact ⟨ha, ho⟩

theorem Reachable.settled {q : Query} (h : q.Reachable) : q.Settled :=
  h.of_change (fun _ _ => ⟨rfl, Entries.distinct_nil⟩) fun _ _ hc hq => hq.change hc

/-- No rows are counted backwards. -/
structure Bounded (q : Query) : Prop where
  offset : q.offset = .null ∨ q.offset.isNonNegative = .ok true
  limit : q.limit = .null ∨ q.limit.isNonNegative = .ok true

theorem Bounded.change {q q' : Query} (h : q.Bounded) (hc : Change q q') : q'.Bounded := by
  obtain ⟨ho, hl⟩ := h
  cases hc with
  | fresh => exact ⟨.inl rfl, .inl rfl⟩
  | offset v hv => exact ⟨.inr hv, hl⟩
  | limit v hv => exact ⟨ho, .inr hv⟩
  | _ => exact ⟨ho, hl⟩

theorem Reachable.bounded {q : Query} (h : q.Reachable) : q.Bounded :=
  h.of_change (fun _ _ => ⟨.inl rfl, .inl rfl⟩) fun _ _ hc hq => hq.change hc

end Query

end DocQuery
