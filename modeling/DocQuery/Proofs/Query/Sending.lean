import DocQuery.Proofs.Plan.Stages
import DocQuery.Proofs.Query.Running

/-!
# The filters that a query sends

Every call by which a query reads or changes documents carries a filter (`Call.filter`), and it is
that of the query's predicates: `filter_call_of_plan` for each of the three kinds of plan. Steps
that add a predicate send nothing but the filter of the predicates with it (`onlySends_find`,
`onlySends_delete`, `onlySends_guarded`).
-/

namespace DocQuery

/-- The filter that a call carries. A fetch of distinct values without one keeps everything, and so
does a pipeline that does not begin by matching. -/
def Call.filter (c : Call) : Option Entries :=
  match c.name, c.arguments with
  | "distinct", [_] => some []
  | "distinct", [_, .map es] => some es
  | "aggregate", [.list (.map [(.text "$match", .map es)] :: _)] => some es
  | "aggregate", [.list _] => some []
  | "find", .map es :: _ => some es
  | "delete_many", .map es :: _ => some es
  | "update_one", .map es :: _ => some es
  | "update_many", .map es :: _ => some es
  | _, _ => none

variable {s : Shape} {f es : Entries} {p : Plan} {ps : List Predicate} {q : Query} {r : Replies}

theorem filter_call_aggregate_keep (f : Entries) (stages : List Stage) (options : Entries) :
    (Plan.aggregate (.keep (.map f) :: stages) options).call.filter = some f := rfl

theorem filter_call_aggregate {stages : List Stage} (options : Entries)
    (h : ∀ stage ∈ stages, ∀ g, stage ≠ .keep g) :
    (Plan.aggregate stages options).call.filter = some [] := by
  cases stages with
  | nil => rfl
  | cons stage stages =>
    cases stage with
    | keep g => exact absurd rfl (h (.keep g) (by simp) g)
    | unwind | group | sort | skip | limit | project => rfl

/-- A pipeline begins by matching, unless its filter keeps everything; no other stage matches. -/
theorem eq_of_pipeline {stages : List Stage} (h : pipeline s (.map f) = .ok stages) :
    ∃ rest, (∀ stage ∈ rest, ∀ g, stage ≠ .keep g) ∧
      stages = Stage.whenSet (.map f) .keep ++ rest := by
  obtain ⟨g, given, projected, sorting, -, -, -, -, rfl⟩ := exists_parts_of_pipeline h
  simp only [stagesOf, List.append_assoc]
  refine ⟨_, ?_, rfl⟩
  rintro stage hstage filter rfl
  simp [mem_whenSet_iff, mem_unlessEmpty_iff] at hstage

/-- Every plan is sent with the filter that it was made for. -/
theorem filter_call_of_plan (h : plan s (.map f) = .ok p) : p.call.filter = some f := by
  rcases plan_cases h with ⟨stages, options, -, hstages, -, rfl⟩ | ⟨-, -, rfl⟩ |
    ⟨options, -, -, -, rfl⟩
  · obtain ⟨rest, hrest, rfl⟩ := eq_of_pipeline hstages
    cases f with
    | nil => exact filter_call_aggregate options hrest
    | cons e f => exact filter_call_aggregate_keep (e :: f) rest options
  · cases f with
    | nil => rfl
    | cons e f => rfl
  · rfl

/-- The call carries the filter of the predicates, unless it is that for the rows. -/
def Carries (ps : List Predicate) (c : Call) : Prop :=
  c.name ≠ "to_list" → ∃ f, compileFilter ps = .ok f ∧ c.filter = some f

open Run

abbrev SendsFilterOf (ps : List Predicate) : Session Query → Prop :=
  Upholds (fun q => q.predicates = ps) (Carries ps)

theorem carries_fetchCall (ps : List Predicate) : Carries ps fetchCall :=
  fun h => absurd rfl h

theorem carries_plan {columns : Value} (hq : q.predicates = ps) (h : q.plan columns = .ok p) :
    Carries ps p.call := by
  unfold Query.plan at h
  obtain ⟨s, -, h⟩ := bind_eq_ok_iff.mp h
  obtain ⟨f, hf, h⟩ := bind_eq_ok_iff.mp h
  exact fun _ => ⟨f, hq ▸ hf, filter_call_of_plan h⟩

theorem carries_updateCall (hq : q.predicates = ps) (hf : q.filter = .ok f) (multiple : Bool)
    (update options : Entries) : Carries ps (updateCall multiple f update options) := by
  refine fun _ => ⟨f, hq ▸ hf, ?_⟩
  cases multiple <;> rfl

theorem carries_deleteCall (hq : q.predicates = ps) (hf : q.filter = .ok f) :
    Carries ps (deleteCall f) :=
  fun _ => ⟨f, hq ▸ hf, rfl⟩

theorem predicates_of_take {count : Value} {taken : Query} (h : q.take count = .ok taken) :
    taken.predicates = q.predicates := by
  unfold Query.take at h
  obtain ⟨isSet, -, h⟩ := bind_eq_ok_iff.mp h
  split at h <;> rw [pure_eq_ok_iff] at h <;> subst h <;> rfl

/-- The predicate that a given identifier adds. -/
def idPredicate (id : Value) : Predicate :=
  Query.testPredicate (.text "_id") (.text "=") id Predicate.byAnd

/-- Whatever the action sends from the query alone carries the filter of the predicates. -/
def OnlySends {α : Type} (q : Query) (a : Run Query α) (ps : List Predicate) : Prop :=
  Triple (fun s => s = { subject := q }) a (fun _ s => ∀ c ∈ s.calls, Carries ps c)
    fun s => ∀ c ∈ s.calls, Carries ps c

theorem onlySends_of_upholds {α : Type} {a : Run Query α}
    (h : Triple (Upholds (fun q' => q' = q) (Carries ps)) a (fun _ => SendsFilterOf ps)
      (SendsFilterOf ps)) : OnlySends q a ps := by
  refine h.weaken ?_ (fun _ _ hs => hs.2) fun _ hs => hs.2
  rintro s rfl
  exact upholds_start rfl

theorem onlySends_find (id columns : Value) :
    OnlySends q ((Read.find id columns).run r)
      (q.predicates ++ [idPredicate id.withIdentifiers]) := by
  generalize hps : q.predicates ++ [idPredicate id.withIdentifiers] = ps
  refine onlySends_of_upholds (upholds_change (J := fun q' => q'.predicates = ps) ?_ fun _ _ => ?_)
  · rintro q rfl
    exact hps
  · exact Read.keeps_firstRow (carries_fetchCall _) (fun _ _ hq hp => carries_plan hq hp)
      fun _ _ hq ht => (predicates_of_take ht).trans hq

theorem onlySends_delete {id : Value} (hid : id ≠ .null) :
    OnlySends q ((Write.delete id).run r) (q.predicates ++ [idPredicate id]) := by
  have hnull : id.isNull = false := by cases id <;> simp_all [Value.isNull]
  refine onlySends_of_upholds (Write.upholds_deleteAll ?_ fun _ _ hq hf => carries_deleteCall hq hf)
  rintro q rfl
  rw [hnull]
  rfl

/-- An increment is sent with its guard, if it can be built at all. -/
theorem onlySends_guarded {x : Except Fault Increment} {options : Value}
    (hx : ∀ i, x = .ok i → i.applyGuard q.predicates = ps) :
    OnlySends q (do Write.performGuarded r (← orFail x) options) ps := by
  refine .bind (.orFail ?_) fun i => ?_
  · rintro s rfl
    simp
  · rintro s ⟨rfl, hi⟩
    have hperform : OnlySends q (Write.performGuarded r i options) ps := by
      refine onlySends_of_upholds
        (upholds_change (J := fun q' => q'.predicates = ps) ?_ fun _ _ => ?_)
      · rintro q rfl
        exact hx i hi
      · exact Write.keeps_perform fun _ _ hq hf multiple options =>
          carries_updateCall hq hf multiple i.update options
    exact hperform _ rfl

/-- What an action sends as a step of a session. -/
theorem carries_of_onlySends {a : Run Query Value} {step : Step} (h : OnlySends q a ps)
    (ha : step.action r = do return .value (← a)) :
    ∀ c ∈ (step.run r q).session.calls, Carries ps c := by
  have hstep : OnlySends q (step.action r) ps := by
    rw [ha]
    exact .bind h fun _ => .pure fun _ hs => hs
  exact Step.session_of_triple hstep rfl

end DocQuery
