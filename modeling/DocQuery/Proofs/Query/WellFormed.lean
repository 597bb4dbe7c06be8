import DocQuery.Proofs.Query.Frame
import DocQuery.Proofs.Value.Whole

/-!
# Queries that are well formed

`Query.WellFormed q`: the rows that `q` passes over and takes are counted by numbers that are not
below zero, no aggregate is left, and each order has a direction that the store knows and a field
other than the store's own order, which has a name of its own. Every step keeps a query so, whatever
the store replies and also where it fails, as long as counts are whole numbers and directions are
text (`WellFormed.run`); so does a whole session (`wellFormed_of_runAll`).
-/

namespace DocQuery

open Run

/-- Whether the counts of a refinement are whole numbers, and its direction is text. -/
def Refinement.Regular : Refinement → Prop
  | skip count | take count => ∃ n, count.whole? = some n
  | page number perPage => (∃ n, number.whole? = some n) ∧ ∃ m, perPage.whole? = some m
  | orderBy _ direction => ∃ t, direction.text? = some t
  | _ => True

def Step.Regular : Step → Prop
  | refine change => change.Regular
  | _ => True

/-- What holds of a query between two steps that are regular. -/
structure Query.WellFormed (q : Query) : Prop where
  offset : q.offset = .null ∨ ∃ n, q.offset.whole? = some n ∧ 0 ≤ n
  limit : q.limit = .null ∨ ∃ n, q.limit.whole? = some n ∧ 0 ≤ n
  aggregate : q.aggregate = none
  directions : ∀ e ∈ q.orders, e.2 = .int 1 ∨ e.2 = .int (-1)
  natural : q.orders.hasKey (.text "natural") = false

variable {q : Query} {r : Replies} {change : Refinement}

namespace Query

theorem text_member_ne (m : Member) : m.text ≠ "natural" := by
  rcases m with c | k | f
  · cases c <;> decide
  · cases k <;> decide
  · cases f <;> decide

theorem text?_orderColumn (column : Value) : (orderColumn column).text? ≠ some "natural" := by
  unfold orderColumn
  split
  · decide
  · next hne =>
    cases column with
    | text t => simpa [Value.text?] using hne
    | member m => simpa [Value.text?] using text_member_ne m
    | _ => simp [Value.text?]

theorem directionOf_cases {direction : Value} (h : ∃ t, direction.text? = some t) :
    directionOf direction = .int 1 ∨ directionOf direction = .int (-1) := by
  obtain ⟨t, ht⟩ := h
  unfold directionOf
  rw [ht]
  by_cases hasc : Text.lower t = "asc" <;> simp [hasc]

namespace WellFormed

theorem start (collection : Collection) (database : Value) :
    WellFormed { collection, database } :=
  ⟨.inl rfl, .inl rfl, rfl, by simp, rfl⟩

theorem addPredicate (h : q.WellFormed) (p : Predicate) : (q.addPredicate p).WellFormed :=
  { h with }

theorem addGroup (h : q.WellFormed) (ps : List Predicate) (connective : Value) :
    (q.addGroup ps connective).WellFormed := by
  unfold Query.addGroup
  split
  · exact h
  · exact h.addPredicate _

theorem skip {count : Value} (h : q.WellFormed) (hc : ∃ n, count.whole? = some n) :
    ∃ skipped, q.skip count = .ok skipped ∧ skipped.WellFormed := by
  obtain ⟨n, hn⟩ := hc
  obtain ⟨w, hw, hwhole⟩ := Value.exists_atLeastZero_of_whole hn
  exact ⟨_, bind_eq_ok_iff.mpr ⟨w, hw, rfl⟩,
    { h with offset := .inr ⟨_, hwhole, Int.le_max_left 0 n⟩ }⟩

theorem take {count : Value} (h : q.WellFormed) (hc : ∃ n, count.whole? = some n) :
    ∃ taken, q.take count = .ok taken ∧ taken.WellFormed := by
  obtain ⟨n, hn⟩ := hc
  have hset := Value.isNonNegative_of_whole hn
  by_cases hle : 0 ≤ n
  · exact ⟨_, bind_eq_ok_iff.mpr ⟨_, hset, if_pos (by simpa using hle)⟩,
      { h with limit := .inr ⟨n, hn, hle⟩ }⟩
  · exact ⟨q, bind_eq_ok_iff.mpr ⟨_, hset, if_neg (by simpa using hle)⟩, h⟩

theorem page {number perPage : Value} (h : q.WellFormed) (hn : ∃ n, number.whole? = some n)
    (hm : ∃ m, perPage.whole? = some m) : (q.page number perPage).query.WellFormed := by
  obtain ⟨n, hn⟩ := hn
  obtain ⟨m, hm⟩ := hm
  have hpaged : WellFormed { q with paginating := true } := { h with }
  obtain ⟨skipped, hskip, hskipped⟩ := hpaged.skip ⟨_, Value.whole?_int ((n - 1) * m)⟩
  obtain ⟨taken, htake, htaken⟩ := hskipped.take ⟨m, hm⟩
  rw [page_eq (Value.pageOffset_of_whole hn hm) hskip htake]
  exact htaken

theorem orderBy {column direction : Value} (h : q.WellFormed)
    (hd : ∃ t, direction.text? = some t) {q' : Query} (hq' : q.orderBy column direction = .ok q') :
    q'.WellFormed := by
  obtain ⟨-, -, hq'⟩ := bind_eq_ok_iff.mp hq'
  obtain rfl := pure_eq_ok_iff.mp hq'
  have hkey : (orderColumn column).sameKey (.text "natural") = false := by
    rw [Bool.eq_false_iff]
    exact mt Value.sameKey_text_iff.mp (text?_orderColumn column)
  constructor
  case directions =>
    exact @Entries.forall_value_insert _ _ (fun v => v = .int 1 ∨ v = .int (-1)) h.directions
      (directionOf_cases hd) _
  case natural =>
    show Entries.hasKey (q.orders.insert _ _) _ = false
    rw [Entries.hasKey_insert, hkey, h.natural]
    rfl
  case offset => exact h.offset
  case limit => exact h.limit
  case aggregate => exact h.aggregate

theorem apply (h : q.WellFormed) (hc : change.Regular) : (change.apply q).query.WellFormed := by
  cases change with
  | skip count =>
    obtain ⟨skipped, hskip, hskipped⟩ := h.skip hc
    rw [Refinement.apply, hskip]
    exact hskipped
  | take count =>
    obtain ⟨taken, htake, htaken⟩ := h.take hc
    rw [Refinement.apply, htake]
    exact htaken
  | page number perPage => exact h.page hc.1 hc.2
  | orderBy column direction =>
    exact Refined.query_ofExcept h fun q' hq' => h.orderBy hc hq'
  | select | options | among | between | raw =>
    exact Refined.query_ofExcept_bind h fun _ => { h with }
  | project projections =>
    refine Refined.query_ofExcept h fun q' hq' => ?_
    obtain ⟨es, rfl⟩ := exists_of_project hq'
    exact { h with }
  | timeout | distinct | groupBy | null => exact { h with }
  | test column operator value connective =>
    cases column with
    | map es => exact h.addGroup _ _
    | _ => exact h.addPredicate _
  | group steps connective =>
    rw [Refinement.apply]
    split
    · exact h
    · exact h.addGroup _ _
  | groupFrom | ask => exact h

theorem applyAll {changes : List Refinement} (h : q.WellFormed)
    (hc : ∀ change ∈ changes, change.Regular) :
    (Refinement.applyAll changes q).query.WellFormed := by
  induction changes generalizing q with
  | nil => exact h
  | cons change changes ih =>
    obtain ⟨hfirst, hrest⟩ := List.forall_mem_cons.mp hc
    rw [Refinement.applyAll]
    split
    · exact h.apply hfirst
    · exact ih (h.apply hfirst) hrest

theorem leaves (h : q.WellFormed) (what : Read) : (what.leaves q).WellFormed := by
  have hone : WellFormed { q with limit := .int 1 } :=
    { h with limit := .inr ⟨1, rfl, by decide⟩ }
  cases what with
  | first | value | any => exact hone
  | find id columns => exact hone.addPredicate _
  | get | pluck | aggregate | count => exact h

theorem run {step : Step} (h : q.WellFormed) (hstep : step.Regular) (r : Replies) :
    (step.run r q).session.subject.WellFormed := by
  cases step with
  | refine change =>
    rw [Step.run_refine]
    exact h.apply hstep
  | inspect question =>
    have hkeeps : Keeps (Upholds WellFormed fun _ => True) ((Step.inspect question).action r) :=
      keeps_inspect (fun q _ => start q.collection q.database) question
    exact (Step.session_of_triple hkeeps (upholds_start h)).1
  | read what =>
    rw [Read.subject_run h.aggregate]
    exact h.leaves what
  | write what =>
    have hkeeps : Keeps (Upholds WellFormed fun _ => True) (what.run r) :=
      keeps_write (fun _ _ hq => { hq with }) what
    rw [Step.run_write]
    exact (hkeeps.afterwards (upholds_start h)).1

theorem runAll {steps : List (Step × Replies)} (h : q.WellFormed)
    (hsteps : ∀ step ∈ steps, step.1.Regular) :
    ∀ outcome ∈ Step.runAll steps q, outcome.session.subject.WellFormed := by
  induction steps generalizing q with
  | nil => exact fun _ hmem => absurd hmem List.not_mem_nil
  | cons step steps ih =>
    obtain ⟨hfirst, hrest⟩ := List.forall_mem_cons.mp hsteps
    have hafter := h.run hfirst step.2
    exact List.forall_mem_cons.mpr ⟨hafter, ih hafter hrest⟩

end WellFormed

end Query

theorem length_runAll (steps : List (Step × Replies)) (q : Query) :
    (Step.runAll steps q).length = steps.length := by
  induction steps generalizing q with
  | nil => rfl
  | cons step steps ih => exact congrArg (· + 1) (ih _)

/-- After each step of a session the query is well formed, and so is the query of a group. The order
of the store is kept under the store's own name for it. -/
theorem wellFormed_of_runAll (collection : Collection) (database : Value) :
    (∀ steps : List (Step × Replies), (∀ step ∈ steps, step.1.Regular) →
        (Step.runAll steps { collection, database }).length = steps.length ∧
          ∀ outcome ∈ Step.runAll steps { collection, database },
            outcome.session.subject.WellFormed) ∧
      (∀ changes : List Refinement, (∀ change ∈ changes, change.Regular) →
        (Refinement.applyAll changes { collection, database }).query.WellFormed) ∧
      ∀ (q : Query) (direction : Value) (r : Replies),
        Entries.get? ((Step.refine (.orderBy (.text "natural") direction)).run r
          q).session.subject.orders (.text "$natural") = some (Query.directionOf direction) := by
  have hstart := Query.WellFormed.start collection database
  refine ⟨fun steps h => ⟨length_runAll steps _, hstart.runAll h⟩, fun changes h =>
    hstart.applyAll h, fun q direction r => ?_⟩
  have horder : (Refinement.orderBy (.text "natural") direction).apply q =
      { query := { q with
          orders := q.orders.insert (.text "$natural") (Query.directionOf direction) } } := rfl
  have hsame : (Value.text "$natural").sameKey (.text "$natural") = true := by decide
  rw [Step.run_refine, horder]
  show Entries.get? (q.orders.insert _ _) _ = _
  rw [Entries.get?_insert, if_pos hsame]

/-- A page before the first, the store's own order, and an aggregate that cannot be planned. -/
theorem wellFormed_of_runAll_page :
    let start : Query := { collection := {} }
    let steps : List (Step × Replies) := [
      (.refine (.page (.int (-1)) (.int (-5))), {}),
      (.refine (.orderBy (.text "natural") (.text "DESC")), {}),
      (.read (.aggregate (.text "sum") (.list [])), {}),
      (.read (.first .null), {}),
      (.refine (.take (.int (-2))), {})]
    let changes : List Refinement := [.skip (.int (-3)), .take (.int 2), .groupFrom .null]
    (∀ step ∈ steps, step.1.Regular) ∧ (∀ change ∈ changes, change.Regular) ∧
      (Step.runAll steps start).length = 5 ∧
      (∀ outcome ∈ Step.runAll steps start, outcome.session.subject.WellFormed) ∧
      (Step.runAll steps start).head?.map (fun outcome => outcome.session.subject.offset) =
        some (.int 10) ∧
      (Refinement.applyAll changes start).query.WellFormed := by
  intro start steps changes
  have hsteps : ∀ step ∈ steps, step.1.Regular := by
    simp only [steps, List.forall_mem_cons, List.not_mem_nil, false_imp_iff, implies_true,
      and_true]
    exact ⟨⟨⟨_, rfl⟩, _, rfl⟩, ⟨_, rfl⟩, trivial, trivial, _, rfl⟩
  have hchanges : ∀ change ∈ changes, change.Regular := by
    simp only [changes, List.forall_mem_cons, List.not_mem_nil, false_imp_iff, implies_true,
      and_true]
    exact ⟨⟨_, rfl⟩, ⟨_, rfl⟩, trivial⟩
  obtain ⟨hsession, hgroup, -⟩ := wellFormed_of_runAll {} .null
  obtain ⟨hlength, hwell⟩ := hsession steps hsteps
  exact ⟨hsteps, hchanges, hlength, hwell, rfl, hgroup changes hchanges⟩

end DocQuery
