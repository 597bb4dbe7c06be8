import DocQuery.Proofs.Plan.Grouping
import DocQuery.Proofs.Plan.Source
import DocQuery.Proofs.Query.Reachable

/-!
# What the plan of a query reads

A query between two steps whose columns are text can always be planned. What its plan reads depends
on what kind of query it is: one with groups, a page, distinct values or plain documents
(`exists_plan_source`).
-/

namespace DocQuery

open Entries

namespace Query

/-- The shape without further columns. -/
def ownShape (q : Query) : Shape :=
  { columns := q.columns.getD []
    groups := q.groups
    aggregate := q.aggregate
    orders := .map q.orders
    offset := q.offset
    limit := q.limit
    distinct := .bool q.distinct
    projections := .map q.projections
    options := .map q.options
    paginating := .bool q.paginating
    timeout := q.timeout }

theorem shape_eq (q : Query) : q.shape = .ok q.ownShape := by
  unfold shape ownShape
  cases q.columns <;> rfl

/-- Columns that are given in a plan take the place of those that the query has not selected. -/
theorem exists_ownShape_of_shape {q : Query} {columns : Value} {s : Shape}
    (h : q.shape columns = .ok s) :
    ∃ vs, s = { q.ownShape with columns := vs } := by
  unfold shape at h
  split at h
  · exact ⟨_, (pure_eq_ok_iff.mp h).symm⟩
  · obtain ⟨vs, -, h⟩ := bind_eq_ok_iff.mp h
    exact ⟨vs, (pure_eq_ok_iff.mp h).symm⟩

/-- The selected columns; none if every field is wanted. -/
def selected (q : Query) : List Value :=
  q.ownShape.selectedColumns

/-- The explicit projections. -/
def explicitFields (q : Query) : Entries :=
  ofList q.projections

/-- The fields of a page: the selected columns win over the explicit projections. -/
def pageFields (q : Query) : Entries :=
  q.explicitFields.update (q.selected.map (·, .int 1))

/-- The fields of a fetch: the explicit projections win over the selected columns. -/
def findFields (q : Query) : Entries :=
  (ofKeys q.selected (.bool true)).update q.explicitFields

/-- The order as pairs of a field and its direction. -/
def sortPairs (q : Query) : Value :=
  .list (q.orders.map fun e => .tuple [e.1, e.2])

/-- The options of a fetch. -/
def findSettings (q : Query) : Entries :=
  (plannedOptions q.timeout q.sortPairs q.offset q.limit (.map q.findFields)).update
    (ofList q.options)

/-- A setting of a fetch, which the caller's options may override. -/
def fetchSetting (q : Query) (name : Text) (v : Value) : Value :=
  ((get? (ofList q.options) (.text name)).getD v).orNull

/-- What a pipeline with a grouping and a projection reads. -/
def pipelineSource (q : Query) (f : Entries) (g : Grouping) (fields : Entries) : RowSource :=
  { filter := .map f
    unwinds := g.unwinds
    group := g.fields
    sort := q.sortPairs.orNull
    skip := q.offset.orNull
    limit := q.limit.orNull
    fields := (Value.map fields).orNull }

def findSource (q : Query) (f : Entries) : RowSource :=
  { filter := .map f
    sort := q.fetchSetting "sort" q.sortPairs.orNull
    skip := q.fetchSetting "skip" q.offset.orNull
    limit := q.fetchSetting "limit" q.limit.orNull
    fields := q.fetchSetting "projection" (Value.map q.findFields).orNull }

def distinctSource (q : Query) (f : Entries) : RowSource :=
  { values := some (q.selected.headD Grouping.idKey), filter := .map f }

/-- What the plan of a query reads that has this filter and this grouping. -/
def source (q : Query) (f : Entries) (g : Grouping) : RowSource :=
  if q.groups = [] ∧ q.paginating = false then
    if q.distinct then q.distinctSource f else q.findSource f
  else q.pipelineSource f g (if q.paginating then q.pageFields else q.explicitFields)

variable {q : Query} {f : Entries} {vs : List Value}

theorem underKeys_eq (h : AllText vs) (v : Value) :
    Value.underKeys vs v = .ok (ofKeys vs v) := by
  unfold Value.underKeys
  rw [Value.forM_checkHashable (hashable_of_allText h)]
  rfl

theorem allText_selected (h : AllText (q.columns.getD [])) : AllText q.selected :=
  Grouping.allText_selectedColumns h

theorem exists_grouping (ha : q.aggregate = none) (hgroups : AllText q.groups)
    (hcolumns : AllText (q.columns.getD [])) : ∃ g, Grouping.ofShape q.ownShape = .ok g := by
  have hnone : q.ownShape.aggregate = none := ha
  have htext : q.ownShape.TextColumns := ⟨hcolumns, hgroups, by simp [hnone]⟩
  exact ⟨_, Grouping.ofShape_eq_ok htext (by simp [hnone])⟩

theorem grouping_of_no_groups (ha : q.aggregate = none) (hgroups : q.groups = []) :
    Grouping.ofShape q.ownShape = .ok {} := by
  have haggregate : q.ownShape.aggregate = none := ha
  have hgroups : q.ownShape.groups = [] := hgroups
  unfold Grouping.ofShape
  rw [haggregate, hgroups]
  rfl

theorem exists_pipeline_source {g : Grouping} (ho : Distinct q.orders)
    (hg : Grouping.ofShape q.ownShape = .ok g) (hcolumns : AllText q.selected) (f : Entries) :
    ∃ stages, pipeline q.ownShape (.map f) = .ok stages ∧ stages.foldl RowSource.afterStage {} =
      q.pipelineSource f g (if q.paginating then q.pageFields else q.explicitFields) := by
  have hfields : q.explicitFields.update (q.ownShape.pageColumns.map (·, .int 1)) =
      if q.paginating then q.pageFields else q.explicitFields := by
    show q.explicitFields.update ((if q.paginating then q.selected else []).map (·, .int 1)) = _
    cases q.paginating <;> rfl
  refine ⟨_, pipeline_eq hg rfl (hashable_of_allText hcolumns) rfl f, ?_⟩
  simp only [List.foldl_append]
  rw [RowSource.foldl_keep rfl, RowSource.foldl_unwind, RowSource.foldl_group rfl,
    RowSource.foldl_sort ho rfl, List.nil_append, RowSource.foldl_skip rfl,
    RowSource.foldl_limit rfl, RowSource.foldl_project rfl]
  show pipelineSource q f g (q.explicitFields.update (q.ownShape.pageColumns.map (·, .int 1))) = _
  rw [hfields]

theorem findOptions_eq (hcolumns : AllText q.selected) :
    findOptions q.ownShape = .ok q.findSettings := by
  have hprojection : findProjection q.ownShape = .ok q.findFields := by
    unfold findProjection
    rw [show q.ownShape.selectedColumns = q.selected from rfl, underKeys_eq hcolumns]
    rfl
  have hsort : sortOption q.ownShape.orders = .ok (optionWhenSet "sort" q.sortPairs) := by
    show sortOption (.map q.orders) = .ok (optionWhenSet "sort" (.list (q.orders.map _)))
    cases q.orders <;> rfl
  exact bind_eq_ok_iff.mpr ⟨_, hprojection, bind_eq_ok_iff.mpr ⟨_, hsort, rfl⟩⟩

theorem source_find (q : Query) (f : Entries) :
    (Plan.find (.map f) q.findSettings).source = q.findSource f := by
  obtain ⟨hsort, hskip, hlimit, hfields⟩ := getD_get?_plannedOptions q.timeout q.sortPairs q.offset
    q.limit (.map q.findFields)
  have hset := setting_update (plannedOptions q.timeout q.sortPairs q.offset q.limit
    (.map q.findFields)) (distinct_ofList q.options)
  simp only [Plan.source, findSettings]
  rw [hset, hset, hset, hset, hsort, hskip, hlimit, hfields]
  rfl

/-- A query between two steps can be planned where its columns are text. -/
theorem exists_plan_source (h : q.Settled) (hgroups : AllText q.groups)
    (hcolumns : AllText (q.columns.getD [])) (hf : q.filter = .ok f) :
    ∃ g p, Grouping.ofShape q.ownShape = .ok g ∧ q.plan = .ok p ∧ p.source = q.source f g := by
  have hselected := allText_selected hcolumns
  obtain ⟨g, hg⟩ := exists_grouping h.aggregate_eq hgroups hcolumns
  have hneeds : q.ownShape.needsAggregation = true ↔ ¬ (q.groups = [] ∧ q.paginating = false) := by
    show (!q.groups.isEmpty || q.aggregate.isSome || q.paginating) = true ↔ _
    rw [h.aggregate_eq]
    cases q.groups <;> cases q.paginating <;> simp
  have hplan : ∀ {p}, DocQuery.plan q.ownShape (.map f) = .ok p → q.plan = .ok p := fun hp =>
    bind_eq_ok_iff.mpr ⟨_, q.shape_eq, bind_eq_ok_iff.mpr ⟨f, hf, hp⟩⟩
  unfold DocQuery.plan at hplan
  by_cases hkind : q.groups = [] ∧ q.paginating = false
  · rw [if_neg fun hn => hneeds.mp hn hkind] at hplan
    have hdistinct : q.ownShape.distinct.truthy = q.distinct := rfl
    rw [hdistinct] at hplan
    by_cases hd : q.distinct = true
    · rw [if_pos hd] at hplan
      refine ⟨g, _, hg, hplan rfl, ?_⟩
      rw [source, if_pos hkind, if_pos hd]
      cases f <;> rfl
    · rw [if_neg hd] at hplan
      refine ⟨g, _, hg, hplan (bind_eq_ok_iff.mpr ⟨_, findOptions_eq hselected, rfl⟩), ?_⟩
      rw [source, if_pos hkind, if_neg hd]
      exact source_find q f
  · rw [if_pos (hneeds.mpr hkind)] at hplan
    obtain ⟨stages, hstages, hsource⟩ := exists_pipeline_source h.distinct_orders hg hselected f
    refine ⟨g, _, hg, hplan (bind_eq_ok_iff.mpr ⟨stages, hstages, rfl⟩), ?_⟩
    rw [source, if_neg hkind]
    exact hsource

end Query

end DocQuery
