import DocQuery.Plan.Basic
import DocQuery.Proofs.CacheKey.Identity
import DocQuery.Proofs.Value.DistinctKeys

/-!
# What a plan reads

A plan is of one of three kinds, by its shape alone (`plan_cases`), and the options of a fetch are
put together of their parts (`exists_parts_of_findOptions`).

`Plan.source` says which rows a plan reads, whichever kind of call it is sent by: the filter, the
grouping, the order, how many rows are passed over and taken, and the fields that are asked for, or
the field whose distinct values are. A fetch of documents and a pipeline without a grouping read the
same when these are the same (`RowSource.Same`). `getD_get?_plannedOptions` and `setting_update` say
so of the options of a fetch, `RowSource.foldl_keep` and those after it of each stage of a pipeline.
-/

namespace DocQuery

/-- The value where it counts as set, and null where it does not. -/
def Value.orNull (v : Value) : Value :=
  if v.truthy then v else .null

/-- What is read. A setting that is not there is null. -/
structure RowSource where
  /-- The field whose distinct values are read, if it is not rows that are. -/
  values : Option Value := none
  filter : Value := .map []
  unwinds : List Text := []
  group : Entries := []
  /-- Pairs of a field and its direction. -/
  sort : Value := .null
  skip : Value := .null
  limit : Value := .null
  fields : Value := .null

namespace RowSource

/-- What is read after a further stage of a pipeline. -/
def afterStage (a : RowSource) : Stage → RowSource
  | .keep filter => { a with filter }
  | .unwind path => { a with unwinds := a.unwinds ++ [path] }
  | .group fields => { a with group := fields }
  | .sort orders => { a with sort := .list (orders.map fun e => .tuple [e.1, e.2]) }
  | .skip count => { a with skip := count }
  | .limit count => { a with limit := count }
  | .project fields => { a with fields := .map fields }

/-- Whether the same fields are asked for: under each key what counts as the same value. -/
def SameFields : Value → Value → Prop
  | .map es, .map fs => ∀ k, (Entries.get? es k).map Value.key = (Entries.get? fs k).map Value.key
  | v, w => v.asLists = w.asLists

/-- Whether the same is read, a tuple being read as a list. -/
structure Same (a b : RowSource) : Prop where
  values_eq : a.values.map Value.asLists = b.values.map Value.asLists
  filter_eq : a.filter.asLists = b.filter.asLists
  unwinds_eq : a.unwinds = b.unwinds
  group_eq : a.group = b.group
  sort_eq : a.sort.asLists = b.sort.asLists
  skip_eq : a.skip.asLists = b.skip.asLists
  limit_eq : a.limit.asLists = b.limit.asLists
  sameFields : SameFields a.fields b.fields

theorem SameFields.refl (v : Value) : SameFields v v := by
  cases v <;> first | exact rfl | exact fun _ => rfl

theorem SameFields.symm {v w : Value} (h : SameFields v w) : SameFields w v := by
  cases v <;> cases w <;> first | exact fun k => (h k).symm | exact Eq.symm h

/-- Mappings that may be empty ask for the same fields where they hold the same. -/
theorem sameFields_orNull_iff {es fs : Entries} :
    SameFields (Value.map es).orNull (Value.map fs).orNull ↔
      (es = [] ↔ fs = []) ∧
        ∀ k, (Entries.get? es k).map Value.key = (Entries.get? fs k).map Value.key := by
  cases es with
  | nil =>
    cases fs with
    | nil => simp [SameFields, Value.orNull, Value.truthy]
    | cons e fs => simp [SameFields, Value.orNull, Value.truthy, Value.asLists]
  | cons e es =>
    cases fs with
    | nil => simp [SameFields, Value.orNull, Value.truthy, Value.asLists]
    | cons e' fs => simp [SameFields, Value.orNull, Value.truthy]

theorem Same.symm {a b : RowSource} (h : Same a b) : Same b a :=
  ⟨h.values_eq.symm, h.filter_eq.symm, h.unwinds_eq.symm, h.group_eq.symm, h.sort_eq.symm,
    h.skip_eq.symm, h.limit_eq.symm, h.sameFields.symm⟩

end RowSource

/-- The value of a setting among options, where it counts as set. -/
def setting (options : Entries) (name : Text) : Value :=
  ((Entries.get? options (.text name)).getD .null).orNull

/-- What a plan reads. -/
def Plan.source : Plan → RowSource
  | .find filter options =>
    { filter
      sort := setting options "sort"
      skip := setting options "skip"
      limit := setting options "limit"
      fields := setting options "projection" }
  | .distinct key filter =>
    { values := some key, filter := if filter.isNull then .map [] else filter }
  | .aggregate stages _ => stages.foldl RowSource.afterStage {}

section Kinds
variable {s : Shape} {filter : Value} {p : Plan}

theorem plan_aggregate_iff (hneeds : s.needsAggregation = true) :
    plan s filter = .ok p ↔ ∃ stages options, pipeline s filter = .ok stages ∧
      s.options.toEntries = .ok options ∧ p = .aggregate stages options := by
  unfold plan
  rw [if_pos hneeds]
  simp only [bind_eq_ok_iff, pure_eq_ok_iff]
  constructor
  · rintro ⟨stages, hstages, options, hoptions, rfl⟩
    exact ⟨stages, options, hstages, hoptions, rfl⟩
  · rintro ⟨stages, options, hstages, hoptions, rfl⟩
    exact ⟨stages, hstages, options, hoptions, rfl⟩

theorem plan_distinct_iff (hneeds : s.needsAggregation = false)
    (hdistinct : s.distinct.truthy = true) : plan s filter = .ok p ↔
      p = .distinct (distinctKey s) (if filter.truthy then filter else .null) := by
  unfold plan
  rw [if_neg (by simp [hneeds]), if_pos hdistinct, pure_eq_ok_iff, eq_comm]

theorem plan_find_iff (hneeds : s.needsAggregation = false)
    (hdistinct : s.distinct.truthy = false) : plan s filter = .ok p ↔
      ∃ options, findOptions s = .ok options ∧ p = .find filter options := by
  unfold plan
  rw [if_neg (by simp [hneeds]), if_neg (by simp [hdistinct]), bind_eq_ok_iff]
  exact exists_congr fun options => and_congr_right fun _ => pure_eq_ok_iff.trans eq_comm

/-- A plan is of the kind that the shape asks for, and its parts could be had. -/
theorem plan_cases (h : plan s filter = .ok p) :
    (∃ stages options, s.needsAggregation = true ∧ pipeline s filter = .ok stages ∧
      s.options.toEntries = .ok options ∧ p = .aggregate stages options) ∨
    (s.needsAggregation = false ∧ s.distinct.truthy = true ∧
      p = .distinct (distinctKey s) (if filter.truthy then filter else .null)) ∨
    ∃ options, s.needsAggregation = false ∧ s.distinct.truthy = false ∧
      findOptions s = .ok options ∧ p = .find filter options := by
  cases hneeds : s.needsAggregation with
  | true =>
    obtain ⟨stages, options, hstages, hoptions, hp⟩ := (plan_aggregate_iff hneeds).mp h
    exact .inl ⟨stages, options, rfl, hstages, hoptions, hp⟩
  | false =>
    cases hdistinct : s.distinct.truthy with
    | true => exact .inr (.inl ⟨rfl, rfl, (plan_distinct_iff hneeds hdistinct).mp h⟩)
    | false =>
      obtain ⟨options, hoptions, hp⟩ := (plan_find_iff hneeds hdistinct).mp h
      exact .inr (.inr ⟨options, rfl, rfl, hoptions, hp⟩)

end Kinds

variable {f es : Entries}

theorem orNull_orNull (v : Value) : v.orNull.orNull = v.orNull := by
  unfold Value.orNull
  by_cases h : v.truthy = true
  · rw [if_pos h, if_pos h]
  · rw [if_neg h]
    rfl

theorem truthy_asLists (v : Value) : v.asLists.truthy = v.truthy := by
  cases v with
  | list vs => cases vs <;> rfl
  | tuple vs => cases vs <;> rfl
  | map es => cases es <;> rfl
  | _ => rfl

theorem asLists_orNull (v : Value) : v.orNull.asLists = v.asLists.orNull := by
  unfold Value.orNull
  rw [truthy_asLists]
  split <;> rfl

theorem asLists_orNull_congr {v w : Value} (h : v.asLists = w.asLists) :
    v.orNull.asLists = w.orNull.asLists := by
  rw [asLists_orNull, asLists_orNull, h]

theorem get?_optionWhenSet (name name' : Text) (v : Value) :
    Entries.get? (optionWhenSet name v) (.text name') =
      if name = name' ∧ v.truthy then some v else none := by
  unfold optionWhenSet
  by_cases hv : v.truthy = true
  · simp [hv, Entries.single, Entries.get?]
  · simp [hv, Entries.get?]

/-- The options that the planner sets, where they count as set. -/
def plannedOptions (timeout sort skip limit projection : Value) : Entries :=
  optionWhenSet "max_time_ms" timeout ++ optionWhenSet "sort" sort ++ optionWhenSet "skip" skip ++
    optionWhenSet "limit" limit ++ optionWhenSet "projection" projection

theorem getD_get?_plannedOptions (timeout sort skip limit projection : Value) :
    let es := plannedOptions timeout sort skip limit projection
    (Entries.get? es (.text "sort")).getD .null = sort.orNull ∧
      (Entries.get? es (.text "skip")).getD .null = skip.orNull ∧
      (Entries.get? es (.text "limit")).getD .null = limit.orNull ∧
      (Entries.get? es (.text "projection")).getD .null = projection.orNull := by
  simp only [plannedOptions, Entries.get?_append, get?_optionWhenSet]
  refine ⟨?_, ?_, ?_, ?_⟩ <;> simp [Value.orNull] <;> split <;> rfl

theorem exists_pairs_of_sortOption {orders : Value} (h : sortOption orders = .ok es) :
    ∃ pairs, es = optionWhenSet "sort" (.list pairs) := by
  unfold sortOption at h
  split at h
  · next hset =>
    obtain ⟨pairs, hpairs, h⟩ := bind_eq_ok_iff.mp h
    obtain rfl := pure_eq_ok_iff.mp h
    refine ⟨pairs, ?_⟩
    cases orders with
    | map orders =>
      obtain rfl := pure_eq_ok_iff.mp hpairs
      have hne : orders ≠ [] := by simpa [Value.truthy] using hset
      simp [optionWhenSet, Value.truthy, hne]
    | _ => exact absurd hpairs throw_ne_ok
  · exact ⟨[], (pure_eq_ok_iff.mp h).symm⟩

/-- The parts of the options of a fetch that can be had. -/
theorem exists_parts_of_findOptions {s : Shape} {options : Entries}
    (h : findOptions s = .ok options) :
    ∃ given pairs own, s.projections.toEntries = .ok given ∧
      sortOption s.orders = .ok (optionWhenSet "sort" (.list pairs)) ∧
      s.options.toEntries = .ok own ∧
      options = (plannedOptions s.timeout (.list pairs) s.offset s.limit
        (.map ((Entries.ofKeys s.selectedColumns (.bool true)).update given))).update own := by
  obtain ⟨projected, hprojected, h⟩ := bind_eq_ok_iff.mp h
  obtain ⟨sort, hsort, h⟩ := bind_eq_ok_iff.mp h
  obtain ⟨own, hown, h⟩ := bind_eq_ok_iff.mp h
  obtain ⟨columns, hcolumns, hprojected⟩ := bind_eq_ok_iff.mp hprojected
  obtain ⟨given, hgiven, hprojected⟩ := bind_eq_ok_iff.mp hprojected
  obtain ⟨-, -, hcolumns⟩ := bind_eq_ok_iff.mp hcolumns
  obtain rfl := pure_eq_ok_iff.mp hcolumns
  obtain rfl := pure_eq_ok_iff.mp hprojected
  obtain ⟨pairs, rfl⟩ := exists_pairs_of_sortOption hsort
  exact ⟨given, pairs, own, hgiven, hsort, hown, (pure_eq_ok_iff.mp h).symm⟩

/-- A setting after the caller's options have been written over those of the planner. -/
theorem setting_update (es : Entries) {given : Entries} (hg : given.Distinct) (name : Text) :
    setting (es.update given) name = ((Entries.get? given (.text name)).getD
      ((Entries.get? es (.text name)).getD .null)).orNull := by
  unfold setting
  rw [Entries.get?_update es hg]
  cases Entries.get? given (.text name) <;> rfl

/-! ### Stages -/

theorem mem_columns_of_mem_selectedColumns {s : Shape} {c : Value} (h : c ∈ s.selectedColumns) :
    c ∈ s.columns := by
  unfold Shape.selectedColumns at h
  split at h
  · simp at h
  · exact h

/-- The columns that a page adds to its projection. -/
def Shape.pageColumns (s : Shape) : List Value :=
  if s.paginating.truthy then s.selectedColumns else []

theorem pageProjection_eq {s : Shape} (h : ∀ c ∈ s.selectedColumns, c.isHashable = true)
    (es : Entries) :
    pageProjection s es = .ok (es.update (s.pageColumns.map (·, .int 1))) := by
  unfold pageProjection Shape.pageColumns
  split
  · rw [Value.forM_checkHashable h]
    rfl
  · rfl

theorem sortStages_map (orders : Entries) : sortStages (.map orders) =
    .ok (Stage.unlessEmpty orders fun es => .sort (Entries.ofList es)) := by
  cases orders <;> rfl

theorem pipeline_eq {s : Shape} {g : Grouping} {orders given : Entries}
    (hg : Grouping.ofShape s = .ok g) (hgiven : s.projections.toEntries = .ok given)
    (hcolumns : ∀ c ∈ s.selectedColumns, c.isHashable = true) (horders : s.orders = .map orders)
    (f : Entries) :
    pipeline s (.map f) = .ok (Stage.whenSet (.map f) .keep ++ g.unwinds.map .unwind ++
      Stage.unlessEmpty g.fields .group ++
      (Stage.unlessEmpty orders fun es => .sort (Entries.ofList es)) ++
      Stage.whenSet s.offset .skip ++ Stage.whenSet s.limit .limit ++
      Stage.unlessEmpty (given.update (s.pageColumns.map (·, .int 1))) .project) := by
  have hsort := sortStages_map orders
  rw [← horders] at hsort
  exact bind_eq_ok_iff.mpr ⟨g, hg, bind_eq_ok_iff.mpr ⟨given, hgiven, bind_eq_ok_iff.mpr
    ⟨_, pageProjection_eq hcolumns given, bind_eq_ok_iff.mpr ⟨_, hsort, rfl⟩⟩⟩⟩

namespace RowSource
variable {a : RowSource} {v : Value}

theorem foldl_keep (ha : a.filter = .map []) :
    (Stage.whenSet (.map f) .keep).foldl afterStage a = { a with filter := .map f } := by
  cases f with
  | nil =>
    show a = _
    rw [← ha]
  | cons e f => rfl

theorem foldl_unwind (paths : List Text) :
    (paths.map Stage.unwind).foldl afterStage a = { a with unwinds := a.unwinds ++ paths } := by
  induction paths generalizing a with
  | nil => simp
  | cons path paths ih =>
    rw [List.map_cons, List.foldl_cons, ih]
    simp [afterStage]

theorem foldl_group (ha : a.group = []) :
    (Stage.unlessEmpty es .group).foldl afterStage a = { a with group := es } := by
  cases es with
  | nil =>
    show a = _
    rw [← ha]
  | cons e es => rfl

theorem foldl_skip (ha : a.skip = .null) :
    (Stage.whenSet v .skip).foldl afterStage a = { a with skip := v.orNull } := by
  unfold Stage.whenSet Value.orNull
  split
  · rfl
  · rw [← ha]; rfl

theorem foldl_limit (ha : a.limit = .null) :
    (Stage.whenSet v .limit).foldl afterStage a = { a with limit := v.orNull } := by
  unfold Stage.whenSet Value.orNull
  split
  · rfl
  · rw [← ha]; rfl

theorem foldl_project (ha : a.fields = .null) :
    (Stage.unlessEmpty es .project).foldl afterStage a =
      { a with fields := (Value.map es).orNull } := by
  cases es with
  | nil =>
    have hnull : (Value.map []).orNull = .null := rfl
    rw [hnull, ← ha]; rfl
  | cons e es => rfl

/-- An order is kept as it is, since no field is in it twice. -/
theorem foldl_sort {orders : Entries} (ho : orders.Distinct) (ha : a.sort = .null) :
    (Stage.unlessEmpty orders fun es => .sort (Entries.ofList es)).foldl afterStage a =
      { a with sort := Value.orNull (.list (orders.map fun e => .tuple [e.1, e.2])) } := by
  cases orders with
  | nil =>
    have hnull : Value.orNull (.list []) = .null := rfl
    rw [List.map_nil, hnull, ← ha]; rfl
  | cons e orders =>
    show { a with sort := .list ((Entries.ofList (e :: orders)).map _) } = _
    rw [Entries.ofList, Entries.update_nil_of_distinct ho]
    rfl

end RowSource

end DocQuery
