import DocQuery.Proofs.Plan.Source

/-!
# Pages and plain fetches

A shape without groups and without an aggregate is read by a pipeline when it is a page and by a
fetch of documents when it is not. `plan_paginating` says that both describe the same read
(`SameRead`). The operands of a pipeline, each under the name of its stage, are a list of entries
like the options of a fetch (`operands_pipeline`, `findOptions_plain`), so that the two are compared
entry by entry; only the projections are put together in opposite orders.
-/

namespace DocQuery

/-- The operands of the stages of a pipeline, each under the name of its stage. -/
def operands (stages : List Stage) : Entries :=
  stages.flatMap Stage.toEntries

/-- Mappings with the same entries in some order, where numbers go by their value; none is empty. -/
def SameProjection (v w : Value) : Prop :=
  ∃ es fs : Entries, v = .map es ∧ w = .map fs ∧ es ≠ [] ∧
    (es.map fun e => (e.1, e.2.key)).Perm (fs.map fun e => (e.1, e.2.key))

/-- The stages of a pipeline read what a fetch with the filter and the options does. -/
structure SameRead (filter : Entries) (stages : List Stage) (options : Entries) : Prop where
  stage_names : (Entries.keys (operands stages)).Sublist
    [.text "$match", .text "$sort", .text "$skip", .text "$limit", .text "$project"]
  option_names : (Entries.keys options).Sublist
    [.text "sort", .text "skip", .text "limit", .text "projection"]
  filter_eq : Entries.get? (operands stages) (.text "$match") =
    if filter = [] then none else some (.map filter)
  /-- The same pairs of a field and its direction, in the same order. -/
  sort_eq : ∃ orders : Option Entries,
    Entries.get? (operands stages) (.text "$sort") = orders.map .map ∧
      Entries.get? options (.text "sort") =
        orders.map fun es => .list (es.map fun e => .tuple [e.1, e.2])
  skip_eq : Entries.get? (operands stages) (.text "$skip") = Entries.get? options (.text "skip")
  limit_eq : Entries.get? (operands stages) (.text "$limit") = Entries.get? options (.text "limit")
  projection : Option.Rel SameProjection (Entries.get? (operands stages) (.text "$project"))
    (Entries.get? options (.text "projection"))

/-- Neither grouped nor accumulated nor distinct, without options of the caller's own, and no
selected column is projected explicitly. -/
structure Shape.Plain (s : Shape) : Prop where
  groups : s.groups = []
  aggregate : s.aggregate = none
  distinct : s.distinct.truthy = false
  options : s.options = .map []
  timeout : s.timeout.truthy = false
  columns : ∀ c ∈ s.columns, c.isHashable = true
  orders : ∃ orders, s.orders = .map orders ∧ Entries.Distinct orders
  projections : ∃ given, s.projections = .map given ∧ Entries.Distinct given ∧
    ∀ c ∈ s.selectedColumns, Entries.hasKey given c = false

variable {s : Shape} {f orders given : Entries} {columns : List Value}

theorem Shape.Plain.toEntries_options (h : s.Plain) : s.options.toEntries = .ok [] := by
  rw [h.options]
  rfl

theorem toEntries_map (h : Entries.Distinct given) : (Value.map given).toEntries = .ok given :=
  congrArg Except.ok (Entries.update_nil_of_distinct h)

theorem hashable_selectedColumns (h : s.Plain) :
    ∀ c ∈ s.selectedColumns, c.isHashable = true :=
  fun c hc => h.columns c (mem_columns_of_mem_selectedColumns hc)

/-- A page writes its columns after the explicit projections, a fetch writes them before. -/
theorem perm_projections (hgiven : Entries.Distinct given)
    (h : ∀ c ∈ columns, Entries.hasKey given c = false) :
    ((given.update (columns.map (·, .int 1))).map fun e => (e.1, e.2.key)).Perm
      (((Entries.ofKeys columns (.bool true)).update given).map fun e => (e.1, e.2.key)) := by
  -- the columns without repetitions, which no explicit projection is among
  let first := columns.foldl Entries.addKey []
  have hkeys : ∀ v, Entries.ofKeys columns v = first.map (·, v) :=
    Entries.update_map_const [] columns
  have hnot : ∀ e ∈ given, ∀ c ∈ columns, e.1.sameKey c = false :=
    fun e he c hc => Entries.hasKey_eq_false_iff.mp (h c hc) e he
  have hpage : given.update (columns.map (·, .int 1)) = given ++ first.map (·, .int 1) := by
    have hnot' : ∀ e ∈ given, ∀ g ∈ columns.map (·, Value.int 1), e.1.sameKey g.1 = false := by
      intro e he g hg
      obtain ⟨c, hc, rfl⟩ := List.mem_map.mp hg
      exact hnot e he c hc
    have happend := @Entries.update_append_of_forall_not given [] _ hnot'
    rw [List.append_nil] at happend
    rw [happend, ← hkeys]
    rfl
  have hfetch : (Entries.ofKeys columns (.bool true)).update given =
      first.map (·, .bool true) ++ given := by
    have hnot' : ∀ g ∈ first.map (·, Value.bool true), ∀ e ∈ given, g.1.sameKey e.1 = false := by
      intro g hg e he
      obtain ⟨c, hc, rfl⟩ := List.mem_map.mp hg
      rw [Value.sameKey_comm]
      exact hnot e he c ((Entries.mem_of_mem_foldl_addKey hc).resolve_left (by simp))
    have happend := @Entries.update_append_of_forall_not _ [] _ hnot'
    rw [List.append_nil, Entries.update_nil_of_distinct hgiven] at happend
    rw [hkeys, happend]
  rw [hpage, hfetch, List.map_append, List.map_append, List.map_map, List.map_map]
  exact List.perm_append_comm

theorem operands_append (as bs : List Stage) :
    operands (as ++ bs) = operands as ++ operands bs :=
  List.flatMap_append

theorem operands_whenSet {stage : Value → Stage} {name : Text}
    (h : ∀ v, (stage v).toEntries = Entries.single name v) (v : Value) :
    operands (Stage.whenSet v stage) = optionWhenSet name v := by
  unfold Stage.whenSet optionWhenSet
  split
  · simp [operands, h]
  · rfl

theorem operands_project (es : Entries) :
    operands (Stage.unlessEmpty es .project) = optionWhenSet "$project" (.map es) := by
  cases es <;> rfl

theorem operands_sort (h : Entries.Distinct orders) :
    operands (Stage.unlessEmpty orders fun es => .sort (Entries.ofList es)) =
      optionWhenSet "$sort" (.map orders) := by
  cases orders with
  | nil => rfl
  | cons e orders =>
    show Entries.single "$sort" (.map (Entries.ofList (e :: orders))) = _
    rw [Entries.ofList, Entries.update_nil_of_distinct h]
    rfl

theorem sortOption_map (orders : Entries) :
    sortOption (.map orders) =
      .ok (optionWhenSet "sort" (.list (orders.map fun e => .tuple [e.1, e.2]))) := by
  cases orders <;> rfl

/-- The operands of the pipeline of a page. -/
theorem operands_pipeline (hs : s.Plain) (hpage : s.paginating.truthy = true)
    (horders : s.orders = .map orders) (hd : Entries.Distinct orders)
    (hgiven : s.projections = .map given) (hd' : Entries.Distinct given) (f : Entries) :
    ∃ stages, pipeline s (.map f) = .ok stages ∧
      operands stages = optionWhenSet "$match" (.map f) ++ optionWhenSet "$sort" (.map orders) ++
        optionWhenSet "$skip" s.offset ++ optionWhenSet "$limit" s.limit ++
        optionWhenSet "$project" (.map (given.update (s.selectedColumns.map (·, .int 1)))) := by
  have hgrouping : Grouping.ofShape s = .ok {} := by
    unfold Grouping.ofShape
    rw [hs.groups, hs.aggregate]
    rfl
  have hexplicit : s.projections.toEntries = .ok given := by rw [hgiven, toEntries_map hd']
  have hcolumns : s.pageColumns = s.selectedColumns := if_pos hpage
  refine ⟨_, pipeline_eq hgrouping hexplicit (hashable_selectedColumns hs) horders f, ?_⟩
  simp only [operands_append]
  rw [operands_whenSet (fun _ => rfl), operands_whenSet (fun _ => rfl),
    operands_whenSet (fun _ => rfl), operands_project, operands_sort hd, hcolumns]
  show _ ++ [] ++ [] ++ _ ++ _ ++ _ ++ _ = _
  rw [List.append_nil, List.append_nil]

/-- The options of a fetch without options of the caller's own. -/
theorem findOptions_plain (hs : s.Plain) (horders : s.orders = .map orders)
    (hgiven : s.projections = .map given) (hd' : Entries.Distinct given) :
    findOptions s = .ok (optionWhenSet "sort" (.list (orders.map fun e => .tuple [e.1, e.2])) ++
      optionWhenSet "skip" s.offset ++ optionWhenSet "limit" s.limit ++
      optionWhenSet "projection"
        (.map ((Entries.ofKeys s.selectedColumns (.bool true)).update given))) := by
  have hexplicit : s.projections.toEntries = .ok given := by rw [hgiven, toEntries_map hd']
  have hcolumns : Value.underKeys s.selectedColumns (.bool true) =
      .ok (Entries.ofKeys s.selectedColumns (.bool true)) := by
    unfold Value.underKeys
    rw [Value.forM_checkHashable (hashable_selectedColumns hs)]
    rfl
  have hprojection : findProjection s =
      .ok ((Entries.ofKeys s.selectedColumns (.bool true)).update given) :=
    bind_eq_ok_iff.mpr ⟨_, hcolumns, bind_eq_ok_iff.mpr ⟨_, hexplicit, rfl⟩⟩
  have htimeout : optionWhenSet "max_time_ms" s.timeout = [] := by
    simp [optionWhenSet, hs.timeout]
  have hsort := sortOption_map orders
  rw [← horders] at hsort
  refine bind_eq_ok_iff.mpr ⟨_, hprojection, bind_eq_ok_iff.mpr ⟨_, hsort,
    bind_eq_ok_iff.mpr ⟨_, hs.toEntries_options, ?_⟩⟩⟩
  rw [htimeout, List.nil_append]
  rfl

/-! ### The same read -/

theorem keys_append (es fs : Entries) :
    Entries.keys (es ++ fs) = Entries.keys es ++ Entries.keys fs :=
  List.map_append

theorem keys_optionWhenSet_sublist (name : Text) (v : Value) :
    (Entries.keys (optionWhenSet name v)).Sublist [.text name] := by
  unfold optionWhenSet
  split
  · exact List.Sublist.refl _
  · exact List.nil_sublist _

theorem sort_of_optionWhenSet (orders : Entries) :
    ∃ sort : Option Entries,
      (if (Value.map orders).truthy then some (Value.map orders) else none) = sort.map .map ∧
        (if (Value.list (orders.map fun e => .tuple [e.1, e.2])).truthy
          then some (Value.list (orders.map fun e => .tuple [e.1, e.2])) else none) =
          sort.map fun es => .list (es.map fun e => .tuple [e.1, e.2]) := by
  cases orders with
  | nil => exact ⟨none, rfl, rfl⟩
  | cons e orders => exact ⟨some (e :: orders), rfl, rfl⟩

theorem sameProjection_of_perm {page fetch : Entries}
    (h : (page.map fun e => (e.1, e.2.key)).Perm (fetch.map fun e => (e.1, e.2.key))) :
    Option.Rel SameProjection (if (Value.map page).truthy then some (.map page) else none)
      (if (Value.map fetch).truthy then some (.map fetch) else none) := by
  have hlen := h.length_eq
  rw [List.length_map, List.length_map] at hlen
  cases page with
  | nil =>
    obtain rfl := List.length_eq_zero_iff.mp hlen.symm
    exact .none
  | cons e page =>
    cases fetch with
    | nil => simp at hlen
    | cons e' fetch => exact .some ⟨_, _, rfl, rfl, List.cons_ne_nil e page, h⟩

/-- What a page and a fetch of the same settings are sent as is read as the same. -/
theorem sameRead_of_eq {stages : List Stage} {options page fetch : Entries} {offset limit : Value}
    (hstages : operands stages = optionWhenSet "$match" (.map f) ++
      optionWhenSet "$sort" (.map orders) ++ optionWhenSet "$skip" offset ++
      optionWhenSet "$limit" limit ++ optionWhenSet "$project" (.map page))
    (hoptions : options = optionWhenSet "sort" (.list (orders.map fun e => .tuple [e.1, e.2])) ++
      optionWhenSet "skip" offset ++ optionWhenSet "limit" limit ++
      optionWhenSet "projection" (.map fetch))
    (h : (page.map fun e => (e.1, e.2.key)).Perm (fetch.map fun e => (e.1, e.2.key))) :
    SameRead f stages options where
  stage_names := by
    rw [hstages]
    simp only [keys_append]
    exact ((((keys_optionWhenSet_sublist _ _).append (keys_optionWhenSet_sublist _ _)).append
      (keys_optionWhenSet_sublist _ _)).append (keys_optionWhenSet_sublist _ _)).append
      (keys_optionWhenSet_sublist _ _)
  option_names := by
    rw [hoptions]
    simp only [keys_append]
    exact (((keys_optionWhenSet_sublist _ _).append (keys_optionWhenSet_sublist _ _)).append
      (keys_optionWhenSet_sublist _ _)).append (keys_optionWhenSet_sublist _ _)
  filter_eq := by
    rw [hstages]
    simp only [Entries.get?_append, get?_optionWhenSet]
    cases f <;> simp [Value.truthy]
  sort_eq := by
    obtain ⟨sort, hpage, hfetch⟩ := sort_of_optionWhenSet orders
    refine ⟨sort, ?_, ?_⟩
    · rw [← hpage, hstages]
      simp [Entries.get?_append, get?_optionWhenSet]
    · rw [← hfetch, hoptions]
      simp [Entries.get?_append, get?_optionWhenSet]
  skip_eq := by
    rw [hstages, hoptions]
    simp [Entries.get?_append, get?_optionWhenSet]
  limit_eq := by
    rw [hstages, hoptions]
    simp [Entries.get?_append, get?_optionWhenSet]
  projection := by
    rw [hstages, hoptions]
    simpa [Entries.get?_append, get?_optionWhenSet] using sameProjection_of_perm h

/-- A plain shape is planned with paging and without, and both plans read the same. -/
theorem plan_paginating (hs : s.Plain) (f : Entries) :
    ∃ stages options,
      plan { s with paginating := .bool true } (.map f) = .ok (.aggregate stages []) ∧
      plan { s with paginating := .bool false } (.map f) = .ok (.find (.map f) options) ∧
      SameRead f stages options := by
  obtain ⟨orders, horders, hd⟩ := hs.orders
  obtain ⟨given, hgiven, hd', hnot⟩ := hs.projections
  have hpage : Shape.Plain { s with paginating := .bool true } := { hs with }
  have hfetch : Shape.Plain { s with paginating := .bool false } := { hs with }
  obtain ⟨stages, hstages, hops⟩ := operands_pipeline hpage rfl horders hd hgiven hd' f
  have hoptions := findOptions_plain hfetch horders hgiven hd'
  refine ⟨stages, _, ?_, ?_, sameRead_of_eq hops rfl (perm_projections hd' hnot)⟩
  · have hneeds : Shape.needsAggregation { s with paginating := .bool true } = true := by
      simp [Shape.needsAggregation, Value.truthy]
    unfold plan
    rw [if_pos hneeds]
    exact bind_eq_ok_iff.mpr ⟨stages, hstages,
      bind_eq_ok_iff.mpr ⟨[], hs.toEntries_options, rfl⟩⟩
  · have hneeds : ¬ Shape.needsAggregation { s with paginating := .bool false } = true := by
      simp [Shape.needsAggregation, hs.groups, hs.aggregate, Value.truthy]
    have hdistinct : ¬ s.distinct.truthy = true := by simp [hs.distinct]
    unfold plan
    rw [if_neg hneeds, if_neg hdistinct]
    exact bind_eq_ok_iff.mpr ⟨_, hoptions, rfl⟩

/-- A column that is selected twice, an order, and a projection that leaves a field out. -/
theorem plan_paginating_repeated_column :
    let s : Shape := {
      columns := [.text "name", .text "name"]
      orders := .map [(.text "age", .int (-1))]
      offset := .int 5
      limit := .int 10
      projections := .map [(.text "_id", .int 0)] }
    let f : Entries := [(.text "active", .bool true)]
    s.Plain ∧ ∃ stages options,
      plan { s with paginating := .bool true } (.map f) = .ok (.aggregate stages []) ∧
      plan { s with paginating := .bool false } (.map f) = .ok (.find (.map f) options) ∧
      SameRead f stages options := by
  intro s f
  have hs : s.Plain := {
    groups := rfl
    aggregate := rfl
    distinct := rfl
    options := rfl
    timeout := rfl
    columns := by decide
    orders := ⟨_, rfl, Entries.distinct_single _ _⟩
    projections := ⟨_, rfl, Entries.distinct_single _ _, by decide⟩ }
  exact ⟨hs, plan_paginating hs f⟩

end DocQuery
