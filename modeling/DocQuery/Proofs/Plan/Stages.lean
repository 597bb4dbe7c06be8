import DocQuery.Proofs.Plan.Grouping
import DocQuery.Proofs.Plan.Source
import DocQuery.Proofs.Value.Whole

/-!
# The stages of a pipeline

A pipeline that can be had is put together of its parts (`exists_parts_of_pipeline`), and a stage is
in it where its part is set or not empty (`mem_stagesOf_iff`). With columns that are text and counts
that are whole numbers, `pipeline_documented` says when that is, and that a pipeline cannot be had
only where an accumulator lacks its column or a name.
-/

namespace DocQuery

open Grouping (Accumulates Refused)

/-- The name under which a stage is sent. -/
def Stage.name : Stage → String
  | keep _ => "$match"
  | unwind _ => "$unwind"
  | group _ => "$group"
  | sort _ => "$sort"
  | skip _ => "$skip"
  | limit _ => "$limit"
  | project _ => "$project"

/-- A pipeline of its parts. -/
def stagesOf (filter : Value) (unwinds : List Text) (grouped : Entries)
    (sorting : List Entries) (offset limit : Value) (projected : Entries) : List Stage :=
  Stage.whenSet filter .keep ++ unwinds.map .unwind ++ Stage.unlessEmpty grouped .group ++
    sorting.map .sort ++ Stage.whenSet offset .skip ++ Stage.whenSet limit .limit ++
    Stage.unlessEmpty projected .project

/-- Columns are text, orders and projections are mappings, and rows are counted by whole numbers. -/
structure Shape.WellTyped (s : Shape) : Prop extends s.TextColumns where
  orders : ∃ es, s.orders = .map es
  projections : ∃ es, s.projections = .map es
  offset : s.offset = .null ∨ ∃ n, s.offset.whole? = some n
  limit : s.limit = .null ∨ ∃ n, s.limit.whole? = some n

/-- The stages come in their fixed order, all but the unwinding ones at most once, and each of them
where the filter or the shape asks for it. -/
structure Documented (s : Shape) (f : Entries) (stages : List Stage) : Prop where
  single_key : ∀ stage ∈ stages, ∃ v, stage.toValue = .map [(.text stage.name, v)]
  order : ∃ n, (stages.map Stage.name).Sublist
    ("$match" :: List.replicate n "$unwind" ++ ["$group", "$sort", "$skip", "$limit", "$project"])
  keep_iff : ∀ v, .keep v ∈ stages ↔ f ≠ [] ∧ v = .map f
  unwind_iff : ∀ path, .unwind path ∈ stages ↔ path ∈ Grouping.arrays s
  group_iff : (∃ es, .group es ∈ stages) ↔ s.groups ≠ [] ∨ ∃ a, s.aggregate = some a
  sort_iff : ∀ es, .sort es ∈ stages ↔ s.orders ≠ .map [] ∧ s.orders.toEntries = .ok es
  skip_iff : ∀ v, .skip v ∈ stages ↔ (∃ n, s.offset.whole? = some n ∧ n ≠ 0) ∧ v = s.offset
  limit_iff : ∀ v, .limit v ∈ stages ↔ (∃ n, s.limit.whole? = some n ∧ n ≠ 0) ∧ v = s.limit
  project_iff : (∃ es, .project es ∈ stages) ↔ s.projections ≠ .map [] ∨
    s.paginating.truthy = true ∧ s.columns ≠ [] ∧ Shape.everyColumn ∉ s.columns

variable {s : Shape} {f es : Entries} {filter v : Value} {stage : Stage} {stages : List Stage}
  {unwinds : List Text} {grouped projected : Entries} {sorting : List Entries}
  {offset limit : Value} {a : Aggregate}

theorem mem_whenSet_iff {make : Value → Stage} :
    stage ∈ Stage.whenSet v make ↔ v.truthy = true ∧ stage = make v := by
  unfold Stage.whenSet
  split <;> simp_all

theorem mem_unlessEmpty_iff {make : Entries → Stage} :
    stage ∈ Stage.unlessEmpty es make ↔ es ≠ [] ∧ stage = make es := by
  unfold Stage.unlessEmpty
  split <;> simp_all

theorem mem_stagesOf_iff :
    stage ∈ stagesOf filter unwinds grouped sorting offset limit projected ↔
      match stage with
      | .keep v => filter.truthy = true ∧ v = filter
      | .unwind path => path ∈ unwinds
      | .group es => grouped ≠ [] ∧ es = grouped
      | .sort es => es ∈ sorting
      | .skip v => offset.truthy = true ∧ v = offset
      | .limit v => limit.truthy = true ∧ v = limit
      | .project es => projected ≠ [] ∧ es = projected := by
  cases stage <;> simp [stagesOf, mem_whenSet_iff, mem_unlessEmpty_iff]

theorem exists_sorting_of_sortStages {orders : Value} (h : sortStages orders = .ok stages) :
    ∃ sorting : List Entries, stages = sorting.map .sort ∧ sorting.length ≤ 1 ∧
      ∀ es, es ∈ sorting ↔ orders.truthy = true ∧ orders.toEntries = .ok es := by
  unfold sortStages at h
  split at h
  · next ho =>
    obtain ⟨es, hes, h⟩ := bind_eq_ok_iff.mp h
    obtain rfl := pure_eq_ok_iff.mp h
    exact ⟨[es], rfl, Nat.le_refl 1, by simp [ho, hes, eq_comm]⟩
  · next ho =>
    obtain rfl := pure_eq_ok_iff.mp h
    exact ⟨[], rfl, by simp, by simp [ho]⟩

theorem exists_parts_of_pipeline (h : pipeline s filter = .ok stages) :
    ∃ g given projected sorting, Grouping.ofShape s = .ok g ∧
      s.projections.toEntries = .ok given ∧ pageProjection s given = .ok projected ∧
      (sorting.length ≤ 1 ∧
        ∀ es, es ∈ sorting ↔ s.orders.truthy = true ∧ s.orders.toEntries = .ok es) ∧
      stages = stagesOf filter g.unwinds g.fields sorting s.offset s.limit projected := by
  obtain ⟨g, hg, h⟩ := bind_eq_ok_iff.mp h
  obtain ⟨given, hgiven, h⟩ := bind_eq_ok_iff.mp h
  obtain ⟨projected, hprojected, h⟩ := bind_eq_ok_iff.mp h
  obtain ⟨sorted, hsorted, h⟩ := bind_eq_ok_iff.mp h
  obtain ⟨sorting, rfl, hsorting⟩ := exists_sorting_of_sortStages hsorted
  exact ⟨g, given, projected, sorting, hg, hgiven, hprojected, hsorting,
    (pure_eq_ok_iff.mp h).symm⟩

theorem mem_group_iff_groupFields (hs : s.TextColumns) (h : pipeline s filter = .ok stages)
    (es : Entries) : .group es ∈ stages ↔
      Grouping.groupFields s ≠ [] ∧ es = Grouping.groupFields s := by
  obtain ⟨g, given, projected, sorting, hg, -, -, -, rfl⟩ := exists_parts_of_pipeline h
  obtain ⟨-, rfl⟩ := (Grouping.ofShape_eq_ok_iff hs).mp hg
  exact mem_stagesOf_iff

theorem mem_group_iff_of_pipeline (hs : s.TextColumns) (hgroups : s.groups ≠ [])
    (h : pipeline s filter = .ok stages) (es : Entries) :
    .group es ∈ stages ↔ es = Grouping.groupFields s := by
  have hne : Grouping.groupFields s ≠ [] := fun hnil =>
    hgroups ((Grouping.groupFields_eq_nil_iff hs.groups).mp hnil).1
  rw [mem_group_iff_groupFields hs h]
  exact and_iff_right hne

theorem toValue_eq (stage : Stage) : ∃ v, stage.toValue = .map [(.text stage.name, v)] := by
  cases stage <;> exact ⟨_, rfl⟩

section Names
variable {name : String}

theorem names_map {α : Type} (make : α → Stage) (h : ∀ a, (make a).name = name) (as : List α) :
    (as.map make).map Stage.name = List.replicate as.length name := by
  simp [List.map_map, Function.comp_def, h, List.map_const']

theorem names_whenSet_sublist (make : Value → Stage) (h : ∀ v, (make v).name = name) (v : Value) :
    ((Stage.whenSet v make).map Stage.name).Sublist [name] := by
  unfold Stage.whenSet
  split <;> simp [h]

theorem names_unlessEmpty_sublist (make : Entries → Stage) (h : ∀ es, (make es).name = name)
    (es : Entries) : ((Stage.unlessEmpty es make).map Stage.name).Sublist [name] := by
  unfold Stage.unlessEmpty
  split <;> simp [h]

end Names

theorem names_stagesOf_sublist (hsorting : sorting.length ≤ 1) :
    ((stagesOf filter unwinds grouped sorting offset limit projected).map Stage.name).Sublist
      ("$match" :: List.replicate unwinds.length "$unwind" ++
        ["$group", "$sort", "$skip", "$limit", "$project"]) := by
  have hfilter := names_whenSet_sublist .keep (fun _ => rfl) filter
  have hunwinds : ((unwinds.map Stage.unwind).map Stage.name).Sublist
      (List.replicate unwinds.length "$unwind") :=
    names_map .unwind (fun _ => rfl) unwinds ▸ List.Sublist.refl _
  have hgroup := names_unlessEmpty_sublist .group (fun _ => rfl) grouped
  have hsort : ((sorting.map Stage.sort).map Stage.name).Sublist ["$sort"] := by
    rw [names_map .sort fun _ => rfl, List.replicate_sublist_iff]
    exact hsorting
  have hskip := names_whenSet_sublist .skip (fun _ => rfl) offset
  have hlimit := names_whenSet_sublist .limit (fun _ => rfl) limit
  have hproject := names_unlessEmpty_sublist .project (fun _ => rfl) projected
  simpa [stagesOf] using ((((((hfilter.append hunwinds).append hgroup).append hsort).append
    hskip).append hlimit).append hproject)

/-! ### When a stage is there -/

theorem toEntries_eq_ok_iff {given : Entries} :
    (Value.map given).toEntries = .ok es ↔ Entries.ofList given = es :=
  pure_eq_ok_iff

theorem truthy_map_iff : (Value.map f).truthy = true ↔ f ≠ [] := by
  simp [Value.truthy]

theorem selectedColumns_eq_nil_iff (h : AllText s.columns) :
    s.selectedColumns = [] ↔ s.columns = [] ∨ Shape.everyColumn ∈ s.columns := by
  have hevery : (s.columns.any fun v => v.sameKey Shape.everyColumn) = true ↔
      Shape.everyColumn ∈ s.columns := any_sameKey_text_iff h
  unfold Shape.selectedColumns
  split
  · next hany => simp [hevery.mp hany]
  · next hany => simp [mt hevery.mpr hany]

theorem pageColumns_ne_nil_iff (h : AllText s.columns) :
    s.pageColumns ≠ [] ↔
      s.paginating.truthy = true ∧ s.columns ≠ [] ∧ Shape.everyColumn ∉ s.columns := by
  unfold Shape.pageColumns
  split
  · next hp => simp [hp, selectedColumns_eq_nil_iff h]
  · next hp => simp [hp]

theorem pipeline_eq_error {fault : Fault} (hs : s.TextColumns) (hagg : s.aggregate = some a)
    (h : Refused a fault) : pipeline s filter = .error fault := by
  unfold pipeline
  rw [Grouping.ofShape_eq_error hs hagg h]
  rfl

theorem exists_pipeline (hs : s.WellTyped) (ha : ∀ a, s.aggregate = some a → Accumulates a)
    (f : Entries) : ∃ stages, pipeline s (.map f) = .ok stages := by
  obtain ⟨orders, horders⟩ := hs.orders
  obtain ⟨given, hgiven⟩ := hs.projections
  have hentries : s.projections.toEntries = .ok (Entries.ofList given) := by
    rw [hgiven]
    rfl
  have hcolumns := hashable_of_allText (Grouping.allText_selectedColumns hs.columns)
  exact ⟨_, pipeline_eq (Grouping.ofShape_eq_ok hs.toTextColumns ha) hentries hcolumns horders f⟩

theorem documented_of_pipeline (hs : s.WellTyped) (h : pipeline s (.map f) = .ok stages) :
    Documented s f stages := by
  obtain ⟨g, given, projected, sorting, hg, hgiven, hprojected, ⟨hlen, hsorting⟩, rfl⟩ :=
    exists_parts_of_pipeline h
  obtain ⟨-, rfl⟩ := (Grouping.ofShape_eq_ok_iff hs.toTextColumns).mp hg
  obtain ⟨orders, horders⟩ := hs.orders
  obtain ⟨projections, hprojections⟩ := hs.projections
  have hcolumns := hashable_of_allText (Grouping.allText_selectedColumns hs.columns)
  rw [pageProjection_eq hcolumns] at hprojected
  obtain rfl := Except.ok.inj hprojected
  rw [hprojections, toEntries_eq_ok_iff] at hgiven
  constructor
  case single_key => exact fun stage _ => toValue_eq stage
  case order => exact ⟨_, names_stagesOf_sublist hlen⟩
  case keep_iff =>
    intro v
    rw [mem_stagesOf_iff, truthy_map_iff]
  case unwind_iff => exact fun path => mem_stagesOf_iff
  case group_iff =>
    simp only [mem_stagesOf_iff, exists_and_left, exists_eq, and_true]
    rw [ne_eq, Grouping.groupFields_eq_nil_iff hs.groups]
    cases s.aggregate <;> simp
  case sort_iff =>
    intro es
    rw [mem_stagesOf_iff, horders]
    simp only [hsorting, horders, truthy_map_iff]
    simp
  case skip_iff =>
    intro v
    rw [mem_stagesOf_iff, Value.truthy_iff_exists_whole hs.offset]
  case limit_iff =>
    intro v
    rw [mem_stagesOf_iff, Value.truthy_iff_exists_whole hs.limit]
  case project_iff =>
    simp only [mem_stagesOf_iff, exists_and_left, exists_eq, and_true]
    rw [ne_eq, Entries.update_eq_nil_iff, List.map_eq_nil_iff, not_and_or, ← hgiven, hprojections,
      ← pageColumns_ne_nil_iff hs.columns]
    simp [Entries.ofList, Entries.update_eq_nil_iff]

/-- A pipeline has the documented form, and cannot be had only where an accumulator other than a
count was given no column, or where a function that is no text has no name. -/
theorem pipeline_documented (hs : s.WellTyped) (f : Entries) :
    (∀ fault, pipeline s (.map f) = .error fault ↔
        ∃ a, s.aggregate = some a ∧ Refused a fault) ∧
      ∀ stages, pipeline s (.map f) = .ok stages → Documented s f stages := by
  refine ⟨fun fault => ⟨fun h => ?_, ?_⟩, fun stages h => documented_of_pipeline hs h⟩
  · by_contra hno
    have ha : ∀ a, s.aggregate = some a → Accumulates a := fun a hagg => by
      refine (Grouping.accumulates_or_exists_refused a).resolve_right fun ⟨fault', hrefused⟩ => ?_
      rw [pipeline_eq_error hs.toTextColumns hagg hrefused] at h
      exact hno ⟨a, hagg, Except.error.inj h ▸ hrefused⟩
    obtain ⟨stages, hstages⟩ := exists_pipeline hs ha f
    rw [hstages] at h
    exact nomatch h
  · rintro ⟨a, hagg, hrefused⟩
    exact pipeline_eq_error hs.toTextColumns hagg hrefused

/-- Every stage there is: a page of sums through an array, grouped and ordered. -/
theorem pipeline_documented_page :
    let s : Shape := {
      columns := [.text "name", .text "address.city"]
      groups := [.text "country"]
      aggregate := some { function := .text "SUM", columns := [.text "items.*.price"] }
      orders := .map [(.text "aggregate", .int (-1))]
      offset := .int 20
      limit := .int 10
      paginating := .bool true }
    let f : Entries := [(.text "active", .bool true)]
    s.WellTyped ∧ ∃ stages, pipeline s (.map f) = .ok stages ∧ Documented s f stages ∧
      stages.map Stage.name =
        ["$match", "$unwind", "$group", "$sort", "$skip", "$limit", "$project"] := by
  intro s f
  have hs : s.WellTyped := {
    columns := allText_map ["name", "address.city"]
    groups := allText_map ["country"]
    aggregate := by
      intro a ha
      obtain rfl := Option.some.inj ha
      exact allText_map ["items.*.price"]
    orders := ⟨_, rfl⟩
    projections := ⟨_, rfl⟩
    offset := .inr ⟨20, rfl⟩
    limit := .inr ⟨10, rfl⟩ }
  exact ⟨hs, _, rfl, (pipeline_documented hs f).2 _ rfl, rfl⟩

end DocQuery
