import DocQuery.Proofs.Plan.Projections

/-!
# Names that a plan has for selected columns

A plan names fields: those it asks for, the one whose distinct values it fetches, and in a grouping
the output fields and the paths of last values (`Plan.HasName`). What it names beyond the plan of
the same shape without columns, it names for a selected column: by the column itself or by the
column's output field (`hasName_cases`), and it has one of the two for every column that it takes
up (`hasName_of_mem_plannedColumns`). `wildcard_names` says when one of these names has a star.
-/

namespace DocQuery

open Entries
open Grouping (lastOf referenceTo groupFields columnFields outputs aggregateKey)

/-- The plan has the name: for a field that it asks for, for one whose distinct values it fetches,
or in its grouping for an output field or for the path of a last value. -/
inductive Plan.HasName (name : Text) : Plan → Prop
  | projected {p : Plan} {es : Entries} (h : p.Projects es) (hk : hasKey es (.text name) = true) :
      HasName name p
  | distinct {kept : Value} : HasName name (.distinct (.text name) kept)
  | output {stages : List Stage} {options fields : Entries} (h : .group fields ∈ stages)
      (hk : hasKey fields (.text name) = true) : HasName name (.aggregate stages options)
  | path {stages : List Stage} {options fields : Entries} {k : Value} (h : .group fields ∈ stages)
      (hk : get? fields k = some (lastOf (referenceTo name))) :
      HasName name (.aggregate stages options)

namespace Shape

/-- The same shape, where no column is selected. -/
def withoutColumns (s : Shape) : Shape :=
  { s with columns := [] }

/-- The caller's own options say which fields to ask for. -/
def ownProjection (s : Shape) : Bool :=
  match s.options.toEntries with
  | .ok own => hasKey own (.text "projection")
  | .error _ => false

/-- The selected columns that the plan takes up. -/
def plannedColumns (s : Shape) : List Text :=
  texts <|
    if s.needsAggregation then if s.groups = [] then s.pageColumns else s.selectedColumns
    else if s.distinct.truthy then s.selectedColumns.take 1
    else if s.ownProjection then []
    else s.selectedColumns

variable {s : Shape}

theorem TextColumns.withoutColumns (hs : s.TextColumns) : s.withoutColumns.TextColumns :=
  ⟨allText_map [], hs.groups, hs.aggregate⟩

theorem ownProjection_eq {own : Entries} (hown : s.options.toEntries = .ok own) :
    s.ownProjection = (get? own (.text "projection")).isSome := by
  rw [ownProjection, hown]
  exact hasKey_eq_isSome _ _

theorem selectedColumns_withoutColumns (s : Shape) : s.withoutColumns.selectedColumns = [] := rfl

end Shape

variable {s : Shape} {filter k v : Value} {p p₀ : Plan} {stages stages₀ : List Stage}
  {given own options : Entries} {name c : Text}

theorem exists_pipeline_withoutColumns (hs : s.TextColumns) (h : pipeline s filter = .ok stages) :
    ∃ stages₀, pipeline s.withoutColumns filter = .ok stages₀ := by
  obtain ⟨g, hg, h⟩ := bind_eq_ok_iff.mp h
  obtain ⟨given, hgiven, h⟩ := bind_eq_ok_iff.mp h
  obtain ⟨_, -, h⟩ := bind_eq_ok_iff.mp h
  obtain ⟨sorted, hsorted, -⟩ := bind_eq_ok_iff.mp h
  obtain ⟨ha, -⟩ := (Grouping.ofShape_eq_ok_iff hs).mp hg
  have hprojected := pageProjection_eq (s := s.withoutColumns) (by
    simp [Shape.selectedColumns_withoutColumns]) given
  exact ⟨_, bind_eq_ok_iff.mpr ⟨_, Grouping.ofShape_eq_ok hs.withoutColumns ha,
    bind_eq_ok_iff.mpr ⟨given, hgiven, bind_eq_ok_iff.mpr ⟨_, hprojected,
      bind_eq_ok_iff.mpr ⟨sorted, hsorted, rfl⟩⟩⟩⟩⟩

theorem exists_findOptions_withoutColumns (h : findOptions s = .ok options) :
    ∃ options₀, findOptions s.withoutColumns = .ok options₀ := by
  obtain ⟨given, _, own, hgiven, hsort, hown, -⟩ := exists_parts_of_findOptions h
  have hprojected₀ : findProjection s.withoutColumns = .ok (Entries.update [] given) :=
    bind_eq_ok_iff.mpr ⟨[], rfl, bind_eq_ok_iff.mpr ⟨given, hgiven, rfl⟩⟩
  exact ⟨_, bind_eq_ok_iff.mpr ⟨_, hprojected₀, bind_eq_ok_iff.mpr ⟨_, hsort,
    bind_eq_ok_iff.mpr ⟨own, hown, rfl⟩⟩⟩⟩

theorem exists_plan_withoutColumns (hs : s.TextColumns) (h : plan s filter = .ok p) :
    ∃ p₀, plan s.withoutColumns filter = .ok p₀ := by
  rcases plan_cases h with ⟨stages, options, hneeds, hstages, hoptions, -⟩ |
    ⟨hneeds, hdistinct, -⟩ | ⟨options, hneeds, hdistinct, hoptions, -⟩
  · obtain ⟨stages₀, hstages₀⟩ := exists_pipeline_withoutColumns hs hstages
    exact ⟨_, (plan_aggregate_iff (s := s.withoutColumns) hneeds).mpr
      ⟨stages₀, options, hstages₀, hoptions, rfl⟩⟩
  · exact ⟨_, (plan_distinct_iff (s := s.withoutColumns) hneeds hdistinct).mpr rfl⟩
  · obtain ⟨options₀, hoptions₀⟩ := exists_findOptions_withoutColumns hoptions
    exact ⟨_, (plan_find_iff (s := s.withoutColumns) hneeds hdistinct).mpr
      ⟨options₀, hoptions₀, rfl⟩⟩

theorem hasKey_fetchFields (s : Shape) (given : Entries) (k : Value) :
    hasKey (s.fetchFields given) k =
      (hasKey given k || s.selectedColumns.any (·.sameKey k)) := by
  rw [Shape.fetchFields, hasKey_update, ofKeys, ofList, hasKey_update, hasKey_map_const]
  simp [hasKey]

theorem hasKey_pipelineFields (s : Shape) (given : Entries) (k : Value) :
    hasKey (s.pipelineFields given) k = (s.pageColumns.any (·.sameKey k) || hasKey given k) := by
  rw [Shape.pipelineFields, hasKey_update, hasKey_map_const]

/-- What a grouping has under a name, it has without columns or for a column. -/
theorem get?_columnFields_cases (hk : get? (columnFields s) k = some v) :
    get? (columnFields s.withoutColumns) k = some v ∨ s.groups ≠ [] ∧
      ∃ c ∈ texts s.selectedColumns, (Value.text (Path.flatten c)).sameKey k = true ∧
        v = lastOf (referenceTo c) := by
  by_cases hgroups : s.groups = []
  · rw [columnFields, if_pos hgroups] at hk
    exact nomatch hk
  · have hgroups₀ : s.withoutColumns.groups ≠ [] := hgroups
    rw [columnFields, if_neg hgroups, get?_update_eq_last?] at hk
    cases hlast : last? (outputs (texts s.selectedColumns)) k with
    | none =>
      rw [hlast] at hk
      rw [columnFields, if_neg hgroups₀]
      exact .inl hk
    | some w =>
      rw [hlast] at hk
      obtain rfl : w = v := Option.some.inj hk
      obtain ⟨e, he, hkey, rfl⟩ := exists_of_last?_eq_some hlast
      obtain ⟨c, hc, rfl⟩ := List.mem_map.mp he
      exact .inr ⟨hgroups, c, hc, hkey, rfl⟩

theorem get?_groupFields_cases (hs : s.TextColumns) (hk : get? (groupFields s) k = some v) :
    get? (groupFields s.withoutColumns) k = some v ∨ s.groups ≠ [] ∧
      ∃ c ∈ texts s.selectedColumns, (Value.text (Path.flatten c)).sameKey k = true ∧
        v = lastOf (referenceTo c) := by
  by_cases hgroups : s.groups = []
  · have hgroups₀ : s.withoutColumns.groups = [] := hgroups
    rw [groupFields, columnFields, if_pos hgroups] at hk
    rw [groupFields, columnFields, if_pos hgroups₀]
    exact .inl hk
  · have hgroups₀ : s.withoutColumns.groups ≠ [] := hgroups
    have hagg₀ : s.withoutColumns.aggregate = s.aggregate := rfl
    rw [Grouping.groupFields_eq hs hgroups] at hk
    rw [Grouping.groupFields_eq hs.withoutColumns hgroups₀, hagg₀]
    cases hagg : s.aggregate with
    | none =>
      rw [hagg] at hk
      exact get?_columnFields_cases hk
    | some a =>
      rw [hagg] at hk
      dsimp only at hk ⊢
      rw [get?_insert] at hk ⊢
      by_cases hkey : aggregateKey.sameKey k = true
      · rw [if_pos hkey] at hk ⊢
        exact .inl hk
      · rw [if_neg hkey] at hk ⊢
        exact get?_columnFields_cases hk

theorem hasKey_groupFields_flatten (hs : s.TextColumns) (hgroups : s.groups ≠ [])
    (hc : c ∈ texts s.selectedColumns) :
    hasKey (groupFields s) (.text (Path.flatten c)) = true := by
  have hcolumn : hasKey (columnFields s) (.text (Path.flatten c)) = true := by
    rw [columnFields, if_neg hgroups, hasKey_update, Bool.or_eq_true]
    exact .inl (List.any_eq_true.mpr ⟨_, List.mem_map_of_mem hc, by rw [Value.sameKey_text]; simp⟩)
  rw [Grouping.groupFields_eq hs hgroups]
  cases s.aggregate with
  | none => exact hcolumn
  | some a => rw [hasKey_insert, hcolumn, Bool.or_true]

theorem allText_pageColumns (hs : s.TextColumns) : AllText s.pageColumns := by
  unfold Shape.pageColumns
  split
  · exact Grouping.allText_selectedColumns hs.columns
  · exact allText_map []

theorem plannedColumns_of_page (hneeds : s.needsAggregation = true) (hgroups : s.groups = []) :
    s.plannedColumns = texts s.pageColumns := by
  rw [Shape.plannedColumns, if_pos hneeds, if_pos hgroups]

theorem plannedColumns_of_groups (hgroups : s.groups ≠ []) :
    s.plannedColumns = texts s.selectedColumns := by
  have hneeds : s.needsAggregation = true := by simp [Shape.needsAggregation, hgroups]
  rw [Shape.plannedColumns, if_pos hneeds, if_neg hgroups]

theorem plannedColumns_of_distinct (hneeds : s.needsAggregation = false)
    (hdistinct : s.distinct.truthy = true) :
    s.plannedColumns = texts (s.selectedColumns.take 1) := by
  rw [Shape.plannedColumns, if_neg (by simp [hneeds]), if_pos hdistinct]

theorem mem_plannedColumns_iff_of_find (hneeds : s.needsAggregation = false)
    (hdistinct : s.distinct.truthy = false) (hown : s.options.toEntries = .ok own) :
    c ∈ s.plannedColumns ↔ get? own (.text "projection") = none ∧ c ∈ texts s.selectedColumns := by
  rw [Shape.plannedColumns, if_neg (by simp [hneeds]), if_neg (by simp [hdistinct]),
    Shape.ownProjection_eq hown]
  cases get? own (.text "projection") <;> simp [texts]

theorem mem_plannedColumns_of_page (hneeds : s.needsAggregation = true)
    (hc : c ∈ texts s.pageColumns) : c ∈ s.plannedColumns := by
  by_cases hgroups : s.groups = []
  · rwa [plannedColumns_of_page hneeds hgroups]
  · rw [plannedColumns_of_groups hgroups]
    unfold Shape.pageColumns at hc
    split at hc
    · exact hc
    · exact nomatch hc

/-! ### Names that columns bring -/

theorem hasName_aggregate_cases (hs : s.TextColumns) (hneeds : s.needsAggregation = true)
    (h : pipeline s filter = .ok stages) (h₀ : pipeline s.withoutColumns filter = .ok stages₀)
    (hname : Plan.HasName name (.aggregate stages options)) :
    Plan.HasName name (.aggregate stages₀ own) ∨
      ∃ c ∈ s.plannedColumns, name = c ∨ name = Path.flatten c := by
  cases hname with
  | projected hes hk =>
    obtain ⟨_, given, _, _, -, hgiven, -, -, -⟩ := exists_parts_of_pipeline h
    obtain ⟨-, rfl⟩ := (mem_project_iff_of_pipeline h hgiven _).mp hes
    rw [hasKey_pipelineFields, Bool.or_eq_true] at hk
    rcases hk with hpage | hgivenKey
    · exact .inr ⟨name, mem_plannedColumns_of_page hneeds
        ((any_sameKey_iff_mem_texts (allText_pageColumns hs)).mp hpage), .inl rfl⟩
    · have hk₀ : hasKey (s.withoutColumns.pipelineFields given) (.text name) = true := by
        rw [hasKey_pipelineFields, hgivenKey, Bool.or_true]
      have hes₀ := (mem_project_iff_of_pipeline h₀ hgiven _).mpr ⟨ne_nil_of_hasKey hk₀, rfl⟩
      exact .inl (.projected (p := .aggregate stages₀ own) hes₀ hk₀)
  | output hes hk =>
    obtain ⟨-, rfl⟩ := (mem_group_iff_groupFields hs h _).mp hes
    rw [hasKey_eq_isSome, Option.isSome_iff_exists] at hk
    obtain ⟨v, hv⟩ := hk
    rcases get?_groupFields_cases hs hv with hv₀ | ⟨hgroups, c, hc, hkey, -⟩
    · have hes₀ := (mem_group_iff_groupFields hs.withoutColumns h₀ _).mpr ⟨ne_nil_of_get? hv₀, rfl⟩
      exact .inl (.output hes₀ (by rw [hasKey_eq_isSome, hv₀]; rfl))
    · have hflat : Path.flatten c = name := by simpa using hkey
      exact .inr ⟨c, plannedColumns_of_groups hgroups ▸ hc, .inr hflat.symm⟩
  | path hes hk =>
    obtain ⟨-, rfl⟩ := (mem_group_iff_groupFields hs h _).mp hes
    rcases get?_groupFields_cases hs hk with hk₀ | ⟨hgroups, c, hc, -, hlast⟩
    · have hes₀ := (mem_group_iff_groupFields hs.withoutColumns h₀ _).mpr ⟨ne_nil_of_get? hk₀, rfl⟩
      exact .inl (.path hes₀ hk₀)
    · exact .inr ⟨c, plannedColumns_of_groups hgroups ▸ hc, .inl (Grouping.lastOf_inj.mp hlast)⟩

theorem hasName_find_cases (hs : s.TextColumns) (hneeds : s.needsAggregation = false)
    (hdistinct : s.distinct.truthy = false) {options₀ : Entries}
    (h : findOptions s = .ok options) (h₀ : findOptions s.withoutColumns = .ok options₀)
    (hname : Plan.HasName name (.find filter options)) :
    Plan.HasName name (.find filter options₀) ∨
      ∃ c ∈ s.plannedColumns, name = c ∨ name = Path.flatten c := by
  obtain ⟨given, own, hgiven, hown⟩ := exists_entries_of_findOptions h
  have hget := get?_projection_of_findOptions h hgiven hown
  have hget₀ := get?_projection_of_findOptions h₀ (s := s.withoutColumns) hgiven hown
  cases hname with
  | projected hes hk =>
    have hes : get? options (.text "projection") = some (.map _) := hes
    rw [hget] at hes
    cases hproj : get? own (.text "projection") with
    | some v =>
      rw [hproj] at hes hget₀
      exact .inl (.projected (p := .find filter options₀) (hget₀.trans hes) hk)
    | none =>
      rw [hproj, Option.none_or] at hes hget₀
      split at hes
      · exact nomatch hes
      obtain rfl := Value.map.inj (Option.some.inj hes)
      rw [hasKey_fetchFields, Bool.or_eq_true] at hk
      rcases hk with hgivenKey | hcolumn
      · have hk₀ : hasKey (s.withoutColumns.fetchFields given) (.text name) = true := by
          rw [hasKey_fetchFields, hgivenKey, Bool.true_or]
        rw [if_neg (ne_nil_of_hasKey hk₀)] at hget₀
        exact .inl (.projected (p := .find filter options₀) hget₀ hk₀)
      · have hname := (any_sameKey_iff_mem_texts
          (Grouping.allText_selectedColumns hs.columns)).mp hcolumn
        exact .inr ⟨name, (mem_plannedColumns_iff_of_find hneeds hdistinct hown).mpr
          ⟨hproj, hname⟩, .inl rfl⟩

theorem hasName_distinct_cases (hneeds : s.needsAggregation = false)
    (hdistinct : s.distinct.truthy = true) {kept kept₀ : Value}
    (hname : Plan.HasName name (.distinct (distinctKey s) kept)) :
    Plan.HasName name (.distinct (distinctKey s.withoutColumns) kept₀) ∨
      ∃ c ∈ s.plannedColumns, name = c ∨ name = Path.flatten c := by
  have hkey : distinctKey s = .text name := by
    generalize hp : Plan.distinct (distinctKey s) kept = p at hname
    cases hname with
    | projected hes => subst hp; exact hes.elim
    | distinct => exact (Plan.distinct.inj hp).1
    | output | path => exact nomatch hp
  unfold distinctKey at hkey
  cases hcolumns : s.selectedColumns with
  | nil =>
    rw [hcolumns] at hkey
    have hid : distinctKey s.withoutColumns = .text name := hkey
    exact .inl (hid ▸ .distinct)
  | cons c columns =>
    rw [hcolumns] at hkey
    refine .inr ⟨name, ?_, .inl rfl⟩
    rw [plannedColumns_of_distinct hneeds hdistinct, hcolumns, show c = .text name from hkey]
    exact List.mem_singleton_self _

/-- What a plan names, it names without columns, or for a column that it takes up. -/
theorem hasName_cases (hs : s.TextColumns) (h : plan s filter = .ok p)
    (h₀ : plan s.withoutColumns filter = .ok p₀) (hname : p.HasName name) :
    p₀.HasName name ∨ ∃ c ∈ s.plannedColumns, name = c ∨ name = Path.flatten c := by
  rcases plan_cases h with ⟨stages, options, hneeds, hstages, -, rfl⟩ |
    ⟨hneeds, hdistinct, rfl⟩ | ⟨options, hneeds, hdistinct, hoptions, rfl⟩
  · obtain ⟨stages₀, options₀, hstages₀, -, rfl⟩ :=
      (plan_aggregate_iff (s := s.withoutColumns) hneeds).mp h₀
    exact hasName_aggregate_cases hs hneeds hstages hstages₀ hname
  · obtain rfl := (plan_distinct_iff (s := s.withoutColumns) hneeds hdistinct).mp h₀
    exact hasName_distinct_cases hneeds hdistinct hname
  · obtain ⟨options₀, hoptions₀, rfl⟩ :=
      (plan_find_iff (s := s.withoutColumns) hneeds hdistinct).mp h₀
    exact hasName_find_cases hs hneeds hdistinct hoptions hoptions₀ hname

theorem hasName_aggregate_of_mem (hs : s.TextColumns) (hneeds : s.needsAggregation = true)
    (h : pipeline s filter = .ok stages) (hc : c ∈ s.plannedColumns) :
    Plan.HasName c (.aggregate stages options) ∨
      Plan.HasName (Path.flatten c) (.aggregate stages options) := by
  by_cases hgroups : s.groups = []
  · rw [plannedColumns_of_page hneeds hgroups] at hc
    obtain ⟨_, given, _, _, -, hgiven, -, -, -⟩ := exists_parts_of_pipeline h
    have hk : hasKey (s.pipelineFields given) (.text c) = true := by
      rw [hasKey_pipelineFields, (any_sameKey_iff_mem_texts (allText_pageColumns hs)).mpr hc,
        Bool.true_or]
    exact .inl (.projected (p := .aggregate stages options)
      ((mem_project_iff_of_pipeline h hgiven _).mpr ⟨ne_nil_of_hasKey hk, rfl⟩) hk)
  · rw [plannedColumns_of_groups hgroups] at hc
    have hk := hasKey_groupFields_flatten hs hgroups hc
    exact .inr (.output ((mem_group_iff_groupFields hs h _).mpr ⟨ne_nil_of_hasKey hk, rfl⟩) hk)

theorem hasName_distinct_of_mem (hs : s.TextColumns) (hneeds : s.needsAggregation = false)
    (hdistinct : s.distinct.truthy = true) {kept : Value} (hc : c ∈ s.plannedColumns) :
    Plan.HasName c (.distinct (distinctKey s) kept) := by
  have hselected := Grouping.allText_selectedColumns hs.columns
  rw [plannedColumns_of_distinct hneeds hdistinct] at hc
  cases hcolumns : s.selectedColumns with
  | nil =>
    rw [hcolumns] at hc
    exact nomatch hc
  | cons d columns =>
    rw [hcolumns] at hc hselected
    obtain ⟨t, rfl⟩ := hselected d (by simp)
    obtain rfl := List.mem_singleton.mp hc
    have hkey : distinctKey s = .text c := by
      rw [distinctKey, hcolumns]
      rfl
    exact hkey ▸ .distinct

theorem hasName_find_of_mem (hs : s.TextColumns) (hneeds : s.needsAggregation = false)
    (hdistinct : s.distinct.truthy = false) (h : findOptions s = .ok options)
    (hc : c ∈ s.plannedColumns) : Plan.HasName c (.find filter options) := by
  obtain ⟨given, own, hgiven, hown⟩ := exists_entries_of_findOptions h
  obtain ⟨hnone, hc⟩ := (mem_plannedColumns_iff_of_find hneeds hdistinct hown).mp hc
  have hselected := Grouping.allText_selectedColumns hs.columns
  have hget := get?_projection_of_findOptions h hgiven hown
  have hk : hasKey (s.fetchFields given) (.text c) = true := by
    rw [hasKey_fetchFields, (any_sameKey_iff_mem_texts hselected).mpr hc, Bool.or_true]
  rw [hnone, Option.none_or, if_neg (ne_nil_of_hasKey hk)] at hget
  exact .projected (p := .find filter options) hget hk

/-- A plan names every column that it takes up, by itself or by its output field. -/
theorem hasName_of_mem_plannedColumns (hs : s.TextColumns) (h : plan s filter = .ok p)
    (hc : c ∈ s.plannedColumns) : p.HasName c ∨ p.HasName (Path.flatten c) := by
  rcases plan_cases h with ⟨stages, options, hneeds, hstages, -, rfl⟩ |
    ⟨hneeds, hdistinct, rfl⟩ | ⟨options, hneeds, hdistinct, hoptions, rfl⟩
  · exact hasName_aggregate_of_mem hs hneeds hstages hc
  · exact .inl (hasName_distinct_of_mem hs hneeds hdistinct hc)
  · exact .inl (hasName_find_of_mem hs hneeds hdistinct hoptions hc)

/-! ### Stars -/

theorem star_mem_flatten_iff :
    CodePoint.char '*' ∈ Path.flatten c ↔ CodePoint.char '*' ∈ c := by
  unfold Path.flatten
  rw [List.mem_map]
  constructor
  · rintro ⟨d, hd, hstar⟩
    split at hstar
    · exact absurd hstar (by decide)
    · exact hstar ▸ hd
  · exact fun h => ⟨_, h, rfl⟩

theorem plannedColumns_of_everyColumn (hs : s.TextColumns) (h : Shape.everyColumn ∈ s.columns) :
    s.plannedColumns = [] := by
  have hselected := (selectedColumns_eq_nil_iff hs.columns).mpr (.inr h)
  have hpage : s.pageColumns = [] := by rw [Shape.pageColumns, hselected, ite_self]
  unfold Shape.plannedColumns
  rw [hselected, hpage]
  simp [texts]

/-- A star comes to a name of a plan for a selected column only by a column that the plan takes up
and that has the star, and by each such column. No column is taken up where every field is
selected. -/
theorem wildcard_names (hs : s.TextColumns) (h : plan s filter = .ok p) :
    ∃ p₀, plan s.withoutColumns filter = .ok p₀ ∧
      (∀ name, p.HasName name → CodePoint.char '*' ∈ name → p₀.HasName name ∨
        ∃ c ∈ s.plannedColumns, CodePoint.char '*' ∈ c ∧ (name = c ∨ name = Path.flatten c)) ∧
      (∀ c ∈ s.plannedColumns, CodePoint.char '*' ∈ c →
        ∃ name, p.HasName name ∧ CodePoint.char '*' ∈ name ∧
        (name = c ∨ name = Path.flatten c)) ∧
      (Shape.everyColumn ∈ s.columns → s.plannedColumns = []) := by
  obtain ⟨p₀, hp₀⟩ := exists_plan_withoutColumns hs h
  refine ⟨p₀, hp₀, fun name hname hstar => ?_, fun c hc hstar => ?_,
    plannedColumns_of_everyColumn hs⟩
  · refine (hasName_cases hs h hp₀ hname).imp_right ?_
    rintro ⟨c, hc, rfl | rfl⟩
    · exact ⟨_, hc, hstar, .inl rfl⟩
    · exact ⟨c, hc, star_mem_flatten_iff.mp hstar, .inr rfl⟩
  · rcases hasName_of_mem_plannedColumns hs h hc with hname | hname
    · exact ⟨c, hname, hstar, .inl rfl⟩
    · exact ⟨_, hname, star_mem_flatten_iff.mpr hstar, .inr rfl⟩

/-- A grouping takes up a column with an array marker, and its plan has the star. -/
theorem wildcard_names_array_marker :
    let s : Shape := {
      columns := [.text "address.city", .text "items.*.price"]
      groups := [.text "category"] }
    s.TextColumns ∧ ∃ p, plan s (.map []) = .ok p ∧
      ∃ name, p.HasName name ∧ CodePoint.char '*' ∈ name ∧
      (name = "items.*.price" ∨ name = Path.flatten "items.*.price") := by
  intro s
  have hs : s.TextColumns :=
    ⟨allText_map ["address.city", "items.*.price"], allText_map ["category"], nofun⟩
  have hplan : plan s (.map []) = .ok _ := rfl
  obtain ⟨_, -, -, hstar, -⟩ := wildcard_names hs hplan
  exact ⟨hs, _, hplan, hstar "items.*.price" (by decide) (by decide)⟩

/-- A column with an array marker brings its star to a grouping as a path and as an output field,
which the grouping without the column does not have. -/
theorem exists_wildcard_names :
    let s : Shape := { columns := [.text "items.*.price"], groups := [.text "category"] }
    ∃ p p₀, plan s (.map []) = .ok p ∧ plan s.withoutColumns (.map []) = .ok p₀ ∧
      (p.HasName "items_*_price" ∧ ¬ p₀.HasName "items_*_price") ∧
      (p.HasName "items.*.price" ∧ ¬ p₀.HasName "items.*.price") := by
  intro s
  let identity : Value × Value :=
    (.text "_id", .map [(.text "category", .text "$category")])
  let category : Value × Value := (.text "category", lastOf (referenceTo "category"))
  let price : Value × Value := (.text "items_*_price", lastOf (referenceTo "items.*.price"))
  have hnames : ∀ name, Plan.HasName name (.aggregate [.group [identity, category]] []) →
      name = "_id" ∨ name = "category" := by
    intro name hname
    cases hname with
    | projected hes => exact nomatch List.mem_singleton.mp hes
    | output hes hk =>
      obtain rfl := Stage.group.inj (List.mem_singleton.mp hes)
      have hk : "_id" = name ∨ "category" = name := by
        simpa [identity, category, hasKey] using hk
      exact hk.imp Eq.symm Eq.symm
    | path hes hk =>
      obtain rfl := Stage.group.inj (List.mem_singleton.mp hes)
      obtain ⟨e, he, hlast⟩ := exists_mem_of_get? hk
      rcases List.mem_cons.mp he with rfl | he
      · simp [identity, lastOf, Entries.single] at hlast
      · obtain rfl := List.mem_singleton.mp he
        exact .inr (Grouping.lastOf_inj.mp hlast).symm
  refine ⟨.aggregate [.group [identity, category, price]] [],
    .aggregate [.group [identity, category]] [], rfl, rfl, ⟨?_, ?_⟩, ?_, ?_⟩
  · exact .output (List.mem_singleton_self _) (by decide)
  · exact fun hname => absurd (hnames _ hname) (by decide)
  · exact .path (k := .text "items_*_price") (List.mem_singleton_self _) rfl
  · exact fun hname => absurd (hnames _ hname) (by decide)

end DocQuery
